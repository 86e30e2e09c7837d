import Blackgeorge.WorkerRunner.Streams
import Mathlib.Data.List.Forall2
import Mathlib.Logic.Function.Basic

/-! The calls of a message in the deltas of a stream. However the deltas of the calls are cut
and mixed, each finds the entry of its call again by its index, and the entries end up with
what the message has. -/

namespace Blackgeorge.WorkerRunner

open Data

/-! ### Calls and their deltas -/

/-- A call of a message and the index that its deltas carry. -/
structure StreamedCall where
  index : ℤ
  id : Option String
  name : String
  arguments : String

/-- The call in the message. -/
def StreamedCall.raw (call : StreamedCall) : RawToolCall where
  id := call.id
  name := some call.name
  arguments := .text call.arguments

/-- No index and no id is given twice, and no id is empty. -/
structure Distinct (calls : List StreamedCall) : Prop where
  apart : calls.Pairwise fun c d => c.index ≠ d.index ∧ (c.id = none ∨ c.id ≠ d.id)
  id_ne : ∀ c ∈ calls, c.id ≠ some ""

theorem Distinct.eq_of_index {calls : List StreamedCall} (h : Distinct calls) {i j : ℕ}
    {c d : StreamedCall} (hc : calls[i]? = some c) (hd : calls[j]? = some d)
    (heq : c.index = d.index) : i = j := by
  obtain ⟨hi, rfl⟩ := List.getElem?_eq_some_iff.mp hc
  obtain ⟨hj, rfl⟩ := List.getElem?_eq_some_iff.mp hd
  rcases lt_trichotomy i j with hlt | hij | hlt
  · exact absurd heq (List.pairwise_iff_getElem.mp h.apart i j hi hj hlt).1
  · exact hij
  · exact absurd heq.symm (List.pairwise_iff_getElem.mp h.apart j i hj hi hlt).1

theorem Distinct.eq_of_id {calls : List StreamedCall} (h : Distinct calls) {i j : ℕ}
    {c d : StreamedCall} {s : String} (hc : calls[i]? = some c) (hd : calls[j]? = some d)
    (hcs : c.id = some s) (hds : d.id = some s) : i = j := by
  obtain ⟨hi, rfl⟩ := List.getElem?_eq_some_iff.mp hc
  obtain ⟨hj, rfl⟩ := List.getElem?_eq_some_iff.mp hd
  rcases lt_trichotomy i j with hlt | hij | hlt
  · have hapart := (List.pairwise_iff_getElem.mp h.apart i j hi hj hlt).2
    simp [hcs, hds] at hapart
  · exact hij
  · have hapart := (List.pairwise_iff_getElem.mp h.apart j i hj hi hlt).2
    simp [hcs, hds] at hapart

/-- A delta that belongs to a call. -/
structure Belongs (call : StreamedCall) (delta : RawToolCall) : Prop where
  index : delta.index = some call.index
  id : delta.id.filter (· ≠ "") = none ∨ delta.id = call.id

/-! ### Keys -/

theorem foldl_update (keys : List Key) (keyed : Key → Option ℕ) (j : ℕ) (key : Key) :
    keys.foldl (fun keyed key => Function.update keyed key (some j)) keyed key =
      if key ∈ keys then some j else keyed key := by
  induction keys generalizing keyed with
  | nil => simp
  | cons k keys ih =>
    rw [List.foldl_cons, ih]
    by_cases hk : key = k
    · subst hk
      simp
    · simp [hk]

theorem claimKeys_of_mem {keyed : Key → Option ℕ} {keys : List Key} {position j : ℕ} {key : Key}
    (h : key ∈ keys) (hp : key ≠ .position position) : claimKeys keyed keys position j key = some j := by
  unfold claimKeys
  split_ifs
  · rw [Function.update_of_ne hp, foldl_update, if_pos h]
  · rw [foldl_update, if_pos h]

theorem claimKeys_of_not_mem {keyed : Key → Option ℕ} {keys : List Key} {position j : ℕ} {key : Key}
    (h : key ∉ keys) (hp : key ≠ .position position) :
    claimKeys keyed keys position j key = keyed key := by
  unfold claimKeys
  split_ifs
  · rw [Function.update_of_ne hp, foldl_update, if_neg h]
  · rw [foldl_update, if_neg h]

/-- Where a key leads after a claim. -/
theorem claimKeys_some {keyed : Key → Option ℕ} {keys : List Key} {position j i : ℕ} {key : Key}
    (h : claimKeys keyed keys position j key = some i) :
    keyed key = some i ∨ i = j ∧ (key ∈ keys ∨ key = .position position) := by
  by_cases hp : key = .position position
  · unfold claimKeys at h
    split_ifs at h
    · rw [hp, Function.update_self] at h
      exact .inr ⟨(Option.some.inj h).symm, .inr hp⟩
    · rw [foldl_update] at h
      split_ifs at h with hmem
      · exact .inr ⟨(Option.some.inj h).symm, .inl hmem⟩
      · exact .inl h
  · by_cases hmem : key ∈ keys
    · rw [claimKeys_of_mem hmem hp] at h
      exact .inr ⟨(Option.some.inj h).symm, .inl hmem⟩
    · rw [claimKeys_of_not_mem hmem hp] at h
      exact .inl h

/-- The keys of a delta are its call's index and, where it has one, its call's id. -/
theorem Belongs.stableKeys {call : StreamedCall} {delta : RawToolCall} (h : Belongs call delta) :
    ∃ rest, stableKeys delta = .index call.index :: rest ∧
      ∀ key ∈ rest, ∃ s, key = .id s ∧ call.id = some s := by
  refine ⟨((delta.id.filter (· ≠ "")).map Key.id).toList, ?_, ?_⟩
  · unfold WorkerRunner.stableKeys
    rw [h.index]
    rfl
  · intro key hkey
    obtain ⟨s, hs, rfl⟩ : ∃ s, delta.id.filter (· ≠ "") = some s ∧ Key.id s = key := by
      simpa [Option.mem_toList, Option.map_eq_some_iff] using hkey
    refine ⟨s, rfl, ?_⟩
    rcases h.id with hnone | hid
    · rw [hnone] at hs
      cases hs
    · rw [← hid]
      exact (Option.filter_eq_some_iff.mp hs).1

/-! ### The entries of the calls -/

/-- What a key may lead to. -/
def Key.LeadsTo (call : StreamedCall) : Key → Prop
  | index i => call.index = i
  | id s => call.id = some s
  | position _ => True

/-- The entries belong to the first calls, in order; each can be found by its index, and a
key of a call leads to no other's entry. -/
structure Tracks (calls : List StreamedCall) (entry : ℕ → StreamedCall → ToolState → Prop)
    (s : StreamState) : Prop where
  entries : ∀ j st, s.states[j]? = some st → ∃ call, calls[j]? = some call ∧ entry j call st ∧
    Key.index call.index ∈ st.stableKeys
  found : ∀ j call, j < s.states.length → calls[j]? = some call →
    s.keyed (.index call.index) = some j
  keyed : ∀ key j, s.keyed key = some j → j < s.states.length ∧
    ∃ call, calls[j]? = some call ∧ key.LeadsTo call

/-- An index that the entry at this position does not have keeps a delta away from it. -/
theorem canReusePosition_false {loads : String → Except Exn Value} {known : List String}
    {state : ToolState} {keys : List Key} {i k : ℤ} (hstate : Key.index i ∈ state.stableKeys)
    (hkeys : Key.index k ∈ keys) (hne : i ≠ k) (position : ℕ) (name : String)
    (arguments : RawArguments) (fromMessage : Bool) :
    canReusePosition loads known state keys position name arguments fromMessage = .ok false := by
  have hconflict : (state.stableKeys.any fun existing => keys.any existing.conflicts) = true := by
    rw [List.any_eq_true]
    refine ⟨_, hstate, ?_⟩
    rw [List.any_eq_true]
    exact ⟨_, hkeys, by simpa [Key.conflicts] using hne⟩
  unfold canReusePosition
  rw [if_pos hconflict]
  rfl

variable {loads : String → Except Exn Value} {known : List String} {calls : List StreamedCall}
  {entry entry' : ℕ → StreamedCall → ToolState → Prop} {s : StreamState}

/-- A delta finds the entry of its call, if there is one, and no other. -/
theorem Tracks.findState (h : Tracks calls entry s) (hd : Distinct calls) {j : ℕ}
    {call : StreamedCall} {delta : RawToolCall} (hcall : calls[j]? = some call)
    (hdelta : Belongs call delta) (hj : j ≤ s.states.length) (position : ℕ) (fromMessage : Bool) :
    findState loads known s position delta fromMessage =
      .ok (if j < s.states.length then some j else none) := by
  obtain ⟨rest, hkeys, hrest⟩ := hdelta.stableKeys
  unfold WorkerRunner.findState
  rw [hkeys]
  by_cases hlt : j < s.states.length
  · rw [if_pos hlt, List.findSome?_cons, h.found j call hlt hcall]
    rfl
  · rw [if_neg hlt]
    -- whatever a key of the call led to would be an entry of the call itself
    have hnone : ∀ key, (∃ s, key = Key.id s ∧ call.id = some s) ∨ key = .index call.index →
        s.keyed key = none := by
      intro key hkey
      cases hfound : s.keyed key with
      | none => rfl
      | some i =>
        obtain ⟨hi, call', hcall', hleads⟩ := h.keyed key i hfound
        have hij : i = j := by
          rcases hkey with ⟨x, rfl, hid⟩ | rfl
          · exact hd.eq_of_id hcall' hcall hleads hid
          · exact hd.eq_of_index hcall' hcall hleads
        omega
    have hsome : (Key.index call.index :: rest).findSome? s.keyed = none := by
      rw [List.findSome?_eq_none_iff]
      intro key hkey
      rcases List.mem_cons.mp hkey with rfl | hkey
      · exact hnone _ (.inr rfl)
      · exact hnone _ (.inl (hrest key hkey))
    rw [hsome]
    dsimp only
    cases hposition : s.keyed (.position position) with
    | none => rfl
    | some i =>
      obtain ⟨hi, -⟩ := h.keyed _ i hposition
      have hst : s.states[i]? = some (s.states.getD i {}) := by
        rw [List.getD_eq_getElem?_getD, List.getElem?_eq_getElem hi, Option.getD_some]
      obtain ⟨call', hcall', -, hindex⟩ := h.entries i _ hst
      have hne : call'.index ≠ call.index := fun heq => by
        have := hd.eq_of_index hcall' hcall heq
        omega
      dsimp only
      rw [canReusePosition_false hindex (List.mem_cons_self) hne]
      rfl

/-- The entries after one of them, old or new, has changed. -/
def setEntry (states : List ToolState) (j : ℕ) (state : ToolState) : List ToolState :=
  (if j < states.length then states else states ++ [({} : ToolState)]).set j state

theorem length_setEntry {states : List ToolState} {j : ℕ} (hj : j ≤ states.length)
    (state : ToolState) : (setEntry states j state).length = max states.length (j + 1) := by
  unfold setEntry
  rw [List.length_set]
  split_ifs with hlt
  · omega
  · rw [List.length_append, List.length_singleton]
    omega

theorem getElem?_setEntry_self {states : List ToolState} {j : ℕ} (hj : j ≤ states.length)
    (state : ToolState) : (setEntry states j state)[j]? = some state := by
  have hlt : j < (setEntry states j state).length := by
    rw [length_setEntry hj]
    omega
  unfold setEntry at hlt ⊢
  rw [List.length_set] at hlt
  exact List.getElem?_set_self hlt

theorem getElem?_setEntry_of_ne {states : List ToolState} {i j : ℕ} (hj : j ≤ states.length)
    (hne : i ≠ j) (state : ToolState) : (setEntry states j state)[i]? = states[i]? := by
  unfold setEntry
  rw [List.getElem?_set_ne (Ne.symm hne)]
  split_ifs with hlt
  · rfl
  · by_cases hi : i < states.length
    · rw [List.getElem?_append_left hi]
    · rw [List.getElem?_eq_none (by simp; omega), List.getElem?_eq_none (by omega)]

theorem absorb_stableKeys {delta : RawToolCall} {fromMessage : Bool} {state : ToolState}
    {r : ToolState × List (String × String)} (h : absorb delta fromMessage state = .ok r) :
    r.1.stableKeys = state.stableKeys ++ stableKeys delta := by
  unfold absorb mergeArguments at h
  split at h
  · cases h
    rfl
  · split_ifs at h <;> cases h <;> rfl
  · split at h <;> cases h
    rfl
  · cases h
    rfl

/-- One delta: its call's entry takes it up, and the others stay. -/
theorem Tracks.processDelta (h : Tracks calls entry s) (hd : Distinct calls) {j : ℕ}
    {call : StreamedCall} {delta : RawToolCall} (hcall : calls[j]? = some call)
    (hdelta : Belongs call delta) (hj : j ≤ s.states.length) (position : ℕ) (fromMessage : Bool)
    (habsorb : ∃ r, absorb delta fromMessage (s.states.getD j {}) = .ok r ∧ entry' j call r.1)
    (hkeep : ∀ i call st, i ≠ j → i < s.states.length → entry i call st → entry' i call st) :
    ∃ s', processDelta loads known fromMessage position delta s = .ok s' ∧
      Tracks calls entry' s' ∧ s'.states.length = max s.states.length (j + 1) := by
  obtain ⟨⟨st', tokens⟩, hst', hentry'⟩ := habsorb
  obtain ⟨rest, hkeys, hrest⟩ := hdelta.stableKeys
  have hfound := @Tracks.findState loads known _ _ _ h hd _ _ _ hcall hdelta hj position fromMessage
  have heq : WorkerRunner.processDelta loads known fromMessage position delta s = .ok { s with
      states := setEntry s.states j st'
      keyed := claimKeys s.keyed (stableKeys delta) position j
      tokens := s.tokens ++ tokens } := by
    unfold WorkerRunner.processDelta setEntry
    rw [hfound]
    by_cases hlt : j < s.states.length
    · rw [if_pos hlt, if_pos hlt]
      change (absorb delta fromMessage (s.states.getD j {}) >>= _) = _
      rw [hst']
      rfl
    · obtain rfl : j = s.states.length := by omega
      have hnew : (s.states ++ [({} : ToolState)]).getD s.states.length {} =
          s.states.getD s.states.length {} := by simp
      rw [if_neg hlt, if_neg hlt]
      change (absorb delta fromMessage
        ((s.states ++ [({} : ToolState)]).getD s.states.length {}) >>= _) = _
      rw [hnew, hst']
      rfl
  refine ⟨_, heq, ⟨?_, ?_, ?_⟩, length_setEntry hj st'⟩
  · intro i st hst
    dsimp only at hst
    by_cases hij : i = j
    · subst hij
      rw [getElem?_setEntry_self hj] at hst
      obtain rfl := Option.some.inj hst
      refine ⟨call, hcall, hentry', ?_⟩
      rw [show st'.stableKeys = _ from absorb_stableKeys hst', hkeys]
      simp
    · rw [getElem?_setEntry_of_ne hj hij] at hst
      obtain ⟨call', hcall', hentry, hindex⟩ := h.entries i st hst
      have hi : i < s.states.length := (List.getElem?_eq_some_iff.mp hst).1
      exact ⟨call', hcall', hkeep i call' st hij hi hentry, hindex⟩
  · intro i call' hi hcall'
    dsimp only at hi ⊢
    rw [length_setEntry hj] at hi
    by_cases hij : i = j
    · subst hij
      obtain rfl := Option.some.inj (hcall.symm.trans hcall')
      exact claimKeys_of_mem (by rw [hkeys]; exact List.mem_cons_self) (by simp)
    · rw [claimKeys_of_not_mem _ (by simp), h.found i call' (by omega) hcall']
      intro hmem
      rw [hkeys] at hmem
      rcases List.mem_cons.mp hmem with heq' | hmem
      · exact hij (hd.eq_of_index hcall' hcall (Key.index.inj heq'))
      · obtain ⟨x, hx, -⟩ := hrest _ hmem
        cases hx
  · intro key i hi
    dsimp only at hi ⊢
    rw [length_setEntry hj]
    rcases claimKeys_some hi with hi | ⟨rfl, hkey⟩
    · obtain ⟨hlt, hleads⟩ := h.keyed key i hi
      exact ⟨by omega, hleads⟩
    · refine ⟨by omega, call, hcall, ?_⟩
      rcases hkey with hkey | rfl
      · rw [hkeys] at hkey
        rcases List.mem_cons.mp hkey with rfl | hkey
        · rfl
        · obtain ⟨x, rfl, hid⟩ := hrest key hkey
          exact hid
      · trivial

/-! ### The deltas of a stream -/

/-- A delta of a stream: the number of its call, whether it carries the call's name, and
which part of the arguments. -/
structure Piece where
  call : ℕ
  delta : RawToolCall
  named : Bool
  part : String

/-- A delta carries the whole name or none, and a part of the arguments. -/
structure Piece.Of (call : StreamedCall) (p : Piece) : Prop where
  belongs : Belongs call p.delta
  named : p.named = true → p.delta.name = some call.name
  unnamed : p.named = false → Text.strip (p.delta.name.getD "") = ""
  arguments : p.delta.arguments = .text p.part ∨ p.delta.arguments = .none ∧ p.part = ""

/-- The calls start in order: behind `m` calls that have, the deltas of calls with these
numbers go on until `n` have. -/
def StartInOrder (n : ℕ) : ℕ → List ℕ → Prop
  | m, [] => m = n
  | m, j :: js => j ≤ m ∧ StartInOrder n (max m (j + 1)) js

/-- The parts of a call's arguments that some deltas carry. -/
def partsOf (j : ℕ) (pieces : List Piece) : List String :=
  (pieces.filter fun p => p.call = j).map Piece.part

/-- The deltas of a stream that delivers the calls. -/
structure Delivers (calls : List StreamedCall) (pieces : List Piece) : Prop where
  pieceOf : ∀ p ∈ pieces, ∀ call, calls[p.call]? = some call → p.Of call
  order : StartInOrder calls.length 0 (pieces.map Piece.call)
  id : ∀ j call, calls[j]? = some call → ∃ p ∈ pieces, p.call = j ∧ p.delta.id = call.id
  name : ∀ j call, calls[j]? = some call → ∃ p ∈ pieces, p.call = j ∧ p.named = true
  arguments : ∀ j call, calls[j]? = some call → String.join (partsOf j pieces) = call.arguments

/-- What the entry of a call holds after some of the deltas. -/
structure EntryOf (done : List Piece) (j : ℕ) (call : StreamedCall) (st : ToolState) : Prop where
  id : st.id = none ∨ st.id = call.id
  id_seen : (∃ p ∈ done, p.call = j ∧ p.delta.id = call.id) → st.id = call.id
  name : st.name = "" ∨ st.name = Text.strip call.name
  name_seen : (∃ p ∈ done, p.call = j ∧ p.named = true) → st.name = Text.strip call.name
  text : st.argumentText = String.join (partsOf j done)
  obj : st.argumentsObj = none
  error : st.error = none

theorem entryOf_new {done : List Piece} {j : ℕ} (h : ∀ p ∈ done, p.call ≠ j) (call : StreamedCall) :
    EntryOf done j call {} where
  id := .inl rfl
  id_seen := fun ⟨p, hp, hj, _⟩ => absurd hj (h p hp)
  name := .inl rfl
  name_seen := fun ⟨p, hp, hj, _⟩ => absurd hj (h p hp)
  text := by
    have hnone : done.filter (fun p => p.call = j) = [] := by
      rw [List.filter_eq_nil_iff]
      simpa using h
    rw [partsOf, hnone]
    rfl
  obj := rfl
  error := rfl

/-- The deltas of other calls do not change what an entry is to hold. -/
theorem EntryOf.append_ne {done : List Piece} {i : ℕ} {call : StreamedCall} {st : ToolState}
    (h : EntryOf done i call st) {p : Piece} (hne : p.call ≠ i) : EntryOf (done ++ [p]) i call st where
  id := h.id
  id_seen := by
    rintro ⟨q, hq, hqi, hid⟩
    rcases List.mem_append.mp hq with hq | hq
    · exact h.id_seen ⟨q, hq, hqi, hid⟩
    · obtain rfl := List.mem_singleton.mp hq
      exact absurd hqi hne
  name := h.name
  name_seen := by
    rintro ⟨q, hq, hqi, hnamed⟩
    rcases List.mem_append.mp hq with hq | hq
    · exact h.name_seen ⟨q, hq, hqi, hnamed⟩
    · obtain rfl := List.mem_singleton.mp hq
      exact absurd hqi hne
  text := by
    have hparts : partsOf i (done ++ [p]) = partsOf i done := by
      simp [partsOf, List.filter_append, hne]
    rw [hparts, h.text]
  obj := h.obj
  error := h.error

theorem mergeName_blank (existing : String) : mergeName existing "" = existing := rfl

/-- A whole name replaces the one that is not there yet and agrees with itself. -/
theorem mergeName_whole {existing name : String} (h : existing = "" ∨ existing = name) :
    mergeName existing name = name := by
  unfold mergeName
  by_cases hname : name = ""
  · rw [if_pos hname]
    rcases h with h | h
    · rw [h, hname]
    · exact h
  · rw [if_neg hname, if_pos]
    rcases h with rfl | rfl
    · simp
    · simp [Text.startsWith_self]

/-- The id that a delta leaves in the entry of its call. -/
theorem Belongs.absorb_id {call : StreamedCall} {delta : RawToolCall} (h : Belongs call delta)
    (hne : call.id ≠ some "") {id : Option String} (hid : id = none ∨ id = call.id) :
    ((delta.id.filter (· ≠ "") <|> id) = none ∨ (delta.id.filter (· ≠ "") <|> id) = call.id) ∧
      (id = call.id ∨ delta.id = call.id → (delta.id.filter (· ≠ "") <|> id) = call.id) := by
  have hfilter : call.id.filter (· ≠ "") = call.id := by
    cases hcall : call.id with
    | none => rfl
    | some x =>
      rw [hcall] at hne
      simpa using hne
  rcases h.id with hnone | heq
  · rw [hnone]
    refine ⟨hid, ?_⟩
    rintro (h | h)
    · exact h
    · rw [h, hfilter] at hnone
      rcases hid with rfl | rfl
      · exact hnone.symm
      · rfl
  · rw [heq, hfilter]
    cases hcall : call.id with
    | none => simpa [hcall] using hid
    | some x => simp

/-- One more delta of the entry's own call. -/
theorem EntryOf.absorb {done : List Piece} {j : ℕ} {call : StreamedCall} {st : ToolState}
    (h : EntryOf done j call st) (hne : call.id ≠ some "") {p : Piece} (hp : p.Of call)
    (hj : p.call = j) :
    ∃ r, absorb p.delta false st = .ok r ∧ EntryOf (done ++ [p]) j call r.1 := by
  obtain ⟨hid, hseen⟩ := hp.belongs.absorb_id hne h.id
  have hparts : partsOf j (done ++ [p]) = partsOf j done ++ [p.part] := by
    simp [partsOf, List.filter_append, hj]
  have hname : p.named = true →
      mergeName st.name (Text.strip (p.delta.name.getD "")) = Text.strip call.name := fun hnamed => by
    rw [hp.named hnamed]
    exact mergeName_whole h.name
  have hblank : p.named = false →
      mergeName st.name (Text.strip (p.delta.name.getD "")) = st.name := fun hnamed => by
    rw [hp.unnamed hnamed, mergeName_blank]
  have hnew : ∀ st' : ToolState, st'.id = (p.delta.id.filter (· ≠ "") <|> st.id) →
      st'.name = mergeName st.name (Text.strip (p.delta.name.getD "")) →
      st'.argumentText = String.join (partsOf j done) ++ p.part → st'.argumentsObj = none →
      st'.error = none → EntryOf (done ++ [p]) j call st' := fun st' hst'id hst'name htext hobj herror => by
    refine ⟨?_, ?_, ?_, ?_, ?_, hobj, herror⟩
    · rw [hst'id]
      exact hid
    · rintro ⟨q, hq, hqj, hqid⟩
      rw [hst'id]
      rcases List.mem_append.mp hq with hq | hq
      · exact hseen (.inl (h.id_seen ⟨q, hq, hqj, hqid⟩))
      · obtain rfl := List.mem_singleton.mp hq
        exact hseen (.inr hqid)
    · rw [hst'name]
      cases hnamed : p.named with
      | true => exact .inr (hname hnamed)
      | false =>
        rw [hblank hnamed]
        exact h.name
    · rintro ⟨q, hq, hqj, hqnamed⟩
      rw [hst'name]
      cases hnamed : p.named with
      | true => exact hname hnamed
      | false =>
        rw [hblank hnamed]
        rcases List.mem_append.mp hq with hq | hq
        · exact h.name_seen ⟨q, hq, hqj, hqnamed⟩
        · obtain rfl := List.mem_singleton.mp hq
          rw [hnamed] at hqnamed
          cases hqnamed
    · rw [htext, hparts]
      simp
  unfold WorkerRunner.absorb mergeArguments
  have htext : String.join st.argumentsParts = String.join (partsOf j done) := h.text
  rcases hp.arguments with harg | ⟨harg, hpart⟩
  · rw [harg]
    dsimp only
    rw [if_neg Bool.false_ne_true]
    refine ⟨_, rfl, hnew _ ?_ ?_ ?_ ?_ ?_⟩ <;> dsimp only [ToolState.argumentText]
    · rw [String.join_append, htext]
      simp
    · exact h.obj
    · exact h.error
  · rw [harg]
    dsimp only
    refine ⟨_, rfl, hnew _ ?_ ?_ ?_ ?_ ?_⟩ <;> dsimp only [ToolState.argumentText]
    · rw [hpart, htext]
      simp
    · exact h.obj
    · exact h.error

/-! ### The stream -/

theorem Tracks.of_eq {s s' : StreamState} (h : Tracks calls entry s) (hstates : s'.states = s.states)
    (hkeyed : s'.keyed = s.keyed) : Tracks calls entry s' where
  entries := by
    rw [hstates]
    exact h.entries
  found := by
    rw [hstates, hkeyed]
    exact h.found
  keyed := by
    rw [hstates, hkeyed]
    exact h.keyed

theorem StartInOrder.le {n m : ℕ} {js : List ℕ} (h : StartInOrder n m js) : m ≤ n := by
  induction js generalizing m with
  | nil => exact le_of_eq h
  | cons j js ih =>
    have := ih h.2
    omega

theorem processDeltas_cons {fromMessage : Bool} {position : ℕ} {delta : RawToolCall}
    {deltas : List RawToolCall} {s s' : StreamState}
    (h : processDelta loads known fromMessage position delta s = .ok s') :
    processDeltas loads known fromMessage position (delta :: deltas) s =
      processDeltas loads known fromMessage (position + 1) deltas s' := by
  rw [processDeltas, h]
  rfl

/-- What has been put together of some of the deltas. -/
structure Assembled (calls : List StreamedCall) (done : List Piece) (s : StreamState) : Prop where
  tracks : Tracks calls (EntryOf done) s
  started : ∀ p ∈ done, p.call < s.states.length

theorem Assembled.processDelta {done : List Piece} (h : Assembled calls done s)
    (hd : Distinct calls) {p : Piece} {call : StreamedCall} (hcall : calls[p.call]? = some call)
    (hp : p.Of call) (hj : p.call ≤ s.states.length) (position : ℕ) :
    ∃ s', processDelta loads known false position p.delta s = .ok s' ∧
      Assembled calls (done ++ [p]) s' ∧ s'.states.length = max s.states.length (p.call + 1) := by
  have hentry : EntryOf done p.call call (s.states.getD p.call {}) := by
    by_cases hlt : p.call < s.states.length
    · have hst : s.states[p.call]? = some (s.states.getD p.call {}) := by
        rw [List.getD_eq_getElem?_getD, List.getElem?_eq_getElem hlt, Option.getD_some]
      obtain ⟨call', hcall', hentry, -⟩ := h.tracks.entries p.call _ hst
      obtain rfl := Option.some.inj (hcall.symm.trans hcall')
      exact hentry
    · rw [List.getD_eq_getElem?_getD, List.getElem?_eq_none (by omega)]
      refine entryOf_new (fun q hq hqj => ?_) call
      have := h.started q hq
      omega
  have hne : call.id ≠ some "" := hd.id_ne call (List.mem_of_getElem? hcall)
  obtain ⟨s', hs', htracks, hlength⟩ := h.tracks.processDelta hd
    hcall hp.belongs hj position false (hentry.absorb hne hp rfl)
    (fun i call st hij _ hentry => hentry.append_ne (Ne.symm hij))
  refine ⟨s', hs', ⟨htracks, fun q hq => ?_⟩, hlength⟩
  rw [hlength]
  rcases List.mem_append.mp hq with hq | hq
  · have := h.started q hq
    omega
  · obtain rfl := List.mem_singleton.mp hq
    omega

/-- The deltas of a chunk, at whatever position the chunk has them. -/
theorem Assembled.processDeltas (hd : Distinct calls) {js : List ℕ} (pieces : List Piece) :
    ∀ {done : List Piece} {s : StreamState} (position : ℕ), Assembled calls done s →
      (∀ p ∈ pieces, ∀ call, calls[p.call]? = some call → p.Of call) →
      StartInOrder calls.length s.states.length (pieces.map Piece.call ++ js) →
      ∃ s', processDeltas loads known false position (pieces.map Piece.delta) s = .ok s' ∧
        Assembled calls (done ++ pieces) s' ∧ StartInOrder calls.length s'.states.length js := by
  induction pieces with
  | nil =>
    intro done s position h _ horder
    refine ⟨s, rfl, ?_, horder⟩
    rw [List.append_nil]
    exact h
  | cons p pieces ih =>
    intro done s position h hof horder
    obtain ⟨hj, hrest⟩ := horder
    have hlt : p.call < calls.length := by
      have := hrest.le
      omega
    have hcall : calls[p.call]? = some calls[p.call] := List.getElem?_eq_getElem hlt
    obtain ⟨s', hs', h', hlength⟩ := h.processDelta hd hcall
      (hof p (List.mem_cons_self) _ hcall) hj position
    rw [← hlength] at hrest
    obtain ⟨s'', hs'', h'', horder''⟩ := ih (position + 1) h'
      (fun q hq => hof q (List.mem_cons_of_mem _ hq)) hrest
    refine ⟨s'', ?_, ?_, horder''⟩
    · rw [List.map_cons, processDeltas_cons hs', hs'']
    · rw [List.append_cons]
      exact h''

/-- A chunk changes entries and keys by its deltas only. -/
theorem exists_processChunk {chunk : Chunk} {P : StreamState → Prop}
    (hP : ∀ {t t' : StreamState}, P t → t'.states = t.states → t'.keyed = t.keyed → P t')
    {deltas : List RawToolCall} {fromMessage : Bool}
    (hdeltas : chunkToolCallDeltas chunk = (deltas, fromMessage))
    (h : ∀ t : StreamState, t.states = s.states → t.keyed = s.keyed →
      ∃ t', processDeltas loads known fromMessage 0 deltas t = .ok t' ∧ P t') :
    ∃ s', processChunk loads known chunk s = .ok s' ∧ P s' := by
  obtain ⟨t', ht', hPt'⟩ := h { s with
    contentParts := s.contentParts ++ (chunk.content.filter (· ≠ "")).toList
    tokens := s.tokens ++ (chunk.content.filter (· ≠ "")).toList.map fun token => (token, "content") }
    rfl rfl
  refine ⟨{ t' with
    reasoningParts := t'.reasoningParts ++ (chunk.reasoningContent.filter (· ≠ "")).toList
    thinkingBlocks := t'.thinkingBlocks ++ chunk.thinkingBlocks
    usage := if chunk.usage.isEmpty then t'.usage else chunk.usage }, ?_, hP hPt' rfl rfl⟩
  unfold processChunk
  rw [hdeltas]
  dsimp only
  rw [ht']
  rfl

theorem processChunks_cons {chunk : Chunk} {chunks : List Chunk} {s s' : StreamState}
    (h : processChunk loads known chunk s = .ok s') :
    processChunks loads known (chunk :: chunks) s = processChunks loads known chunks s' := by
  rw [processChunks, h]
  rfl

/-- The chunks that carry the deltas. -/
theorem Assembled.processChunks (hd : Distinct calls) (chunks : List Chunk) :
    ∀ {pieces done : List Piece} {s : StreamState}, Assembled calls done s →
      chunks.flatMap Chunk.deltaCalls = pieces.map Piece.delta →
      (∀ chunk ∈ chunks, chunk.deltaCalls = [] → chunk.messageCalls = []) →
      (∀ p ∈ pieces, ∀ call, calls[p.call]? = some call → p.Of call) →
      StartInOrder calls.length s.states.length (pieces.map Piece.call) →
      ∃ s', processChunks loads known chunks s = .ok s' ∧
        Assembled calls (done ++ pieces) s' ∧ s'.states.length = calls.length := by
  induction chunks with
  | nil =>
    intro pieces done s h hflat _ _ horder
    obtain rfl : pieces = [] := List.map_eq_nil_iff.mp hflat.symm
    rw [List.append_nil]
    exact ⟨s, rfl, h, horder⟩
  | cons chunk chunks ih =>
    intro pieces done s h hflat hmessage hof horder
    rw [List.flatMap_cons, eq_comm, List.map_eq_append_iff] at hflat
    obtain ⟨first, rest, rfl, hfirst, hrest⟩ := hflat
    rw [List.map_append] at horder
    have hdeltas : ∃ fromMessage, chunkToolCallDeltas chunk = (first.map Piece.delta, fromMessage) ∧
        (fromMessage = true → first = []) := by
      unfold chunkToolCallDeltas
      by_cases hempty : chunk.deltaCalls = []
      · rw [hempty] at hfirst
        obtain rfl := List.map_eq_nil_iff.mp hfirst
        refine ⟨true, ?_, fun _ => rfl⟩
        rw [hempty, hmessage chunk (List.mem_cons_self) hempty]
        rfl
      · refine ⟨false, ?_, fun h => by cases h⟩
        rw [if_neg (by simpa using hempty), hfirst]
    obtain ⟨fromMessage, hdeltas, hnone⟩ := hdeltas
    obtain ⟨s', hs', h', horder'⟩ := exists_processChunk
      (P := fun t => Assembled calls (done ++ first) t ∧
        StartInOrder calls.length t.states.length (rest.map Piece.call))
      (fun ht hstates hkeyed => by
        obtain ⟨⟨htracks, hstarted⟩, horder⟩ := ht
        rw [hstates]
        refine ⟨⟨htracks.of_eq hstates hkeyed, ?_⟩, horder⟩
        rw [hstates]
        exact hstarted)
      hdeltas
      (fun t hstates hkeyed => by
        have ht : Assembled calls done t := by
          refine ⟨h.tracks.of_eq hstates hkeyed, ?_⟩
          rw [hstates]
          exact h.started
        have hof' : ∀ p ∈ first, ∀ call, calls[p.call]? = some call → p.Of call :=
          fun p hp => hof p (List.mem_append_left _ hp)
        rw [← hstates] at horder
        cases fromMessage with
        | false => exact Assembled.processDeltas hd first 0 ht hof' horder
        | true =>
          obtain rfl := hnone rfl
          refine ⟨t, rfl, ?_, horder⟩
          rw [List.append_nil]
          exact ht)
    obtain ⟨s'', hs'', h'', hlength⟩ := ih h' hrest.symm
      (fun c hc => hmessage c (List.mem_cons_of_mem _ hc))
      (fun p hp => hof p (List.mem_append_right _ hp)) horder'
    refine ⟨s'', ?_, ?_, hlength⟩
    · rw [processChunks_cons hs', hs'']
    · rw [← List.append_assoc]
      exact h''

/-! ### The message at the end of a stream -/

/-- A call of the message again, with its index. -/
structure Repeats (call : StreamedCall) (delta : RawToolCall) : Prop where
  belongs : Belongs call delta
  name : delta.name = some call.name
  arguments : delta.arguments = .text call.arguments

/-- The entry of a call that is whole. -/
structure Whole (call : StreamedCall) (st : ToolState) : Prop where
  id : st.id = call.id
  name : st.name = Text.strip call.name
  text : st.argumentText = call.arguments
  obj : st.argumentsObj = none
  error : st.error = none

/-- All deltas of a stream leave whole entries. -/
theorem EntryOf.whole {pieces : List Piece} (hp : Delivers calls pieces) {j : ℕ}
    {call : StreamedCall} (hcall : calls[j]? = some call) {st : ToolState}
    (h : EntryOf pieces j call st) : Whole call st where
  id := h.id_seen (hp.id j call hcall)
  name := h.name_seen (hp.name j call hcall)
  text := h.text.trans (hp.arguments j call hcall)
  obj := h.obj
  error := h.error

theorem Whole.absorb {call : StreamedCall} {st : ToolState} (h : Whole call st)
    (hne : call.id ≠ some "") {delta : RawToolCall} (hr : Repeats call delta) :
    ∃ r, absorb delta true st = .ok r ∧ Whole call r.1 := by
  have hid := (hr.belongs.absorb_id hne (.inr h.id)).2 (.inl h.id)
  have hname : mergeName st.name (Text.strip (delta.name.getD "")) = Text.strip call.name := by
    rw [hr.name]
    exact mergeName_whole (.inr h.name)
  have htext : ({ st with
      stableKeys := st.stableKeys ++ stableKeys delta
      id := delta.id.filter (· ≠ "") <|> st.id
      name := mergeName st.name (Text.strip (delta.name.getD "")) } : ToolState).argumentText =
      call.arguments := h.text
  unfold WorkerRunner.absorb mergeArguments
  rw [hr.arguments]
  dsimp only
  rw [if_pos rfl, if_pos htext]
  refine ⟨_, rfl, ?_, ?_, htext, h.obj, h.error⟩ <;> dsimp only
  · exact hid
  · exact hname

/-- Every call of the message is put together. -/
structure Reassembled (calls : List StreamedCall) (s : StreamState) : Prop where
  tracks : Tracks calls (fun _ => Whole) s
  length : s.states.length = calls.length

theorem Reassembled.of_eq {s s' : StreamState} (h : Reassembled calls s)
    (hstates : s'.states = s.states) (hkeyed : s'.keyed = s.keyed) : Reassembled calls s' where
  tracks := h.tracks.of_eq hstates hkeyed
  length := by
    rw [hstates]
    exact h.length

theorem Assembled.reassembled {pieces : List Piece} (h : Assembled calls pieces s)
    (hp : Delivers calls pieces) (hlength : s.states.length = calls.length) :
    Reassembled calls s where
  tracks :=
    { entries := fun j st hst => by
        obtain ⟨call, hcall, hentry, hindex⟩ := h.tracks.entries j st hst
        exact ⟨call, hcall, hentry.whole hp hcall, hindex⟩
      found := h.tracks.found
      keyed := h.tracks.keyed }
  length := hlength

theorem Reassembled.processDeltas (hd : Distinct calls) (deltas : List RawToolCall) :
    ∀ {s : StreamState} (position : ℕ), Reassembled calls s →
      (∀ delta ∈ deltas, ∃ call ∈ calls, Repeats call delta) →
      ∃ s', processDeltas loads known true position deltas s = .ok s' ∧ Reassembled calls s' := by
  induction deltas with
  | nil =>
    intro s position h _
    exact ⟨s, rfl, h⟩
  | cons delta deltas ih =>
    intro s position h hdeltas
    obtain ⟨call, hmem, hr⟩ := hdeltas delta (List.mem_cons_self)
    obtain ⟨j, hlt, rfl⟩ := List.mem_iff_getElem.mp hmem
    have hcall : calls[j]? = some calls[j] := List.getElem?_eq_getElem hlt
    have hst : s.states[j]? = some (s.states.getD j {}) := by
      rw [List.getD_eq_getElem?_getD, List.getElem?_eq_getElem (by rw [h.length]; exact hlt),
        Option.getD_some]
    obtain ⟨call', hcall', hentry, -⟩ := h.tracks.entries j _ hst
    obtain rfl := Option.some.inj (hcall.symm.trans hcall')
    obtain ⟨s', hs', htracks, hlength⟩ := h.tracks.processDelta hd hcall hr.belongs
      (by rw [h.length]; omega) position true (hentry.absorb (hd.id_ne _ hmem) hr)
      (fun i call st _ _ hentry => hentry)
    rw [h.length, max_eq_left (by omega)] at hlength
    obtain ⟨s'', hs'', h''⟩ := ih (position + 1) ⟨htracks, hlength⟩
      (fun d hd => hdeltas d (List.mem_cons_of_mem _ hd))
    refine ⟨s'', ?_, h''⟩
    rw [processDeltas_cons hs', hs'']

theorem Reassembled.processChunks (hd : Distinct calls) (chunks : List Chunk) :
    ∀ {s : StreamState}, Reassembled calls s →
      (∀ chunk ∈ chunks, chunk.deltaCalls = [] ∧
        ∀ delta ∈ chunk.messageCalls, ∃ call ∈ calls, Repeats call delta) →
      ∃ s', processChunks loads known chunks s = .ok s' ∧ Reassembled calls s' := by
  induction chunks with
  | nil =>
    intro s h _
    exact ⟨s, rfl, h⟩
  | cons chunk chunks ih =>
    intro s h hchunks
    obtain ⟨hnone, hrepeats⟩ := hchunks chunk (List.mem_cons_self)
    have hdeltas : chunkToolCallDeltas chunk = (chunk.messageCalls, true) := by
      unfold chunkToolCallDeltas
      rw [hnone]
      rfl
    obtain ⟨s', hs', h'⟩ := exists_processChunk (P := Reassembled calls)
      (fun ht hstates hkeyed => ht.of_eq hstates hkeyed) hdeltas
      (fun t hstates hkeyed =>
        Reassembled.processDeltas hd chunk.messageCalls 0 (h.of_eq hstates hkeyed) hrepeats)
    obtain ⟨s'', hs'', h''⟩ := ih h' (fun c hc => hchunks c (List.mem_cons_of_mem _ hc))
    refine ⟨s'', ?_, h''⟩
    rw [processChunks_cons hs', hs'']

/-! ### What a stream is put together to -/

/-- The chunks of a stream that delivers the calls of a message, and may repeat them at its
end. -/
structure Streams (calls : List StreamedCall) (chunks : List Chunk) : Prop where
  split : ∃ streamed repeated : List Chunk, ∃ pieces : List Piece,
    chunks = streamed ++ repeated ∧ Delivers calls pieces ∧
    streamed.flatMap Chunk.deltaCalls = pieces.map Piece.delta ∧
    (∀ chunk ∈ streamed, chunk.deltaCalls = [] → chunk.messageCalls = []) ∧
    ∀ chunk ∈ repeated, chunk.deltaCalls = [] ∧
      ∀ delta ∈ chunk.messageCalls, ∃ call ∈ calls, Repeats call delta

theorem processChunks_append (first rest : List Chunk) (s : StreamState) :
    processChunks loads known (first ++ rest) s =
      processChunks loads known first s >>= processChunks loads known rest := by
  induction first generalizing s with
  | nil => rfl
  | cons chunk first ih =>
    rw [List.cons_append]
    unfold WorkerRunner.processChunks
    cases processChunk loads known chunk s with
    | error e => rfl
    | ok t => exact ih t

theorem Streams.reassembled {chunks : List Chunk} (h : Streams calls chunks) (hd : Distinct calls) :
    ∃ s, processChunks loads known chunks {} = .ok s ∧ Reassembled calls s := by
  obtain ⟨streamed, repeated, pieces, rfl, hp, hflat, hmessage, hrepeated⟩ := h.split
  have hnew : Assembled calls [] {} :=
    ⟨⟨fun j st h => by simp at h, fun j call h => by simp at h, fun key j h => by simp at h⟩,
      fun p hp => by cases hp⟩
  obtain ⟨s, hs, h, hlength⟩ := Assembled.processChunks hd streamed hnew hflat
    hmessage hp.pieceOf hp.order
  rw [List.nil_append] at h
  obtain ⟨s', hs', h'⟩ := Reassembled.processChunks hd repeated (h.reassembled hp hlength) hrepeated
  refine ⟨s', ?_, h'⟩
  rw [processChunks_append, hs]
  exact hs'

/-- A whole entry is read as the message's call is. -/
theorem Whole.streamedToolCall {call : StreamedCall} {st : ToolState} (h : Whole call st)
    (newId : ℕ → String) (n : ℕ) :
    streamedToolCall loads newId n st = parseToolCall loads newId n call.raw := by
  unfold WorkerRunner.streamedToolCall parseToolCall
  rw [h.obj, h.name, h.id, h.text, h.error, Text.strip_strip]
  have hraw : call.raw = { id := call.id, name := some call.name, arguments := .text call.arguments } :=
    rfl
  rw [hraw]
  dsimp only [Option.getD_some]
  cases parseToolArguments loads (.text call.arguments) with
  | error e => rfl
  | ok r =>
    obtain ⟨arguments, error⟩ := r
    by_cases hname : Text.strip call.name = ""
    · cases error with
      | none => simp [hname, appendToolError]
      | some message => simp [hname, appendToolError]
    · cases error with
      | none => simp [hname, appendToolError]
      | some message => simp [hname, appendToolError]

theorem mapM_zipIdx_eq {α β γ δ : Type} {R : α → β → Prop} {f : ℕ → β → Except Exn γ}
    {g : ℕ → δ → Except Exn γ} {m : α → δ} (hfg : ∀ n x y, R x y → f n y = g n (m x))
    {xs : List α} {ys : List β} (h : List.Forall₂ R xs ys) (k : ℕ) :
    (ys.zipIdx k).mapM (fun p => f p.2 p.1) = ((xs.map m).zipIdx k).mapM fun p => g p.2 p.1 := by
  induction h generalizing k with
  | nil => rfl
  | cons hxy _ ih =>
    rw [List.map_cons, List.zipIdx_cons, List.zipIdx_cons, List.mapM_cons, List.mapM_cons, ih (k + 1),
      hfg k _ _ hxy]

theorem Reassembled.streamedToolCalls (h : Reassembled calls s) (newId : ℕ → String) :
    streamedToolCalls loads newId s.states =
      parseToolCalls loads newId (calls.map StreamedCall.raw) := by
  have hall : List.Forall₂ Whole calls s.states := by
    rw [List.forall₂_iff_get]
    refine ⟨h.length.symm, fun j hj hj' => ?_⟩
    obtain ⟨call, hcall, hwhole, -⟩ := h.tracks.entries j _ (List.getElem?_eq_getElem hj')
    obtain rfl := Option.some.inj ((List.getElem?_eq_getElem hj).symm.trans hcall)
    exact hwhole
  exact mapM_zipIdx_eq (fun n _ _ hwhole => hwhole.streamedToolCall newId n) hall 0

/-- However a stream delivers the calls of a message, the response has the calls that are
read from the message itself. -/
theorem streamedResponse_toolCalls (loads : String → Except Exn Value) (newId : ℕ → String)
    (known : List String) {calls : List StreamedCall} (hd : Distinct calls) {chunks : List Chunk}
    (h : Streams calls chunks) :
    (streamedResponse loads newId known chunks).map ModelResponse.toolCalls =
      parseToolCalls loads newId (calls.map StreamedCall.raw) := by
  obtain ⟨s, hs, hwhole⟩ := @Streams.reassembled loads known _ _ h hd
  have hcalls := @Reassembled.streamedToolCalls loads _ _ hwhole newId
  unfold streamedResponse
  rw [hs]
  change (streamedToolCalls loads newId s.states >>= _).map _ = _
  rw [hcalls]
  cases parseToolCalls loads newId (calls.map StreamedCall.raw) with
  | error e => rfl
  | ok r => rfl

/-- Two calls, the first with its arguments cut around the second's only delta, and the
message behind them. -/
theorem streamedResponse_toolCalls_interleaved :
    (streamedResponse
      (fun text => if text = "\x7b\x7d" then .ok (.dict []) else .error (typeError "no object"))
      (fun n => "call-" ++ toString n) ["look"]
      [{ deltaCalls :=
          [{ index := some 4, id := some "a", name := some "look", arguments := .text "\x7b" },
            { index := some 7, name := some " find ", arguments := .text "\x7b\x7d" }] },
        { deltaCalls := [{ index := some 4, id := some "", arguments := .text "\x7d" }] },
        { messageCalls :=
          [{ index := some 7, name := some " find ", arguments := .text "\x7b\x7d" },
            { index := some 4, id := some "a", name := some "look", arguments := .text "\x7b\x7d" }] }]).map
      ModelResponse.toolCalls =
    parseToolCalls
      (fun text => if text = "\x7b\x7d" then .ok (.dict []) else .error (typeError "no object"))
      (fun n => "call-" ++ toString n)
      [{ id := some "a", name := some "look", arguments := .text "\x7b\x7d" },
        { name := some " find ", arguments := .text "\x7b\x7d" }] := by
  refine @streamedResponse_toolCalls _ _ _
    [⟨4, some "a", "look", "\x7b\x7d"⟩, ⟨7, none, " find ", "\x7b\x7d"⟩] ⟨by simp, by simp⟩ _
    ⟨⟨[_, _], [_],
      [⟨0, _, true, "\x7b"⟩, ⟨1, _, true, "\x7b\x7d"⟩, ⟨0, _, false, "\x7d"⟩], rfl, ?_, rfl, ?_, ?_⟩⟩
  · refine ⟨?_, by simp [StartInOrder], ?_, ?_, ?_⟩
    · intro p hp call hcall
      simp only [List.mem_cons, List.not_mem_nil, or_false] at hp
      rcases hp with rfl | rfl | rfl <;> obtain rfl := Option.some.inj hcall
      · exact ⟨⟨rfl, .inr rfl⟩, fun _ => rfl, nofun, .inl rfl⟩
      · exact ⟨⟨rfl, .inl rfl⟩, fun _ => rfl, nofun, .inl rfl⟩
      · exact ⟨⟨rfl, .inl rfl⟩, nofun, fun _ => rfl, .inl rfl⟩
    all_goals
      intro j call hcall
      rcases j with _ | _ | j
      · obtain rfl := Option.some.inj hcall
        simp [partsOf]
      · obtain rfl := Option.some.inj hcall
        simp [partsOf]
      · simp at hcall
  · simp
  · intro chunk hchunk
    obtain rfl := List.mem_singleton.mp hchunk
    refine ⟨rfl, fun delta hdelta => ?_⟩
    simp only [List.mem_cons, List.not_mem_nil, or_false] at hdelta
    rcases hdelta with rfl | rfl
    · exact ⟨⟨7, none, " find ", "\x7b\x7d"⟩, by simp, ⟨rfl, .inl rfl⟩, rfl, rfl⟩
    · exact ⟨⟨4, some "a", "look", "\x7b\x7d"⟩, by simp, ⟨rfl, .inr rfl⟩, rfl, rfl⟩

end Blackgeorge.WorkerRunner
