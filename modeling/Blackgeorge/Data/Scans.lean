import Blackgeorge.Data.RoundTrip

/-! What the scanner of JSON texts uses up: it is never out of fuel on a text it could
read, and a string is shorter than its text. -/

namespace Blackgeorge.Data.Json

variable {float : String → ℚ × String}

/-- The rest of a text behind one character of it or more. -/
structure Behind (t s : List Char) : Prop where
  suffix : t <:+ s
  length_lt : t.length < s.length

theorem Behind.of_cons {t s : List Char} (h : t <:+ s) (c : Char) : Behind t (c :: s) where
  suffix := h.trans (List.suffix_cons c s)
  length_lt := Nat.lt_succ_of_le h.length_le

theorem Behind.cons {t s : List Char} (h : Behind t s) (c : Char) : Behind t (c :: s) :=
  .of_cons h.suffix c

theorem Behind.trans {t u s : List Char} (h : Behind t u) (h' : u <:+ s) : Behind t s where
  suffix := h.suffix.trans h'
  length_lt := h.length_lt.trans_le h'.length_le

theorem Behind.of_suffix {t u s : List Char} (h : t <:+ u) (h' : Behind u s) : Behind t s where
  suffix := h.trans h'.suffix
  length_lt := h.length_le.trans_lt h'.length_lt

theorem behind_of_scanHex {s t : List Char} {n : ℕ} (h : scanHex s = some (n, t)) :
    Behind t s := by
  unfold scanHex at h
  split at h
  · simp only [Option.bind_eq_bind, Option.bind_eq_some_iff, Option.some.injEq, Prod.mk.injEq] at h
    obtain ⟨_, _, _, _, _, _, _, _, _, rfl⟩ := h
    exact (((Behind.of_cons List.suffix_rfl _).cons _).cons _).cons _
  · cases h

theorem behind_of_scanLow {s t : List Char} {n : ℕ} (h : scanLow s = some (n, t)) :
    Behind t s := by
  unfold scanLow at h
  split at h
  · simp only [Option.bind_eq_bind, Option.bind_eq_some_iff] at h
    obtain ⟨⟨m, u⟩, hhex, h⟩ := h
    split_ifs at h
    simp only [Option.some.injEq, Prod.mk.injEq] at h
    obtain ⟨-, rfl⟩ := h
    exact ((behind_of_scanHex hhex).cons _).cons _
  · cases h

theorem behind_of_scanUnicode {s t : List Char} {c : Char} (h : scanUnicode s = some (c, t)) :
    Behind t s := by
  simp only [scanUnicode, Option.bind_eq_bind, Option.bind_eq_some_iff] at h
  obtain ⟨⟨n, u⟩, hhex, h⟩ := h
  have hbehind := behind_of_scanHex hhex
  dsimp only at h
  split_ifs at h
  · split at h
    · rename_i hlow
      simp only [Option.some.injEq, Prod.mk.injEq] at h
      obtain ⟨-, rfl⟩ := h
      exact (behind_of_scanLow hlow).trans hbehind.suffix
    · simp only [Option.some.injEq, Prod.mk.injEq] at h
      rwa [← h.2]
  · simp only [Option.some.injEq, Prod.mk.injEq] at h
    rwa [← h.2]

theorem behind_of_scanEscape {s t : List Char} {c : Char} (h : scanEscape s = some (c, t)) :
    Behind t s := by
  unfold scanEscape at h
  split at h
  · exact (behind_of_scanUnicode h).cons _
  all_goals
    cases h
    try exact .of_cons List.suffix_rfl _

theorem behind_of_scanChar {s t : List Char} {c : Char} (h : scanChar s = some (c, t)) :
    Behind t s := by
  unfold scanChar at h
  split at h
  · exact (behind_of_scanEscape h).cons _
  · split_ifs at h
    simp only [Option.some.injEq, Prod.mk.injEq] at h
    obtain ⟨-, rfl⟩ := h
    exact .of_cons List.suffix_rfl _
  · cases h

/-- A string is shorter than its text. -/
theorem behind_of_scanString {fuel : ℕ} {s cs t : List Char}
    (h : scanString fuel s = some (cs, t)) : t <:+ s ∧ cs.length + t.length < s.length := by
  induction fuel generalizing s cs with
  | zero => cases h
  | succ fuel ih =>
    cases s with
    | nil => simp [scanString, scanChar] at h
    | cons d s =>
      by_cases hd : d = '"'
      · subst hd
        simp only [scanString, Option.some.injEq, Prod.mk.injEq] at h
        obtain ⟨rfl, rfl⟩ := h
        exact ⟨List.suffix_cons _ _, by simp⟩
      · rw [scanString_cons ⟨d, s, rfl, hd⟩] at h
        simp only [Option.bind_eq_some_iff] at h
        obtain ⟨⟨c, u⟩, hchar, ⟨ds, r⟩, hrest, h⟩ := h
        simp only [Option.some.injEq, Prod.mk.injEq] at h
        obtain ⟨rfl, rfl⟩ := h
        obtain ⟨hsuffix, hlen⟩ := behind_of_scanChar hchar
        obtain ⟨hsuffix', hlen'⟩ := ih hrest
        refine ⟨hsuffix'.trans hsuffix, ?_⟩
        simp only [List.length_cons] at hlen hlen' ⊢
        omega

theorem behind_of_scanNumber {s t : List Char} {v : Value}
    (h : scanNumber float s = some (v, t)) : Behind t s := by
  simp only [scanNumber, Option.bind_eq_bind, Option.bind_eq_some_iff] at h
  obtain ⟨⟨sign, whole, rest, u⟩, hparts, h⟩ := h
  simp only [Option.some.injEq, Prod.mk.injEq] at h
  obtain rfl := h.2
  have htext := scanParts_eq hparts
  have hwhole : whole ≠ [] := by
    simp only [scanParts, Option.bind_eq_bind, Option.bind_eq_some_iff] at hparts
    obtain ⟨⟨w, r⟩, hwhole, hparts⟩ := hparts
    simp only [Option.some.injEq, Prod.mk.injEq] at hparts
    rw [← hparts.2.1]
    unfold scanWhole at hwhole
    split at hwhole
    · simp only [Option.some.injEq, Prod.mk.injEq] at hwhole
      simp [← hwhole.1]
    · split_ifs at hwhole with hdigits
      simp only [Option.some.injEq, Prod.mk.injEq] at hwhole
      rwa [← hwhole.1]
  have hpos := List.length_pos_of_ne_nil hwhole
  have hlen := congrArg List.length htext
  simp only [List.length_append] at hlen
  exact ⟨⟨_, htext⟩, by omega⟩

theorem suffix_skipSpace (s : List Char) : skipSpace s <:+ s :=
  List.dropWhile_suffix isJsonSpace

theorem length_skipSpace (s : List Char) : (skipSpace s).length ≤ s.length :=
  (suffix_skipSpace s).length_le

theorem behind_of_scanLeaf {s t : List Char} {v : Value} (h : scanLeaf float s = some (v, t)) :
    Behind t s := by
  unfold scanLeaf at h
  split at h
  · simp only [Option.bind_eq_bind, Option.bind_eq_some_iff] at h
    obtain ⟨⟨cs, u⟩, hstring, h⟩ := h
    cases h
    exact .of_cons (behind_of_scanString hstring).1 _
  case h_8 => exact behind_of_scanNumber h
  all_goals
    cases h
    exact ⟨by simp [List.suffix_cons_iff], by simp only [List.length_cons]; omega⟩

theorem behind_of_scanKey {s t : List Char} {k : String} (h : scanKey s = some (k, t)) :
    Behind t s := by
  unfold scanKey at h
  split at h
  · simp only [Option.bind_eq_bind, Option.bind_eq_some_iff] at h
    obtain ⟨⟨cs, u⟩, hstring, h⟩ := h
    have hskip := suffix_skipSpace u
    dsimp only at h
    split at h
    · rename_i w hcolon
      rw [hcolon] at hskip
      cases h
      have hw := (suffix_skipSpace w).trans (List.suffix_cons ':' w)
      exact .of_cons ((hw.trans hskip).trans (behind_of_scanString hstring).1) _
    · cases h
  · cases h

/-! ### Fuel -/

/-- Something was used up, and fuel for what was used up is enough to read it again. -/
def Settled {α : Type} (scan : ℕ → List Char → Option (α × List Char)) (s t : List Char) (a : α) :
    Prop :=
  Behind t s ∧ ∀ m, s.length ≤ m + t.length → scan m s = some (a, t)

/-- A step of fuel for the first character, and the rest for what follows it. -/
theorem exists_succ {s t : List Char} {m : ℕ} (hbehind : Behind t s)
    (h : s.length ≤ m + t.length) : ∃ n, m = n + 1 ∧ s.length ≤ n + 1 + t.length := by
  have hlt := hbehind.length_lt
  exact ⟨m - 1, by omega, by omega⟩

/-- What follows a mark behind spaces. -/
theorem suffix_of_skipSpace {c : Char} {s t : List Char} (h : skipSpace s = c :: t) : t <:+ s :=
  (List.suffix_cons c t).trans (h ▸ suffix_skipSpace s)

theorem settled_list {n : ℕ} {s t : List Char} {v : Value}
    (hitems : ∀ u vs, scanItems float n u = some (vs, t) → Settled (scanItems float) u t vs)
    (h : scanOnce float (n + 1) ('[' :: s) = some (v, t)) :
    Settled (scanOnce float) ('[' :: s) t v := by
  simp only [scanOnce] at h
  split at h
  · rename_i u hclose
    cases h
    have hbehind : Behind t ('[' :: s) := .of_cons (suffix_of_skipSpace hclose) _
    refine ⟨hbehind, fun m hm => ?_⟩
    obtain ⟨m, rfl, _⟩ := exists_succ hbehind hm
    simp only [scanOnce, hclose]
  · rename_i hopen
    simp only [Option.bind_eq_bind, Option.bind_eq_some_iff] at h
    obtain ⟨⟨vs, u⟩, hscan, h⟩ := h
    obtain ⟨rfl, ht⟩ : Value.list vs = v ∧ u = t := by simpa using h
    subst u
    obtain ⟨hrest, hmore⟩ := hitems _ _ hscan
    have hbehind : Behind t ('[' :: s) := .of_cons (hrest.suffix.trans (suffix_skipSpace s)) _
    have hskip := length_skipSpace s
    refine ⟨hbehind, fun m hm => ?_⟩
    obtain ⟨m, rfl, hm⟩ := exists_succ hbehind hm
    rw [List.length_cons] at hm
    simp [scanOnce, hmore m (by omega)]

theorem settled_dict {n : ℕ} {s t : List Char} {v : Value}
    (hpairs : ∀ u fs, scanPairs float n u = some (fs, t) → Settled (scanPairs float) u t fs)
    (h : scanOnce float (n + 1) ('\x7b' :: s) = some (v, t)) :
    Settled (scanOnce float) ('\x7b' :: s) t v := by
  simp only [scanOnce] at h
  split at h
  · rename_i u hclose
    cases h
    have hbehind : Behind t ('\x7b' :: s) := .of_cons (suffix_of_skipSpace hclose) _
    refine ⟨hbehind, fun m hm => ?_⟩
    obtain ⟨m, rfl, _⟩ := exists_succ hbehind hm
    simp only [scanOnce, hclose]
  · rename_i hopen
    simp only [Option.bind_eq_bind, Option.bind_eq_some_iff] at h
    obtain ⟨⟨fs, u⟩, hscan, h⟩ := h
    obtain ⟨rfl, ht⟩ : Value.dict (dictOf fs) = v ∧ u = t := by simpa using h
    subst u
    obtain ⟨hrest, hmore⟩ := hpairs _ _ hscan
    have hbehind : Behind t ('\x7b' :: s) := .of_cons (hrest.suffix.trans (suffix_skipSpace s)) _
    have hskip := length_skipSpace s
    refine ⟨hbehind, fun m hm => ?_⟩
    obtain ⟨m, rfl, hm⟩ := exists_succ hbehind hm
    rw [List.length_cons] at hm
    simp [scanOnce, hmore m (by omega)]

theorem settled_leaf {n : ℕ} {s t : List Char} {v : Value} (hlist : ∀ u, s ≠ '[' :: u)
    (hdict : ∀ u, s ≠ '\x7b' :: u) (h : scanOnce float (n + 1) s = some (v, t)) :
    Settled (scanOnce float) s t v := by
  have hleaf : ∀ m, scanOnce float (m + 1) s = scanLeaf float s := by
    intro m
    rw [scanOnce]
    · exact hlist
    · exact hdict
  rw [hleaf] at h
  refine ⟨behind_of_scanLeaf h, fun m hm => ?_⟩
  obtain ⟨m, rfl, _⟩ := exists_succ (behind_of_scanLeaf h) hm
  rw [hleaf, h]

mutual

theorem settled_once : ∀ (n : ℕ) (s t : List Char) (v : Value),
    scanOnce float n s = some (v, t) → Settled (scanOnce float) s t v
  | 0, _, _, _, h => nomatch h
  | n + 1, s, t, v, h => by
    by_cases hlist : ∃ u, s = '[' :: u
    · obtain ⟨u, rfl⟩ := hlist
      exact settled_list (fun u vs => settled_items n u t vs) h
    · by_cases hdict : ∃ u, s = '\x7b' :: u
      · obtain ⟨u, rfl⟩ := hdict
        exact settled_dict (fun u fs => settled_pairs n u t fs) h
      · exact settled_leaf (fun u hu => hlist ⟨u, hu⟩) (fun u hu => hdict ⟨u, hu⟩) h

theorem settled_items : ∀ (n : ℕ) (s t : List Char) (vs : List Value),
    scanItems float n s = some (vs, t) → Settled (scanItems float) s t vs
  | 0, _, _, _, h => nomatch h
  | n + 1, s, t, vs, h => by
    simp only [scanItems, Option.bind_eq_bind, Option.bind_eq_some_iff] at h
    obtain ⟨⟨v, u⟩, hv, h⟩ := h
    obtain ⟨hfirst, hmore⟩ := settled_once n s u v hv
    dsimp only at h
    split at h
    · rename_i w hclose
      cases h
      have hrest := suffix_of_skipSpace hclose
      have hbehind : Behind t s := .of_suffix hrest hfirst
      have hle := hrest.length_le
      refine ⟨hbehind, fun m hm => ?_⟩
      obtain ⟨m, rfl, hm⟩ := exists_succ hbehind hm
      have hlen := congrArg List.length hclose
      have hskip := length_skipSpace u
      rw [List.length_cons] at hlen
      simp [scanItems, hmore m (by omega), hclose]
    · rename_i w hcomma
      simp only [Option.bind_eq_some_iff] at h
      obtain ⟨⟨ws, r⟩, hrest, h⟩ := h
      obtain ⟨rfl, ht⟩ : v :: ws = vs ∧ r = t := by simpa using h
      subst r
      obtain ⟨hnext, hmore₂⟩ := settled_items n _ t ws hrest
      have hw := suffix_of_skipSpace hcomma
      have hbehind : Behind t s := (hnext.trans ((suffix_skipSpace w).trans hw)).trans hfirst.suffix
      refine ⟨hbehind, fun m hm => ?_⟩
      obtain ⟨m, rfl, hm⟩ := exists_succ hbehind hm
      have hlen := congrArg List.length hcomma
      have hskip := length_skipSpace u
      have hskip₂ := length_skipSpace w
      have hlt := hfirst.length_lt
      have hlt₂ := hnext.length_lt
      rw [List.length_cons] at hlen
      simp [scanItems, hmore m (by omega), hcomma, hmore₂ m (by omega)]
    · cases h

theorem settled_pairs : ∀ (n : ℕ) (s t : List Char) (fs : List (String × Value)),
    scanPairs float n s = some (fs, t) → Settled (scanPairs float) s t fs
  | 0, _, _, _, h => nomatch h
  | n + 1, s, t, fs, h => by
    simp only [scanPairs, Option.bind_eq_bind, Option.bind_eq_some_iff] at h
    obtain ⟨⟨k, r⟩, hk, ⟨v, u⟩, hv, h⟩ := h
    have hkey := behind_of_scanKey hk
    obtain ⟨hfirst, hmore⟩ := settled_once n r u v hv
    have hfront : Behind u s := hfirst.trans hkey.suffix
    have hkeyLt := hkey.length_lt
    dsimp only at h
    split at h
    · rename_i w hclose
      cases h
      have hbehind : Behind t s := .of_suffix (suffix_of_skipSpace hclose) hfront
      refine ⟨hbehind, fun m hm => ?_⟩
      obtain ⟨m, rfl, hm⟩ := exists_succ hbehind hm
      have hlen := congrArg List.length hclose
      have hskip := length_skipSpace u
      rw [List.length_cons] at hlen
      simp [scanPairs, hk, hmore m (by omega), hclose]
    · rename_i w hcomma
      simp only [Option.bind_eq_some_iff] at h
      obtain ⟨⟨gs, r'⟩, hrest, h⟩ := h
      obtain ⟨rfl, ht⟩ : (k, v) :: gs = fs ∧ r' = t := by simpa using h
      subst r'
      obtain ⟨hnext, hmore₂⟩ := settled_pairs n _ t gs hrest
      have hw := suffix_of_skipSpace hcomma
      have hbehind : Behind t s := (hnext.trans ((suffix_skipSpace w).trans hw)).trans hfront.suffix
      refine ⟨hbehind, fun m hm => ?_⟩
      obtain ⟨m, rfl, hm⟩ := exists_succ hbehind hm
      have hlen := congrArg List.length hcomma
      have hskip := length_skipSpace u
      have hskip₂ := length_skipSpace w
      have hlt := hfirst.length_lt
      have hlt₂ := hnext.length_lt
      rw [List.length_cons] at hlen
      simp [scanPairs, hk, hmore m (by omega), hcomma, hmore₂ m (by omega)]
    · cases h

end

/-! ### No text is its own value -/

theorem str_of_scanLeaf {s t : List Char} {text : String}
    (h : scanLeaf float s = some (.str text, t)) : text.toList.length + t.length < s.length := by
  unfold scanLeaf at h
  split at h
  · simp only [Option.bind_eq_bind, Option.bind_eq_some_iff] at h
    obtain ⟨⟨cs, u⟩, hstring, h⟩ := h
    have hlen := (behind_of_scanString hstring).2
    cases h
    simp only [String.toList_ofList, List.length_cons]
    omega
  case h_8 =>
    simp only [scanNumber, Option.bind_eq_bind, Option.bind_eq_some_iff] at h
    obtain ⟨⟨sign, whole, rest, u⟩, _, h⟩ := h
    simp only [Option.some.injEq, Prod.mk.injEq] at h
    obtain ⟨h, _⟩ := h
    split_ifs at h
    cases h
  all_goals cases h

theorem str_of_scanOnce {n : ℕ} {s t : List Char} {text : String}
    (h : scanOnce float n s = some (.str text, t)) : text.toList.length + t.length < s.length := by
  cases n with
  | zero => cases h
  | succ n =>
    unfold scanOnce at h
    split at h
    · cases h
    · split at h
      · cases h
      · simp only [Option.bind_eq_bind, Option.bind_eq_some_iff] at h
        obtain ⟨_, _, h⟩ := h
        cases h
    · split at h
      · cases h
      · simp only [Option.bind_eq_bind, Option.bind_eq_some_iff] at h
        obtain ⟨_, _, h⟩ := h
        cases h
    · exact str_of_scanLeaf h

theorem loads_ne_self (text : String) : loads float text ≠ some (.str text) := by
  intro h
  have hskip := length_skipSpace text.toList
  rw [loads] at h
  split at h
  · rename_i v s hscan
    split_ifs at h
    obtain rfl : v = .str text := by simpa using h
    have hlen := str_of_scanOnce hscan
    omega
  · cases h

end Blackgeorge.Data.Json
