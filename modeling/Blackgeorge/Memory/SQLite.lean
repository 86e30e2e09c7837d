import Blackgeorge.Data.Dumps
import Blackgeorge.Memory.Vector

/-! Reading back what was written: from the SQLite memory every JSON value within the limits
of `json`, from the vector memory strings that are no JSON text, and all such values but
strings. -/

namespace Blackgeorge.Memory

open Data Json

variable {limits : Limits} {float : String → ℚ × String}

/-! ### The SQLite memory -/

structure MemoryRow where
  scope : String
  key : String
  value : String

def MemoryRow.isAt (scope key : String) (row : MemoryRow) : Bool :=
  row.scope = scope && row.key = key

namespace SQLiteMemoryStore

/-- `INSERT … ON CONFLICT(scope, key) DO UPDATE`. -/
def put (rows : List MemoryRow) (key payload scope : String) : List MemoryRow :=
  if rows.any (MemoryRow.isAt scope key) then
    rows.map fun row => if row.isAt scope key then { row with value := payload } else row
  else rows ++ [⟨scope, key, payload⟩]

def write (limits : Limits) (rows : List MemoryRow) (key : String) (value : Value)
    (scope : String) : Except JsonError (List MemoryRow) := do
  let payload ← Json.encode limits value
  .ok (put rows key payload scope)

def read (limits : Limits) (float : String → ℚ × String) (rows : List MemoryRow)
    (key scope : String) : Except JsonError Value :=
  match rows.find? (MemoryRow.isAt scope key) with
  | none => .ok .none
  | some row => Json.decode limits float row.value

theorem isAt_unique {scope key scope' key' : String} {row : MemoryRow}
    (h : row.isAt scope key = true) (h' : row.isAt scope' key' = true) :
    (scope', key') = (scope, key) := by
  simp only [MemoryRow.isAt, Bool.and_eq_true, decide_eq_true_eq] at h h'
  rw [← h.1, ← h.2, ← h'.1, ← h'.2]

theorem find_put (rows : List MemoryRow) (key payload scope : String) :
    (put rows key payload scope).find? (MemoryRow.isAt scope key) = some ⟨scope, key, payload⟩ := by
  rw [put]
  by_cases hany : rows.any (MemoryRow.isAt scope key) = true
  · rw [if_pos hany]
    induction rows with
    | nil => cases hany
    | cons row rows ih =>
      by_cases hrow : row.isAt scope key = true
      · have hkeep : MemoryRow.isAt scope key { row with value := payload } = true := hrow
        rw [List.map_cons, if_pos hrow, List.find?_cons_of_pos hkeep]
        simp only [MemoryRow.isAt, Bool.and_eq_true, decide_eq_true_eq] at hrow
        rw [hrow.1, hrow.2]
      · have hrest : rows.any (MemoryRow.isAt scope key) = true := by simpa [hrow] using hany
        rw [List.map_cons, if_neg hrow, List.find?_cons_of_neg hrow, ih hrest]
  · have hnone : rows.find? (MemoryRow.isAt scope key) = none := by
      rw [List.find?_eq_none]
      simpa using hany
    rw [if_neg hany, List.find?_append, hnone]
    simp [MemoryRow.isAt]

theorem find_put_other {rows : List MemoryRow} {key key' scope scope' : String} (payload : String)
    (h : (scope', key') ≠ (scope, key)) :
    (put rows key payload scope).find? (MemoryRow.isAt scope' key') =
      rows.find? (MemoryRow.isAt scope' key') := by
  have hother : ∀ row : MemoryRow, row.isAt scope key = true → row.isAt scope' key' = false := by
    intro row hrow
    by_contra hrow'
    exact h (isAt_unique hrow (by simpa using hrow'))
  rw [put]
  by_cases hany : rows.any (MemoryRow.isAt scope key) = true
  · rw [if_pos hany]
    clear hany
    induction rows with
    | nil => rfl
    | cons row rows ih =>
      by_cases hrow : row.isAt scope key = true
      · have hkeep : MemoryRow.isAt scope' key' { row with value := payload } = false :=
          hother row hrow
        rw [List.map_cons, if_pos hrow, List.find?_cons_of_neg (by rw [hkeep]; simp), ih,
          List.find?_cons_of_neg (by rw [hother row hrow]; simp)]
      · rw [List.map_cons, if_neg hrow, List.find?_cons, List.find?_cons, ih]
  · have hnew : MemoryRow.isAt scope' key' ⟨scope, key, payload⟩ = false :=
      hother _ (by simp [MemoryRow.isAt])
    rw [if_neg hany, List.find?_append]
    simp [hnew]

end SQLiteMemoryStore

/-! ### The vector memory -/

/-- What is stored of a value is read as the value: a string must be no JSON text, any other
value must be within the limits. -/
def Survives (limits : Limits) (float : String → ℚ × String) : Value → Prop
  | .str s => Json.decode limits float s = .error .decode
  | v => limits.refuses v = none

theorem survives_of_not_str {v : Value} (h : ∀ s, v ≠ .str s) :
    Survives limits float v ↔ limits.refuses v = none := by
  cases v with
  | str s => exact absurd rfl (h s)
  | _ => exact Iff.rfl

theorem deserializeValue_str (s : String) :
    deserializeValue limits float s = .ok (.str s) ↔ Survives limits float (.str s) := by
  unfold deserializeValue Survives
  cases hs : Json.decode limits float s with
  | error e => cases e <;> simp [hs]
  | ok w =>
    have hne : w ≠ .str s := by
      rintro rfl
      exact Json.decode_ne_self s hs
    simp [hs, hne]

theorem deserializeValue_of_decode {text : String} {v : Value}
    (h : Json.decode limits float text = .ok v) : deserializeValue limits float text = .ok v := by
  rw [deserializeValue, h]

/-- What is stored of a value, if it can be stored, is read as the value exactly where it
survives. -/
theorem reread_iff {v : Value} (h : Json.IsJson float v) :
    (serializeValue limits v >>= deserializeValue limits float) = .ok v ↔
      Survives limits float v := by
  by_cases hstr : ∃ s, v = .str s
  · obtain ⟨s, rfl⟩ := hstr
    exact deserializeValue_str s
  · have hne : ∀ s, v ≠ .str s := fun s hs => hstr ⟨s, hs⟩
    have hencode : serializeValue limits v = Json.encode limits v := by
      cases v with
      | str s => exact absurd rfl (hne s)
      | _ => rfl
    rw [survives_of_not_str hne, hencode]
    have hplain := Value.toJsonValue_of_plain (Json.plain_of_isJson v h)
    constructor
    · intro hread
      obtain ⟨text, htext, _⟩ := ok_of_bind hread
      rw [← hplain]
      exact (Json.encode_ok htext).1
    · intro hlimits
      have htext : Json.encode limits v = .ok v.toJsonValue.dumps :=
        Json.encode_of_refuses (hplain.symm ▸ hlimits)
      rw [htext]
      exact deserializeValue_of_decode (Json.decode_encode h htext)

namespace VectorMemoryStore

variable (store : VectorMemoryStore)

theorem isAt_of_mem_entriesOf {scope key : String} {chunks : List (List Char)} {e : Entry}
    (h : e ∈ store.entriesOf scope key chunks) : e.scope = scope ∧ e.key = key := by
  simp only [entriesOf, List.mem_map] at h
  obtain ⟨c, _, rfl⟩ := h
  exact ⟨rfl, rfl⟩

/-- The documents found under a key are those of its last write. -/
theorem filter_put (collection : Collection) (key text scope : String) :
    (store.put collection key text scope).filter (Entry.isAt scope key) =
      store.entriesOf scope key (chunkText text.toList store.chunkSize store.chunkOverlap) := by
  have hold : (deleteByKey collection key scope).filter (Entry.isAt scope key) = [] := by
    simp [deleteByKey]
  rw [put, List.filter_append, hold, List.nil_append, List.filter_eq_self]
  intro e he
  obtain ⟨hscope, hkey⟩ := store.isAt_of_mem_entriesOf he
  simp [Entry.isAt, hscope, hkey]

theorem filter_put_other {collection : Collection} {key key' scope scope' : String} (text : String)
    (h : (scope', key') ≠ (scope, key)) :
    (store.put collection key text scope).filter (Entry.isAt scope' key') =
      collection.filter (Entry.isAt scope' key') := by
  have hnew : (store.entriesOf scope key (chunkText text.toList store.chunkSize
      store.chunkOverlap)).filter (Entry.isAt scope' key') = [] := by
    rw [List.filter_eq_nil_iff]
    intro e he hat
    obtain ⟨hscope, hkey⟩ := store.isAt_of_mem_entriesOf he
    simp only [Entry.isAt, Bool.and_eq_true, decide_eq_true_eq] at hat
    exact h (by rw [← hat.1, ← hat.2, hscope, hkey])
  rw [put, List.filter_append, hnew, List.append_nil, deleteByKey, List.filter_filter]
  apply List.filter_congr
  intro e _
  by_cases hat : e.isAt scope' key' = true
  · have hother : e.isAt scope key = false := by
      by_contra hsame
      simp only [Entry.isAt, Bool.and_eq_true, decide_eq_true_eq, Bool.not_eq_false] at hat hsame
      exact h (by rw [← hat.1, ← hat.2, hsame.1, hsame.2])
    simp [hat, hother]
  · simp [hat]

theorem pairwise_entriesOf (scope key : String) (chunks : List (List Char)) :
    (store.entriesOf scope key chunks).Pairwise fun a b => a.chunkIndex < b.chunkIndex := by
  rw [entriesOf, List.pairwise_map]
  have hindex := List.pairwise_lt_range' (s := 0) (n := chunks.length)
  rw [← List.zipIdx_map_snd, List.pairwise_map] at hindex
  exact hindex

theorem eq_of_chunkIndex {scope key : String} {chunks : List (List Char)} {a b : Entry}
    (ha : a ∈ store.entriesOf scope key chunks) (hb : b ∈ store.entriesOf scope key chunks)
    (h : a.chunkIndex = b.chunkIndex) : a = b := by
  simp only [entriesOf, List.mem_map] at ha hb
  obtain ⟨⟨c, i⟩, hc, rfl⟩ := ha
  obtain ⟨⟨d, j⟩, hd, rfl⟩ := hb
  obtain rfl : i = j := h
  rw [List.mk_mem_zipIdx_iff_getElem?] at hc hd
  obtain rfl := Option.some.inj (hc.symm.trans hd)
  rfl

/-- In whatever order the documents are found, their numbers put them in order. -/
theorem mergeSort_entriesOf {scope key : String} {chunks : List (List Char)} {found : List Entry}
    (h : found.Perm (store.entriesOf scope key chunks)) :
    (found.mergeSort fun a b => a.chunkIndex ≤ b.chunkIndex) = store.entriesOf scope key chunks := by
  have hsorted : (found.mergeSort fun a b => a.chunkIndex ≤ b.chunkIndex).Pairwise
      fun a b => a.chunkIndex ≤ b.chunkIndex := by
    refine List.Pairwise.imp (by simp) (List.pairwise_mergeSort ?_ ?_ found)
    · simp only [decide_eq_true_eq]
      omega
    · simp only [Bool.or_eq_true, decide_eq_true_eq]
      omega
  have hperm := (List.mergeSort_perm found fun a b => a.chunkIndex ≤ b.chunkIndex).trans h
  refine hperm.eq_of_pairwise ?_ hsorted ((store.pairwise_entriesOf scope key chunks).imp le_of_lt)
  intro a b ha hb hab hba
  exact store.eq_of_chunkIndex (hperm.mem_iff.mp ha) hb (le_antisymm hab hba)

theorem entriesOf_cons (scope key : String) (c : List Char) (cs : List (List Char)) :
    ∃ first rest, store.entriesOf scope key (c :: cs) = first :: rest ∧
      first.chunkSize = store.chunkSize ∧ first.chunkOverlap = store.chunkOverlap := by
  rw [entriesOf, List.zipIdx_cons, List.map_cons]
  exact ⟨_, _, rfl, rfl, rfl⟩

theorem map_document_entriesOf (scope key : String) (chunks : List (List Char)) :
    (store.entriesOf scope key chunks).map Entry.document = chunks := by
  rw [entriesOf, List.map_map]
  exact List.zipIdx_map_fst 0 chunks

theorem chunkText_ne_nil (text : List Char) :
    chunkText text store.chunkSize store.chunkOverlap ≠ [] := by
  intro hnil
  have hjoin := joinChunks_chunkText text store
  have hsize := store.size_pos
  rw [hnil] at hjoin
  obtain rfl : text = [] := hjoin.symm
  rw [chunkText, if_pos (by simpa using hsize.le)] at hnil
  cases hnil

/-- The chunk configuration is the one the chunks were written with, whatever store reads
them. -/
theorem resolveChunkConfig_of_written (reader : VectorMemoryStore) {e : Entry}
    (hsize : e.chunkSize = store.chunkSize) (hoverlap : e.chunkOverlap = store.chunkOverlap) :
    reader.resolveChunkConfig e = (store.chunkSize, store.chunkOverlap) := by
  have hpos := store.size_pos
  have hnonneg := store.overlap_nonneg
  have hlt := store.overlap_lt
  simp only [resolveChunkConfig, hsize, hoverlap]
  rw [if_neg (by omega), if_neg (by omega), min_eq_left (by omega)]

/-- Any store on the collection puts together the text that was written last. -/
theorem fullText_put (reader : VectorMemoryStore) {get : List Entry → List Entry}
    (hget : ∀ found, (get found).Perm found) (collection : Collection) (key text scope : String) :
    reader.fullText get (store.put collection key text scope) key scope = some text := by
  have hlt := store.overlap_lt
  set chunks := chunkText text.toList store.chunkSize store.chunkOverlap with hchunks
  obtain ⟨c, cs, hcons⟩ := List.exists_cons_of_ne_nil (store.chunkText_ne_nil text.toList)
  obtain ⟨first, rest, hentries, hsize, hoverlap⟩ := store.entriesOf_cons scope key c cs
  have hsorted := store.mergeSort_entriesOf (hget (store.entriesOf scope key chunks))
  have hdocuments := store.map_document_entriesOf scope key chunks
  have hjoin := joinChunks_chunkText text.toList store
  rw [← hchunks] at hcons hjoin
  rw [hcons, hentries] at hsorted hdocuments
  rw [hcons] at hjoin
  have hoverlapSize : store.chunkSize - max (store.chunkSize - store.chunkOverlap) 1 =
      store.chunkOverlap := by
    omega
  rw [fullText, store.filter_put, ← hchunks, hcons, hentries, hsorted]
  simp only [store.resolveChunkConfig_of_written reader hsize hoverlap, hoverlapSize, hdocuments,
    hjoin, String.ofList_toList]

/-- Any store on the collection reads the text that was written last. -/
theorem read_put (reader : VectorMemoryStore) {get : List Entry → List Entry}
    (hget : ∀ found, (get found).Perm found) (collection : Collection) (key text scope : String) :
    reader.read limits float get (store.put collection key text scope) key scope =
      deserializeValue limits float text := by
  rw [read, store.fullText_put reader hget]
  rfl

theorem read_put_other (reader : VectorMemoryStore) (get : List Entry → List Entry)
    {collection : Collection} {key key' scope scope' : String} (text : String)
    (h : (scope', key') ≠ (scope, key)) :
    reader.read limits float get (store.put collection key text scope) key' scope' =
      reader.read limits float get collection key' scope' := by
  rw [read, read, fullText, fullText, store.filter_put_other text h]

/-- A JSON value is written, and read as it was written, exactly when it survives: what
`json.loads` makes of it stands for a string, and the limits of `json` refuse any other value;
what else is stored is read as before. -/
theorem read_write_iff (reader : VectorMemoryStore) {get : List Entry → List Entry}
    (hget : ∀ found, (get found).Perm found) {v : Value} (hv : Json.IsJson float v)
    (collection : Collection) (key scope : String) :
    (∃ collection', store.write limits collection key v scope = .ok collection' ∧
      reader.read limits float get collection' key scope = .ok v ∧
      ∀ key' scope', (scope', key') ≠ (scope, key) →
        reader.read limits float get collection' key' scope' =
          reader.read limits float get collection key' scope') ↔
      Survives limits float v := by
  rw [← reread_iff hv]
  constructor
  · rintro ⟨collection', hwrite, hread, _⟩
    obtain ⟨text, htext, hput⟩ := ok_of_bind hwrite
    obtain rfl := Except.ok.inj hput
    rw [store.read_put reader hget] at hread
    rw [htext]
    exact hread
  · intro hreread
    obtain ⟨text, htext, hread⟩ := ok_of_bind hreread
    refine ⟨store.put collection key text scope, ?_, ?_, fun key' scope' hne => ?_⟩
    · rw [write, htext]
      rfl
    · rw [store.read_put reader hget]
      exact hread
    · exact store.read_put_other reader get text hne

end VectorMemoryStore

/-! ### A list and a number in quotes -/

theorem read_write_list : ∃ collection,
    (VectorMemoryStore.init 3 1).write defaultLimits [] "k" (.list [.int 12, .str "12"]) "s" =
      .ok collection ∧
    (VectorMemoryStore.init 8000 200).read defaultLimits Json.noFloats List.reverse collection "k"
      "s" = .ok (.list [.int 12, .str "12"]) := by
  have hlist : Json.IsJson Json.noFloats (.list [.int 12, .str "12"]) := ⟨trivial, trivial, trivial⟩
  obtain ⟨collection, hwrite, hread, _⟩ := (VectorMemoryStore.read_write_iff
    (VectorMemoryStore.init 3 1) (VectorMemoryStore.init 8000 200)
    (fun found => List.reverse_perm found) hlist [] "k" "s").mpr
      (show defaultLimits.refuses _ = none by decide)
  exact ⟨collection, hwrite, hread⟩

/-- The string `123` is read as a number. -/
theorem read_number_text : ∃ collection,
    (VectorMemoryStore.init 8000 200).write defaultLimits [] "k" (.str "123") "s" =
      .ok collection ∧
    (VectorMemoryStore.init 8000 200).read defaultLimits Json.noFloats id collection "k" "s" ≠
      .ok (.str "123") := by
  have hget : ∀ found : List Entry, (id found).Perm found := List.Perm.refl
  have hdecode : Json.decode defaultLimits Json.noFloats "123" = .ok (.int 123) := rfl
  refine ⟨_, rfl, fun h => ?_⟩
  rw [VectorMemoryStore.read_put _ _ hget, deserializeValue_of_decode hdecode] at h
  cases h

end Blackgeorge.Memory
