import Blackgeorge.Data.Limits
import Mathlib.Data.List.Sort

/-! The vector memory: values as texts, cut into chunks that overlap, in a collection
that only adds, deletes and finds documents by their metadata. -/

namespace Blackgeorge.Memory

open Data Json

/-! ### Chunks -/

/-- The loop of `_chunk_text` on the text from `start` on; `step` is at least one, so
the length of the text is fuel enough. -/
def chunkLoop (chunkSize step : ℕ) : ℕ → List Char → List (List Char)
  | 0, _ => []
  | fuel + 1, s =>
    if s = [] then []
    else if s.length ≤ chunkSize then [s]
    else s.take chunkSize :: chunkLoop chunkSize step fuel (s.drop step)

/-- `_chunk_text`. -/
def chunkText (text : List Char) (chunkSize overlap : ℤ) : List (List Char) :=
  if (text.length : ℤ) ≤ chunkSize then [text]
  else if chunkSize ≤ 0 then [text]
  else
    let overlap := min (max overlap 0) (chunkSize - 1)
    chunkLoop chunkSize.toNat (chunkSize - overlap).toNat text.length text

/-! ### Values as texts -/

/-- `_serialize_value`: a string stands for itself. -/
def serializeValue (limits : Limits) : Value → Except JsonError String
  | .str s => .ok s
  | v => Json.encode limits v

/-- `_deserialize_value`: what is no JSON text stands for itself; the other exceptions of
`json.loads` are not caught. -/
def deserializeValue (limits : Limits) (float : String → ℚ × String) (text : String) :
    Except JsonError Value :=
  match Json.decode limits float text with
  | .error .decode => .ok (.str text)
  | result => result

/-- The text of a value that can be written. -/
def valueText : Value → String
  | .str s => s
  | v => v.toJsonValue.dumps

theorem serializeValue_of_refuses {limits : Limits} {v : Value}
    (h : limits.refuses v.toJsonValue = none) : serializeValue limits v = .ok (valueText v) := by
  cases v with
  | str s => rfl
  | _ => exact Json.encode_of_refuses h

/-! ### The store -/

/-- A document of the collection with the metadata that is read. -/
structure Entry where
  document : List Char
  scope : String
  key : String
  chunkIndex : ℕ
  totalChunks : ℕ
  chunkSize : ℤ
  chunkOverlap : ℤ

abbrev Collection := List Entry

/-- The filter on scope and key. -/
def Entry.isAt (scope key : String) (e : Entry) : Bool := e.scope = scope && e.key = key

structure VectorMemoryStore where
  chunkSize : ℤ
  chunkOverlap : ℤ
  size_pos : 0 < chunkSize
  overlap_nonneg : 0 ≤ chunkOverlap
  overlap_lt : chunkOverlap < chunkSize

/-- The store's clamping of its chunk configuration. -/
def VectorMemoryStore.init (chunkSize chunkOverlap : ℤ) : VectorMemoryStore where
  chunkSize := max chunkSize 1
  chunkOverlap := min (max chunkOverlap 0) (max chunkSize 1 - 1)
  size_pos := by omega
  overlap_nonneg := by omega
  overlap_lt := by omega

namespace VectorMemoryStore

variable (store : VectorMemoryStore)

/-- `_resolve_chunk_config` on metadata with numbers. -/
def resolveChunkConfig (e : Entry) : ℤ × ℤ :=
  let chunkSize := if e.chunkSize ≤ 0 then store.chunkSize else e.chunkSize
  let chunkOverlap := if e.chunkOverlap < 0 then 0 else e.chunkOverlap
  (chunkSize, min chunkOverlap (chunkSize - 1))

/-- The metadata and documents of a write, numbered. -/
def entriesOf (scope key : String) (chunks : List (List Char)) : List Entry :=
  chunks.zipIdx.map fun c =>
    { document := c.1
      scope := scope
      key := key
      chunkIndex := c.2
      totalChunks := chunks.length
      chunkSize := store.chunkSize
      chunkOverlap := store.chunkOverlap }

def deleteByKey (collection : Collection) (key scope : String) : Collection :=
  collection.filter fun e => !e.isAt scope key

/-- `write` from the text on. -/
def put (collection : Collection) (key text scope : String) : Collection :=
  let chunks := chunkText text.toList store.chunkSize store.chunkOverlap
  deleteByKey collection key scope ++ store.entriesOf scope key chunks

def write (limits : Limits) (collection : Collection) (key : String) (value : Value)
    (scope : String) : Except JsonError Collection := do
  let text ← serializeValue limits value
  .ok (store.put collection key text scope)

/-- The part of a chunk that no earlier one holds: `doc[-new_len:]` if there is any. -/
def newPart (overlapSize : ℤ) (document : List Char) : List Char :=
  let newLen := (document.length : ℤ) - overlapSize
  if 0 < newLen then document.drop (document.length - newLen.toNat) else []

def joinChunks (overlapSize : ℤ) : List (List Char) → List Char
  | [] => []
  | first :: rest => first ++ (rest.map (newPart overlapSize)).flatten

/-- `full_text` of `read`, where documents are found; the collection answers with the
documents it has, in some order. -/
def fullText (get : List Entry → List Entry) (collection : Collection) (key scope : String) :
    Option String :=
  match (get (collection.filter (Entry.isAt scope key))).mergeSort
      fun a b => a.chunkIndex ≤ b.chunkIndex with
  | [] => none
  | first :: rest =>
    let (chunkSize, chunkOverlap) := store.resolveChunkConfig first
    let step := max (chunkSize - chunkOverlap) 1
    let documents := (first :: rest).map Entry.document
    some (String.ofList (joinChunks (chunkSize - step) documents))

def read (limits : Limits) (float : String → ℚ × String) (get : List Entry → List Entry)
    (collection : Collection) (key scope : String) : Except JsonError Value :=
  (store.fullText get collection key scope).elim (.ok .none) (deserializeValue limits float)

end VectorMemoryStore

/-! ### Chunks put together -/

/-- What a chunk adds to the one before it. -/
theorem newPart_eq (overlap : ℕ) (document : List Char) :
    VectorMemoryStore.newPart overlap document = document.drop overlap := by
  rw [VectorMemoryStore.newPart]
  by_cases hlt : overlap < document.length
  · rw [if_pos (by omega)]
    congr 1
    omega
  · rw [if_neg (by omega), List.drop_eq_nil_of_le (by omega)]

/-- Without the overlaps, the chunks of a text are the text behind the first overlap. -/
theorem flatten_chunkLoop {chunkSize step : ℕ} (hstep : 0 < step) (hle : step ≤ chunkSize) :
    ∀ (fuel : ℕ) (s : List Char), s.length ≤ fuel →
      ((chunkLoop chunkSize step fuel s).map (List.drop (chunkSize - step))).flatten =
        s.drop (chunkSize - step) := by
  intro fuel
  induction fuel with
  | zero =>
    intro s hs
    obtain rfl := List.length_eq_zero_iff.mp (Nat.le_zero.mp hs)
    simp [chunkLoop]
  | succ fuel ih =>
    intro s hs
    rw [chunkLoop]
    by_cases hnil : s = []
    · rw [if_pos hnil, hnil]
      simp
    · rw [if_neg hnil]
      by_cases hshort : s.length ≤ chunkSize
      · simp [hshort]
      · have hpos := List.length_pos_of_ne_nil hnil
        have hrest := ih (s.drop step) (by rw [List.length_drop]; omega)
        have hsplit : step + (chunkSize - step) = chunkSize := by omega
        rw [if_neg hshort, List.map_cons, List.flatten_cons, hrest, List.drop_drop, hsplit]
        have hle' : chunkSize - step ≤ (s.take chunkSize).length := by
          rw [List.length_take]
          omega
        rw [← List.drop_append_of_le_length hle', List.take_append_drop]

theorem joinChunks_chunkLoop {size overlap : ℕ} (hlt : overlap < size) {text : List Char}
    (hlong : size < text.length) :
    VectorMemoryStore.joinChunks overlap (chunkLoop size (size - overlap) text.length text) =
      text := by
  obtain ⟨n, hlen⟩ : ∃ n, text.length = n + 1 := ⟨text.length - 1, by omega⟩
  have hnil : text ≠ [] := List.ne_nil_of_length_eq_add_one hlen
  have hrest := flatten_chunkLoop (show 0 < size - overlap by omega)
    (show size - overlap ≤ size by omega) n (text.drop (size - overlap))
    (by rw [List.length_drop]; omega)
  have hback : size - (size - overlap) = overlap := by omega
  have hsplit : size - overlap + overlap = size := by omega
  rw [hback, List.drop_drop, hsplit] at hrest
  have hparts : (chunkLoop size (size - overlap) n (text.drop (size - overlap))).map
      (VectorMemoryStore.newPart overlap) =
      (chunkLoop size (size - overlap) n (text.drop (size - overlap))).map (List.drop overlap) :=
    List.map_congr_left fun c _ => newPart_eq overlap c
  rw [hlen, chunkLoop, if_neg hnil, if_neg (by omega), VectorMemoryStore.joinChunks, hparts, hrest,
    List.take_append_drop]

/-- The chunks of a text are put together to the text. -/
theorem joinChunks_chunkText (text : List Char) (store : VectorMemoryStore) :
    VectorMemoryStore.joinChunks store.chunkOverlap
      (chunkText text store.chunkSize store.chunkOverlap) = text := by
  obtain ⟨chunkSize, chunkOverlap, hpos, hnonneg, hlt⟩ := store
  dsimp only
  lift chunkSize to ℕ using hpos.le
  lift chunkOverlap to ℕ using hnonneg
  rw [chunkText]
  by_cases hshort : (text.length : ℤ) ≤ chunkSize
  · rw [if_pos hshort]
    simp [VectorMemoryStore.joinChunks]
  · have hclamp : min (max (chunkOverlap : ℤ) 0) (chunkSize - 1) = chunkOverlap := by omega
    have hstep : ((chunkSize : ℤ) - chunkOverlap).toNat = chunkSize - chunkOverlap := by omega
    rw [if_neg hshort, if_neg (by omega)]
    simp only [hclamp, hstep, Int.toNat_natCast]
    exact joinChunks_chunkLoop (by omega) (by omega)

end Blackgeorge.Memory
