import Blackgeorge.Memory.SQLite
import Blackgeorge.Relational.Dictionary
import Blackgeorge.Systems.Runs

/-! The memory stores side by side: the dictionaries of the in-memory store, the rows of
SQLite and the chunks of the vector store, each against the values written last. -/

namespace Blackgeorge.Memory

open Data Json Relational Systems

/-! ### The stores -/

/-- What a search raises: an exception of `json` or of `str`, or the `ValueError` of a negative
`top_k`. -/
inductive SearchError where
  | json (e : JsonError)
  | topK

/-- `MemoryStore`. -/
structure MemoryStore (σ : Type) where
  write : σ → String → Value → String → Except JsonError σ
  read : σ → String → String → Except JsonError Value
  search : σ → String → String → Except SearchError (List (String × Value))
  reset : σ → String → σ

abbrev ScopeData := Dictionary String (Dictionary String Value)

namespace InMemoryMemoryStore

/-- `self._data.get(scope, {})`. -/
def dataOf (data : ScopeData) (scope : String) : Dictionary String Value :=
  (data.get scope).getD []

/-- `self._data.setdefault(scope, {})[key] = value`. -/
def write (data : ScopeData) (key : String) (value : Value) (scope : String) : ScopeData :=
  data.set scope ((dataOf data scope).set key value)

def read (data : ScopeData) (key scope : String) : Value := ((dataOf data scope).get key).getD .none

/-- `str(value)`, which has limits of its own but for a string. -/
def strOf (limits : Limits) (v : Value) : Except JsonError String :=
  if limits.nesting < Json.depthOf 0 v then .error .recursion
  else if limits.digits < Json.mostDigits v then .error .digits
  else .ok v.pyStr

/-- The loop of `search`: where the key has the query, the value is not looked at. -/
def searchItems (limits : Limits) (query : String) :
    List (String × Value) → Except JsonError (List (String × Value))
  | [] => .ok []
  | (key, value) :: items => do
    let found ← if Text.contains key query then .ok true
      else (Text.contains · query) <$> strOf limits value
    let matches' ← searchItems limits query items
    .ok (if found then (key, value) :: matches' else matches')

def search (limits : Limits) (data : ScopeData) (query scope : String) :
    Except JsonError (List (String × Value)) :=
  searchItems limits query (dataOf data scope)

def reset (data : ScopeData) (scope : String) : ScopeData := data.set scope []

def store (limits : Limits) : MemoryStore ScopeData where
  write data key value scope := .ok (write data key value scope)
  read data key scope := .ok (read data key scope)
  search data query scope := (search limits data query scope).mapError .json
  reset := reset

end InMemoryMemoryStore

namespace SQLiteMemoryStore

/-- The rows of a scope that hold the query, in whatever order `fetchall` has them. -/
def search (limits : Limits) (float : String → ℚ × String)
    (fetchall : List MemoryRow → List MemoryRow) (rows : List MemoryRow) (query scope : String) :
    Except JsonError (List (String × Value)) :=
  let found := (fetchall (rows.filter fun row => row.scope = scope)).filter fun row =>
    Text.contains row.key query || Text.contains row.value query
  found.mapM fun row => (row.key, ·) <$> Json.decode limits float row.value

/-- `DELETE FROM memories WHERE scope = ?`. -/
def reset (rows : List MemoryRow) (scope : String) : List MemoryRow :=
  rows.filter fun row => row.scope ≠ scope

def store (limits : Limits) (float : String → ℚ × String)
    (fetchall : List MemoryRow → List MemoryRow) : MemoryStore (List MemoryRow) where
  write := write limits
  read := read limits float
  search rows query scope := (search limits float fetchall rows query scope).mapError .json
  reset := reset

end SQLiteMemoryStore

namespace VectorMemoryStore

/-- The loop of `search` over the documents that the query found. -/
def searchLoop (read : String → Except JsonError Value) :
    List String → List Entry → Except JsonError (List (String × Value))
  | _, [] => .ok []
  | seenKeys, e :: es =>
    if e.key ∈ seenKeys then searchLoop read seenKeys es
    else do
      let value ← read e.key
      let matches' ← searchLoop read (e.key :: seenKeys) es
      .ok (if value.isNone then matches' else (e.key, value) :: matches')

/-- `DELETE` by the scope alone. -/
def reset (collection : Collection) (scope : String) : Collection :=
  collection.filter fun e => e.scope ≠ scope

end VectorMemoryStore

/-- A process that opened the vector memory: its configuration, and the answers the collection
gives to it. `get` finds all there is, in some order; `query` finds at most `n` of it. -/
structure Client where
  memory : VectorMemoryStore
  get : List Entry → List Entry
  query : String → ℕ → List Entry → List Entry
  get_perm : ∀ found, (get found).Perm found
  query_subset : ∀ text n found, query text n found ⊆ found
  query_length : ∀ text n found, (query text n found).length ≤ n

namespace Client

variable (client : Client) (limits : Limits) (float : String → ℚ × String)

/-- `search` with its `top_k`. -/
def search (topK : ℤ) (collection : Collection) (query scope : String) :
    Except SearchError (List (String × Value)) :=
  if topK < 0 then .error .topK
  else if topK = 0 then .ok []
  else
    let found := client.query query topK.toNat (collection.filter fun e => e.scope = scope)
    (VectorMemoryStore.searchLoop
      (fun key => client.memory.read limits float client.get collection key scope) [] found).mapError
        .json

def store : MemoryStore Collection where
  write := client.memory.write limits
  read := client.memory.read limits float client.get
  search := client.search limits float 5
  reset := VectorMemoryStore.reset

end Client

/-! ### Calls -/

inductive MemoryCall
  | write (key : String) (value : Value) (scope : String)
  | read (key scope : String)
  | reset (scope : String)

/-- What a call answers or raises; `write` and `reset` answer `None`, and what raises changes
nothing. -/
def MemoryStore.step {σ : Type} (store : MemoryStore σ) (s : σ) :
    MemoryCall → Option (Except JsonError Value × σ)
  | .write key value scope =>
    match store.write s key value scope with
    | .ok s' => some (.ok .none, s')
    | .error e => some (.error e, s)
  | .read key scope => some (store.read s key scope, s)
  | .reset scope => some (.ok .none, store.reset s scope)

/-- A JSON value within the limits. -/
structure Fits (limits : Limits) (float : String → ℚ × String) (v : Value) : Prop where
  json : Json.IsJson float v
  limits : limits.refuses v = none

theorem fits_none (limits : Limits) (float : String → ℚ × String) : Fits limits float .none :=
  ⟨trivial, refuses_none_iff.mpr ⟨limits.calls_pos, Nat.zero_le _, Nat.zero_le _⟩⟩

theorem fits_str (limits : Limits) (float : String → ℚ × String) (s : String) :
    Fits limits float (.str s) :=
  ⟨trivial, refuses_none_iff.mpr ⟨limits.calls_pos, Nat.zero_le _, Nat.zero_le _⟩⟩

theorem Fits.refuses {limits : Limits} {float : String → ℚ × String} {v : Value}
    (h : Fits limits float v) : limits.refuses v.toJsonValue = none := by
  rw [Value.toJsonValue_of_plain (Json.plain_of_isJson v h.json)]
  exact h.limits

theorem Fits.decode {limits : Limits} {float : String → ℚ × String} {v : Value}
    (h : Fits limits float v) : Json.decode limits float v.toJsonValue.dumps = .ok v :=
  Json.decode_encode h.json (Json.encode_of_refuses h.refuses)

/-- Only such values are written. -/
def MemoryCall.Fits (limits : Limits) (float : String → ℚ × String) : MemoryCall → Prop
  | .write _ value _ => Memory.Fits limits float value
  | _ => True

/-- A call by one of the processes that opened the vector memory. -/
def vectorStep (limits : Limits) (float : String → ℚ × String) (collection : Collection)
    (c : Client × MemoryCall) : Option (Except JsonError Value × Collection) :=
  (c.1.store limits float).step collection c.2

/-! ### The values written last -/

/-- The value each scope holds under each key. -/
abbrev Values := String → String → Option Value

namespace Values

def empty : Values := fun _ _ => none

def write (m : Values) (key : String) (value : Value) (scope : String) : Values := fun scope' key' =>
  if (scope', key') = (scope, key) then some value else m scope' key'

def reset (m : Values) (scope : String) : Values := fun scope' key' =>
  if scope' = scope then none else m scope' key'

def step (m : Values) : MemoryCall → Option (Value × Values)
  | .write key value scope => some (.none, m.write key value scope)
  | .read key scope => some ((m scope key).getD .none, m)
  | .reset scope => some (.none, m.reset scope)

variable {m : Values} {key scope key' scope' : String} {v : Value}

@[simp] theorem write_self : m.write key v scope scope key = some v := if_pos rfl

theorem write_other (h : (scope', key') ≠ (scope, key)) :
    m.write key v scope scope' key' = m scope' key' := if_neg h

@[simp] theorem reset_self : m.reset scope scope key = none := if_pos rfl

theorem reset_other (h : scope' ≠ scope) : m.reset scope scope' key = m scope' key := if_neg h

/-- Only JSON values within the limits are held. -/
def Fits (limits : Limits) (float : String → ℚ × String) (m : Values) : Prop :=
  ∀ scope key v, m scope key = some v → Memory.Fits limits float v

end Values

/-- What the vector memory reads of a value written to it. -/
def reread (limits : Limits) (float : String → ℚ × String) (v : Value) : Except JsonError Value :=
  deserializeValue limits float (valueText v)

theorem reread_eq {limits : Limits} {float : String → ℚ × String} {v : Value}
    (h : Fits limits float v) :
    reread limits float v = (serializeValue limits v >>= deserializeValue limits float) := by
  rw [serializeValue_of_refuses h.refuses]
  rfl

theorem reread_none (limits : Limits) (float : String → ℚ × String) :
    reread limits float .none = .ok .none :=
  deserializeValue_of_decode (fits_none limits float).decode

/-- What fits and is no string is read as it is. -/
theorem reread_of_not_str {limits : Limits} {float : String → ℚ × String} {v : Value}
    (h : Fits limits float v) (hstr : ∀ s, v ≠ .str s) : reread limits float v = .ok v := by
  rw [reread_eq h, reread_iff h.json, survives_of_not_str hstr]
  exact h.limits

/-- A store whose states hold the values written last, and which reads of each of them what
`seen` says. -/
structure Keeps {σ : Type} (limits : Limits) (float : String → ℚ × String) (store : MemoryStore σ)
    (Holds : σ → Values → Prop) (seen : Value → Except JsonError Value) : Prop where
  write : ∀ s m key v scope, Fits limits float v → Holds s m →
    ∃ s', store.write s key v scope = .ok s' ∧ Holds s' (m.write key v scope)
  read : ∀ s m key scope, m.Fits limits float → Holds s m →
    store.read s key scope = seen ((m scope key).getD .none)
  reset : ∀ s m scope, Holds s m → Holds (store.reset s scope) (m.reset scope)

variable {limits : Limits} {float : String → ℚ × String}

section Keeping

variable {σ : Type} {store : MemoryStore σ} {Holds : σ → Values → Prop}
  {seen : Value → Except JsonError Value}

/-- What a store answers to a call, beside what the values written last do. -/
theorem Keeps.step (h : Keeps limits float store Holds seen) (hnone : seen .none = .ok .none)
    {s : σ} {m : Values} (hfits : m.Fits limits float) (hholds : Holds s m) {c : MemoryCall}
    (hc : c.Fits limits float) :
    ∃ a m' s', m.step c = some (a, m') ∧ store.step s c = some (seen a, s') ∧
      Fits limits float a ∧ m'.Fits limits float ∧ Holds s' m' := by
  cases c with
  | write key v scope =>
    obtain ⟨s', hwrite, hholds'⟩ := h.write s m key v scope hc hholds
    refine ⟨.none, m.write key v scope, s', rfl, ?_, fits_none limits float, ?_, hholds'⟩
    · rw [MemoryStore.step, hwrite, hnone]
    · intro scope' key' w hw
      by_cases hat : (scope', key') = (scope, key)
      · obtain ⟨rfl, rfl⟩ := Prod.mk.inj hat
        rw [Values.write_self] at hw
        exact Option.some.inj hw ▸ hc
      · rw [Values.write_other hat] at hw
        exact hfits scope' key' w hw
  | read key scope =>
    refine ⟨(m scope key).getD .none, m, s, rfl, ?_, ?_, hfits, hholds⟩
    · rw [MemoryStore.step, h.read s m key scope hfits hholds]
    · cases hm : m scope key with
      | none => exact fits_none limits float
      | some v => exact hfits scope key v hm
  | reset scope =>
    refine ⟨.none, m.reset scope, store.reset s scope, rfl, ?_, fits_none limits float, ?_,
      h.reset s m scope hholds⟩
    · rw [MemoryStore.step, hnone]
    · intro scope' key' w hw
      by_cases hat : scope' = scope
      · rw [hat, Values.reset_self] at hw
        cases hw
      · rw [Values.reset_other hat] at hw
        exact hfits scope' key' w hw

end Keeping

/-! ### The in-memory store -/

namespace InMemoryMemoryStore

/-- Each scope has each key once, with the value it holds. -/
def Holds (data : ScopeData) (m : Values) : Prop :=
  ∀ scope, (dataOf data scope).keys.Nodup ∧ ∀ key, (dataOf data scope).get key = m scope key

theorem dataOf_set_self (data : ScopeData) (scope : String) (inner : Dictionary String Value) :
    dataOf (data.set scope inner) scope = inner := by
  rw [dataOf, Dictionary.get_set_self, Option.getD_some]

theorem dataOf_set_of_ne (data : ScopeData) {scope scope' : String} (h : scope' ≠ scope)
    (inner : Dictionary String Value) :
    dataOf (data.set scope inner) scope' = dataOf data scope' := by
  rw [dataOf, Dictionary.get_set_of_ne data h, dataOf]

theorem holds_write {data : ScopeData} {m : Values} (h : Holds data m) (key : String) (v : Value)
    (scope : String) : Holds (write data key v scope) (m.write key v scope) := by
  intro scope'
  by_cases hscope : scope' = scope
  · subst hscope
    have hset : dataOf (write data key v scope') scope' = (dataOf data scope').set key v :=
      dataOf_set_self data scope' _
    rw [hset]
    refine ⟨Dictionary.nodup_keys_set (h scope').1 key v, fun key' => ?_⟩
    by_cases hkey : key' = key
    · rw [hkey, Dictionary.get_set_self, Values.write_self]
    · rw [Dictionary.get_set_of_ne _ hkey, Values.write_other (by simp [hkey]), (h scope').2]
  · have hset : dataOf (write data key v scope) scope' = dataOf data scope' :=
      dataOf_set_of_ne data hscope _
    rw [hset]
    refine ⟨(h scope').1, fun key' => ?_⟩
    rw [Values.write_other (by simp [hscope]), (h scope').2]

theorem holds_reset {data : ScopeData} {m : Values} (h : Holds data m) (scope : String) :
    Holds (reset data scope) (m.reset scope) := by
  intro scope'
  by_cases hscope : scope' = scope
  · subst hscope
    have hset : dataOf (reset data scope') scope' = [] := dataOf_set_self data scope' _
    rw [hset]
    exact ⟨List.nodup_nil, fun key => Values.reset_self.symm⟩
  · have hset : dataOf (reset data scope) scope' = dataOf data scope' :=
      dataOf_set_of_ne data hscope _
    rw [hset]
    refine ⟨(h scope').1, fun key' => ?_⟩
    rw [Values.reset_other hscope, (h scope').2]

theorem keeps : Keeps limits float (store limits) Holds .ok where
  write data m key v scope _ h := ⟨_, rfl, holds_write h key v scope⟩
  read data m key scope _ h := by
    change Except.ok (((dataOf data scope).get key).getD .none) = _
    rw [(h scope).2]
  reset data m scope h := holds_reset h scope

end InMemoryMemoryStore

/-! ### The SQLite store -/

namespace SQLiteMemoryStore

/-- Each scope and key have one row, with the text of the value they hold. -/
structure Holds (rows : List MemoryRow) (m : Values) : Prop where
  unique : (rows.map fun row => (row.scope, row.key)).Nodup
  find : ∀ scope key, rows.find? (MemoryRow.isAt scope key) =
    (m scope key).map fun v => ⟨scope, key, v.toJsonValue.dumps⟩

theorem isAt_iff {scope key : String} {row : MemoryRow} :
    row.isAt scope key = true ↔ (row.scope, row.key) = (scope, key) := by
  simp [MemoryRow.isAt]

theorem unique_put {rows : List MemoryRow}
    (h : (rows.map fun row => (row.scope, row.key)).Nodup) (key payload scope : String) :
    ((put rows key payload scope).map fun row => (row.scope, row.key)).Nodup := by
  rw [put]
  by_cases hany : rows.any (MemoryRow.isAt scope key) = true
  · rw [if_pos hany, List.map_map]
    convert h using 2
    funext row
    rw [Function.comp_apply]
    split <;> rfl
  · rw [if_neg hany, List.map_append, List.nodup_append]
    refine ⟨h, List.nodup_singleton _, ?_⟩
    rintro a ha b hb rfl
    obtain ⟨row, hrow, rfl⟩ := List.mem_map.mp ha
    have hat : row.isAt scope key = true := isAt_iff.mpr (by simpa using hb)
    exact hany (List.any_eq_true.mpr ⟨row, hrow, hat⟩)

theorem find_reset_self (rows : List MemoryRow) (scope key : String) :
    (reset rows scope).find? (MemoryRow.isAt scope key) = none := by
  rw [List.find?_eq_none]
  intro row hrow hat
  have hne : row.scope ≠ scope := by simpa using (List.mem_filter.mp hrow).2
  exact hne (Prod.mk.inj (isAt_iff.mp hat)).1

theorem find_reset_other (rows : List MemoryRow) {scope scope' : String} (h : scope' ≠ scope)
    (key : String) :
    (reset rows scope).find? (MemoryRow.isAt scope' key) =
      rows.find? (MemoryRow.isAt scope' key) := by
  rw [reset, List.find?_filter]
  congr 1
  funext row
  by_cases hat : row.isAt scope' key = true
  · have hne : row.scope ≠ scope := by rwa [(Prod.mk.inj (isAt_iff.mp hat)).1]
    simp [hat, hne]
  · simp [hat]

theorem holds_put {rows : List MemoryRow} {m : Values} (h : Holds rows m) (key : String) (v : Value)
    (scope : String) : Holds (put rows key v.toJsonValue.dumps scope) (m.write key v scope) := by
  refine ⟨unique_put h.unique key _ scope, fun scope' key' => ?_⟩
  by_cases hat : (scope', key') = (scope, key)
  · obtain ⟨rfl, rfl⟩ := Prod.mk.inj hat
    rw [find_put, Values.write_self, Option.map_some]
  · rw [find_put_other _ hat, Values.write_other hat, h.find]

theorem keeps (fetchall : List MemoryRow → List MemoryRow) :
    Keeps limits float (store limits float fetchall) Holds .ok where
  write rows m key v scope hv h := by
    refine ⟨_, ?_, holds_put h key v scope⟩
    change write limits rows key v scope = _
    rw [write, Json.encode_of_refuses hv.refuses]
    rfl
  read rows m key scope hfits h := by
    change read limits float rows key scope = _
    rw [read, h.find]
    cases hm : m scope key with
    | none => rfl
    | some v => exact (hfits scope key v hm).decode
  reset rows m scope h := by
    refine ⟨(List.filter_sublist.map _).nodup h.unique, fun scope' key => ?_⟩
    change (reset rows scope).find? _ = _
    by_cases hat : scope' = scope
    · rw [hat, find_reset_self, Values.reset_self, Option.map_none]
    · rw [find_reset_other rows hat, Values.reset_other hat, h.find]

end SQLiteMemoryStore

/-! ### The vector store -/

namespace VectorMemoryStore

/-- The documents found under a scope and a key are the chunks of the value held there, cut as
the store that wrote them was configured. -/
def HoldsAt (scope key : String) (found : List Entry) : Option Value → Prop
  | none => found = []
  | some v => ∃ writer : VectorMemoryStore, found = writer.entriesOf scope key
      (chunkText (valueText v).toList writer.chunkSize writer.chunkOverlap)

def Holds (collection : Collection) (m : Values) : Prop :=
  ∀ scope key, HoldsAt scope key (collection.filter (Entry.isAt scope key)) (m scope key)

theorem read_congr (reader : VectorMemoryStore) (get : List Entry → List Entry)
    {collection collection' : Collection} {key scope : String}
    (h : collection.filter (Entry.isAt scope key) = collection'.filter (Entry.isAt scope key)) :
    reader.read limits float get collection key scope =
      reader.read limits float get collection' key scope := by
  rw [read, read, fullText, fullText, h]

theorem read_of_filter_nil (reader : VectorMemoryStore) {get : List Entry → List Entry}
    (hget : ∀ found, (get found).Perm found) {collection : Collection} {key scope : String}
    (h : collection.filter (Entry.isAt scope key) = []) :
    reader.read limits float get collection key scope = .ok .none := by
  have hnil : get [] = [] := List.perm_nil.mp (hget [])
  rw [read, fullText, h, hnil, List.mergeSort_nil]
  rfl

/-- A collection that holds the chunks of a value reads as one in which it was just written. -/
theorem read_of_filter_entriesOf (writer reader : VectorMemoryStore)
    {get : List Entry → List Entry} (hget : ∀ found, (get found).Perm found)
    {collection : Collection} {key scope : String} {v : Value}
    (h : collection.filter (Entry.isAt scope key) = writer.entriesOf scope key
      (chunkText (valueText v).toList writer.chunkSize writer.chunkOverlap)) :
    reader.read limits float get collection key scope = reread limits float v := by
  rw [read_congr reader get (h.trans (writer.filter_put [] key (valueText v) scope).symm)]
  exact writer.read_put reader hget [] key (valueText v) scope

theorem Holds.read {collection : Collection} {m : Values} (h : Holds collection m)
    (client : Client) (key scope : String) :
    client.memory.read limits float client.get collection key scope =
      reread limits float ((m scope key).getD .none) := by
  have hat := h scope key
  cases hm : m scope key with
  | none =>
    rw [hm] at hat
    rw [read_of_filter_nil client.memory client.get_perm hat]
    exact (reread_none limits float).symm
  | some v =>
    rw [hm] at hat
    obtain ⟨writer, hfilter⟩ := hat
    exact read_of_filter_entriesOf writer client.memory client.get_perm hfilter

theorem filter_reset_self (collection : Collection) (scope key : String) :
    (reset collection scope).filter (Entry.isAt scope key) = [] := by
  rw [reset, List.filter_filter, List.filter_eq_nil_iff]
  intro e _
  simp +contextual [Entry.isAt]

theorem filter_reset_other (collection : Collection) {scope scope' : String} (h : scope' ≠ scope)
    (key : String) :
    (reset collection scope).filter (Entry.isAt scope' key) =
      collection.filter (Entry.isAt scope' key) := by
  rw [reset, List.filter_filter]
  apply List.filter_congr
  intro e _
  by_cases hat : e.scope = scope'
  · simp [hat, h]
  · simp [Entry.isAt, hat]

theorem holds_put {collection : Collection} {m : Values} (h : Holds collection m)
    (writer : VectorMemoryStore) (key : String) (v : Value) (scope : String) :
    Holds (writer.put collection key (valueText v) scope) (m.write key v scope) := by
  intro scope' key'
  by_cases hat : (scope', key') = (scope, key)
  · obtain ⟨rfl, rfl⟩ := Prod.mk.inj hat
    rw [Values.write_self]
    exact ⟨writer, writer.filter_put collection key' (valueText v) scope'⟩
  · rw [Values.write_other hat, writer.filter_put_other (valueText v) hat]
    exact h scope' key'

theorem keeps (client : Client) :
    Keeps limits float (client.store limits float) Holds (reread limits float) where
  write collection m key v scope hv h := by
    refine ⟨_, ?_, holds_put h client.memory key v scope⟩
    change client.memory.write limits collection key v scope = _
    rw [write, serializeValue_of_refuses hv.refuses]
    rfl
  read collection m key scope _ h := h.read client key scope
  reset collection m scope h scope' key := by
    change HoldsAt scope' key ((reset collection scope).filter (Entry.isAt scope' key)) _
    by_cases hat : scope' = scope
    · rw [hat, Values.reset_self]
      exact filter_reset_self collection scope key
    · rw [Values.reset_other hat, filter_reset_other collection hat]
      exact h scope' key

end VectorMemoryStore

/-! ### The same calls on all three -/

section Calls

variable {σ Call : Type} (step : σ → Call → Option (Except JsonError Value × σ))
  (call : Call → MemoryCall) {Holds : σ → Values → Prop} {seen : Value → Except JsonError Value}

/-- A memory of which every call goes to a store that keeps the values written last answers any
calls as these values do, up to what is read of a value. -/
theorem answers_of_keeps
    (hstep : ∀ s c, ∃ store, Keeps limits float store Holds seen ∧
      step s c = store.step s (call c))
    (hnone : seen .none = .ok .none) {s : σ} (hstart : Holds s Values.empty) {calls : List Call}
    (hcalls : ∀ c ∈ calls, (call c).Fits limits float) :
    ∃ as m s', answers Values.step Values.empty (calls.map call) = some (as, m) ∧
      answers step s calls = some (as.map seen, s') ∧
      (∀ a ∈ as, Fits limits float a) ∧ m.Fits limits float ∧ Holds s' m := by
  have hsame : List.Forall₂ (fun c c' => c = call c' ∧ c.Fits limits float) (calls.map call)
      calls := by
    rw [List.forall₂_map_left_iff, List.forall₂_same]
    exact fun c hc => ⟨rfl, hcalls c hc⟩
  have hone : ∀ (m : Values) s c c', m.Fits limits float ∧ Holds s m →
      c = call c' ∧ c.Fits limits float →
      ∃ a a' m' s', m.step c = some (a, m') ∧ step s c' = some (a', s') ∧
        (a' = seen a ∧ Fits limits float a) ∧ m'.Fits limits float ∧ Holds s' m' := by
    rintro m s c c' ⟨hfits, hholds⟩ ⟨rfl, hc⟩
    obtain ⟨store, hkeeps, heq⟩ := hstep s c'
    obtain ⟨a, m', s', hm, hs, ha, hfits', hholds'⟩ := hkeeps.step hnone hfits hholds hc
    exact ⟨a, seen a, m', s', hm, heq.trans hs, ⟨rfl, ha⟩, hfits', hholds'⟩
  have hempty : Values.empty.Fits limits float := fun _ _ _ h => by cases h
  obtain ⟨as, as', m, s', hm, hs, has, hfits, hholds⟩ :=
    answers_of_simulation hone hsame ⟨hempty, hstart⟩
  have hmap : as' = as.map seen := by
    clear hm hs
    induction has with
    | nil => rfl
    | cons ha _ ih => rw [ha.1, ih, List.map_cons]
  have hall : ∀ a ∈ as, Fits limits float a := by
    clear hm hs hmap
    induction has with
    | nil => exact fun a ha => absurd ha List.not_mem_nil
    | cons ha _ ih => exact List.forall_mem_cons.mpr ⟨ha.2, ih⟩
  exact ⟨as, m, s', hm, hmap ▸ hs, hall, hfits, hholds⟩

end Calls

section Agreement

variable (fetchall : List MemoryRow → List MemoryRow) {calls : List (Client × MemoryCall)}

/-- The states the three stores reach by the same calls. -/
theorem exists_states (hcalls : ∀ c ∈ calls, c.2.Fits limits float) :
    ∃ as m data rows collection,
      answers Values.step Values.empty (calls.map Prod.snd) = some (as, m) ∧
      answers (InMemoryMemoryStore.store limits).step [] (calls.map Prod.snd) =
        some (as.map .ok, data) ∧
      answers (SQLiteMemoryStore.store limits float fetchall).step [] (calls.map Prod.snd) =
        some (as.map .ok, rows) ∧
      answers (vectorStep limits float) [] calls = some (as.map (reread limits float), collection) ∧
      (∀ a ∈ as, Fits limits float a) ∧ m.Fits limits float ∧ InMemoryMemoryStore.Holds data m ∧
      SQLiteMemoryStore.Holds rows m ∧ VectorMemoryStore.Holds collection m := by
  have hsnd : ∀ c ∈ calls.map Prod.snd, (id c).Fits limits float := by
    intro c hc
    obtain ⟨c', hc', rfl⟩ := List.mem_map.mp hc
    exact hcalls c' hc'
  obtain ⟨as, m, data, hm, hdata, has, hfits, hheld⟩ :=
    answers_of_keeps (InMemoryMemoryStore.store limits).step id
      (fun s c => ⟨_, InMemoryMemoryStore.keeps, rfl⟩) rfl (s := [])
      (fun scope => ⟨List.nodup_nil, fun key => rfl⟩) hsnd
  obtain ⟨as₁, m₁, rows, hm₁, hrows, -, -, hheld₁⟩ :=
    answers_of_keeps (SQLiteMemoryStore.store limits float fetchall).step id
      (fun s c => ⟨_, SQLiteMemoryStore.keeps fetchall, rfl⟩) rfl (s := [])
      ⟨List.nodup_nil, fun scope key => rfl⟩ hsnd
  obtain ⟨as₂, m₂, collection, hm₂, hcollection, -, -, hheld₂⟩ :=
    answers_of_keeps (vectorStep limits float) Prod.snd
      (fun s c => ⟨_, VectorMemoryStore.keeps c.1, rfl⟩) (reread_none limits float) (s := [])
      (fun scope key => rfl) hcalls
  rw [List.map_id] at hm hm₁
  obtain ⟨rfl, rfl⟩ := Prod.mk.inj (Option.some.inj (hm.symm.trans hm₁))
  obtain ⟨rfl, rfl⟩ := Prod.mk.inj (Option.some.inj (hm.symm.trans hm₂))
  exact ⟨as, m, data, rows, collection, hm, hdata, hrows, hcollection, has, hfits, hheld, hheld₁,
    hheld₂⟩

/-- Whatever is written within the limits of `json`, read and reset, the in-memory and the
SQLite store give the same answers, and the vector store gives them too unless one of them is
a string for which `json.loads` has no `JSONDecodeError`: there it answers what the text is read
as, or raises. -/
theorem memories_agree (hcalls : ∀ c ∈ calls, c.2.Fits limits float) :
    ∃ as : List Value,
      (answers (InMemoryMemoryStore.store limits).step [] (calls.map Prod.snd)).map Prod.fst =
        some (as.map .ok) ∧
      (answers (SQLiteMemoryStore.store limits float fetchall).step []
        (calls.map Prod.snd)).map Prod.fst = some (as.map .ok) ∧
      (answers (vectorStep limits float) [] calls).map Prod.fst =
        some (as.map (reread limits float)) ∧
      (as.map (reread limits float) = as.map .ok ↔
        ∀ s, Value.str s ∈ as → Json.decode limits float s = .error .decode) := by
  obtain ⟨as, m, data, rows, collection, -, hdata, hrows, hcollection, has, -, -, -, -⟩ :=
    exists_states fetchall hcalls
  refine ⟨as, by rw [hdata]; rfl, by rw [hrows]; rfl, by rw [hcollection]; rfl, ?_⟩
  rw [List.map_inj_left]
  constructor
  · intro hself s hs
    exact (deserializeValue_str s).mp (hself _ hs)
  · intro htexts v hv
    by_cases hstr : ∃ s, v = .str s
    · obtain ⟨s, rfl⟩ := hstr
      exact (deserializeValue_str s).mpr (htexts s hv)
    · exact reread_of_not_str (has v hv) fun s hs => hstr ⟨s, hs⟩

end Agreement

/-- A process to which the collection answers in reverse order. -/
def reversing (chunkSize chunkOverlap : ℤ) : Client where
  memory := .init chunkSize chunkOverlap
  get := List.reverse
  query _ n found := found.take n
  get_perm := List.reverse_perm
  query_subset _ n found := List.take_subset n found
  query_length _ n found := List.length_take_le n found

/-- The string `12` is read back by all but the vector store, which reads the number. -/
theorem memories_agree_number :
    (answers (SQLiteMemoryStore.store defaultLimits Json.noFloats id).step []
      [.write "k" (.str "12") "s", .read "k" "s"]).map Prod.fst =
        some [.ok .none, .ok (.str "12")] ∧
    (answers (vectorStep defaultLimits Json.noFloats) []
      [(reversing 1 0, .write "k" (.str "12") "s"), (reversing 8000 200, .read "k" "s")]).map
        Prod.fst = some [.ok .none, .ok (.int 12)] := by
  have hcalls : ∀ c ∈ [(reversing 1 0, MemoryCall.write "k" (.str "12") "s"),
      (reversing 8000 200, .read "k" "s")], c.2.Fits defaultLimits Json.noFloats := by
    simp [MemoryCall.Fits, fits_str]
  obtain ⟨as, hdata, hrows, hcollection, -⟩ := memories_agree id hcalls
  have has : [.none, .str "12"] = as :=
    List.map_injective_iff.mpr (fun _ _ => Except.ok.inj) (Option.some.inj hdata)
  subst has
  exact ⟨hrows, hcollection⟩

/-! ### Searching -/

namespace InMemoryMemoryStore

theorem strOf_of_fits {v : Value} (h : Fits limits float v) : strOf limits v = .ok v.pyStr := by
  obtain ⟨-, hdepth, hdigits⟩ := refuses_none_iff.mp h.limits
  rw [strOf, if_neg (by omega), if_neg (by omega)]

/-- Among values within the limits the loop raises nothing. -/
theorem searchItems_eq (query : String) : ∀ {items : List (String × Value)},
    (∀ p ∈ items, Fits limits float p.2) → searchItems limits query items =
      .ok (items.filter fun p => Text.contains p.1 query || Text.contains p.2.pyStr query)
  | [], _ => rfl
  | (key, value) :: items, h => by
    have hrest := searchItems_eq query fun p hp => h p (List.mem_cons_of_mem _ hp)
    have hstr := strOf_of_fits (h (key, value) List.mem_cons_self)
    rw [searchItems, hrest, hstr, List.filter_cons]
    by_cases hkey : Text.contains key query = true
    · simp [hkey, bind, Except.bind]
    · simp [hkey, bind, Except.bind, Functor.map, Except.map]

theorem mem_dataOf {data : ScopeData} {m : Values} (h : Holds data m) {scope key : String}
    {v : Value} : (key, v) ∈ dataOf data scope ↔ m scope key = some v := by
  rw [← (h scope).2 key]
  exact ⟨Dictionary.get_of_mem (h scope).1, Dictionary.mem_of_get⟩

/-- The search finds every key of the scope once if its name or its value's `str` holds the
query. -/
theorem exists_search {data : ScopeData} {m : Values} (h : Holds data m)
    (hfits : m.Fits limits float) (query scope : String) :
    ∃ found, search limits data query scope = .ok found ∧ (found.map Prod.fst).Nodup ∧
      ∀ key v, (key, v) ∈ found ↔ m scope key = some v ∧
        (Text.contains key query || Text.contains v.pyStr query) = true := by
  refine ⟨_, searchItems_eq query fun p hp => hfits scope p.1 p.2 ((mem_dataOf h).mp hp),
    (List.filter_sublist.map _).nodup (h scope).1, fun key v => ?_⟩
  rw [List.mem_filter, mem_dataOf h]

end InMemoryMemoryStore

namespace SQLiteMemoryStore

/-- A row is the one of its scope and key, and has the text of the value they hold. -/
theorem Holds.mem_iff {rows : List MemoryRow} {m : Values} (h : Holds rows m) (row : MemoryRow) :
    row ∈ rows ↔ ∃ v, m row.scope row.key = some v ∧ row.value = v.toJsonValue.dumps := by
  have hfind : row ∈ rows ↔ rows.find? (MemoryRow.isAt row.scope row.key) = some row := by
    constructor
    · intro hrow
      obtain ⟨found, hfound⟩ : ∃ found, rows.find? (MemoryRow.isAt row.scope row.key) = some found :=
        Option.isSome_iff_exists.mp (List.find?_isSome.mpr ⟨row, hrow, isAt_iff.mpr rfl⟩)
      have hat := isAt_iff.mp (List.find?_some hfound)
      rw [hfound, List.inj_on_of_nodup_map h.unique (List.mem_of_find?_eq_some hfound) hrow hat]
    · exact List.mem_of_find?_eq_some
  rw [hfind, h.find]
  cases hm : m row.scope row.key with
  | none => simp
  | some v =>
    obtain ⟨scope, key, value⟩ := row
    simp [eq_comm]

/-- The rows that `search` reads are all read. -/
theorem mapM_decode {rows : List MemoryRow} {m : Values} (h : Holds rows m)
    (hfits : m.Fits limits float) {scope : String} : ∀ {found : List MemoryRow},
      (∀ row ∈ found, row ∈ rows ∧ row.scope = scope) →
      (found.mapM fun row => (row.key, ·) <$> Json.decode limits float row.value) =
        .ok (found.map fun row => (row.key, (m scope row.key).getD .none)) := by
  intro found hfound
  induction found with
  | nil => rfl
  | cons row found ih =>
    obtain ⟨hrow, rfl⟩ := hfound row List.mem_cons_self
    obtain ⟨v, hv, hvalue⟩ := (h.mem_iff row).mp hrow
    have hdecode : Json.decode limits float row.value = .ok v := by
      rw [hvalue, (hfits _ _ v hv).decode]
    rw [List.mapM_cons, hdecode, ih fun r hr => hfound r (List.mem_cons_of_mem _ hr), List.map_cons,
      hv]
    rfl

/-- The search reads every row it finds, and finds every key of the scope once if its name or
the text of its value holds the query. -/
theorem exists_search {fetchall : List MemoryRow → List MemoryRow}
    (hfetchall : ∀ found, (fetchall found).Perm found) {rows : List MemoryRow} {m : Values}
    (h : Holds rows m) (hfits : m.Fits limits float) (query scope : String) :
    ∃ found, search limits float fetchall rows query scope = .ok found ∧
      (found.map Prod.fst).Nodup ∧
      ∀ key v, (key, v) ∈ found ↔ m scope key = some v ∧
        (Text.contains key query || Text.contains v.toJsonValue.dumps query) = true := by
  set found := (fetchall (rows.filter fun row => row.scope = scope)).filter fun row =>
    Text.contains row.key query || Text.contains row.value query with hfound
  have hmem : ∀ row, row ∈ found ↔ (row ∈ rows ∧ row.scope = scope) ∧
      (Text.contains row.key query || Text.contains row.value query) = true := by
    intro row
    rw [hfound, List.mem_filter, (hfetchall _).mem_iff, List.mem_filter, decide_eq_true_iff]
  have hread := mapM_decode h hfits fun row hrow => ((hmem row).mp hrow).1
  refine ⟨_, hread, ?_, ?_⟩
  · have hperm : (found.map fun row => (row.scope, row.key)).Nodup := by
      refine (List.filter_sublist.map _).nodup ?_
      rw [((hfetchall _).map _).nodup_iff]
      exact (List.filter_sublist.map _).nodup h.unique
    have hscope : (found.map fun row => (row.scope, row.key)) =
        (found.map MemoryRow.key).map (scope, ·) := by
      rw [List.map_map]
      exact List.map_congr_left fun row hrow => by
        rw [Function.comp_apply, ((hmem row).mp hrow).1.2]
    rw [hscope] at hperm
    rw [List.map_map]
    exact hperm.of_map
  · intro key v
    constructor
    · intro hin
      obtain ⟨row, hrow, heq⟩ := List.mem_map.mp hin
      obtain ⟨rfl, rfl⟩ := Prod.mk.inj heq
      obtain ⟨⟨hrows, rfl⟩, hquery⟩ := (hmem row).mp hrow
      obtain ⟨w, hw, hvalue⟩ := (h.mem_iff row).mp hrows
      rw [hw, Option.getD_some, ← hvalue]
      exact ⟨rfl, hquery⟩
    · rintro ⟨hv, hquery⟩
      refine List.mem_map.mpr ⟨⟨scope, key, v.toJsonValue.dumps⟩, ?_, ?_⟩
      · exact (hmem _).mpr ⟨⟨(h.mem_iff _).mpr ⟨v, hv, rfl⟩, rfl⟩, hquery⟩
      · rw [hv, Option.getD_some]

end SQLiteMemoryStore

namespace VectorMemoryStore

theorem searchLoop_keys (read : String → Except JsonError Value) :
    ∀ (seenKeys : List String) (es : List Entry) {found : List (String × Value)},
      searchLoop read seenKeys es = .ok found →
      (found.map Prod.fst).Nodup ∧ found.length ≤ es.length ∧
      ∀ p ∈ found, p.1 ∉ seenKeys ∧ (∃ e ∈ es, e.key = p.1) ∧ read p.1 = .ok p.2 ∧ p.2 ≠ .none := by
  intro seenKeys es
  induction es generalizing seenKeys with
  | nil =>
    intro found h
    obtain rfl := Except.ok.inj h
    exact ⟨List.nodup_nil, le_rfl, fun p hp => absurd hp List.not_mem_nil⟩
  | cons e es ih =>
    intro found h
    rw [searchLoop] at h
    split_ifs at h with hseen
    · obtain ⟨hnodup, hlen, hall⟩ := ih seenKeys h
      refine ⟨hnodup, Nat.le_succ_of_le hlen, fun p hp => ?_⟩
      obtain ⟨hnew, ⟨e', he', hkey⟩, hread⟩ := hall p hp
      exact ⟨hnew, ⟨e', List.mem_cons_of_mem _ he', hkey⟩, hread⟩
    · obtain ⟨value, hvalue, h⟩ := ok_of_bind h
      obtain ⟨rest, hloop, h⟩ := ok_of_bind h
      obtain rfl := Except.ok.inj h
      obtain ⟨hnodup, hlen, hall⟩ := ih (e.key :: seenKeys) hloop
      have hrest : ∀ p ∈ rest, p.1 ≠ e.key ∧ p.1 ∉ seenKeys ∧
          (∃ e' ∈ e :: es, e'.key = p.1) ∧ read p.1 = .ok p.2 ∧ p.2 ≠ .none := by
        intro p hp
        obtain ⟨hnew, ⟨e', he', hkey⟩, hread⟩ := hall p hp
        rw [List.mem_cons, not_or] at hnew
        exact ⟨hnew.1, hnew.2, ⟨e', List.mem_cons_of_mem _ he', hkey⟩, hread⟩
      split_ifs with hnone
      · exact ⟨hnodup, Nat.le_succ_of_le hlen, fun p hp => (hrest p hp).2⟩
      · have hne : value ≠ .none := by
          rintro rfl
          exact hnone rfl
        refine ⟨?_, Nat.succ_le_succ hlen, ?_⟩
        · rw [List.map_cons, List.nodup_cons]
          refine ⟨fun hin => ?_, hnodup⟩
          obtain ⟨p, hp, hkey⟩ := List.mem_map.mp hin
          exact (hrest p hp).1 hkey
        · rw [List.forall_mem_cons]
          exact ⟨⟨hseen, ⟨e, List.mem_cons_self, rfl⟩, hvalue, hne⟩, fun p hp => (hrest p hp).2⟩

/-- The loop raises only what the read of a key it comes to raises. -/
theorem searchLoop_error (read : String → Except JsonError Value) {error : JsonError} :
    ∀ (seenKeys : List String) (es : List Entry), searchLoop read seenKeys es = .error error →
      ∃ e ∈ es, read e.key = .error error := by
  intro seenKeys es
  induction es generalizing seenKeys with
  | nil =>
    intro h
    cases h
  | cons e es ih =>
    intro h
    rw [searchLoop] at h
    split_ifs at h with hseen
    · obtain ⟨e', he', hread⟩ := ih seenKeys h
      exact ⟨e', List.mem_cons_of_mem _ he', hread⟩
    · cases hread : read e.key with
      | error error' =>
        rw [hread] at h
        obtain rfl := Except.error.inj h
        exact ⟨e, List.mem_cons_self, hread⟩
      | ok value =>
        rw [hread] at h
        cases hloop : searchLoop read (e.key :: seenKeys) es with
        | error error' =>
          rw [hloop] at h
          obtain rfl := Except.error.inj h
          obtain ⟨e', he', hread'⟩ := ih (e.key :: seenKeys) hloop
          exact ⟨e', List.mem_cons_of_mem _ he', hread'⟩
        | ok rest =>
          rw [hloop] at h
          cases h

end VectorMemoryStore

/-- A key whose string `json.loads` does not refuse with a `JSONDecodeError`. -/
def Values.Raises (limits : Limits) (float : String → ℚ × String) (m : Values) (scope : String)
    (e : JsonError) : Prop :=
  ∃ key s, m scope key = some (.str s) ∧ Json.decode limits float s = .error e ∧ e ≠ .decode

theorem reread_error {v : Value} (h : Fits limits float v) {e : JsonError}
    (he : reread limits float v = .error e) :
    ∃ s, v = .str s ∧ Json.decode limits float s = .error e ∧ e ≠ .decode := by
  by_cases hstr : ∃ s, v = .str s
  · obtain ⟨s, rfl⟩ := hstr
    refine ⟨s, rfl, ?_⟩
    change deserializeValue limits float s = .error e at he
    unfold deserializeValue at he
    cases hs : Json.decode limits float s with
    | ok w =>
      rw [hs] at he
      cases he
    | error e' =>
      rw [hs] at he
      cases e' <;> cases he <;> exact ⟨rfl, by decide⟩
  · rw [reread_of_not_str h fun s hs => hstr ⟨s, hs⟩] at he
    cases he

/-- A search of the vector memory finds at most `top_k` keys of the scope, each once and with
what a read of it gives; or it raises what the read of a string of the scope raises. -/
theorem Client.exists_search (client : Client) {collection : Collection} {m : Values}
    (h : VectorMemoryStore.Holds collection m) (hfits : m.Fits limits float) {topK : ℤ}
    (htop : 0 ≤ topK) (query scope : String) :
    (∃ found, client.search limits float topK collection query scope = .ok found ∧
      (found.map Prod.fst).Nodup ∧ (found.length : ℤ) ≤ topK ∧
      ∀ key w, (key, w) ∈ found →
        w ≠ .none ∧ ∃ v, m scope key = some v ∧ reread limits float v = .ok w) ∨
    ∃ e, client.search limits float topK collection query scope = .error (.json e) ∧
      m.Raises limits float scope e := by
  rw [search, if_neg (not_lt.mpr htop)]
  by_cases hzero : topK = 0
  · rw [if_pos hzero]
    exact .inl ⟨[], rfl, List.nodup_nil, htop, fun key w hw => absurd hw List.not_mem_nil⟩
  · rw [if_neg hzero]
    dsimp only
    set docs := client.query query topK.toNat (collection.filter fun e => e.scope = scope)
    have hdocs : docs.length ≤ topK.toNat := client.query_length _ _ _
    cases hloop : VectorMemoryStore.searchLoop
        (fun key => client.memory.read limits float client.get collection key scope) [] docs with
    | error e =>
      obtain ⟨entry, -, hread⟩ := VectorMemoryStore.searchLoop_error _ _ _ hloop
      refine .inr ⟨e, rfl, entry.key, ?_⟩
      have hreread := (h.read client entry.key scope).symm.trans hread
      cases hm : m scope entry.key with
      | none =>
        rw [hm, Option.getD_none, reread_none] at hreread
        cases hreread
      | some v =>
        rw [hm, Option.getD_some] at hreread
        obtain ⟨s, rfl, hs⟩ := reread_error (hfits scope entry.key v hm) hreread
        exact ⟨s, rfl, hs⟩
    | ok found =>
      obtain ⟨hnodup, hlen, hall⟩ := VectorMemoryStore.searchLoop_keys _ _ _ hloop
      refine .inl ⟨found, rfl, hnodup, by omega, fun key w hw => ?_⟩
      obtain ⟨-, -, hread, hne⟩ := hall (key, w) hw
      have hreread := (h.read client key scope).symm.trans hread
      refine ⟨hne, ?_⟩
      cases hm : m scope key with
      | none =>
        rw [hm, Option.getD_none, reread_none] at hreread
        exact absurd (Except.ok.inj hreread).symm hne
      | some v =>
        rw [hm] at hreread
        exact ⟨v, rfl, hreread⟩

section Searches

variable {fetchall : List MemoryRow → List MemoryRow} {calls : List (Client × MemoryCall)}

/-- After the same calls, a search answers nothing but what the scope holds, each key once: the
in-memory store what has the query in its key or in its `str`, the SQLite store what has it in
its key or in its JSON text, and the vector store at most `top_k` of it, unless the read of a
string raises. -/
theorem searches_agree (hfetchall : ∀ found, (fetchall found).Perm found)
    (hcalls : ∀ c ∈ calls, c.2.Fits limits float) (query scope : String) :
    ∃ as m data rows collection,
      answers Values.step Values.empty (calls.map Prod.snd) = some (as, m) ∧
      answers (InMemoryMemoryStore.store limits).step [] (calls.map Prod.snd) =
        some (as.map .ok, data) ∧
      answers (SQLiteMemoryStore.store limits float fetchall).step [] (calls.map Prod.snd) =
        some (as.map .ok, rows) ∧
      answers (vectorStep limits float) [] calls = some (as.map (reread limits float), collection) ∧
      (∃ found, InMemoryMemoryStore.search limits data query scope = .ok found ∧
        (found.map Prod.fst).Nodup ∧ ∀ key v, (key, v) ∈ found ↔ m scope key = some v ∧
          (Text.contains key query || Text.contains v.pyStr query) = true) ∧
      (∃ found, SQLiteMemoryStore.search limits float fetchall rows query scope = .ok found ∧
        (found.map Prod.fst).Nodup ∧ ∀ key v, (key, v) ∈ found ↔ m scope key = some v ∧
          (Text.contains key query || Text.contains v.toJsonValue.dumps query) = true) ∧
      ∀ (client : Client) (topK : ℤ), 0 ≤ topK →
        (∃ found, client.search limits float topK collection query scope = .ok found ∧
          (found.map Prod.fst).Nodup ∧ (found.length : ℤ) ≤ topK ∧
          ∀ key w, (key, w) ∈ found →
            w ≠ .none ∧ ∃ v, m scope key = some v ∧ reread limits float v = .ok w) ∨
        ∃ e, client.search limits float topK collection query scope = .error (.json e) ∧
          m.Raises limits float scope e := by
  obtain ⟨as, m, data, rows, collection, hm, hdata, hrows, hcollection, -, hfits, hheld, hheld₁,
    hheld₂⟩ := exists_states fetchall hcalls
  refine ⟨as, m, data, rows, collection, hm, hdata, hrows, hcollection, ?_, ?_, ?_⟩
  · exact InMemoryMemoryStore.exists_search hheld hfits query scope
  · exact SQLiteMemoryStore.exists_search hfetchall hheld₁ hfits query scope
  · exact fun client topK htop => client.exists_search hheld₂ hfits htop query scope

end Searches

theorem searches_agree_number : ∃ rows found,
    SQLiteMemoryStore.write defaultLimits [] "k" (.str "12") "s" = .ok rows ∧
    SQLiteMemoryStore.search defaultLimits Json.noFloats List.reverse rows "2" "s" = .ok found ∧
      (found.map Prod.fst).Nodup ∧ ("k", Value.str "12") ∈ found := by
  have hcalls : ∀ c ∈ [(reversing 1 0, MemoryCall.write "k" (.str "12") "s")],
      c.2.Fits defaultLimits Json.noFloats := by
    simp [MemoryCall.Fits, fits_str]
  obtain ⟨as, m, data, rows, collection, hm, -, hrows, -, -, ⟨found, hfound, hnodup, hmem⟩, -⟩ :=
    searches_agree (fun found => List.reverse_perm found) hcalls "2" "s"
  obtain ⟨-, rfl⟩ := Prod.mk.inj (Option.some.inj hrows)
  obtain ⟨-, rfl⟩ := Prod.mk.inj (Option.some.inj hm)
  exact ⟨_, found, rfl, hfound, hnodup, (hmem _ _).mpr ⟨Values.write_self, by decide⟩⟩

end Blackgeorge.Memory
