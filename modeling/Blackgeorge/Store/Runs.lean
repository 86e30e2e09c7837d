import Blackgeorge.Data.Dumps
import Blackgeorge.Data.Limits
import Blackgeorge.Relational.Dictionary
import Blackgeorge.Relational.Table
import Blackgeorge.Store.Timestamps

/-! The run store, in memory and in SQLite. The instant at which the store itself stamps a
record is a number of microseconds: its ISO text in UTC sorts as the instant does and is read
back as it. The time of an event is its caller's. -/

namespace Blackgeorge.Store

open Data Relational

open Json (Limits)

/-! ### The interface -/

structure RunRecord where
  runId : RunId
  status : RunStatus
  input : Value
  output : Option String
  outputJson : Value
  createdAt : ℕ
  updatedAt : ℕ
  state : Option RunState

/-- An event with its id and its time. -/
structure EventRecord where
  eventId : String
  type : String
  timestamp : Timestamp
  runId : RunId
  source : String
  payload : Dict

/-- `RunStore`: what changes the store gives the store after it, or raises and changes
nothing. -/
structure RunStore (σ : Type) where
  createRun : σ → ℕ → RunId → Value → Except Exn σ
  updateRun : σ → ℕ → RunId → RunStatus → Option String → Value → Option RunState → Except Exn σ
  getRun : σ → RunId → Except Exn (Option RunRecord)
  listRuns : σ → Option RunStatus → Option ℤ → ℤ → Except Exn (List RunRecord)
  addEvent : σ → EventRecord → Except Exn σ
  getEvents : σ → RunId → Except Exn (List EventRecord)

def alreadyExists (runId : RunId) : Exn := valueError ("Run '" ++ runId ++ "' already exists")

/-- The checks of `list_runs`. -/
def checkPage (limit : Option ℤ) (offset : ℤ) : Except Exn Unit :=
  if limit.any (· < 0) then .error (valueError "limit must be non-negative")
  else if offset < 0 then .error (valueError "offset must be non-negative")
  else .ok ()

/-! ### In memory -/

structure InMemoryRuns where
  runs : Dictionary RunId RunRecord := []
  events : Dictionary RunId (List EventRecord) := []

namespace InMemoryRuns

variable (store : InMemoryRuns)

def createRun (now : ℕ) (runId : RunId) (input : Value) : Except Exn InMemoryRuns :=
  if (store.runs.get runId).isSome then .error (alreadyExists runId)
  else
    .ok
      { runs := store.runs.set runId ⟨runId, .running, input, none, .none, now, now, none⟩
        events := store.events.set runId [] }

/-- `update_run`: an unknown run becomes known. -/
def updateRun (now : ℕ) (runId : RunId) (status : RunStatus) (output : Option String)
    (outputJson : Value) (state : Option RunState) : InMemoryRuns :=
  match store.runs.get runId with
  | none =>
    { store with
      runs := store.runs.set runId ⟨runId, status, .none, output, outputJson, now, now, state⟩ }
  | some record =>
    { store with
      runs := store.runs.set runId
        ⟨record.runId, status, record.input, output, outputJson, record.createdAt, now, state⟩ }

/-- The records of `list_runs`: Python's sort keeps the order of equal ones. -/
def listRuns (status : Option RunStatus) (limit : Option ℤ) (offset : ℤ) :
    Except Exn (List RunRecord) := do
  checkPage limit offset
  let records := (store.runs.map Prod.snd).filter fun r => status.all (r.status = ·)
  let records := (Table.sortedDesc RunRecord.createdAt records).drop offset.toNat
  .ok (limit.elim records fun n => records.take n.toNat)

def addEvent (event : EventRecord) : InMemoryRuns :=
  { store with
    events := store.events.set event.runId
      ((store.events.get event.runId).getD [] ++ [event]) }

def getEvents (runId : RunId) : List EventRecord := (store.events.get runId).getD []

end InMemoryRuns

def inMemoryRunStore : RunStore InMemoryRuns where
  createRun := InMemoryRuns.createRun
  updateRun store now runId status output outputJson state :=
    .ok (store.updateRun now runId status output outputJson state)
  getRun store runId := .ok (store.runs.get runId)
  listRuns := InMemoryRuns.listRuns
  addEvent store event := .ok (store.addEvent event)
  getEvents store runId := .ok (store.getEvents runId)

/-! ### In SQLite -/

/-- A row of `runs`. The state's column stands for the state its text is read as. -/
structure RunRow where
  id : RunId
  status : RunStatus
  input : Option String
  output : Option String
  outputJson : Option String
  stateJson : Option RunState
  createdAt : ℕ
  updatedAt : ℕ

/-- A row of `events`, its payload as the event it is read as. -/
structure EventRow where
  id : String
  runId : RunId
  payload : EventRecord
  timestamp : String

structure SQLiteRuns where
  runs : Table RunRow := []
  events : Table EventRow := []

/-- What is refused of the texts in the columns: `json`'s limits, the arrays and objects in one
another that pydantic dumps of an event, and what the two raise on the depth and the integers of
a state. -/
structure ColumnLimits extends Limits where
  dumping : ℕ
  ofState : RunState → Option Exn

namespace ColumnLimits

variable (limits : ColumnLimits)

def refuse (value : Value) : Except Exn Unit :=
  (limits.refuses value).elim (.ok ()) fun e => .error e.exn

/-- `_serialize`, which raises on what is not JSON. -/
def serialize (value : Value) : Except Exn String := do
  limits.refuse value.toJsonValue
  value.toJsonValue.dumpsStrict.elim (.error (typeError "Object is not JSON serializable")) .ok

/-- `_serialize(value) if value is not None else None`. -/
def serializeColumn (value : Value) : Except Exn (Option String) :=
  if value.isNone then .ok none else some <$> limits.serialize value

/-- `_serialize_state`. -/
def serializeState (state : Option RunState) : Except Exn (Option RunState) := do
  let stored ← orSerializationError (state.mapM RunState.persisted)
  (state.bind limits.ofState).elim (.ok stored) .error

end ColumnLimits

def EventRecord.persisted (event : EventRecord) : Option EventRecord := do
  let payload ← event.payload.persisted
  pure { event with payload := payload }

/-- The JSON value of an event. -/
def EventRecord.dumped (event : EventRecord) : Value :=
  (Value.dict [("event_id", .str event.eventId), ("type", .str event.type),
    ("timestamp", .str event.timestamp.isoformat), ("run_id", .str event.runId),
    ("source", .str event.source), ("payload", .dict event.payload)]).dumped

def circularError : Exn :=
  ⟨.valueError, "ValueError", "Circular reference detected (depth exceeded)"⟩

/-- `_serialize(event.model_dump(mode="json", warnings=False))`. -/
def ColumnLimits.serializeEvent (limits : ColumnLimits) (event : EventRecord) :
    Except Exn EventRecord := do
  let stored ← orSerializationError event.persisted
  if limits.dumping < Json.depthOf 0 event.dumped then .error circularError
  else do
    limits.refuse event.dumped
    .ok stored

def overflowError : Exn :=
  ⟨.other, "OverflowError", "Python int too large to convert to SQLite INTEGER"⟩

def integrityError (text : String) : Exn := ⟨.other, "IntegrityError", text⟩

section Reading

variable (limits : Limits) (float : String → ℚ × String)

/-- `json.loads(text) if text else None`. -/
def loadsColumn (text : Option String) : Except Exn Value :=
  match text with
  | none => .ok .none
  | some text =>
    if text = "" then .ok .none else (Json.decode limits float text).mapError Json.JsonError.exn

/-- `_row_to_record`. -/
def rowToRecord (row : RunRow) : Except Exn RunRecord := do
  let input ← loadsColumn limits float row.input
  let outputJson ← loadsColumn limits float row.outputJson
  .ok ⟨row.id, row.status, input, row.output, outputJson, row.createdAt, row.updatedAt, row.stateJson⟩

end Reading

namespace SQLiteRuns

variable (limits : ColumnLimits) (float : String → ℚ × String) (store : SQLiteRuns)

def createRun (now : ℕ) (runId : RunId) (input : Value) : Except Exn SQLiteRuns := do
  let input ← limits.serialize input
  if store.runs.cells.any (·.id = runId) then .error (alreadyExists runId)
  else
    .ok { store with
      runs := store.runs.insert ⟨runId, .running, some input, none, none, none, now, now⟩ }

/-- `update_run`: an unknown run has no row to change. -/
def updateRun (now : ℕ) (runId : RunId) (status : RunStatus) (output : Option String)
    (outputJson : Value) (state : Option RunState) : Except Exn SQLiteRuns := do
  let outputJson ← limits.serializeColumn outputJson
  let stateJson ← limits.serializeState state
  .ok { store with
    runs := store.runs.update (·.id = runId) fun row =>
      { row with
        status := status
        output := output
        outputJson := outputJson
        stateJson := stateJson
        updatedAt := now } }

def getRun (runId : RunId) : Except Exn (Option RunRecord) :=
  match store.runs.cells.find? (·.id = runId) with
  | none => .ok none
  | some row => some <$> rowToRecord limits.toLimits float row

def listRuns (status : Option RunStatus) (limit : Option ℤ) (offset : ℤ) :
    Except Exn (List RunRecord) := do
  checkPage limit offset
  if 2 ^ 63 ≤ limit.getD (-1) ∨ 2 ^ 63 ≤ offset then .error overflowError
  else
    let rows := (store.runs.select fun row => status.all (row.status = ·)).orderDesc RunRow.createdAt
    let rows := rows.drop offset.toNat
    (limit.elim rows fun n => rows.take n.toNat).mapM (rowToRecord limits.toLimits float)

def addEvent (event : EventRecord) : Except Exn SQLiteRuns := do
  let payload ← limits.serializeEvent event
  if store.events.cells.any (·.id = event.eventId) then
    .error (integrityError "UNIQUE constraint failed: events.id")
  else
    .ok { store with
      events := store.events.insert ⟨event.eventId, event.runId, payload, event.timestamp.isoformat⟩ }

def getEvents (runId : RunId) : List EventRecord :=
  ((store.events.select (·.runId = runId)).orderAsc EventRow.timestamp).map EventRow.payload

end SQLiteRuns

def sqliteRunStore (limits : ColumnLimits) (float : String → ℚ × String) : RunStore SQLiteRuns where
  createRun := SQLiteRuns.createRun limits
  updateRun := SQLiteRuns.updateRun limits
  getRun := SQLiteRuns.getRun limits float
  listRuns := SQLiteRuns.listRuns limits float
  addEvent := SQLiteRuns.addEvent limits
  getEvents store runId := .ok (store.getEvents runId)

/-! ### Runs of operations -/

inductive RunOp where
  | createRun (runId : RunId) (input : Value)
  | updateRun (runId : RunId) (status : RunStatus) (output : Option String) (outputJson : Value)
      (state : Option RunState)
  | getRun (runId : RunId)
  | listRuns (status : Option RunStatus) (limit : Option ℤ) (offset : ℤ)
  | addEvent (event : EventRecord)
  | getEvents (runId : RunId)

/-- What a caller sees of an operation that does not raise. -/
inductive RunAnswer where
  | done
  | record (r : Option RunRecord)
  | records (rs : List RunRecord)
  | events (es : List EventRecord)

section Answers

variable {σ : Type} (api : RunStore σ)

/-- A change and its answer: what raises changes nothing. -/
def changed (s : σ) : Except Exn σ → Except Exn RunAnswer × σ
  | .ok s' => (.ok .done, s')
  | .error e => (.error e, s)

/-- An operation at an instant. -/
def RunStore.step (s : σ) (now : ℕ) : RunOp → Except Exn RunAnswer × σ
  | .createRun runId input => changed s (api.createRun s now runId input)
  | .updateRun runId status output outputJson state =>
    changed s (api.updateRun s now runId status output outputJson state)
  | .getRun runId => (.record <$> api.getRun s runId, s)
  | .listRuns status limit offset => (.records <$> api.listRuns s status limit offset, s)
  | .addEvent event => changed s (api.addEvent s event)
  | .getEvents runId => (.events <$> api.getEvents s runId, s)

def RunStore.answers (s : σ) : List (ℕ × RunOp) → List (Except Exn RunAnswer)
  | [] => []
  | (now, op) :: ops =>
    let (answer, s') := api.step s now op
    answer :: RunStore.answers s' ops

end Answers

end Blackgeorge.Store
