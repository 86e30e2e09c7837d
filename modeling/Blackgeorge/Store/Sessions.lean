import Blackgeorge.Store.Runs

/-! The session store, in memory and in SQLite. Instants are numbers of microseconds as
in the run store; the ids of message rows are fresh and nothing reads them. -/

namespace Blackgeorge.Store

open Data Relational

/-! ### The interface -/

structure SessionRecord where
  sessionId : String
  workerName : String
  createdAt : ℕ
  updatedAt : ℕ
  metadata : Dict

/-- `SessionStore`: what changes the store gives the store after it, or raises and changes
nothing. -/
structure SessionStore (σ : Type) where
  createSession : σ → ℕ → String → String → Option Dict → Except Exn σ
  updateSession : σ → ℕ → String → Option Dict → Except Exn σ
  getSession : σ → String → Except Exn (Option SessionRecord)
  deleteSession : σ → String → Except Exn σ
  addMessages : σ → ℕ → String → List Message → Except Exn σ
  replaceMessages : σ → ℕ → String → List Message → Except Exn σ
  getMessages : σ → String → Except Exn (List Message)

/-! ### In memory -/

structure InMemorySessions where
  sessions : Dictionary String SessionRecord := []
  messages : Dictionary String (List Message) := []

namespace InMemorySessions

variable (store : InMemorySessions)

/-- `create_session`: a known session starts anew, without its messages. -/
def createSession (now : ℕ) (sessionId workerName : String) (metadata : Option Dict) :
    InMemorySessions where
  sessions := store.sessions.set sessionId ⟨sessionId, workerName, now, now, metadata.getD []⟩
  messages := store.messages.set sessionId []

def updateSession (now : ℕ) (sessionId : String) (metadata : Option Dict) : InMemorySessions :=
  match store.sessions.get sessionId with
  | none => store
  | some record =>
    { store with
      sessions := store.sessions.set sessionId
        ⟨record.sessionId, record.workerName, record.createdAt, now,
          metadata.getD record.metadata⟩ }

def deleteSession (sessionId : String) : InMemorySessions where
  sessions := store.sessions.pop sessionId
  messages := store.messages.pop sessionId

def getMessages (sessionId : String) : List Message := (store.messages.get sessionId).getD []

def addMessages (sessionId : String) (messages : List Message) : InMemorySessions :=
  { store with
    messages := store.messages.set sessionId (store.getMessages sessionId ++ messages) }

def replaceMessages (sessionId : String) (messages : List Message) : InMemorySessions :=
  { store with messages := store.messages.set sessionId messages }

end InMemorySessions

def inMemorySessionStore : SessionStore InMemorySessions where
  createSession store now sessionId workerName metadata :=
    .ok (store.createSession now sessionId workerName metadata)
  updateSession store now sessionId metadata := .ok (store.updateSession now sessionId metadata)
  getSession store sessionId := .ok (store.sessions.get sessionId)
  deleteSession store sessionId := .ok (store.deleteSession sessionId)
  addMessages store _ sessionId messages := .ok (store.addMessages sessionId messages)
  replaceMessages store _ sessionId messages := .ok (store.replaceMessages sessionId messages)
  getMessages store sessionId := .ok (store.getMessages sessionId)

/-! ### In SQLite -/

structure SessionRow where
  id : String
  workerName : String
  metadata : String
  createdAt : ℕ
  updatedAt : ℕ

/-- A row of `session_messages`, its text as the message it is read as. -/
structure MessageRow where
  sessionId : String
  message : Message
  timestamp : ℕ

structure SQLiteSessions where
  sessions : Table SessionRow := []
  messages : Table MessageRow := []

/-- `json.dumps(metadata)`, which raises on what is not JSON. -/
def dumpsMetadata (metadata : Dict) : Except Exn String :=
  (Value.dict metadata).dumpsStrict.elim
    (.error (typeError "Object is not JSON serializable")) .ok

/-- `json.loads` of a metadata column. -/
def loadsMetadata (float : String → ℚ × String) (text : String) : Except Exn Dict :=
  match Json.loads float text with
  | some (.dict metadata) => .ok metadata
  | _ => .error Json.JsonError.decode.exn

def rowToSession (float : String → ℚ × String) (row : SessionRow) : Except Exn SessionRecord := do
  let metadata ← loadsMetadata float row.metadata
  .ok ⟨row.id, row.workerName, row.createdAt, row.updatedAt, metadata⟩

def insertMessages (table : Table MessageRow) (now : ℕ) (sessionId : String)
    (messages : List Message) : Table MessageRow :=
  messages.foldl (fun table message => table.insert ⟨sessionId, message, now⟩) table

namespace SQLiteSessions

variable (store : SQLiteSessions)

/-- `create_session`: a known session violates the primary key. -/
def createSession (now : ℕ) (sessionId workerName : String) (metadata : Option Dict) :
    Except Exn SQLiteSessions := do
  let metadata ← dumpsMetadata (metadata.getD [])
  if store.sessions.cells.any (·.id = sessionId) then
    .error (integrityError "UNIQUE constraint failed: sessions.id")
  else
    .ok { store with
      sessions := store.sessions.insert ⟨sessionId, workerName, metadata, now, now⟩ }

def updateSession (now : ℕ) (sessionId : String) (metadata : Option Dict) :
    Except Exn SQLiteSessions :=
  match metadata with
  | some metadata => do
    let metadata ← dumpsMetadata metadata
    .ok { store with
      sessions := store.sessions.update (·.id = sessionId) fun row =>
        { row with metadata := metadata, updatedAt := now } }
  | none =>
    .ok { store with
      sessions := store.sessions.update (·.id = sessionId) fun row =>
        { row with updatedAt := now } }

def getSession (float : String → ℚ × String) (sessionId : String) :
    Except Exn (Option SessionRecord) :=
  match store.sessions.cells.find? (·.id = sessionId) with
  | none => .ok none
  | some row => some <$> rowToSession float row

def deleteSession (sessionId : String) : SQLiteSessions where
  messages := store.messages.delete (·.sessionId = sessionId)
  sessions := store.sessions.delete (·.id = sessionId)

/-- `add_messages`: one transaction, which a message that is not JSON undoes. -/
def addMessages (now : ℕ) (sessionId : String) (messages : List Message) :
    Except Exn SQLiteSessions := do
  let messages ← orSerializationError (messages.mapM Message.persisted)
  .ok { store with messages := insertMessages store.messages now sessionId messages }

def replaceMessages (now : ℕ) (sessionId : String) (messages : List Message) :
    Except Exn SQLiteSessions := do
  let messages ← orSerializationError (messages.mapM Message.persisted)
  .ok { store with
    messages := insertMessages (store.messages.delete (·.sessionId = sessionId)) now sessionId
      messages }

def getMessages (sessionId : String) : List Message :=
  ((store.messages.select (·.sessionId = sessionId)).orderAsc MessageRow.timestamp).map
    MessageRow.message

end SQLiteSessions

def sqliteSessionStore (float : String → ℚ × String) : SessionStore SQLiteSessions where
  createSession := SQLiteSessions.createSession
  updateSession := SQLiteSessions.updateSession
  getSession store := store.getSession float
  deleteSession store sessionId := .ok (store.deleteSession sessionId)
  addMessages := SQLiteSessions.addMessages
  replaceMessages := SQLiteSessions.replaceMessages
  getMessages store sessionId := .ok (store.getMessages sessionId)

/-! ### Runs of operations -/

inductive SessionOp where
  | createSession (sessionId workerName : String) (metadata : Option Dict)
  | updateSession (sessionId : String) (metadata : Option Dict)
  | getSession (sessionId : String)
  | deleteSession (sessionId : String)
  | addMessages (sessionId : String) (messages : List Message)
  | replaceMessages (sessionId : String) (messages : List Message)
  | getMessages (sessionId : String)

/-- The operations that are there to remove messages. -/
def SessionOp.removes : SessionOp → Bool
  | .deleteSession _ => true
  | .replaceMessages .. => true
  | _ => false

/-- What a caller sees of an operation that does not raise. -/
inductive SessionAnswer where
  | done
  | session (r : Option SessionRecord)
  | messages (ms : List Message)

section Answers

variable {σ : Type} (api : SessionStore σ)

/-- A change and its answer: what raises changes nothing. -/
def changedSession (s : σ) : Except Exn σ → Except Exn SessionAnswer × σ
  | .ok s' => (.ok .done, s')
  | .error e => (.error e, s)

/-- An operation at an instant. -/
def SessionStore.step (s : σ) (now : ℕ) : SessionOp → Except Exn SessionAnswer × σ
  | .createSession sessionId workerName metadata =>
    changedSession s (api.createSession s now sessionId workerName metadata)
  | .updateSession sessionId metadata =>
    changedSession s (api.updateSession s now sessionId metadata)
  | .getSession sessionId => (.session <$> api.getSession s sessionId, s)
  | .deleteSession sessionId => changedSession s (api.deleteSession s sessionId)
  | .addMessages sessionId messages =>
    changedSession s (api.addMessages s now sessionId messages)
  | .replaceMessages sessionId messages =>
    changedSession s (api.replaceMessages s now sessionId messages)
  | .getMessages sessionId => (.messages <$> api.getMessages s sessionId, s)

/-- The answers to a run of operations, each with the store before and after it. -/
def SessionStore.run (s : σ) : List (ℕ × SessionOp) →
    List (σ × SessionOp × Except Exn SessionAnswer × σ)
  | [] => []
  | (now, op) :: ops => (s, op, api.step s now op) :: SessionStore.run (api.step s now op).2 ops

/-- What a caller sees of a run. -/
def SessionStore.answers (s : σ) (ops : List (ℕ × SessionOp)) : List (Except Exn SessionAnswer) :=
  (api.run s ops).map fun step => step.2.2.1

end Answers

end Blackgeorge.Store
