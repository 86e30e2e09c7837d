import Blackgeorge.Data.State
import Blackgeorge.Coroutine.Rules
import Blackgeorge.Program.Objects
import Mathlib.Logic.Function.Basic

/-! What the program's coroutines share and what they ask for. The world holds the run
store, the desk's registries, the flow objects' fields, and the mutable lists and
dictionaries that several owners refer to. Everything else that matters is an answer
from outside: model calls, tools, callbacks of the user, new ids and the failures of
the stores. -/

namespace Blackgeorge.Program

open Data Coroutine

/-! ### Questions to the outside -/

/-- A tool call in a request, its arguments as JSON text. -/
structure ToolCallPayload where
  id : String
  name : String
  arguments : String

/-- One item of a request's message list. -/
structure PayloadMessage where
  role : MessageRole
  content : Content
  reasoningContent : Option String := none
  thinkingBlocks : Option (List Value) := none
  toolCalls : List ToolCallPayload := []
  toolCallId : Option String := none

/-- The arguments of `acomplete` and `complete`. -/
structure Completion where
  model : String
  messages : List PayloadMessage
  tools : Option (List Value) := none
  temperature : Option ℚ := none
  maxTokens : Option ℕ := none
  stream : Bool := false
  thinking : Option Dict := none
  dropParams : Option Bool := none
  extraBody : Option Dict := none
  numRetries : Option ℕ := none
  responseSchema : Option Schema := none

/-- The arguments of `astructured_complete` and `structured_complete`. -/
structure StructuredCompletion where
  model : String
  messages : List PayloadMessage
  responseSchema : Schema
  retries : ℕ
  temperature : Option ℚ
  maxTokens : Option ℕ
  thinking : Option Dict
  dropParams : Option Bool
  extraBody : Option Dict
  numRetries : ℕ

/-- What a completion call returns: a response, a stream of tokens that ends in an
assembled response or an exception, or something else. -/
inductive CompletionAnswer where
  | response (r : ModelResponse)
  | stream (tokens : List (String × String)) (result : Except Exn ModelResponse)
  | raw

/-- What a structured call returns: data, with usage if the adapter reports it. -/
structure StructuredAnswer where
  data : Value
  usage : Option Dict := none

/-- The operations of the run store, the session store and the memory store. -/
inductive StoreOp where
  | createRun (runId : RunId)
  | updateRun (runId : RunId) (status : RunStatus)
  | getRun (runId : RunId)
  | addEvent (runId : RunId) (event : Event)
  | getEvents (runId : RunId)
  | getMessages (sessionId : String)
  | replaceMessages (sessionId : String) (messages : List Message)
  | updateSession (sessionId : String)
  | writeMemory (key : String) (value : Value) (scope : String)

/-- A report object in a flow: its identity, the occurrence it belongs to, and its
contents. -/
structure Held where
  ref : Ref
  pos : Pos
  report : Report

/-- A workflow context; a loop without a counter counts as zero. -/
structure Context where
  job : Job := { id := "", input := .none }
  outputs : List Held := []
  artifacts : Dict := []
  loopIterations : String → ℕ := fun _ => 0

/-- The calls of a runner, for flows whose runners are not modelled. -/
inductive RunnerCall where
  | run (pos : Pos) (runner : Runner) (job : Job)
  | resume (pos : Pos) (state : StepState) (decision : Value)

inductive Query where
  | newId
  | complete (sync : Bool) (call : Completion)
  | structured (sync : Bool) (call : StructuredCompletion)
  | validateJson (schema : Schema) (content : String)
  | runTool (tool : Tool) (call : ToolCall) (approved : Option String)
  | tokenCount (model text : String)
  | modelRegistered (model : String)
  | usageCost (model : String) (usage : Dict)
  | store (op : StoreOp)
  | readMemory (scope : String)
  | reduce (reducer : FnId) (reports : List Report)
  | predicate (fn : FnId) (pos : Pos) (context : Context)
  | selector (fn : FnId) (pos : Pos) (context : Context)
  | stop (fn : FnId) (pos : Pos) (context : Context)
  | jobBuilder (fn : FnId) (pos : Pos) (context : Context)
  | rounds
  | runner (call : RunnerCall)
  | decide (pending : PendingAction) (decision : Value)

/-- A callback's result and the artifacts it leaves in the context. -/
abbrev Callback (α : Type) := Except Exn (α × Dict)

/-- The answers. `approved` names the pending action a tool runs for, `rounds` bounds
the rounds of one activation of a loop. `decide` has nothing to answer: it leaves in the
history of a run that a decision met a pending action. -/
abbrev Answer : Query → Type
  | .newId => String
  | .complete .. => Except Exn CompletionAnswer
  | .structured .. => Except Exn StructuredAnswer
  | .validateJson .. => Except Exn Value
  | .runTool .. => Except Exn ToolResult
  | .tokenCount .. => ℕ
  | .modelRegistered _ => Bool
  | .usageCost .. => ℚ
  | .store _ => Except Exn Unit
  | .readMemory _ => Except Exn (Option Value)
  | .reduce .. => Except Exn Report
  | .predicate .. => Callback Bool
  | .selector .. => Callback String
  | .stop .. => Callback Bool
  | .jobBuilder .. => Callback Job
  | .rounds => ℕ
  | .runner _ => Except Exn (Report × Option StepState)
  | .decide .. => Unit

/-! ### The world -/

/-- A record of the run store. -/
structure RunRecord where
  status : RunStatus
  output : Option String := none
  outputJson : Option Value := none
  state : Option RunState := none

/-- The fields a flow object changes while it runs. -/
structure FlowFields where
  runId : RunId := ""
  events : Ref := 0
  usageTotals : Ref := 0
  stream : Bool := false

structure World where
  records : RunId → Option RunRecord := fun _ => none
  storedEvents : RunId → List Event := fun _ => []
  histories : String → List Message := fun _ => []
  eventLists : Ref → List Event := fun _ => []
  totals : Ref → UsageTotals := fun _ => {}
  contexts : Ref → Context := fun _ => {}
  nextRef : Ref := 1
  flows : ℕ → FlowFields := fun _ => {}
  workers : String → Option Worker := fun _ => none
  workforces : String → Option Workforce := fun _ => none
  flowRuns : RunId → Option Flow := fun _ => none
  runtimeToolsOverrides : RunId → Option (List Tool) := fun _ => none
  closed : Bool := false

/-- The signature of the program. -/
abbrev sig : Sig where
  World := World
  Query := Query
  Answer := Answer
  Exn := Exn

/-- A coroutine of the program. -/
abbrev Prog (α : Type) := Coro sig α

/-! ### Primitives -/

namespace Prog

variable {α : Type}

def raise (e : Exn) : Prog α := Coro.raise e

def get (f : World → α) : Prog α := Coro.look (S := sig) f

def modify (f : World → World) : Prog Unit := Coro.update (S := sig) f

def ask (q : Query) : Prog (Answer q) := Coro.query (S := sig) q

/-- Return or raise. -/
def ofExcept (r : Except Exn α) : Prog α := Coro.ofExcept (S := sig) r

def store (op : StoreOp) : Prog Unit := do ofExcept (← ask (.store op))

def newId : Prog String := ask .newId

/-- A decision meets a pending action. -/
def decide (pending : PendingAction) (decision : Value) : Prog Unit :=
  ask (.decide pending decision)

/-- A new object identity. -/
def newRef : Prog Ref :=
  Coro.exchange (S := sig) World.nextRef fun w => { w with nextRef := w.nextRef + 1 }

/-- `try: c except Exception as exc: handler(exc)`. -/
def tryExcept (c : Prog α) (handler : Exn → Prog α) : Prog α := do
  match ← c.attempt with
  | .ok a => pure a
  | .error e => if e.isException then handler e else raise e

/-- `asyncio.gather`, whose first exception is raised once all have run to their end; the
source raises it at once and leaves the others running behind it. -/
def gather (cs : List (Prog α)) : Prog (List α) := do
  match (← Coro.parAll cs).mapM id with
  | .ok as => pure as
  | .error e => raise e

end Prog

/-! ### Events and totals -/

/-- `Desk.emit`: the event list of the caller, then the store. -/
def deskEmit (events : Ref) (runId : RunId) (type source : String) (payload : Dict) :
    Prog Unit := do
  let event : Event := ⟨type, source, payload⟩
  Prog.modify fun w =>
    { w with eventLists := Function.update w.eventLists events (w.eventLists events ++ [event]) }
  Prog.store (.addEvent runId event)
  Prog.modify fun w =>
    { w with storedEvents := Function.update w.storedEvents runId (w.storedEvents runId ++ [event]) }

/-- `Flow.emit`: under the run id and event list the flow object has at this moment. -/
def flowEmit (id : ℕ) (type source : String) (payload : Dict) : Prog Unit := do
  let fields ← Prog.get fun w => w.flows id
  if fields.runId = "" then pure ()
  else deskEmit fields.events fields.runId type source payload

/-- `config.emit`. -/
def RunConfig.emit (config : RunConfig) (type source : String) (payload : Dict) : Prog Unit :=
  match config.sink with
  | .desk events runId => deskEmit events runId type source payload
  | .flow id => flowEmit id type source payload

def getTotals (r : Ref) : Prog UsageTotals := Prog.get fun w => w.totals r

def modifyTotals (r : Ref) (f : UsageTotals → UsageTotals) : Prog Unit :=
  Prog.modify fun w => { w with totals := Function.update w.totals r (f (w.totals r)) }

end Blackgeorge.Program
