import Blackgeorge.Data.Records

/-! Paused runs. A run state holds what `RunState` holds, with the payload of each kind
of runner as typed fields. `persisted` is the way through JSON and back: it fails where
pydantic cannot serialize, and what comes back has JSON values for models, dictionaries
for tool results and names for the tools of an override. -/

namespace Blackgeorge.Data

/-! ### Runtime positions -/

/-- One coordinate of a step occurrence: its place in a sequence, its branch of a
parallel group or the iteration of a loop. -/
inductive Coord where
  | seq (i : ℕ)
  | par (i : ℕ)
  | iter (k : ℕ)
  deriving DecidableEq

/-- Where in a run a step or a callback stands. Positions are history: no modelled
function reads one, statements about runs refer to them. -/
abbrev Pos := List Coord

/-! ### Runner states -/

/-- What the states of all runners share. -/
structure StateCore where
  runId : RunId
  status : RunStatus
  runnerName : String
  job : Job
  messages : List Message := []
  toolCalls : List ToolCall := []
  pendingAction : Option PendingAction := none
  metrics : Metrics := {}
  iteration : ℕ := 0

/-- A worker's state; its payload holds the stream flag only. -/
structure WorkerState extends StateCore where
  stream : Option Bool := none

/-- Where a workforce paused and what it has to remember for that stage. -/
inductive Stage where
  | manager
  | worker (selected : Option String)
  | collaborate (completedReports : List Report) (pendingWorkerIndex : ℕ)
  | swarm (currentWorker : String) (handoffCount : ℕ) (swarmHistory : List Report)
  | unknown

structure WorkforceState extends StateCore where
  stage : Stage
  workerState : Option WorkerState
  usageTotals : UsageTotals
  rootJob : Option Job
  stream : Option Bool := none

/-- The state of a runner that a flow step can have. -/
inductive StepState where
  | worker (state : WorkerState)
  | workforce (state : WorkforceState)

def StepState.core : StepState → StateCore
  | worker s => s.toStateCore
  | workforce s => s.toStateCore

/-- `state.payload["stream"] = stream`. -/
def StepState.setStream (stream : Bool) : StepState → StepState
  | worker s => worker { s with stream := some stream }
  | workforce s => workforce { s with stream := some stream }

/-! ### Flow states -/

/-- One part of the path of a node in a workflow graph. -/
inductive PathPart where
  | int (i : ℕ)
  | str (s : String)
  deriving DecidableEq

abbrev StepPath := List PathPart

/-- A serialized continuation, with the position its steps run at. -/
inductive StoredContinuation where
  | sequence (paths : List StepPath) (pos : Pos) (first : ℕ)
  | loop (path : StepPath) (startIndex : ℕ) (loopName : String) (pos : Pos) (round : ℕ)
  | outputs (outputs : List (Pos × Report × Option StepState × List StoredContinuation))

/-- `WorkflowContext.snapshot`. -/
structure ContextSnapshot where
  artifacts : Dict
  loopIterations : String → ℕ

structure FlowState extends StateCore where
  stepIndex : Option ℕ
  outputs : List (Pos × Report)
  stepState : Option StepState
  stepPos : Pos
  stream : Option Bool
  flowSignature : Option String
  context : Option ContextSnapshot
  continuations : Option (List StoredContinuation)
  usageTotals : UsageTotals

/-- The state of a paused run. -/
inductive RunState where
  | worker (state : WorkerState)
  | workforce (state : WorkforceState)
  | flow (state : FlowState)

def RunState.core : RunState → StateCore
  | worker s => s.toStateCore
  | workforce s => s.toStateCore
  | flow s => s.toStateCore

/-- The state with another job, as `model_copy(update={"job": job})` makes it. -/
def RunState.withJob (job : Job) : RunState → RunState
  | worker s => worker { s with job := job }
  | workforce s => workforce { s with job := job }
  | flow s => flow { s with job := job }

/-- `payload["stream"]` of a state. -/
def RunState.stream : RunState → Option Bool
  | worker s => s.stream
  | workforce s => s.stream
  | flow s => s.stream

def RunState.setStream (stream : Bool) : RunState → RunState
  | worker s => worker { s with stream := some stream }
  | workforce s => workforce { s with stream := some stream }
  | flow s => flow { s with stream := some stream }

def StepState.toRunState : StepState → RunState
  | worker s => .worker s
  | workforce s => .workforce s

/-! ### Through JSON and back -/

def Dict.persisted (d : Dict) : Option Dict :=
  d.mapM fun f => do pure (f.1, ← f.2.dumpJson)

def CallResult.persisted : CallResult → Option CallResult
  | live r => do pure (dumped (← r.asdict.dumpJson))
  | dumped v => do pure (dumped (← v.dumpJson))

def ToolCall.persisted (c : ToolCall) : Option ToolCall := do
  let arguments ← c.arguments.persisted
  let result ← c.result.mapM CallResult.persisted
  pure { c with arguments := arguments, result := result }

def Content.persisted : Content → Option Content
  | text s => some (text s)
  | blocks items => do pure (blocks (← items.mapM Value.dumpJson))

def Message.persisted (m : Message) : Option Message := do
  let content ← m.content.persisted
  let thinkingBlocks ← m.thinkingBlocks.mapM fun blocks => blocks.mapM Value.dumpJson
  let toolCalls ← m.toolCalls.mapM ToolCall.persisted
  let metadata ← m.metadata.persisted
  pure { m with
    content := content
    thinkingBlocks := thinkingBlocks
    toolCalls := toolCalls
    metadata := metadata }

def PendingAction.persisted (p : PendingAction) : Option PendingAction := do
  let toolCall ← p.toolCall.persisted
  let metadata ← p.metadata.persisted
  pure { p with toolCall := toolCall, metadata := metadata }

/-- A schema is found again only through an importable class. -/
def Schema.persisted : Schema → Option Schema
  | model path true => some (model path true)
  | adapterModel path true => some (adapterModel path true)
  | _ => none

def Job.persisted (job : Job) : Option Job := do
  let input ← job.input.dumpJson
  let constraints ← job.constraints.persisted
  let initialMessages ← job.initialMessages.mapM fun ms => ms.mapM Message.persisted
  let thinking ← job.thinking.mapM Dict.persisted
  let extraBody ← job.extraBody.mapM Dict.persisted
  pure { job with
    input := input
    toolsOverride := job.toolsOverride.map fun refs => refs.map fun r => .name r.text
    responseSchema := job.responseSchema.bind Schema.persisted
    constraints := constraints
    initialMessages := initialMessages
    thinking := thinking
    extraBody := extraBody }

def Report.persisted (r : Report) : Option Report := do
  let pendingAction ← r.pendingAction.mapM PendingAction.persisted
  let data ← r.data.dumpJson
  let messages ← r.messages.mapM Message.persisted
  let toolCalls ← r.toolCalls.mapM ToolCall.persisted
  pure { r with
    pendingAction := pendingAction
    data := data
    messages := messages
    toolCalls := toolCalls }

def StateCore.persisted (s : StateCore) : Option StateCore := do
  let job ← s.job.persisted
  let messages ← s.messages.mapM Message.persisted
  let toolCalls ← s.toolCalls.mapM ToolCall.persisted
  let pendingAction ← s.pendingAction.mapM PendingAction.persisted
  pure { s with
    job := job
    messages := messages
    toolCalls := toolCalls
    pendingAction := pendingAction }

def WorkerState.persisted (s : WorkerState) : Option WorkerState := do
  pure { s with toStateCore := ← s.toStateCore.persisted }

def Stage.persisted : Stage → Option Stage
  | collaborate completedReports index => do
    pure (collaborate (← completedReports.mapM Report.persisted) index)
  | swarm current count history => do
    pure (swarm current count (← history.mapM Report.persisted))
  | stage => some stage

def WorkforceState.persisted (s : WorkforceState) : Option WorkforceState := do
  let core ← s.toStateCore.persisted
  let stage ← s.stage.persisted
  let workerState ← s.workerState.mapM WorkerState.persisted
  let rootJob ← s.rootJob.mapM Job.persisted
  pure { s with toStateCore := core, stage := stage, workerState := workerState, rootJob := rootJob }

def StepState.persisted : StepState → Option StepState
  | worker s => do pure (worker (← s.persisted))
  | workforce s => do pure (workforce (← s.persisted))

mutual

def StoredContinuation.persisted : StoredContinuation → Option StoredContinuation
  | .sequence paths pos first => some (.sequence paths pos first)
  | .loop path startIndex loopName pos round => some (.loop path startIndex loopName pos round)
  | .outputs items => do pure (.outputs (← persistedOutputs items))

def persistedOutputs : List (Pos × Report × Option StepState × List StoredContinuation) →
    Option (List (Pos × Report × Option StepState × List StoredContinuation))
  | [] => some []
  | (pos, report, state, continuations) :: items => do
    let report ← report.persisted
    let state ← state.mapM StepState.persisted
    let continuations ← persistedContinuations continuations
    pure ((pos, report, state, continuations) :: (← persistedOutputs items))

def persistedContinuations : List StoredContinuation → Option (List StoredContinuation)
  | [] => some []
  | c :: cs => do pure ((← c.persisted) :: (← persistedContinuations cs))

end

def FlowState.persisted (s : FlowState) : Option FlowState := do
  let core ← s.toStateCore.persisted
  let outputs ← s.outputs.mapM fun o => do pure (o.1, ← o.2.persisted)
  let stepState ← s.stepState.mapM StepState.persisted
  let context ← s.context.mapM fun c => do pure { c with artifacts := ← c.artifacts.persisted }
  let continuations ← s.continuations.mapM persistedContinuations
  pure { s with
    toStateCore := core
    outputs := outputs
    stepState := stepState
    context := context
    continuations := continuations }

def RunState.persisted : RunState → Option RunState
  | worker s => do pure (worker (← s.persisted))
  | workforce s => do pure (workforce (← s.persisted))
  | flow s => do pure (flow (← s.persisted))

/-- What pydantic raises on a value it cannot serialize; it is a `ValueError`. -/
def serializationError : Exn :=
  ⟨.valueError, "PydanticSerializationError", "Unable to serialize unknown type"⟩

def orSerializationError {α : Type} (dump : Option α) : Except Exn α :=
  dump.elim (.error serializationError) .ok

end Blackgeorge.Data
