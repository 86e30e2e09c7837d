import Blackgeorge.WorkforceRun.Run

/-! What a desk does for every kind of run: its records in the run store, the jobs it
prepares, the memory it writes and the configuration it makes. -/

namespace Blackgeorge.Desk

open Data Program

variable (desk : DeskSettings)

/-! ### Shared objects -/

def newEventList (events : List Event) : Prog Ref :=
  Coroutine.Coro.exchange (S := sig) World.nextRef fun w =>
    { w with
      nextRef := w.nextRef + 1
      eventLists := Function.update w.eventLists w.nextRef events }

def newTotals (totals : UsageTotals) : Prog Ref :=
  Coroutine.Coro.exchange (S := sig) World.nextRef fun w =>
    { w with
      nextRef := w.nextRef + 1
      totals := Function.update w.totals w.nextRef totals }

def newContext (context : Context) : Prog Ref :=
  Coroutine.Coro.exchange (S := sig) World.nextRef fun w =>
    { w with
      nextRef := w.nextRef + 1
      contexts := Function.update w.contexts w.nextRef context }

/-! ### The run store -/

/-- `create_run`: a run id is used once. The store in memory starts its events anew. -/
def createRun (runId : RunId) (job : Job) : Prog Unit := do
  let _ ← Prog.ofExcept (orSerializationError job.persisted)
  if (← Prog.get fun w => (w.records runId).isSome) then
    Prog.raise (valueError ("Run '" ++ runId ++ "' already exists"))
  else
    Prog.store (.createRun runId)
    Prog.modify fun w =>
      { w with
        records := Function.update w.records runId (some { status := .running })
        storedEvents :=
          if desk.inMemoryStore then Function.update w.storedEvents runId [] else w.storedEvents }

/-- The record an update writes. The SQLite store keeps JSON, the other the objects. -/
def storedRecord (status : RunStatus) (output : Option String) (outputJson : Value)
    (state : Option RunState) : Except Exn RunRecord := do
  if desk.inMemoryStore then
    pure
      { status := status
        output := output
        outputJson := if outputJson.isNone then none else some outputJson
        state := state }
  else if outputJson.plain then
    pure
      { status := status
        output := output
        outputJson := if outputJson.isNone then none else some outputJson
        state := ← orSerializationError (state.mapM RunState.persisted) }
  else .error (typeError "Object is not JSON serializable")

/-- `update_run`. In SQLite a run that was not created stays unknown. -/
def updateRun (runId : RunId) (status : RunStatus) (output : Option String) (outputJson : Value)
    (state : Option RunState) : Prog Unit := do
  let record ← Prog.ofExcept (storedRecord desk status output outputJson state)
  Prog.store (.updateRun runId status)
  Prog.modify fun w =>
    if desk.inMemoryStore || (w.records runId).isSome then
      { w with records := Function.update w.records runId (some record) }
    else w

def getRun (runId : RunId) : Prog (Option RunRecord) := do
  Prog.store (.getRun runId)
  Prog.get fun w => w.records runId

/-- `get_events`: a list of its own. -/
def getEvents (runId : RunId) : Prog Ref := do
  Prog.store (.getEvents runId)
  let events ← Prog.get fun w => w.storedEvents runId
  newEventList events

/-! ### Jobs and memory -/

/-- `_apply_memory`: the memory goes behind the leading system messages. -/
def applyMemory (worker : Worker) (job : Job) : Prog Job := do
  match ← Prog.ofExcept (← Prog.ask (.readMemory worker.memoryScope)) with
  | none => pure job
  | some value =>
    let content := match value with
      | .str s => s
      | v => v.dumps
    let memory : Message := { role := .system, content := .text ("Memory:\n" ++ content) }
    let messages := job.initialMessages.getD []
    let isSystem (m : Message) : Bool := m.role = .system
    pure { job with
      initialMessages :=
        some (messages.takeWhile isSystem ++ [memory] ++ messages.dropWhile isSystem) }

/-- `prepare_job`. -/
def prepareJob (runner : Runner) (job : Job) : Prog Job :=
  let job :=
    { job with structuredStreamMode := job.structuredStreamMode.or (some desk.structuredStreamMode) }
  match runner with
  | .worker worker => applyMemory worker job
  | .workforce _ => pure job

/-- `record_memory`: the last output of a completed worker. -/
def recordMemory (runner : Option Runner) (report : Report) : Prog Unit := do
  match runner with
  | some (.worker worker) =>
    if report.status = .completed then
      match report.data, report.content with
      | .none, none => pure ()
      | .none, some content =>
        Prog.store (.writeMemory "last_output" (.str content) worker.memoryScope)
      | .model cls text fields, _ =>
        let dumped ← Prog.ofExcept (orSerializationError (Value.model cls text fields).dumpJson)
        Prog.store (.writeMemory "last_output" dumped worker.memoryScope)
      | data, _ => Prog.store (.writeMemory "last_output" data worker.memoryScope)
    else pure ()
  | _ => pure ()

/-! ### Configuration and registries -/

/-- `_make_run_config`. -/
def makeRunConfig (sink : Sink) (runId : RunId) (usageTotals : Ref) (stream : Bool) : RunConfig where
  toLimits := desk.toLimits
  sink := sink
  runId := runId
  temperature := desk.temperature
  stream := stream
  respectContextWindow := desk.respectContextWindow
  defaultModel := some desk.model
  usageTotals := usageTotals

def registerRunner (runner : Runner) : Prog Unit :=
  Prog.modify fun w =>
    match runner with
    | .worker worker => { w with workers := Function.update w.workers worker.name (some worker) }
    | .workforce force =>
      { w with workforces := Function.update w.workforces force.name (some force) }

/-- The registered runner that a state belongs to. -/
def registeredRunner (w : World) : StepState → Option Runner
  | .worker state => (w.workers state.runnerName).map .worker
  | .workforce state => (w.workforces state.runnerName).map .workforce

def registerFlowRun (runId : RunId) (flow : Flow) : Prog Unit :=
  Prog.modify fun w => { w with flowRuns := Function.update w.flowRuns runId (some flow) }

def unregisterFlowRun (runId : RunId) : Prog Unit :=
  Prog.modify fun w => { w with flowRuns := Function.update w.flowRuns runId none }

/-! ### Runners -/

/-- How runners run and resume. The position says where in a flow a run happens. -/
structure RunnerApi where
  arun : Runner → RunConfig → Job → Pos → Prog (Report × Option StepState)
  aresume : Runner → RunConfig → StepState → Value → Pos → Prog (Report × Option StepState)

def workerOutcome (outcome : Report × Option WorkerState) : Report × Option StepState :=
  (outcome.1, outcome.2.map .worker)

def workforceOutcome (outcome : Report × Option WorkforceState) : Report × Option StepState :=
  (outcome.1, outcome.2.map .workforce)

/-- The runners of the program. -/
def runners : RunnerApi where
  arun
    | .worker worker, config, job, _ => workerOutcome <$> WorkerRunner.arun worker config job
    | .workforce force, config, job, _ =>
      workforceOutcome <$> WorkforceRun.arunWorkforce force config job
  aresume
    | .worker worker, config, .worker state, decision, _ =>
      workerOutcome <$> WorkerRunner.aresume worker config state decision
    | .workforce force, config, .workforce state, decision, _ =>
      workforceOutcome <$> WorkforceRun.aresumeWorkforce force config state decision
    | runner, _, state, _, _ =>
      Prog.raise (typeError (runner.name ++ " cannot resume " ++ state.core.runnerName))

/-- Runners of which only the outcomes are known, as answers from outside. -/
def askedRunners : RunnerApi where
  arun runner _ job pos := do Prog.ofExcept (← Prog.ask (.runner (.run pos runner job)))
  aresume _ _ state decision pos := do
    Prog.ofExcept (← Prog.ask (.runner (.resume pos state decision)))

end Blackgeorge.Desk
