import Blackgeorge.Data.Redact
import Blackgeorge.Workflow.Flow

/-! The calls of a desk: a run of a worker or a workforce, and the resume of any paused
run, with what each leaves in the run store. -/

namespace Blackgeorge.Desk

open Data Program

section

variable (desk : DeskSettings)

/-! ### Runtime tools -/

/-- The tool instances of an override. -/
def runtimeTools (refs : List ToolRef) : List Tool := refs.filterMap ToolRef.tool?

/-- `_remember_runtime_tools_override`, on what is remembered for the run. -/
def rememberedTools (override : Option (List ToolRef)) (known : Option (List Tool)) :
    Option (List Tool) :=
  match override with
  | none => none
  | some refs => if (runtimeTools refs).isEmpty then known else some (runtimeTools refs)

/-- `runtime_by_name[tool.name] = tool`: an old name keeps its place. -/
def setTool (tools : List Tool) (tool : Tool) : List Tool :=
  match tools with
  | [] => [tool]
  | t :: rest => if t.name = tool.name then tool :: rest else t :: setTool rest tool

/-- The loop of `_restore_runtime_tools_override`: names become tools, and the tools that
no entry names are appended. -/
def restoreRefs : List ToolRef → List Tool → List ToolRef
  | [], byName => byName.map .tool
  | .name s :: refs, byName =>
    match byName.find? (·.name = s) with
    | some tool => .tool tool :: restoreRefs refs (byName.filter (·.name ≠ s))
    | none => .name s :: restoreRefs refs byName
  | .tool t :: refs, byName => .tool t :: restoreRefs refs (byName.filter (·.name ≠ t.name))
  | ref :: refs, byName => ref :: restoreRefs refs byName

/-- `_restore_runtime_tools_override`, with what is remembered for the run. -/
def restoredJob (known : Option (List Tool)) (job : Job) : Job :=
  match known, job.toolsOverride with
  | some (tool :: tools), some refs =>
    { job with toolsOverride := some (restoreRefs refs ((tool :: tools).foldl setTool [])) }
  | _, _ => job

def modifyOverride (runId : RunId) (f : Option (List Tool) → Option (List Tool)) : Prog Unit :=
  Prog.modify fun w =>
    { w with
      runtimeToolsOverrides :=
        Function.update w.runtimeToolsOverrides runId (f (w.runtimeToolsOverrides runId)) }

def forgetTools (runId : RunId) : Prog Unit := modifyOverride runId fun _ => none

/-! ### Recording how a call ends -/

def errorList (errors : List String) : Value := .list (errors.map .str)

/-- What `_finalize_run` records. -/
def recordFinal (runner : Option Runner) (report : Report) (state : Option StepState)
    (runId : RunId) (events : Ref) (stream : Bool) : Prog Unit :=
  match report.status, state with
  | .paused, some state => do
    let state := state.toRunState.setStream stream
    modifyOverride runId (rememberedTools state.core.job.toolsOverride)
    deskEmit events runId "run.paused" "desk" []
    updateRun desk runId .paused report.content .none (some state)
  | .completed, _ => do
    forgetTools runId
    deskEmit events runId "run.completed" "desk" []
    updateRun desk runId .completed report.content report.data.toJsonValue none
    recordMemory runner report
  | _, _ => do
    forgetTools runId
    deskEmit events runId "run.failed" "desk" [("errors", errorList report.errors)]
    updateRun desk runId .failed report.content report.data.toJsonValue none

/-- `_finalize_run`. -/
def finalizeRun (runner : Option Runner) (report : Report) (state : Option StepState)
    (runId : RunId) (events : Ref) (stream : Bool) : Prog Report := do
  recordFinal desk runner report state runId events stream
  pure report

/-- `_fail_resume`. -/
def failResume (report : Report) (events : Ref) (message : String) : Prog Report := do
  let failed := Workflow.failedFrom report.runId report message
  deskEmit events report.runId "run.failed" "desk" [("errors", errorList failed.errors)]
  updateRun desk report.runId .failed none .none none
  forgetTools report.runId
  pure failed

/-- The record of `_record_unexpected_failure`. -/
def recordFailure (runId : RunId) (e : Exn) : Prog Unit := do
  forgetTools runId
  updateRun desk runId .failed none
    (.dict [("error", .str (Text.sanitizeExceptionMessage e)), ("error_type", .str e.typeName)]) none

/-- `_record_unexpected_failure`: the record is written whether or not the event is. -/
def recordUnexpectedFailure (runId : RunId) (events : Ref) (e : Exn) : Prog Unit := do
  let emitted ← (deskEmit events runId "run.failed" "desk"
    [("errors", errorList [Text.sanitizeExceptionMessage e]),
      ("error_type", .str e.typeName)]).attempt
  recordFailure desk runId e
  Prog.ofExcept emitted

/-! ### Run -/

/-- `run_id or new_id()`. -/
def runIdOr (runId : Option RunId) : Prog RunId :=
  match runId.filter (· ≠ "") with
  | some runId => pure runId
  | none => Prog.newId

/-- The runner's part of a run. -/
def registeredRun (api : RunnerApi) (runner : Runner) (config : RunConfig) (job : Job) :
    Prog (Report × Option StepState) := do
  registerRunner runner
  api.arun runner config job []

/-- `Desk.arun`. -/
def arun (api : RunnerApi) (runner : Runner) (job : Job) (stream : Option Bool)
    (runId : Option RunId) : Prog Report := do
  Workflow.deskOpen
  let runId ← runIdOr runId
  let events ← newEventList []
  let streamEnabled := stream.getD desk.stream
  let job ← prepareJob desk runner job
  createRun desk runId job
  deskEmit events runId "run.started" "desk" [("job_id", .str job.id)]
  let totals ← newTotals {}
  let config := makeRunConfig desk (.desk events runId) runId totals streamEnabled
  match ← (registeredRun api runner config job).attempt with
  | .error e => do
    recordUnexpectedFailure desk runId events e
    Prog.raise e
  | .ok (report, state) => finalizeRun desk (some runner) report state runId events streamEnabled

/-! ### Resume -/

/-- The state a step state of the run's own kind is, if it is not a flow's. -/
def stepState? : RunState → Option StepState
  | .worker state => some (.worker state)
  | .workforce state => some (.workforce state)
  | .flow _ => none

def memoryRunner : Runner → Option Runner
  | .worker worker => some (.worker worker)
  | .workforce _ => none

/-- The part of `Desk.aresume` for a worker's or a workforce's state. -/
def resumeRun (api : RunnerApi) (report : Report) (events : Ref) (state : StepState)
    (decision : Value) (stream : Option Bool) : Prog Report := do
  let streamEnabled := stream.getD (state.toRunState.stream.getD desk.stream)
  deskEmit events report.runId "run.resumed" "desk" []
  let totals ← newTotals {}
  let config := makeRunConfig desk (.desk events report.runId) report.runId totals streamEnabled
  match ← Prog.get fun w => registeredRunner w state with
  | none =>
    failResume desk report events
      (if state matches .worker _ then "Worker not registered" else "Workforce not registered")
  | some runner => do
    let (updatedReport, updatedState) ← api.aresume runner config state decision []
    finalizeRun desk (memoryRunner runner) updatedReport updatedState report.runId events
      streamEnabled

/-- The part of `Desk.aresume` for a stored state. -/
def resumeState (api : RunnerApi) (report : Report) (events : Ref) (state : RunState)
    (decision : Value) (stream : Option Bool) : Prog Report := do
  let known ← Prog.get fun w => w.runtimeToolsOverrides report.runId
  match stepState? (state.withJob (restoredJob known state.core.job)) with
  | some state => resumeRun desk api report events state decision stream
  | none =>
    match ← Prog.get fun w => w.flowRuns report.runId with
    | none => failResume desk report events "Flow not registered"
    | some flow => Workflow.aresume desk api flow report decision stream

/-- `Desk.aresume`. -/
def aresume (api : RunnerApi) (report : Report) (decision : Value) (stream : Option Bool) :
    Prog Report := do
  Workflow.deskOpen
  match ← getRun report.runId with
  | none => pure (Workflow.failedFrom report.runId report "No stored state")
  | some record =>
    let events ← getEvents report.runId
    match record.state with
    | none => failResume desk report events "No stored state"
    | some state => resumeState desk api report events state decision stream

end

end Blackgeorge.Desk
