import Blackgeorge.Workflow.Graph

/-! A flow's run: its steps one after the other, the state it stores when one of them
pauses, and the resume that goes on from that state. -/

namespace Blackgeorge.Workflow

open Data Program Desk

/-! ### Reports of a run -/

/-- A failed report that keeps what `report` has. -/
def failedFrom (runId : RunId) (report : Report) (error : String) : Report where
  runId := runId
  status := .failed
  messages := report.messages
  toolCalls := report.toolCalls
  metrics := report.metrics
  errors := [error]

/-- A failed report that keeps what a state has. -/
def failedState (core : StateCore) (error : String) : Report where
  runId := core.runId
  status := .failed
  messages := core.messages
  toolCalls := core.toolCalls
  metrics := core.metrics
  errors := [error]

/-- `_combine_reports` without the totals. -/
def combineReports (runId : RunId) (reports : List Report) : Report where
  runId := runId
  status := .completed
  content := some ("\n\n".intercalate (reports.zipIdx.map fun r =>
    "[step " ++ toString (r.2 + 1) ++ "] " ++ r.1.content.getD ""))
  data := .list (reports.zipIdx.map fun r =>
    .dict [("index", .int (r.2 + 1)), ("content", r.1.content.elim .none .str), ("data", r.1.data)])
  messages := reports.flatMap Report.messages
  toolCalls := reports.flatMap Report.toolCalls
  errors := reports.flatMap Report.errors

def noStepsReport (runId : RunId) : Report where
  runId := runId
  status := .failed
  errors := ["No steps executed"]

/-- The report of a flow's last step alone, or all reports combined. -/
def finalReport (runId : RunId) (totals : UsageTotals) : List Report → Report
  | [report] => report
  | reports => withRunMetrics (combineReports runId reports) totals

/-! ### The state of a paused flow -/

/-- `WorkflowContext.snapshot`. -/
def contextSnapshot (c : Context) : Except Exn ContextSnapshot :=
  if Value.plainFields (Value.toJsonFields c.artifacts) then
    .ok ⟨Value.toJsonFields c.artifacts, c.loopIterations⟩
  else .error (typeError "Workflow context artifacts must be JSON-serializable")

/-- What `_build_flow_state` is given. -/
structure PausedFlow where
  job : Job
  stepIndex : ℕ
  allReports : List Held
  stepState : StepState
  stepPos : Pos
  stream : Bool
  continuations : List Continuation

/-- `_build_flow_state`. -/
def buildFlowState (flow : Flow) (runId : RunId) (totals : UsageTotals) (context : Context)
    (paused : PausedFlow) : Except Exn FlowState := do
  let outputs ← orSerializationError (paused.allReports.mapM fun held => do
    pure (held.pos, ← held.report.persisted))
  let stepState ← orSerializationError paused.stepState.persisted
  let snapshot ← contextSnapshot context
  let continuations ← serializeAll flow.steps paused.continuations
  pure
    { runId := runId
      status := .paused
      runnerName := flow.name
      job := paused.job
      messages := paused.stepState.core.messages
      toolCalls := paused.stepState.core.toolCalls
      pendingAction := paused.stepState.core.pendingAction
      metrics := paused.stepState.core.metrics
      iteration := paused.stepState.core.iteration
      stepIndex := some paused.stepIndex
      outputs := outputs
      stepState := some stepState
      stepPos := paused.stepPos
      stream := some paused.stream
      flowSignature := some (signature flow.steps)
      context := some snapshot
      continuations := some continuations
      usageTotals := totals }

/-- What a resume takes from a stored state. -/
structure Restored where
  allReports : List Held
  context : Context
  continuations : List Continuation

/-- `WorkflowContext.restore`. -/
def restoreContext (job : Job) (outputs : List Held) : Option ContextSnapshot → Context
  | none => { job := job, outputs := outputs }
  | some snapshot =>
    { job := job
      outputs := outputs
      artifacts := snapshot.artifacts
      loopIterations := snapshot.loopIterations }

/-- The restored reports are new objects, numbered from `ref` on. -/
def restoreReports (ref : Ref) (outputs : List (Pos × Report)) : List Held :=
  outputs.zipIdx.map fun o => ⟨ref + o.2, o.1.1, o.1.2⟩

def restoreFlow (flow : Flow) (state : FlowState) (ref : Ref) : Except Exn (Restored × Ref) := do
  let allReports := restoreReports ref state.outputs
  let context := restoreContext state.job allReports state.context
  let (continuations, ref) ←
    restoreAll flow.steps (state.continuations.getD []) (ref + allReports.length)
  pure (⟨allReports, context, continuations⟩, ref)

/-- The checks of `_resume` before it restores anything. -/
def checkFlowState (flow : Flow) (state : FlowState) : Except String (ℕ × StepState) :=
  match state.stepIndex, state.stepState with
  | none, _ => .error "Invalid flow state"
  | _, none => .error "Invalid flow state"
  | some stepIndex, some stepState =>
    match flow.steps[stepIndex]? with
    | none => .error "Invalid step index"
    | some node =>
      if state.flowSignature.any (· ≠ signature flow.steps) then
        .error "Flow definition does not match stored state"
      else if state.continuations.isNone && !(node matches .step ..) then
        .error "Stored flow state does not include composite continuation data"
      else .ok (stepIndex, stepState)

section

variable (desk : DeskSettings) (api : RunnerApi) (flow : Flow)

/-! ### Recording how a run ends -/

def getFields : Prog FlowFields := Prog.get fun w => w.flows flow.id

def modifyFields (f : FlowFields → FlowFields) : Prog Unit :=
  Prog.modify fun w => { w with flows := Function.update w.flows flow.id (f (w.flows flow.id)) }

/-- The event and the record of a run's end under the run id the flow has at this
moment. -/
def recordEnd (status : RunStatus) (event : String) (output : Option String) (outputJson : Value) :
    Prog Unit := do
  let fields ← getFields flow
  deskEmit fields.events fields.runId event flow.name []
  updateRun desk fields.runId status output outputJson none
  unregisterFlowRun fields.runId

/-- `_emit_run_failed`. -/
def emitRunFailed (report : Report) : Prog Unit :=
  recordEnd desk flow .failed "run.failed" report.content report.data.toJsonValue

/-- `_emit_run_completed`. -/
def emitRunCompleted (report : Report) : Prog Unit :=
  recordEnd desk flow .completed "run.completed" report.content report.data.toJsonValue

/-- A failure with a report of its own and an empty record. -/
def failRun (report : RunId → Report) : Prog Report := do
  let fields ← getFields flow
  recordEnd desk flow .failed "run.failed" none .none
  pure (report fields.runId)

/-- `_pause_flow`. -/
def pauseFlow (context : Ref) (report : Report) (paused : PausedFlow) : Prog Report := do
  let fields ← getFields flow
  let totals ← getTotals fields.usageTotals
  let c ← getContext context
  let paused := { paused with stepState := paused.stepState.setStream paused.stream }
  match buildFlowState flow fields.runId totals c paused with
  | .error e =>
    if e.kind = .typeError || e.kind = .valueError then
      let failed := { report with
        status := .failed
        pendingAction := none
        errors := report.errors ++ ["Could not persist flow state: " ++ e.text] }
      emitRunFailed desk flow failed
      pure failed
    else Prog.raise e
  | .ok state =>
    deskEmit fields.events fields.runId "run.paused" flow.name []
    updateRun desk fields.runId .paused report.content .none (some (.flow state))
    pure report

/-! ### Running steps -/

/-- How far a run has come: it ended with a report, or it goes on with what it has
collected in `all_reports`. -/
inductive Progress where
  | ended (report : Report)
  | going (allReports : List Held)

/-- The parts of a run that its helpers are passed. -/
structure FlowRun where
  context : Ref
  job : Job
  stream : Bool

/-- `_execute_step_results`, which normalizes the outputs. -/
def executeStepResults (run : FlowRun) (stepIndex : ℕ) (remaining : List Continuation) :
    List StepOutput → List Held → Prog Progress
  | [], allReports => pure (.going allReports)
  | result :: tail, allReports =>
    match result.status, result.state with
    | .paused, none => do
      pure (.ended (← failRun desk flow fun runId =>
        failedFrom runId result.report "Missing runner state"))
    | .paused, some state => do
      let report ← pauseFlow desk flow run.context result.report
        { job := run.job
          stepIndex := stepIndex
          allReports := allReports
          stepState := state
          stepPos := result.held.pos
          stream := run.stream
          continuations :=
            result.continuations ++ (parked (tail.map StepOutput.normalized) ++ remaining) }
      pure (.ended report)
    | .failed, _ => do
      emitRunFailed desk flow result.report
      pure (.ended result.report)
    | _, _ => do
      modifyContext run.context (Context.addOutput result.held)
      executeStepResults run stepIndex remaining tail (allReports ++ [result.held])

/-- `_run_steps` from the step with number `i` on. -/
def runSteps (run : FlowRun) : List Node → ℕ → List Held → Prog Progress
  | [], _, allReports => pure (.going allReports)
  | step :: steps, i, allReports => do
    let results ← execute desk api flow run.context step [.seq i]
    match ← executeStepResults desk flow run i [] results allReports with
    | .ended report => pure (.ended report)
    | .going allReports => runSteps run steps (i + 1) allReports

/-- The continuations that a resume goes through. -/
def runContinuations (run : FlowRun) (stepIndex : ℕ) :
    List Continuation → List Held → Prog Progress
  | [], allReports => pure (.going allReports)
  | continuation :: continuations, allReports => do
    let results ← runContinuation desk api flow run.context continuation
    match ← executeStepResults desk flow run stepIndex continuations results allReports with
    | .ended report => pure (.ended report)
    | .going allReports => runContinuations run stepIndex continuations allReports

/-- `_finalize_flow_run`. -/
def finalizeFlowRun (allReports : List Held) : Prog Report := do
  if allReports.isEmpty then failRun desk flow noStepsReport
  else
    let fields ← getFields flow
    let totals ← getTotals fields.usageTotals
    let report := finalReport fields.runId totals (allReports.map Held.report)
    emitRunCompleted desk flow report
    pure report

def finish : Progress → Prog Report
  | .ended report => pure report
  | .going allReports => finalizeFlowRun desk flow allReports

/-! ### Run -/

def deskOpen : Prog Unit := do
  if ← Prog.get fun w => w.closed then Prog.raise (runtimeError "Desk is closed") else pure ()

/-- The part of `_run` before its first step. -/
def beginRun (job : Job) : Prog FlowRun := do
  deskOpen
  let runId ← Prog.newId
  let events ← newEventList []
  let totals ← newTotals {}
  modifyFields flow fun _ => ⟨runId, events, totals, desk.stream⟩
  createRun desk runId job
  registerFlowRun runId flow
  deskEmit events runId "run.started" flow.name [("job_id", .str job.id)]
  let context ← newContext { job := job }
  pure ⟨context, job, desk.stream⟩

/-- `_run` up to its final report. -/
def collectRun (job : Job) : Prog Progress := do
  let run ← beginRun desk flow job
  runSteps desk api flow run flow.steps 0 []

/-- `Flow.arun`. -/
def run (job : Job) : Prog Report := do
  finish desk flow (← collectRun desk api flow job)

/-! ### Resume -/

/-- `_resume_failure`. -/
def resumeFailure (state : FlowState) (error : String) : Prog Report := do
  let report := failedState state.toStateCore error
  emitRunFailed desk flow report
  pure report

/-- `_resume_runner`. -/
def resumeRunner (state : StepState) (decision : Value) (stream : Bool) (pos : Pos) :
    Prog (Held × Option StepState) := do
  let config ← flowRunConfig desk flow fun _ => stream
  match ← Prog.get fun w => registeredRunner w state with
  | none =>
    let error := match state with
      | .worker _ => "Worker not registered"
      | .workforce _ => "Workforce not registered"
    let ref ← Prog.newRef
    pure (⟨ref, pos, failedState state.core error⟩, none)
  | some runner =>
    let (report, updated) ← api.aresume runner config state decision pos
    recordMemory (some runner) report
    let ref ← Prog.newRef
    pure (⟨ref, pos, report⟩, updated)

/-- The restored parts of a state, or what restoring raises. -/
def restoreParts (state : FlowState) : Prog (Except Exn Restored) :=
  Coroutine.Coro.exchange (S := sig)
    (fun w => (restoreFlow flow state w.nextRef).map Prod.fst)
    fun w =>
      match restoreFlow flow state w.nextRef with
      | .ok (_, ref) => { w with nextRef := ref }
      | .error _ => w

/-- What follows in a resume once the paused step has its report. -/
def continueRun (run : FlowRun) (stepIndex : ℕ) (continuations : List Continuation)
    (allReports : List Held) : Prog Progress := do
  match ← runContinuations desk api flow run stepIndex continuations allReports with
  | .ended report => pure (.ended report)
  | .going allReports =>
    runSteps desk api flow run (flow.steps.drop (stepIndex + 1)) (stepIndex + 1) allReports

/-- The part of `_resume` behind its checks, from a restored state on. The report of the
resumed runner ends the run or is collected like the one of a step. -/
def resumeRestored (run : FlowRun) (stepIndex : ℕ) (stepState : StepState) (stepPos : Pos)
    (restored : Restored) (decision : Value) : Prog Progress := do
  let (held, updated) ←
    resumeRunner desk api flow (stepState.setStream run.stream) decision run.stream stepPos
  let result : StepOutput := .result held updated []
  match ← executeStepResults desk flow run stepIndex restored.continuations [result]
    restored.allReports with
  | .ended report => pure (.ended report)
  | .going allReports =>
    continueRun desk api flow run stepIndex restored.continuations allReports

/-- `_resume` up to its final report. -/
def collectResume (state : FlowState) (decision : Value) (stream : Option Bool) :
    Prog Progress := do
  modifyFields flow fun fields => { fields with runId := state.runId }
  let events ← getEvents state.runId
  modifyFields flow fun fields => { fields with events := events }
  match checkFlowState flow state with
  | .error message => pure (.ended (← resumeFailure desk flow state message))
  | .ok (stepIndex, stepState) =>
    match ← restoreParts flow state with
    | .error e =>
      if e.kind = .typeError || e.kind = .valueError then
        pure (.ended (← resumeFailure desk flow state ("Invalid flow state: " ++ e.text)))
      else Prog.raise e
    | .ok restored =>
      let totals ← newTotals state.usageTotals
      modifyFields flow fun fields => { fields with usageTotals := totals }
      registerFlowRun state.runId flow
      deskEmit events state.runId "run.resumed" flow.name []
      let streamEnabled := stream.getD (state.stream.getD desk.stream)
      modifyFields flow fun fields => { fields with stream := streamEnabled }
      let context ← newContext restored.context
      resumeRestored desk api flow ⟨context, state.job, streamEnabled⟩ stepIndex stepState
        state.stepPos restored decision

/-- `Flow._resume`. -/
def resume (state : FlowState) (decision : Value) (stream : Option Bool) : Prog Report := do
  finish desk flow (← collectResume desk api flow state decision stream)

/-- `Flow.aresume` up to its final report. -/
def collectAresume (report : Report) (decision : Value) (stream : Option Bool) :
    Prog Progress := do
  deskOpen
  match (← getRun report.runId).bind RunRecord.state with
  | none => pure (.ended (failedFrom report.runId report "No stored state"))
  | some (.flow state) => collectResume desk api flow state decision stream
  | some _ => pure (.ended (failedFrom report.runId report "Run is not a flow"))

/-- `Flow.aresume`. -/
def aresume (report : Report) (decision : Value) (stream : Option Bool) : Prog Report := do
  finish desk flow (← collectAresume desk api flow report decision stream)

end

end Blackgeorge.Workflow
