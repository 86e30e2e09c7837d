import Blackgeorge.WorkforceRun.Handoff

/-! A workforce's run and its resume. Managed mode asks a manager for a worker,
collaborate mode runs all workers and reduces their reports, swarm mode follows
handoffs from worker to worker. -/

namespace Blackgeorge.WorkforceRun

open Data Program WorkerRunner

variable (force : Workforce) (config : RunConfig)

/-! ### Pausing -/

/-- `build_workforce_state`: the nested worker state, the root job and the reports that
the stage keeps are dumped to JSON. -/
def buildWorkforceState (runId : RunId) (job root : Job) (workerState : WorkerState)
    (stage : Stage) (totals : UsageTotals) : Except Exn WorkforceState := do
  let dumped ← orSerializationError workerState.persisted
  let stage ← orSerializationError stage.persisted
  let root ← orSerializationError root.persisted
  pure
    { runId := runId
      status := .paused
      runnerName := force.name
      job := job
      messages := workerState.messages
      toolCalls := workerState.toolCalls
      pendingAction := workerState.pendingAction
      metrics := workerState.metrics
      iteration := workerState.iteration
      stage := stage
      workerState := some dumped
      usageTotals := totals
      rootJob := some root }

/-- A paused report with the workforce state around the worker's. -/
def pauseWith (runId : RunId) (job : Job) (report : Report) (workerState : WorkerState)
    (stage : Stage) : Prog (Report × Option WorkforceState) := do
  let totals ← getTotals config.usageTotals
  let state ← Prog.ofExcept (buildWorkforceState force runId job job workerState stage totals)
  pure (report, some state)

/-- `_reduce_reports`. -/
def reduceReports (reports : List (Worker × Report)) (runId : RunId) : Prog Report := do
  match force.reducer with
  | some fn => Prog.ofExcept (← Prog.ask (.reduce fn (reports.map Prod.snd)))
  | none => pure (defaultReducer reports runId)

/-- `_resume_failed_report`. -/
def resumeFailedReport (state : WorkforceState) (message : String) : Report where
  runId := state.runId
  status := .failed
  messages := state.messages
  toolCalls := state.toolCalls
  metrics := state.metrics
  errors := [message]

/-! ### Collaborate -/

def canParallelizeCollaborate (job : Job) : Bool :=
  match job.toolsOverride with
  | some refs => refs.isEmpty
  | none => force.workers.all fun w => w.toolbelt.tools.isEmpty

/-- The report that stands for a worker task without a result. -/
def taskFailure (runId : RunId) (e : Exn) : Report where
  runId := runId
  status := .failed
  errors := [if e.kind = .cancelled then "Worker cancelled due to sibling failure" else e.text]

/-- The tasks' outcomes in worker order, up to the first paused one. -/
def collectTasks (job : Job) : List (Worker × Except Exn (Report × Option WorkerState)) →
    List (Worker × Report) → Prog (Report × Option WorkforceState)
  | [], reports => do
    if reports.any fun r => r.2.status = .failed then
      pure (aggregateReports reports config.runId .failed, none)
    else pure (← reduceReports force reports config.runId, none)
  | (worker, .error e) :: rest, reports =>
    collectTasks job rest (reports ++ [(worker, taskFailure config.runId e)])
  | (_, .ok (report, some workerState)) :: _, reports =>
    pauseWith force config config.runId job report workerState
      (.collaborate (reports.map Prod.snd) reports.length)
  | (worker, .ok (report, none)) :: rest, reports =>
    collectTasks job rest (reports ++ [(worker, report)])

/-- `_arun_collaborate_parallel`. That a failing task cancels its siblings shows in
their outcomes only. -/
def runCollaborateParallel (job : Job) : Prog (Report × Option WorkforceState) := do
  let outcomes ← Coroutine.Coro.parAll (force.workers.map fun w => arun w config job)
  collectTasks force config job (force.workers.zip outcomes) []

/-- The workers from `workers` on, one after another. -/
def runCollaborateFrom (runId : RunId) (job : Job) :
    List Worker → List (Worker × Report) → Prog (Report × Option WorkforceState)
  | [], reports => do pure (← reduceReports force reports runId, none)
  | worker :: workers, reports => do
    let (report, workerState) ← arun worker config job
    match workerState with
    | some workerState =>
      pauseWith force config runId job report workerState
        (.collaborate (reports.map Prod.snd) reports.length)
    | none =>
      if report.status = .failed then
        pure (aggregateReports (reports ++ [(worker, report)]) runId .failed, none)
      else runCollaborateFrom runId job workers (reports ++ [(worker, report)])

def runCollaborateMode (job : Job) : Prog (Report × Option WorkforceState) :=
  if canParallelizeCollaborate force job then runCollaborateParallel force config job
  else runCollaborateFrom force config config.runId job force.workers []

/-- `_aresume_collaborate_stage`. -/
def resumeCollaborateStage (state : WorkforceState) (workerState : WorkerState)
    (completedReports : List Report) (pendingIndex : ℕ) (decision : Value) :
    Prog (Report × Option WorkforceState) := do
  match force.workers[pendingIndex]? with
  | none => pure (resumeFailedReport state "Invalid pending worker index", none)
  | some pendingWorker =>
    let (report, next) ← aresume pendingWorker config workerState decision
    match next with
    | some next =>
      pauseWith force config state.runId (rootJob state) report next
        (.collaborate completedReports pendingIndex)
    | none =>
      if report.status = .failed then
        pure (aggregateReports ((force.workers.take (pendingIndex + 1)).zip completedReports ++
          [(pendingWorker, report)]) state.runId .failed, none)
      else
        runCollaborateFrom force config state.runId (rootJob state)
          (force.workers.drop (pendingIndex + 1))
          ((force.workers.take (pendingIndex + 1)).zip (completedReports ++ [report]))

/-! ### Managed -/

def manager : Worker := force.manager.getD force.first

/-- The job in which the manager chooses a worker. -/
def managerJob (id : String) (job : Job) : Job where
  id := id
  input := .dict [("task", job.input), ("workers", .list (force.workers.map fun w => .str w.name))]
  responseSchema := some (.model "blackgeorge.workforce.WorkerDecision" true)
  toolsOverride := some []

/-- Run the selected worker on the job. -/
def runSelected (runId : RunId) (job : Job) (managerReport : Report) :
    Prog (Report × Option WorkforceState) := do
  let worker := findWorker force (some (selectWorkerName managerReport force))
  let (report, workerState) ← arun worker config job
  match workerState with
  | some workerState =>
    pauseWith force config runId job report workerState (.worker (some worker.name))
  | none => pure (report, none)

/-- What follows the manager's turn, of a run or of a resume. -/
def afterManager (runId : RunId) (job : Job) (report : Report) (workerState : Option WorkerState) :
    Prog (Report × Option WorkforceState) := do
  match workerState with
  | some workerState => pauseWith force config runId job report workerState .manager
  | none =>
    if report.status = .failed then pure (report, none)
    else runSelected force config runId job report

def runManagedMode (job : Job) : Prog (Report × Option WorkforceState) := do
  let id ← Prog.newId
  let (report, workerState) ← arun (manager force) config (managerJob force id job)
  afterManager force config config.runId job report workerState

def resumeManagerStage (state : WorkforceState) (workerState : WorkerState) (decision : Value) :
    Prog (Report × Option WorkforceState) := do
  let (report, next) ← aresume (manager force) config workerState decision
  afterManager force config state.runId (rootJob state) report next

def resumeWorkerStage (state : WorkforceState) (workerState : WorkerState)
    (selected : Option String) (decision : Value) : Prog (Report × Option WorkforceState) := do
  let worker := findWorker force selected
  let (report, next) ← aresume worker config workerState decision
  match next with
  | some next =>
    pauseWith force config state.runId (rootJob state) report next (.worker (some worker.name))
  | none => pure (report, none)

/-! ### Swarm -/

def swarmHandoffBudget : ℕ := max 1 (min config.maxIterations config.maxToolCalls)

/-- What follows a worker's turn in a swarm; the first argument counts the handoffs that
the budget still allows. -/
def swarmContinue (runId : RunId) : ℕ → ℕ → List Report → Worker → Job →
    Report × Option WorkerState → Prog (Report × Option WorkforceState)
  | left, count, history, worker, job, (report, workerState) =>
    match workerState with
    | none => pure (mergeSwarmReports history report, none)
    | some state =>
      let handoff :=
        if report.status = .paused then handoffTransition force report job worker else .ok none
      match handoff with
      | .error e => pure (mergeSwarmReports history (handoffFailedReport report e.text), none)
      | .ok none =>
        pauseWith force config runId job report state (.swarm worker.name count history)
      | .ok (some (nextWorker, nextJob)) =>
        let history := history ++ [{ report with pendingAction := none }]
        match left with
        | 0 =>
          pure (mergeSwarmReports history
            (handoffFailedReport report "Max handoff transitions exceeded."), none)
        | left + 1 => do
          let turn ← arun nextWorker config nextJob
          swarmContinue runId left (count + 1) history nextWorker nextJob turn

def runSwarmMode (job : Job) : Prog (Report × Option WorkforceState) := do
  let turn ← arun (manager force) config job
  swarmContinue force config config.runId (swarmHandoffBudget config) 0 [] (manager force) job turn

def resumeSwarmStage (state : WorkforceState) (workerState : WorkerState) (currentWorker : String)
    (handoffCount : ℕ) (swarmHistory : List Report) (decision : Value) :
    Prog (Report × Option WorkforceState) := do
  let name := if currentWorker = "" then workerState.runnerName else currentWorker
  match swarmWorker force name with
  | .error e => pure (resumeFailedReport state e.text, none)
  | .ok worker =>
    let turn ← aresume worker config workerState decision
    swarmContinue force config state.runId (swarmHandoffBudget config - handoffCount) handoffCount
      swarmHistory worker state.job turn

/-! ### Run and resume -/

/-- A report that ends a run carries the run's metrics. -/
def withTotals (outcome : Report × Option WorkforceState) : Prog (Report × Option WorkforceState) := do
  match outcome with
  | (report, some state) => pure (report, some state)
  | (report, none) => pure (withRunMetrics report (← getTotals config.usageTotals), none)

def runMode (job : Job) : Prog (Report × Option WorkforceState) :=
  match force.mode with
  | .swarm => runSwarmMode force config job
  | .managed => runManagedMode force config job
  | .collaborate => runCollaborateMode force config job

/-- `Workforce.arun`. -/
def arunWorkforce (job : Job) : Prog (Report × Option WorkforceState) := do
  config.emit "workforce.started" force.name []
  let outcome ← runMode force config job
  let outcome ← withTotals config outcome
  config.emit "workforce.completed" force.name []
  pure outcome

/-- The stage a paused workforce goes on with. -/
def resumeStage (state : WorkforceState) (workerState : WorkerState) (decision : Value) :
    Prog (Report × Option WorkforceState) :=
  match state.stage with
  | .swarm current count history =>
    resumeSwarmStage force config state workerState current count history decision
  | .manager => resumeManagerStage force config state workerState decision
  | .worker selected => resumeWorkerStage force config state workerState selected decision
  | .collaborate completed index =>
    resumeCollaborateStage force config state workerState completed index decision
  | .unknown => pure (resumeFailedReport state "Unknown workflow stage", none)

/-- `Workforce.aresume`. -/
def aresumeWorkforce (state : WorkforceState) (decision : Value) :
    Prog (Report × Option WorkforceState) := do
  modifyTotals config.usageTotals fun totals => restoreTotals totals state.usageTotals
  match state.workerState with
  | none => pure (resumeFailedReport state "Missing worker state", none)
  | some workerState =>
    if state.stage matches .unknown then
      pure (resumeFailedReport state "Unknown workflow stage", none)
    else
      let outcome ←
        resumeStage force (resumeConfig config state.runId) state workerState decision
      withTotals config outcome

end Blackgeorge.WorkforceRun
