import Blackgeorge.WorkerRunner.Outcome
import Blackgeorge.WorkforceRun.Run

/-! What a workforce does, under any law that serves its workers, and how it pauses: with
the paused report of one of them around whose state its own is built. -/

namespace Blackgeorge.WorkforceRun

open Data Program Coroutine Coro WorkerRunner

/-! ### The pending action of a state -/

/-- The action a worker's state waits for. -/
def workerAction (state : WorkerState) : Option Awaited := state.pendingAction.map awaited

/-- The action a step's state waits for: its innermost worker's. -/
def stepAction : StepState → Option Awaited
  | .worker state => workerAction state
  | .workforce state => state.workerState.bind workerAction

def reportAction (report : Report) : Option Awaited := report.pendingAction.map awaited

/-- A state comes with a paused report, and both wait for one action. -/
def Carries (report : Report) (action : Option Awaited) : Prop :=
  report.status = .paused ∧ ∃ a, action = some a ∧ reportAction report = some a

/-- The outcome of a runner whose state, if there is one, waits for its report's action. -/
def WorkerOutcome (o : Report × Option WorkerState) : Prop :=
  ∀ state, o.2 = some state → Carries o.1 (workerAction state)

def ForceOutcome (o : Report × Option WorkforceState) : Prop :=
  ∀ state, o.2 = some state → Carries o.1 (state.workerState.bind workerAction)

theorem forceOutcome_none (report : Report) : ForceOutcome (report, none) := by
  simp [ForceOutcome]

theorem workerOutcome_of {tools : List Tool} {job : Job} {s : LoopState}
    {o : Report × Option WorkerState} (h : OutcomeFrom tools job s o) : WorkerOutcome o := by
  intro state hstate
  have hpaused := h.paused state hstate
  obtain ⟨p, hp, hreport, -⟩ := hpaused.pending
  refine ⟨hpaused.status, awaited p, ?_, ?_⟩
  · simp [workerAction, hp]
  · simp [reportAction, hreport]

theorem pendingAction_persisted {p p' : PendingAction} (h : p.persisted = some p') :
    awaited p' = awaited p := by
  simp only [PendingAction.persisted, Option.bind_eq_bind, Option.bind_eq_some_iff] at h
  obtain ⟨toolCall, hcall, _, _, h⟩ := h
  obtain rfl := Option.some.inj h
  simp only [ToolCall.persisted, Option.bind_eq_bind, Option.bind_eq_some_iff] at hcall
  obtain ⟨_, _, _, _, hcall⟩ := hcall
  obtain rfl := Option.some.inj hcall
  rfl

theorem core_persisted {s s' : StateCore} (h : s.persisted = some s') :
    s'.pendingAction.map awaited = s.pendingAction.map awaited := by
  simp only [StateCore.persisted, Option.bind_eq_bind, Option.bind_eq_some_iff] at h
  obtain ⟨_, _, _, _, _, _, pending, hpending, h⟩ := h
  obtain rfl := Option.some.inj h
  cases hp : s.pendingAction with
  | none =>
    rw [hp] at hpending
    obtain rfl : none = pending := by simpa using hpending
    rfl
  | some p =>
    obtain ⟨p', hdump, rfl⟩ : ∃ p', p.persisted = some p' ∧ some p' = pending := by
      simpa [hp] using hpending
    simp [pendingAction_persisted hdump]

/-- A dump keeps the action a worker waits for. -/
theorem workerAction_persisted {s s' : WorkerState} (h : s.persisted = some s') :
    workerAction s' = workerAction s := by
  simp only [WorkerState.persisted, Option.bind_eq_bind, Option.bind_eq_some_iff] at h
  obtain ⟨core, hcore, h⟩ := h
  obtain rfl := Option.some.inj h
  exact core_persisted hcore

theorem orSerializationError_ok {α : Type} {dump : Option α} {a : α}
    (h : orSerializationError dump = .ok a) : dump = some a := by
  cases dump with
  | none => cases h
  | some b => exact congrArg some (Except.ok.inj h)

/-- The state around a worker's waits for the worker's action. -/
theorem buildWorkforceState_action {force : Workforce} {runId : RunId} {job root : Job}
    {workerState : WorkerState} {stage : Stage} {totals : UsageTotals} {state : WorkforceState}
    (h : buildWorkforceState force runId job root workerState stage totals = .ok state) :
    state.workerState.bind workerAction = workerAction workerState := by
  unfold buildWorkforceState at h
  cases hdump : orSerializationError workerState.persisted with
  | error e => rw [hdump] at h; cases h
  | ok dumped =>
    rw [hdump] at h
    cases hstage : orSerializationError stage.persisted with
    | error e => rw [hstage] at h; cases h
    | ok stage' =>
      rw [hstage] at h
      cases hroot : orSerializationError root.persisted with
      | error e => rw [hroot] at h; cases h
      | ok root' =>
        rw [hroot] at h
        obtain rfl := Except.ok.inj h
        exact workerAction_persisted (orSerializationError_ok hdump)

/-! ### Running workers -/

section

variable {L : Law sig} (hL : ∀ tools, Serves L tools) (force : Workforce) (config : RunConfig)

include hL

theorem serves_worker (worker : Worker) (job : Job) :
    Each L (arun worker config job) WorkerOutcome := by
  refine (serves_arun (hL _) config).mono ?_
  rintro o ⟨registered, h⟩
  exact workerOutcome_of h

theorem serves_pauseWith (runId : RunId) (job : Job) {report : Report} {workerState : WorkerState}
    (h : Carries report (workerAction workerState)) (stage : Stage) :
    Each L (pauseWith force config runId job report workerState stage) ForceOutcome := by
  apply each_bind (each_getTotals (hL []).toPermits _)
  intro totals _
  refine each_bind (P := fun state => state.workerState.bind workerAction = workerAction workerState)
    (each_ofExcept fun state hstate => buildWorkforceState_action hstate) ?_
  intro state hstate
  apply each_pure
  rintro _ ⟨⟩
  dsimp only
  rwa [hstate]

theorem serves_reduceReports (reports : List (Worker × Report)) (runId : RunId) :
    Each L (reduceReports force reports runId) fun _ => True := by
  unfold reduceReports
  split
  · exact each_bind (each_free (hL []).requests trivial) fun r _ => each_outcome r
  · exact each_pure trivial

/-! ### Collaborate -/

theorem serves_collectTasks (job : Job)
    (tasks : List (Worker × Except Exn (Report × Option WorkerState)))
    (htasks : ∀ task ∈ tasks, ∀ o, task.2 = .ok o → WorkerOutcome o)
    (reports : List (Worker × Report)) :
    Each L (collectTasks force config job tasks reports) ForceOutcome := by
  induction tasks generalizing reports with
  | nil =>
    unfold collectTasks
    split_ifs
    · exact each_pure (forceOutcome_none _)
    · apply each_bind (serves_reduceReports hL force reports _)
      intro report _
      exact each_pure (forceOutcome_none _)
  | cons task tasks ih =>
    have hrest := ih fun task' h => htasks task' (by simp [h])
    obtain ⟨worker, e | ⟨report, _ | workerState⟩⟩ := task
    · exact hrest _
    · exact hrest _
    · have htask := htasks _ List.mem_cons_self _ rfl workerState rfl
      exact serves_pauseWith hL force config _ _ htask _

theorem serves_runCollaborateParallel (job : Job) :
    Each L (runCollaborateParallel force config job) ForceOutcome := by
  have htasks : ∀ c ∈ force.workers.map fun worker => arun worker config job,
      Each L c WorkerOutcome := by
    intro c hc
    obtain ⟨worker, -, rfl⟩ := List.mem_map.mp hc
    exact serves_worker hL config worker job
  apply each_bind (each_parAll htasks)
  rintro outcomes ⟨-, houtcomes⟩
  apply serves_collectTasks hL
  intro task htask
  exact houtcomes task.2 (List.of_mem_zip htask).2

theorem serves_runCollaborateFrom (runId : RunId) (job : Job) (workers : List Worker)
    (reports : List (Worker × Report)) :
    Each L (runCollaborateFrom force config runId job workers reports) ForceOutcome := by
  induction workers generalizing reports with
  | nil =>
    apply each_bind (serves_reduceReports hL force reports _)
    intro report _
    exact each_pure (forceOutcome_none _)
  | cons worker workers ih =>
    apply each_bind (serves_worker hL config worker job)
    rintro ⟨report, _ | workerState⟩ h
    · dsimp only
      split_ifs
      · exact each_pure (forceOutcome_none _)
      · exact ih _
    · exact serves_pauseWith hL force config _ _ (h workerState rfl) _

theorem serves_runCollaborateMode (job : Job) :
    Each L (runCollaborateMode force config job) ForceOutcome := by
  unfold runCollaborateMode
  split_ifs
  · exact serves_runCollaborateParallel hL force config job
  · exact serves_runCollaborateFrom hL force config _ _ _ _

/-! ### Managed -/

theorem serves_runSelected (runId : RunId) (job : Job) (managerReport : Report) :
    Each L (runSelected force config runId job managerReport) ForceOutcome := by
  apply each_bind (serves_worker hL config _ job)
  rintro ⟨report, _ | workerState⟩ h
  · exact each_pure (forceOutcome_none _)
  · exact serves_pauseWith hL force config _ _ (h workerState rfl) _

theorem serves_afterManager (runId : RunId) (job : Job) {report : Report}
    {workerState : Option WorkerState} (h : WorkerOutcome (report, workerState)) :
    Each L (afterManager force config runId job report workerState) ForceOutcome := by
  unfold afterManager
  split
  · exact serves_pauseWith hL force config _ _ (h _ rfl) _
  · split_ifs
    · exact each_pure (forceOutcome_none _)
    · exact serves_runSelected hL force config _ _ _

theorem serves_runManagedMode (job : Job) :
    Each L (runManagedMode force config job) ForceOutcome := by
  refine each_bind (each_free (hL []).requests trivial) fun id _ => ?_
  apply each_bind (serves_worker hL config _ _)
  rintro ⟨report, workerState⟩ h
  exact serves_afterManager hL force config _ _ h

/-! ### Swarm -/

theorem serves_swarmContinue (runId : RunId) (left count : ℕ) (history : List Report)
    (worker : Worker) (job : Job) {turn : Report × Option WorkerState} (h : WorkerOutcome turn) :
    Each L (swarmContinue force config runId left count history worker job turn) ForceOutcome := by
  induction left generalizing count history worker job turn with
  | zero =>
    obtain ⟨report, _ | workerState⟩ := turn
    · exact each_pure (forceOutcome_none _)
    · unfold swarmContinue
      dsimp only
      split
      · exact each_pure (forceOutcome_none _)
      · exact serves_pauseWith hL force config _ _ (h _ rfl) _
      · exact each_pure (forceOutcome_none _)
  | succ left ih =>
    obtain ⟨report, _ | workerState⟩ := turn
    · exact each_pure (forceOutcome_none _)
    · unfold swarmContinue
      dsimp only
      split
      · exact each_pure (forceOutcome_none _)
      · exact serves_pauseWith hL force config _ _ (h _ rfl) _
      · exact each_bind (serves_worker hL config _ _) fun turn hturn => ih _ _ _ _ hturn

theorem serves_runSwarmMode (job : Job) : Each L (runSwarmMode force config job) ForceOutcome :=
  each_bind (serves_worker hL config _ job) fun _ hturn =>
    serves_swarmContinue hL force config _ _ _ _ _ _ hturn

/-! ### Run -/

theorem serves_withTotals {outcome : Report × Option WorkforceState} (h : ForceOutcome outcome) :
    Each L (withTotals config outcome) ForceOutcome := by
  obtain ⟨report, _ | state⟩ := outcome
  · exact each_bind (each_getTotals (hL []).toPermits _) fun _ _ => each_pure (forceOutcome_none _)
  · exact each_pure h

theorem serves_arunWorkforce (job : Job) :
    Each L (arunWorkforce force config job) ForceOutcome := by
  have hmode : Each L (runMode force config job) ForceOutcome := by
    unfold runMode
    split
    · exact serves_runSwarmMode hL force config job
    · exact serves_runManagedMode hL force config job
    · exact serves_runCollaborateMode hL force config job
  apply each_bind (each_emit (hL []).toPermits _ _ _ _)
  intro _ _
  apply each_bind hmode
  intro outcome houtcome
  apply each_bind (serves_withTotals hL config houtcome)
  intro outcome houtcome
  apply each_bind (each_emit (hL []).toPermits _ _ _ _)
  intro _ _
  exact each_pure houtcome

/-! ### Resume -/

/-- The law lets a decision meet the action of a worker's state, whoever resumes it. -/
def DecidesState (L : Law sig) (state : WorkerState) (decision : Value) : Prop :=
  ∀ worker, ∀ p ∈ state.pendingAction, Decides L worker state.job p decision

variable {workerState : WorkerState} {decision : Value}
  (hd : DecidesState L workerState decision)

include hd

theorem decides_worker (worker : Worker) :
    Each L (aresume worker config workerState decision) WorkerOutcome := by
  refine (decides_aresume (hL _) (hd worker) config).mono ?_
  rintro o ⟨s, -, -, h⟩
  exact workerOutcome_of h

theorem decides_resumeCollaborateStage (state : WorkforceState) (completedReports : List Report)
    (pendingIndex : ℕ) :
    Each L (resumeCollaborateStage force config state workerState completedReports pendingIndex
      decision) ForceOutcome := by
  unfold resumeCollaborateStage
  split
  · exact each_pure (forceOutcome_none _)
  · apply each_bind (decides_worker hL config hd _)
    rintro ⟨report, _ | next⟩ h
    · dsimp only
      split_ifs
      · exact each_pure (forceOutcome_none _)
      · exact serves_runCollaborateFrom hL force config _ _ _ _
    · exact serves_pauseWith hL force config _ _ (h _ rfl) _

theorem decides_resumeStage (state : WorkforceState) :
    Each L (resumeStage force config state workerState decision) ForceOutcome := by
  unfold resumeStage
  split
  · unfold resumeSwarmStage
    dsimp only
    split
    · exact each_pure (forceOutcome_none _)
    · exact each_bind (decides_worker hL config hd _) fun turn hturn =>
        serves_swarmContinue hL force config _ _ _ _ _ _ hturn
  · apply each_bind (decides_worker hL config hd _)
    rintro ⟨report, next⟩ h
    exact serves_afterManager hL force config _ _ h
  · apply each_bind (decides_worker hL config hd _)
    rintro ⟨report, _ | next⟩ h
    · exact each_pure (forceOutcome_none _)
    · exact serves_pauseWith hL force config _ _ (h _ rfl) _
  · exact decides_resumeCollaborateStage hL force config hd _ _ _
  · exact each_pure (forceOutcome_none _)

omit hd in
theorem decides_aresumeWorkforce {state : WorkforceState}
    (hd : ∀ ws ∈ state.workerState, DecidesState L ws decision) :
    Each L (aresumeWorkforce force config state decision) ForceOutcome := by
  apply each_bind (each_modifyTotals (hL []).toBills _ _)
  intro _ _
  split
  · exact each_pure (forceOutcome_none _)
  · next workerState hworker =>
    split_ifs
    · exact each_pure (forceOutcome_none _)
    · apply each_bind (decides_resumeStage hL force _ (hd workerState hworker) state)
      intro outcome houtcome
      exact serves_withTotals hL config houtcome

end

end Blackgeorge.WorkforceRun
