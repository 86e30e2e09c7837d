import Blackgeorge.WorkerRunner.Budget
import Blackgeorge.WorkforceRun.Outcome

/-! The cost budget of a workforce, whose workers share the totals of its run. -/

namespace Blackgeorge.WorkforceRun

open Data Program Coroutine Coro WorkerRunner

/-- How many workers of a workforce may be in a turn at the same time. -/
def width (force : Workforce) : ℕ :=
  match force.mode with
  | .collaborate => force.workers.length
  | _ => 1

variable {k : Weights} {flow : Option ℕ} {ref : Ref} {budget : ℚ} (force : Workforce)
  {config : RunConfig} (hconfig : Capped config ref budget)

variable {cap : ℕ}

theorem looks_pauseWith (runId : RunId) (job : Job) (report : Report) (workerState : WorkerState)
    (stage : Stage) :
    Looks (budgetGate k flow ref budget) cap
      (pauseWith force config runId job report workerState stage) := by
  refine gated_idle (P := fun _ => True) ?_
  apply each_bind (each_getTotals budgetIdle_permits _)
  intro totals _
  apply each_bind (each_outcome _)
  intro state _
  exact each_pure trivial

theorem looks_reduceReports (reports : List (Worker × Report)) (runId : RunId) :
    Looks (budgetGate k flow ref budget) cap (reduceReports force reports runId) := by
  refine gated_idle (P := fun _ => True) ?_
  unfold reduceReports
  split
  · refine each_bind (P := fun _ => True) (each_routine budgetIdle_permits trivial) fun r _ => ?_
    exact each_outcome r
  · exact each_pure trivial

/-! ### Collaborate -/

theorem looks_collectTasks (job : Job)
    (tasks : List (Worker × Except Exn (Report × Option WorkerState)))
    (reports : List (Worker × Report)) :
    Looks (budgetGate k flow ref budget) cap (collectTasks force config job tasks reports) := by
  induction tasks generalizing reports with
  | nil =>
    unfold collectTasks
    split_ifs
    · exact gated_pure
    · exact gated_bind (looks_reduceReports force _ _) fun _ => gated_pure
  | cons task tasks ih =>
    obtain ⟨worker, e | ⟨report, _ | workerState⟩⟩ := task
    · exact ih _
    · exact ih _
    · exact looks_pauseWith force _ _ _ _ _

include hconfig

theorem looks_runCollaborateParallel (job : Job) :
    Looks (budgetGate k flow ref budget) (force.workers.length * k.turn)
      (runCollaborateParallel force config job) := by
  have htasks : ∀ c ∈ force.workers.map fun worker => arun worker config job,
      Looks (budgetGate k flow ref budget) k.turn c := by
    intro c hc
    obtain ⟨worker, -, rfl⟩ := List.mem_map.mp hc
    exact looks_arun worker hconfig job
  have hall := looks_parAll htasks
  rw [List.length_map] at hall
  exact gated_bind hall fun outcomes => looks_collectTasks force job _ _

theorem looks_runCollaborateFrom (runId : RunId) (job : Job) (workers : List Worker)
    (reports : List (Worker × Report)) :
    Looks (budgetGate k flow ref budget) k.turn
      (runCollaborateFrom force config runId job workers reports) := by
  induction workers generalizing reports with
  | nil => exact gated_bind (looks_reduceReports force _ _) fun _ => gated_pure
  | cons worker workers ih =>
    refine gated_bind (looks_arun worker hconfig job) ?_
    rintro ⟨report, _ | workerState⟩
    · dsimp only
      split_ifs
      · exact gated_pure
      · exact ih _
    · exact looks_pauseWith force _ _ _ _ _

theorem looks_runCollaborateMode (job : Job) :
    Looks (budgetGate k flow ref budget) (force.workers.length * k.turn)
      (runCollaborateMode force config job) := by
  unfold runCollaborateMode
  split_ifs
  · exact looks_runCollaborateParallel force hconfig job
  · exact (looks_runCollaborateFrom force hconfig _ _ _ _).mono_cap
      (Nat.le_mul_of_pos_left _ (List.length_pos_of_ne_nil force.workers_ne))

/-! ### Managed -/

theorem looks_runSelected (runId : RunId) (job : Job) (managerReport : Report) :
    Looks (budgetGate k flow ref budget) k.turn
      (runSelected force config runId job managerReport) := by
  refine gated_bind (looks_arun _ hconfig job) ?_
  rintro ⟨report, _ | workerState⟩
  · exact gated_pure
  · exact looks_pauseWith force _ _ _ _ _

theorem looks_afterManager (runId : RunId) (job : Job) (report : Report)
    (workerState : Option WorkerState) :
    Looks (budgetGate k flow ref budget) k.turn
      (afterManager force config runId job report workerState) := by
  unfold afterManager
  split
  · exact looks_pauseWith force _ _ _ _ _
  · split_ifs
    · exact gated_pure
    · exact looks_runSelected force hconfig _ _ _

theorem looks_runManagedMode (job : Job) :
    Looks (budgetGate k flow ref budget) k.turn
      (runManagedMode force config job) := by
  have hid : Each (budgetGate k flow ref budget).idle Prog.newId fun _ => True :=
    each_query fun _ _ => ⟨rfl, trivial⟩
  refine gated_bind (gated_idle hid) fun id => ?_
  refine gated_bind (looks_arun _ hconfig _) ?_
  rintro ⟨report, workerState⟩
  exact looks_afterManager force hconfig _ _ _ _

/-! ### Swarm -/

theorem looks_swarmContinue (runId : RunId) (left count : ℕ) (history : List Report)
    (worker : Worker) (job : Job) (turn : Report × Option WorkerState) :
    Looks (budgetGate k flow ref budget) k.turn
      (swarmContinue force config runId left count history worker job turn) := by
  induction left generalizing count history worker job turn with
  | zero =>
    obtain ⟨report, _ | workerState⟩ := turn
    · exact gated_pure
    · unfold swarmContinue
      dsimp only
      split
      · exact gated_pure
      · exact looks_pauseWith force _ _ _ _ _
      · exact gated_pure
  | succ left ih =>
    obtain ⟨report, _ | workerState⟩ := turn
    · exact gated_pure
    · unfold swarmContinue
      dsimp only
      split
      · exact gated_pure
      · exact looks_pauseWith force _ _ _ _ _
      · exact gated_bind (looks_arun _ hconfig _) fun turn => ih _ _ _ _ turn

/-! ### Run and resume -/

omit hconfig in
theorem looks_withTotals (outcome : Report × Option WorkforceState) :
    Looks (budgetGate k flow ref budget) cap (withTotals config outcome) := by
  refine gated_idle (P := fun _ => True) ?_
  obtain ⟨report, _ | state⟩ := outcome
  · exact each_bind (each_getTotals budgetIdle_permits _) fun _ _ => each_pure trivial
  · exact each_pure trivial

theorem looks_arunWorkforce (job : Job) :
    Looks (budgetGate k flow ref budget) (width force * k.turn) (arunWorkforce force config job) := by
  have hmode : Looks (budgetGate k flow ref budget) (width force * k.turn)
      (runMode force config job) := by
    unfold runMode width
    cases force.mode with
    | managed =>
      rw [Nat.one_mul]
      exact looks_runManagedMode force hconfig job
    | collaborate => exact looks_runCollaborateMode force hconfig job
    | swarm =>
      rw [Nat.one_mul]
      exact gated_bind (looks_arun _ hconfig job) fun turn =>
        looks_swarmContinue force hconfig _ _ _ _ _ _ turn
  refine gated_bind (gated_idle (each_emit budgetIdle_permits _ _ _ _)) fun _ => ?_
  refine gated_bind hmode fun outcome => ?_
  refine gated_bind (looks_withTotals outcome) fun outcome => ?_
  exact gated_bind (gated_idle (each_emit budgetIdle_permits _ _ _ _)) fun _ => gated_pure

theorem looks_resumeStage (hbudget : 0 ≤ budget) (state : WorkforceState) (workerState : WorkerState)
    (decision : Value) :
    Looks (budgetGate k flow ref budget) k.turn
      (resumeStage force config state workerState decision) := by
  unfold resumeStage
  split
  · unfold resumeSwarmStage
    dsimp only
    split
    · exact gated_pure
    · exact gated_bind (looks_aresume _ hconfig hbudget _ _) fun turn =>
        looks_swarmContinue force hconfig _ _ _ _ _ _ turn
  · refine gated_bind (looks_aresume _ hconfig hbudget _ _) ?_
    rintro ⟨report, next⟩
    exact looks_afterManager force hconfig _ _ _ _
  · refine gated_bind (looks_aresume _ hconfig hbudget _ _) ?_
    rintro ⟨report, _ | next⟩
    · exact gated_pure
    · exact looks_pauseWith force _ _ _ _ _
  · unfold resumeCollaborateStage
    split
    · exact gated_pure
    · refine gated_bind (looks_aresume _ hconfig hbudget _ _) ?_
      rintro ⟨report, _ | next⟩
      · dsimp only
        split_ifs
        · exact gated_pure
        · exact looks_runCollaborateFrom force hconfig _ _ _ _
      · exact looks_pauseWith force _ _ _ _ _
  · exact gated_pure

omit hconfig in
/-- What is left of a workforce's resume once the totals are restored. -/
def restOfResume (config : RunConfig) (state : WorkforceState) (decision : Value) :
    Prog (Report × Option WorkforceState) :=
  match state.workerState with
  | none => pure (resumeFailedReport state "Missing worker state", none)
  | some workerState =>
    if state.stage matches .unknown then pure (resumeFailedReport state "Unknown workflow stage", none)
    else do
      let outcome ← resumeStage force (resumeConfig config state.runId) state workerState decision
      withTotals config outcome

theorem looks_restOfResume (hbudget : 0 ≤ budget) (state : WorkforceState) (decision : Value) :
    Looks (budgetGate k flow ref budget) k.turn (restOfResume force config state decision) := by
  unfold restOfResume
  split
  · exact gated_pure
  · split_ifs
    · exact gated_pure
    · refine gated_bind (looks_resumeStage force (hconfig.resume _) hbudget _ _ _) fun outcome => ?_
      exact looks_withTotals outcome

theorem looks_aresumeWorkforce (hbudget : 0 ≤ budget) (state : WorkforceState) (decision : Value) :
    Looks (budgetGate k flow ref budget) k.turn (aresumeWorkforce force config state decision) :=
  gated_bind (looks_restoreTotals hbudget _ _ _) fun _ => looks_restOfResume force hconfig hbudget state decision

end Blackgeorge.WorkforceRun
