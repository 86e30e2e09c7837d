import Blackgeorge.WorkerRunner.Approvals
import Blackgeorge.WorkforceRun.Outcome

/-! A workforce hands the credit of a pending action on from the worker it runs to the
state it builds, and back when it resumes. -/

namespace Blackgeorge.WorkforceRun

open Data Program Coroutine Coro WorkerRunner

theorem workerCredits_eq (a : String) (state : WorkerState) :
    workerCredits a state = if (workerAction state).map Awaited.actionId = some a then 1 else 0 := by
  unfold workerCredits workerAction actionCredits
  cases state.pendingAction with
  | none => rfl
  | some p => simp [awaited]

def forceCredits (a : String) (state : WorkforceState) : ℕ :=
  state.workerState.elim 0 (workerCredits a)

def forceOutcomeCredits (a : String) (o : Report × Option WorkforceState) : ℕ :=
  o.2.elim 0 (forceCredits a)

theorem forceCredits_eq (a : String) (state : WorkforceState) :
    forceCredits a state =
      if (state.workerState.bind workerAction).map Awaited.actionId = some a then 1 else 0 := by
  unfold forceCredits
  cases state.workerState with
  | none => rfl
  | some ws => exact workerCredits_eq a ws

variable {event : Event sig → Prop} (hev : ∀ e, Undecided e → event e) (a : String)
  (force : Workforce) (config : RunConfig)

include hev

theorem pays_pauseWith (runId : RunId) (job : Job) (report : Report) (workerState : WorkerState)
    (stage : Stage) :
    Pays (quietLaw event) (approvals a) (workerCredits a workerState)
      (pauseWith force config runId job report workerState stage) (forceOutcomeCredits a)
      fun _ => True := by
  apply pays_bind_free (pays_free hev a (each_getTotals (serves_undecided []).toPermits _))
  intro totals _
  have hstate : Pays (quietLaw event) (approvals a) (workerCredits a workerState)
      (Prog.ofExcept (buildWorkforceState force runId job job workerState stage totals))
      (forceCredits a) fun _ => True := by
    apply pays_ofExcept
    intro state hstate
    rw [forceCredits_eq, workerCredits_eq, buildWorkforceState_action hstate]
    exact ⟨le_rfl, trivial⟩
  apply pays_bind hstate
  intro state _
  exact pays_pure le_rfl trivial

omit hev in
theorem pays_none (report : Report) :
    Pays (quietLaw event) (approvals a) 0 (pure (report, none)) (forceOutcomeCredits a)
      fun _ => True :=
  pays_pure (Nat.zero_le _) trivial

theorem pays_reduceReports (reports : List (Worker × Report)) (runId : RunId) :
    Pays (quietLaw event) (approvals a) 0 (reduceReports force reports runId) (fun _ => 0)
      fun _ => True :=
  pays_free hev a (serves_reduceReports serves_undecided force reports runId)

omit hev in
/-- A worker's turn, and what a workforce goes on with: the pause, or the rest. -/
theorem pays_bind_worker {c : Prog (Report × Option WorkerState)} {m : ℕ}
    {g : Report × Option WorkerState → Prog (Report × Option WorkforceState)}
    (hc : Pays (quietLaw event) (approvals a) m c (outcomeCredits a) fun _ => True)
    (hg : ∀ o, Pays (quietLaw event) (approvals a) (outcomeCredits a o) (g o)
      (forceOutcomeCredits a) fun _ => True) :
    Pays (quietLaw event) (approvals a) m (c >>= g) (forceOutcomeCredits a) fun _ => True :=
  pays_bind hc fun o _ => hg o

/-! ### Collaborate -/

theorem pays_collectTasks (job : Job)
    (tasks : List (Worker × Except Exn (Report × Option WorkerState)))
    (reports : List (Worker × Report)) :
    Pays (quietLaw event) (approvals a) ((tasks.map fun task => left (S := sig) (outcomeCredits a) task.2).sum)
      (collectTasks force config job tasks reports) (forceOutcomeCredits a) fun _ => True := by
  induction tasks generalizing reports with
  | nil =>
    unfold collectTasks
    split_ifs
    · exact pays_none a _
    · apply pays_bind_free (pays_reduceReports hev a force reports _)
      intro report _
      exact pays_none a _
  | cons task tasks ih =>
    obtain ⟨worker, e | ⟨report, _ | workerState⟩⟩ := task
    · exact (ih _).mono (by simp [left]) fun _ h => ⟨le_rfl, h⟩
    · exact (ih _).mono (by simp [left]) fun _ h => ⟨le_rfl, h⟩
    · have hle : workerCredits a workerState ≤
          (((worker, .ok (report, some workerState)) :: tasks).map
            fun task => left (S := sig) (outcomeCredits a) task.2).sum := by
        simp [left, outcomeCredits]
      exact (pays_pauseWith hev a force config _ _ _ _ _).mono hle fun _ h => ⟨le_rfl, h⟩

theorem pays_runCollaborateParallel (job : Job) :
    Pays (quietLaw event) (approvals a) 0 (runCollaborateParallel force config job)
      (forceOutcomeCredits a) fun _ => True := by
  have htasks : ∀ c ∈ force.workers.map fun worker => arun worker config job,
      Pays (quietLaw event) (approvals a) 0 c (outcomeCredits a) fun _ => True := by
    intro c hc
    obtain ⟨worker, -, rfl⟩ := List.mem_map.mp hc
    exact pays_arun hev a worker config job
  apply pays_bind (pays_parAll htasks)
  rintro outcomes ⟨hlen, -⟩
  have hzip : (force.workers.zip outcomes).map (fun task => left (S := sig) (outcomeCredits a) task.2) =
      outcomes.map (left (S := sig) (outcomeCredits a)) := by
    have hsnd : (force.workers.zip outcomes).map Prod.snd = outcomes :=
      List.map_snd_zip (by simpa using hlen.le)
    conv_rhs => rw [← hsnd, List.map_map]
    rfl
  rw [← hzip]
  exact pays_collectTasks hev a force config job _ _

theorem pays_runCollaborateFrom (runId : RunId) (job : Job) (workers : List Worker)
    (reports : List (Worker × Report)) :
    Pays (quietLaw event) (approvals a) 0 (runCollaborateFrom force config runId job workers reports)
      (forceOutcomeCredits a) fun _ => True := by
  induction workers generalizing reports with
  | nil =>
    apply pays_bind_free (pays_reduceReports hev a force reports _)
    intro report _
    exact pays_none a _
  | cons worker workers ih =>
    apply pays_bind_worker a (pays_arun hev a worker config job)
    rintro ⟨report, _ | workerState⟩
    · dsimp only
      split_ifs
      · exact pays_none a _
      · exact ih _
    · exact pays_pauseWith hev a force config _ _ _ _ _

theorem pays_runCollaborateMode (job : Job) :
    Pays (quietLaw event) (approvals a) 0 (runCollaborateMode force config job)
      (forceOutcomeCredits a) fun _ => True := by
  unfold runCollaborateMode
  split_ifs
  · exact pays_runCollaborateParallel hev a force config job
  · exact pays_runCollaborateFrom hev a force config _ _ _ _

/-! ### Managed -/

theorem pays_runSelected (runId : RunId) (job : Job) (managerReport : Report) :
    Pays (quietLaw event) (approvals a) 0 (runSelected force config runId job managerReport)
      (forceOutcomeCredits a) fun _ => True := by
  apply pays_bind_worker a (pays_arun hev a _ config job)
  rintro ⟨report, _ | workerState⟩
  · exact pays_none a _
  · exact pays_pauseWith hev a force config _ _ _ _ _

theorem pays_afterManager (runId : RunId) (job : Job) (report : Report)
    (workerState : Option WorkerState) :
    Pays (quietLaw event) (approvals a) (outcomeCredits a (report, workerState))
      (afterManager force config runId job report workerState) (forceOutcomeCredits a)
      fun _ => True := by
  unfold afterManager
  split
  · exact pays_pauseWith hev a force config _ _ _ _ _
  · split_ifs
    · exact pays_none a _
    · exact pays_runSelected hev a force config _ _ _

theorem pays_runManagedMode (job : Job) :
    Pays (quietLaw event) (approvals a) 0 (runManagedMode force config job)
      (forceOutcomeCredits a) fun _ => True := by
  refine pays_bind_free (pays_free hev a (each_free (serves_undecided []).requests trivial)) ?_
  intro id _
  apply pays_bind_worker a (pays_arun hev a _ config _)
  rintro ⟨report, workerState⟩
  exact pays_afterManager hev a force config _ _ _ _

/-! ### Swarm -/

theorem pays_swarmContinue (runId : RunId) (left count : ℕ) (history : List Report)
    (worker : Worker) (job : Job) (turn : Report × Option WorkerState) :
    Pays (quietLaw event) (approvals a) (outcomeCredits a turn)
      (swarmContinue force config runId left count history worker job turn)
      (forceOutcomeCredits a) fun _ => True := by
  have hzero (c : Prog (Report × Option WorkforceState)) {m : ℕ}
      (h : Pays (quietLaw event) (approvals a) 0 c (forceOutcomeCredits a) fun _ => True) :
      Pays (quietLaw event) (approvals a) m c (forceOutcomeCredits a) fun _ => True :=
    h.mono (Nat.zero_le _) fun _ h => ⟨le_rfl, h⟩
  induction left generalizing count history worker job turn with
  | zero =>
    obtain ⟨report, _ | workerState⟩ := turn
    · exact pays_none a _
    · unfold swarmContinue
      dsimp only
      split
      · exact hzero _ (pays_none a _)
      · exact pays_pauseWith hev a force config _ _ _ _ _
      · exact hzero _ (pays_none a _)
  | succ left ih =>
    obtain ⟨report, _ | workerState⟩ := turn
    · exact pays_none a _
    · unfold swarmContinue
      dsimp only
      split
      · exact hzero _ (pays_none a _)
      · exact pays_pauseWith hev a force config _ _ _ _ _
      · exact hzero _ (pays_bind_worker a (pays_arun hev a _ config _) fun turn => ih _ _ _ _ turn)

theorem pays_runSwarmMode (job : Job) :
    Pays (quietLaw event) (approvals a) 0 (runSwarmMode force config job)
      (forceOutcomeCredits a) fun _ => True :=
  pays_bind_worker a (pays_arun hev a _ config job) fun turn =>
    pays_swarmContinue hev a force config _ _ _ _ _ _ turn

/-! ### Run -/

theorem pays_withTotals (outcome : Report × Option WorkforceState) :
    Pays (quietLaw event) (approvals a) (forceOutcomeCredits a outcome)
      (withTotals config outcome) (forceOutcomeCredits a) fun _ => True := by
  obtain ⟨report, _ | state⟩ := outcome
  · apply pays_bind_free (pays_free hev a (each_getTotals (serves_undecided []).toPermits _))
    intro totals _
    exact pays_none a _
  · exact pays_pure le_rfl trivial

theorem pays_arunWorkforce (job : Job) :
    Pays (quietLaw event) (approvals a) 0 (arunWorkforce force config job)
      (forceOutcomeCredits a) fun _ => True := by
  have hemit (type : String) : Pays (quietLaw event) (approvals a) 0
      (config.emit type force.name []) (fun _ => 0) fun _ => True :=
    pays_free hev a (each_emit (serves_undecided []).toPermits _ _ _ _)
  have hmode : Pays (quietLaw event) (approvals a) 0 (runMode force config job)
      (forceOutcomeCredits a) fun _ => True := by
    unfold runMode
    split
    · exact pays_runSwarmMode hev a force config job
    · exact pays_runManagedMode hev a force config job
    · exact pays_runCollaborateMode hev a force config job
  apply pays_bind_free (hemit _)
  intro _ _
  apply pays_bind hmode
  intro outcome _
  apply pays_bind (pays_withTotals hev a config outcome)
  intro outcome _
  apply pays_bind_free (hemit _)
  intro _ _
  exact pays_pure le_rfl trivial

omit hev

/-! ### Resume -/

theorem pays_resumeCollaborateStage (state : WorkforceState) (workerState : WorkerState)
    (completedReports : List Report) (pendingIndex : ℕ) (decision : Value) :
    Pays (quietLaw fun _ => True) (approvals a) (workerCredits a workerState)
      (resumeCollaborateStage force config state workerState completedReports pendingIndex decision)
      (forceOutcomeCredits a) fun _ => True := by
  have hev : ∀ e, Undecided e → (fun _ : Event sig => True) e := fun _ _ => trivial
  unfold resumeCollaborateStage
  split
  · exact pays_pure (Nat.zero_le _) trivial
  · apply pays_bind_worker a (pays_aresume a _ config workerState decision)
    rintro ⟨report, _ | next⟩
    · dsimp only
      split_ifs
      · exact pays_none a _
      · exact pays_runCollaborateFrom hev a force config _ _ _ _
    · exact pays_pauseWith hev a force config _ _ _ _ _

theorem pays_resumeStage (state : WorkforceState) (workerState : WorkerState) (decision : Value) :
    Pays (quietLaw fun _ => True) (approvals a) (workerCredits a workerState)
      (resumeStage force config state workerState decision) (forceOutcomeCredits a)
      fun _ => True := by
  have hev : ∀ e, Undecided e → (fun _ : Event sig => True) e := fun _ _ => trivial
  unfold resumeStage
  split
  · unfold resumeSwarmStage
    dsimp only
    split
    · exact pays_pure (Nat.zero_le _) trivial
    · exact pays_bind_worker a (pays_aresume a _ config workerState decision) fun turn =>
        pays_swarmContinue hev a force config _ _ _ _ _ _ turn
  · apply pays_bind_worker a (pays_aresume a _ config workerState decision)
    rintro ⟨report, next⟩
    exact pays_afterManager hev a force config _ _ _ _
  · apply pays_bind_worker a (pays_aresume a _ config workerState decision)
    rintro ⟨report, _ | next⟩
    · exact pays_none a _
    · exact pays_pauseWith hev a force config _ _ _ _ _
  · exact pays_resumeCollaborateStage a force config _ _ _ _ _
  · exact pays_pure (Nat.zero_le _) trivial

theorem pays_aresumeWorkforce (state : WorkforceState) (decision : Value) :
    Pays (quietLaw fun _ => True) (approvals a) (forceCredits a state)
      (aresumeWorkforce force config state decision) (forceOutcomeCredits a) fun _ => True := by
  have hev : ∀ e, Undecided e → (fun _ : Event sig => True) e := fun _ _ => trivial
  apply pays_bind_free
    (pays_free hev a (each_modifyTotals (serves_undecided []).toBills _ _))
  intro _ _
  split
  · exact pays_pure (Nat.zero_le _) trivial
  · next workerState hworker =>
    rw [forceCredits, hworker]
    split_ifs
    · exact pays_pure (Nat.zero_le _) trivial
    · apply pays_bind (pays_resumeStage a force _ state workerState decision)
      intro outcome _
      exact pays_withTotals hev a config outcome

end Blackgeorge.WorkforceRun
