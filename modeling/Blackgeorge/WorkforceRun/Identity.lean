import Blackgeorge.Coroutine.Solo
import Blackgeorge.WorkforceRun.Legs
import Blackgeorge.WorkforceRun.Outcome

/-! Whom a resumed workforce hands the paused state of a worker to. Each stage finds the
worker in its own way, and only a swarm looks for the one that paused. -/

namespace Blackgeorge.WorkforceRun

open Data Program Coroutine Coro WorkerRunner

variable (force : Workforce) (config : RunConfig) (state : WorkforceState)
  (workerState : WorkerState) (decision : Value)

/-- The worker whose `aresume` a stage calls, or the text of the failure. -/
def resumedWorker : Except String Worker :=
  match state.stage with
  | .swarm current _ _ =>
    (swarmWorker force (if current = "" then workerState.runnerName else current)).mapError Exn.text
  | .manager => .ok (manager force)
  | .worker selected => .ok (findWorker force selected)
  | .collaborate _ index =>
    match force.workers[index]? with
    | some worker => .ok worker
    | none => .error "Invalid pending worker index"
  | .unknown => .error "Unknown workflow stage"

/-- What a stage does with the outcome of the worker it resumed. -/
def afterResumed (worker : Worker) (turn : Report × Option WorkerState) :
    Prog (Report × Option WorkforceState) :=
  match state.stage with
  | .swarm _ count history =>
    swarmContinue force config state.runId (swarmHandoffBudget config - count) count history worker
      state.job turn
  | .manager => afterManager force config state.runId (rootJob state) turn.1 turn.2
  | .worker _ =>
    match turn.2 with
    | some next =>
      pauseWith force config state.runId (rootJob state) turn.1 next (.worker (some worker.name))
    | none => pure (turn.1, none)
  | .collaborate completed index =>
    match turn.2 with
    | some next =>
      pauseWith force config state.runId (rootJob state) turn.1 next (.collaborate completed index)
    | none =>
      if turn.1.status = .failed then
        pure (aggregateReports ((force.workers.take (index + 1)).zip completed ++
          [(worker, turn.1)]) state.runId .failed, none)
      else
        runCollaborateFrom force config state.runId (rootJob state) (force.workers.drop (index + 1))
          ((force.workers.take (index + 1)).zip (completed ++ [turn.1]))
  | .unknown => pure (turn.1, none)

/-- A stage fails, or it resumes its worker and goes on with the outcome. -/
theorem resumeStage_eq :
    resumeStage force config state workerState decision =
      match resumedWorker force state workerState with
      | .error message => pure (resumeFailedReport state message, none)
      | .ok worker =>
        aresume worker config workerState decision >>= afterResumed force config state worker := by
  unfold resumeStage resumedWorker afterResumed
  cases hstage : state.stage with
  | swarm current count history =>
    dsimp only
    unfold resumeSwarmStage
    dsimp only
    cases swarmWorker force (if current = "" then workerState.runnerName else current) <;> rfl
  | manager => rfl
  | worker selected =>
    refine bind_congr fun turn => ?_
    obtain ⟨report, _ | next⟩ := turn <;> rfl
  | collaborate completed index =>
    dsimp only
    unfold resumeCollaborateStage
    cases force.workers[index]? with
    | none => rfl
    | some worker =>
      refine bind_congr fun turn => ?_
      obtain ⟨report, _ | next⟩ := turn <;> rfl
  | unknown => rfl

/-! ### The two ways a resume may go -/

/-- The resume ends in a failed report and asks nothing, tools included. -/
def FailsUntouched (c : Prog (Report × Option WorkforceState)) : Prop :=
  ∀ w t r w', Runs (S := sig) (fun _ _ => True) c w t r w' →
    t = [] ∧ ∃ report, r = .ok (report, none) ∧ report.status = .failed

/-- The resume takes the paused state up on this worker, and its stage goes on with what the
worker comes to. -/
def TakesUp (worker : Worker) (c : Prog (Report × Option WorkforceState)) : Prop :=
  resumedWorker force state workerState = .ok worker ∧
    c = (do
      modifyTotals config.usageTotals (restoreTotals · state.usageTotals)
      let turn ← aresume worker (resumeConfig config state.runId) workerState decision
      let out ← afterResumed force (resumeConfig config state.runId) state worker turn
      withTotals config out)

/-- What the resume of a paused worker state has to do: fail, or go on with the worker
that paused. -/
def KeepsWorker : Prop :=
  FailsUntouched (aresumeWorkforce force config state decision) ∨
    ∃ worker, worker.name = workerState.runnerName ∧
      TakesUp force config state workerState decision worker
        (aresumeWorkforce force config state decision)

/-- The stage still leads to the worker that paused, or to none. -/
def SameWorker : Prop :=
  match state.stage with
  | .swarm current _ _ =>
    current = "" ∨ current = workerState.runnerName ∨ force.workerByName current = none
  | .manager => (manager force).name = workerState.runnerName
  | .worker selected => (findWorker force selected).name = workerState.runnerName
  | .collaborate _ index =>
    ∀ worker, force.workers[index]? = some worker → worker.name = workerState.runnerName
  | .unknown => True

/-! ### The stage's worker -/

variable {force config state workerState decision}

theorem workerByName_name {name : String} {worker : Worker}
    (h : force.workerByName name = some worker) : worker.name = name := by
  unfold Workforce.workerByName at h
  split at h
  · split_ifs at h with hname
    · obtain rfl := Option.some.inj h
      exact hname
    · simpa using List.find?_some h
  · simpa using List.find?_some h

theorem swarmWorker_ok {name : String} {worker : Worker} (h : swarmWorker force name = .ok worker) :
    worker.name = name ∧ name ≠ "" ∧ force.workerByName name = some worker := by
  unfold swarmWorker at h
  split_ifs at h with hname
  split at h
  · next found hfound =>
    obtain rfl := Except.ok.inj h
    exact ⟨workerByName_name hfound, hname, hfound⟩
  · cases h

theorem swarmWorker_error {name : String} {e : Exn} (h : swarmWorker force name = .error e) :
    name = "" ∨ force.workerByName name = none := by
  unfold swarmWorker at h
  split_ifs at h with hname
  · exact .inl hname
  · split at h
    · cases h
    · next hnone => exact .inr hnone

theorem sameWorker_of_error {message : String}
    (h : resumedWorker force state workerState = .error message) :
    SameWorker force state workerState := by
  unfold resumedWorker at h
  unfold SameWorker
  cases hstage : state.stage with
  | swarm current count history =>
    rw [hstage] at h
    by_cases hcurrent : current = ""
    · exact .inl hcurrent
    · simp only [hcurrent, if_false] at h
      cases hworker : swarmWorker force current with
      | ok worker => rw [hworker] at h; cases h
      | error e =>
        rcases swarmWorker_error hworker with hempty | hnone
        · exact .inl hempty
        · exact .inr (.inr hnone)
  | manager => rw [hstage] at h; cases h
  | worker selected => rw [hstage] at h; cases h
  | collaborate completed index =>
    rw [hstage] at h
    intro worker hworker
    simp only [hworker] at h
    cases h
  | unknown => trivial

theorem sameWorker_iff {worker : Worker} (h : resumedWorker force state workerState = .ok worker) :
    SameWorker force state workerState ↔ worker.name = workerState.runnerName := by
  unfold resumedWorker at h
  unfold SameWorker
  cases hstage : state.stage with
  | swarm current count history =>
    rw [hstage] at h
    dsimp only at h ⊢
    cases hswarm : swarmWorker force (if current = "" then workerState.runnerName else current) with
    | error e => rw [hswarm] at h; cases h
    | ok found =>
      rw [hswarm] at h
      obtain rfl : found = worker := Except.ok.inj h
      obtain ⟨hname, -, hfound⟩ := swarmWorker_ok hswarm
      by_cases hcurrent : current = ""
      · simp [hcurrent] at hname
        simp [hcurrent, hname]
      · simp only [hcurrent, if_false] at hname hfound
        simp [hcurrent, hname, hfound]
  | manager =>
    rw [hstage] at h
    obtain rfl := Except.ok.inj h
    exact Iff.rfl
  | worker selected =>
    rw [hstage] at h
    obtain rfl := Except.ok.inj h
    exact Iff.rfl
  | collaborate completed index =>
    rw [hstage] at h
    dsimp only at h ⊢
    cases hworker : force.workers[index]? with
    | none => rw [hworker] at h; cases h
    | some found =>
      rw [hworker] at h
      obtain rfl : found = worker := Except.ok.inj h
      simp
  | unknown => rw [hstage] at h; cases h

/-! ### The program of a resume -/

/-- A resume whose stage leads to no worker. -/
theorem failsUntouched_of_error (hstate : state.workerState = some workerState) {message : String}
    (h : resumedWorker force state workerState = .error message) :
    FailsUntouched (aresumeWorkforce force config state decision) := by
  intro w t r w' hr
  unfold aresumeWorkforce at hr
  simp only [hstate] at hr
  cases hr with
  | act hr =>
    split_ifs at hr with hstage
    · cases hr
      exact ⟨rfl, _, rfl, rfl⟩
    · rw [resumeStage_eq, h] at hr
      cases hr with
      | act hr =>
        cases hr
        exact ⟨rfl, _, rfl, rfl⟩

theorem takesUp_of_ok (hstate : state.workerState = some workerState) {worker : Worker}
    (h : resumedWorker force state workerState = .ok worker) :
    TakesUp force config state workerState decision worker
      (aresumeWorkforce force config state decision) := by
  refine ⟨h, ?_⟩
  unfold aresumeWorkforce
  simp only [hstate]
  refine bind_congr fun _ => ?_
  split_ifs with hunknown
  · unfold resumedWorker at h
    cases hstage : state.stage <;> rw [hstage] at h hunknown <;>
      first | exact absurd hunknown Bool.false_ne_true | cases h
  · rw [resumeStage_eq, h]
    exact LawfulMonad.bind_assoc _ _ _

/-- A resume that meets a pending action leaves a trace of it. -/
theorem trace_ne_nil_of_aresume {worker : Worker} {pending : PendingAction} {w w' : World}
    {t : Trace sig} {r : Except Exn (Report × Option WorkforceState)}
    {k : Report × Option WorkerState → Prog (Report × Option WorkforceState)}
    (hpending : workerState.pendingAction = some pending)
    (hr : Runs (fun _ _ => True) (aresume worker config workerState decision >>= k) w t r w') :
    t ≠ [] := by
  unfold aresume at hr
  simp only [hpending] at hr
  cases hr with
  | act hr =>
    cases hr with
    | ask _ hr => simp

theorem keepsWorker_of_sameWorker (hstate : state.workerState = some workerState)
    (h : SameWorker force state workerState) :
    KeepsWorker force config state workerState decision := by
  cases hworker : resumedWorker force state workerState with
  | error message => exact .inl (failsUntouched_of_error hstate hworker)
  | ok worker => exact .inr ⟨worker, (sameWorker_iff hworker).mp h, takesUp_of_ok hstate hworker⟩

theorem sameWorker_of_keepsWorker (hstate : state.workerState = some workerState)
    (hpending : workerState.pendingAction.isSome)
    (h : KeepsWorker force config state workerState decision) :
    SameWorker force state workerState := by
  obtain ⟨pending, hpending⟩ := Option.isSome_iff_exists.mp hpending
  cases hworker : resumedWorker force state workerState with
  | error message => exact sameWorker_of_error hworker
  | ok worker =>
    rw [sameWorker_iff hworker]
    rcases h with hfails | ⟨other, hname, hother, -⟩
    · obtain ⟨-, hresume⟩ := @takesUp_of_ok force config state workerState decision hstate _ hworker
      obtain ⟨t, r, w', hrun⟩ : ∃ t r w', Runs (S := sig) (fun _ _ => True)
          (aresumeWorkforce force config state decision) {} t r w' :=
        ⟨_, _, _, @runIn_runs _ _ (plainAnswers plainModel) (fun _ _ => trivial) _ _⟩
      obtain ⟨hnil, -⟩ := hfails _ _ _ _ hrun
      rw [hresume] at hrun
      cases hrun with
      | act hrun => exact absurd hnil (trace_ne_nil_of_aresume hpending hrun)
    · obtain rfl : worker = other := Except.ok.inj (hworker.symm.trans hother)
      exact hname

/-- The resume of a paused worker state keeps to the worker that paused exactly when the
stage still leads to it or to none. -/
theorem keepsWorker_iff (hstate : state.workerState = some workerState)
    (hpending : workerState.pendingAction.isSome) :
    KeepsWorker force config state workerState decision ↔ SameWorker force state workerState :=
  ⟨sameWorker_of_keepsWorker hstate hpending, keepsWorker_of_sameWorker hstate⟩

/-! ### A reordered workforce -/

/-- Another implementation of the tool that waits for a confirmation. -/
def helperTool : Tool := { guardedTool with callable := 3 }

def helper : Worker :=
  { plainWorker with
    name := "helper", toolbelt := { tools := [helperTool] }, memoryScope := "worker:helper", name_ne := by decide }

/-- The state of a collaborating workforce whose first worker has paused. -/
def pausedForce : WorkforceState where
  runId := "run"
  status := .paused
  runnerName := "workforce"
  job := plainJob
  pendingAction := pausedWorker.pendingAction
  stage := .collaborate [] 0
  workerState := some pausedWorker
  usageTotals := {}
  rootJob := some plainJob

def collaborators : Workforce where
  workers := [plainWorker, helper]
  mode := .collaborate
  workers_ne := by simp
  nodup := by decide
  manager_ok := by simp

/-- The same workers in another order. -/
def reordered : Workforce where
  workers := [helper, plainWorker]
  mode := .collaborate
  workers_ne := by simp
  nodup := by decide
  manager_ok := by simp

theorem keepsWorker_collaborators :
    KeepsWorker collaborators plainConfig pausedForce pausedWorker (.bool true) := by
  refine (keepsWorker_iff rfl rfl).mpr fun worker h => ?_
  obtain rfl : plainWorker = worker := Option.some.inj h
  rfl

/-- Reordered, the other worker takes the paused state up and runs its own tool. -/
theorem not_keepsWorker_reordered :
    ¬ KeepsWorker reordered plainConfig pausedForce pausedWorker (.bool true) ∧
      approvedCallables (runIn (plainAnswers guardedModel)
        (aresumeWorkforce reordered plainConfig pausedForce (.bool true)) {}).1 = [3] := by
  refine ⟨fun h => ?_, by decide⟩
  have hname := sameWorker_of_keepsWorker rfl rfl h helper rfl
  exact absurd hname (by decide)

end Blackgeorge.WorkforceRun
