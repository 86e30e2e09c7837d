import Blackgeorge.Coroutine.Traces
import Blackgeorge.Data.Dumps
import Blackgeorge.Program.Environment
import Blackgeorge.WorkerRunner.Toolless
import Blackgeorge.WorkforceRun.Run

/-! The parallel path of collaborate mode. Its workers have no tools, so none of them pauses;
the result tells their outcomes in worker order, and without a cost budget no worker sees how
far the others are. -/

namespace Blackgeorge.WorkforceRun

open Data Program WorkerRunner Coroutine Coro

/-! ### Tasks -/

/-- What a worker's task asked and was answered, and how it ended. -/
abbrev Task := Trace sig × Except Exn (Report × Option WorkerState)

/-- The worker failed, raised or was cancelled. -/
def TaskFailed : Except Exn (Report × Option WorkerState) → Prop
  | .ok (report, _) => report.status = .failed
  | .error _ => True

/-- The report a task counts with. -/
def taskReport (runId : RunId) : Except Exn (Report × Option WorkerState) → Report
  | .ok (report, _) => report
  | .error e => taskFailure runId e

theorem taskReport_failed (runId : RunId) (outcome : Except Exn (Report × Option WorkerState)) :
    (taskReport runId outcome).status = .failed ↔ TaskFailed outcome := by
  cases outcome with
  | ok outcome => exact Iff.rfl
  | error e => exact ⟨fun _ => trivial, fun _ => rfl⟩

/-- Every worker with the report of its task, in worker order. -/
def taskReports (force : Workforce) (config : RunConfig)
    (outcomes : List (Except Exn (Report × Option WorkerState))) : List (Worker × Report) :=
  (force.workers.zip outcomes).map fun task => (task.1, taskReport config.runId task.2)

/-- The result of tasks that ended so: a failed report on all of them if one failed, else the
reducer's, which the path asked for in `reduced`. -/
structure Collected (force : Workforce) (config : RunConfig)
    (outcomes : List (Except Exn (Report × Option WorkerState))) (reduced : Trace sig)
    (r : Except Exn (Report × Option WorkforceState)) : Prop where
  each : outcomes.length = force.workers.length
  failed : (∃ outcome ∈ outcomes, TaskFailed outcome) →
    r = .ok (aggregateReports (taskReports force config outcomes) config.runId .failed, none)
  completed : (∀ outcome ∈ outcomes, ¬ TaskFailed outcome) → force.reducer = none →
    r = .ok (aggregateReports (taskReports force config outcomes) config.runId .completed, none)
  reduced : (∀ outcome ∈ outcomes, ¬ TaskFailed outcome) → ∀ fn, force.reducer = some fn →
    ∃ answer : Except Exn Report,
      reduced = [⟨.reduce fn ((taskReports force config outcomes).map Prod.snd), answer⟩] ∧
        r = answer.map (·, none)

/-- Nothing changes but event lists, stored events and usage totals. -/
def OnlyBilled (w w' : World) : Prop :=
  ∃ eventLists storedEvents totals,
    w' = { w with eventLists := eventLists, storedEvents := storedEvents, totals := totals }

/-- A run of the parallel path from `w`, told by its tasks. Each is a run of its worker among
others who write events and usage totals; without a cost budget it is one of the worker
alone. -/
structure TaskRun (force : Workforce) (config : RunConfig) (job : Job) (w : World) (t : Trace sig)
    (r : Except Exn (Report × Option WorkforceState)) (tasks : List Task) (reduced : Trace sig) :
    Prop where
  trace : t.Perm (tasks.flatMap Prod.fst ++ reduced)
  unpaused : ∀ task ∈ tasks, ∀ outcome, task.2 = .ok outcome → outcome.2 = none
  collected : Collected force config (tasks.map Prod.snd) reduced r
  among : List.Forall₂ (fun worker (task : Task) => ∃ v,
    Among (S := sig) (fun _ _ => True) OnlyBilled (arun worker config job) w task.1 task.2 v)
    force.workers tasks
  alone : config.maxCostUsd = none → List.Forall₂ (fun worker (task : Task) =>
    ∃ v, Runs (S := sig) (fun _ _ => True) (arun worker config job) w task.1 task.2 v)
    force.workers tasks

/-- The outside answers each worker, and the reducer, in both runs by what it asked and was
answered so far. -/
structure AnsweredAlike (tasks tasks' : List Task) (reduced reduced' : Trace sig) : Prop where
  tasks : List.Forall₂ (fun task task' => ∃ outside : Trace sig → ∀ q, Answer q,
    Follows (S := sig) outside [] task.1 ∧ Follows (S := sig) outside [] task'.1) tasks tasks'
  reducer : ∃ outside : Trace sig → ∀ q, Answer q,
    Follows (S := sig) outside [] reduced ∧ Follows (S := sig) outside [] reduced'

variable {force : Workforce} {config : RunConfig} {job : Job}

/-! ### Collecting -/

/-- Tasks that do not pause are all collected. -/
theorem collectTasks_unpaused (tasks : List (Worker × Except Exn (Report × Option WorkerState))) :
    ∀ reports : List (Worker × Report),
      (∀ task ∈ tasks, ∀ outcome, task.2 = .ok outcome → outcome.2 = none) →
      collectTasks force config job tasks reports = collectTasks force config job []
        (reports ++ tasks.map fun task => (task.1, taskReport config.runId task.2)) := by
  induction tasks with
  | nil =>
    intro reports _
    rw [List.map_nil, List.append_nil]
  | cons task tasks ih =>
    intro reports hunpaused
    have hlater : ∀ task' ∈ tasks, ∀ outcome, task'.2 = .ok outcome → outcome.2 = none :=
      fun task' h => hunpaused task' (List.mem_cons_of_mem _ h)
    obtain ⟨worker, e | ⟨report, _ | paused⟩⟩ := task
    · show collectTasks force config job tasks (reports ++ [(worker, taskFailure config.runId e)]) = _
      rw [ih _ hlater, List.append_assoc]
      rfl
    · show collectTasks force config job tasks (reports ++ [(worker, report)]) = _
      rw [ih _ hlater, List.append_assoc]
      rfl
    · cases hunpaused _ List.mem_cons_self _ rfl

theorem taskReports_failed {outcomes : List (Except Exn (Report × Option WorkerState))}
    (hlen : outcomes.length = force.workers.length) :
    ((taskReports force config outcomes).any fun r => r.2.status = .failed) = true ↔
      ∃ outcome ∈ outcomes, TaskFailed outcome := by
  have hsame : (taskReports force config outcomes).any (fun r => r.2.status = .failed) =
      ((force.workers.zip outcomes).map Prod.snd).any
        fun outcome => (taskReport config.runId outcome).status = .failed := by
    rw [taskReports, List.any_map, List.any_map]
    rfl
  rw [hsame, List.map_snd_zip (le_of_eq hlen), List.any_eq_true]
  simp only [decide_eq_true_eq, taskReport_failed]

/-- What follows the tasks. -/
theorem collected_of_runs {outcomes : List (Except Exn (Report × Option WorkerState))}
    (hlen : outcomes.length = force.workers.length)
    (hunpaused : ∀ o ∈ outcomes, ∀ outcome, o = .ok outcome → outcome.2 = none)
    {w w' : World} {t : Trace sig} {r : Except Exn (Report × Option WorkforceState)}
    (hr : Runs (S := sig) (fun _ _ => True)
      (collectTasks force config job (force.workers.zip outcomes) []) w t r w') :
    Collected force config outcomes t r := by
  rw [collectTasks_unpaused _ _ fun task htask => hunpaused task.2 (List.of_mem_zip htask).2,
    List.nil_append] at hr
  change Runs (S := sig) _ (collectTasks force config job [] (taskReports force config outcomes)) _ _ _ _
    at hr
  simp only [collectTasks] at hr
  by_cases hfailed : ∃ outcome ∈ outcomes, TaskFailed outcome
  · rw [if_pos ((taskReports_failed hlen).mpr hfailed)] at hr
    cases hr
    refine ⟨hlen, fun _ => rfl, fun hnone => ?_, fun hnone => ?_⟩
    all_goals
      obtain ⟨outcome, hmem, hfail⟩ := hfailed
      exact absurd hfail (hnone outcome hmem)
  · rw [if_neg (mt (taskReports_failed hlen).mp hfailed)] at hr
    refine ⟨hlen, fun h => absurd h hfailed, fun _ hreducer => ?_, fun _ fn hreducer => ?_⟩
    · rw [reduceReports, hreducer] at hr
      cases hr
      rw [defaultReducer, if_neg (mt (taskReports_failed hlen).mp hfailed)]
    · rw [reduceReports, hreducer] at hr
      cases hr with
      | @ask _ _ answer _ _ _ _ _ hr =>
        cases answer with
        | error e =>
          cases hr
          exact ⟨.error e, rfl, rfl⟩
        | ok report =>
          cases hr
          exact ⟨.ok report, rfl, rfl⟩

/-! ### Running together -/

theorem resolveTools_toolless (htoolless : canParallelizeCollaborate force job = true) {worker : Worker}
    (hworker : worker ∈ force.workers) : resolveTools worker.toolbelt job = [] := by
  unfold canParallelizeCollaborate at htoolless
  unfold resolveTools
  cases hoverride : job.toolsOverride with
  | some refs =>
    rw [hoverride] at htoolless
    obtain rfl : refs = [] := List.isEmpty_iff.mp htoolless
    rfl
  | none =>
    rw [hoverride] at htoolless
    exact List.isEmpty_iff.mp (List.all_eq_true.mp htoolless worker hworker)

theorem OnlyBilled.trans (u v w : World) (h : OnlyBilled u v) (h' : OnlyBilled v w) :
    OnlyBilled u w := by
  obtain ⟨_, _, _, rfl⟩ := h
  obtain ⟨e, s, t, rfl⟩ := h'
  exact ⟨e, s, t, rfl⟩

/-- The law of programs that write nothing but events and usage totals. -/
def billedLaw : Law sig where
  step := OnlyBilled
  admits _ _ := True
  event _ := True

theorem serves_billedLaw (tools : List Tool) : Serves billedLaw tools where
  refl := fun _ => ⟨_, _, _, rfl⟩
  eventLists := fun _ f => ⟨f, _, _, rfl⟩
  storedEvents := fun _ f => ⟨_, f, _, rfl⟩
  routine := fun _ _ _ => trivial
  free := fun _ _ _ => trivial
  complete := fun _ _ _ _ => trivial
  newId := fun _ => trivial
  runTool := fun _ _ _ _ _ => trivial
  totals := fun _ f => ⟨_, _, f, rfl⟩
  usageCost := fun _ _ _ => trivial

theorem unseeing_arun (worker : Worker) (hbudget : config.maxCostUsd = none) (job : Job) :
    Unseeing (arun worker config job) :=
  (paced_arun worker config job).mono fun _ h => absurd hbudget h.1

/-- How the tasks of a run ended, and which paths of their own they took. -/
theorem runs_tasks (htoolless : canParallelizeCollaborate force job = true) {w w' : World}
    {t : Trace sig} {r : Except Exn (List (Except Exn (Report × Option WorkerState)))}
    (hr : Runs (S := sig) (fun _ _ => True)
      (parAll (force.workers.map fun worker => arun worker config job)) w t r w') :
    ∃ tasks : List Task, r = .ok (tasks.map Prod.snd) ∧ t.Perm (tasks.flatMap Prod.fst) ∧
      tasks.length = force.workers.length ∧
      (∀ task ∈ tasks, ∀ outcome, task.2 = .ok outcome → outcome.2 = none) ∧
      List.Forall₂ (fun worker (task : Task) => ∃ v,
        Among (S := sig) (fun _ _ => True) OnlyBilled (arun worker config job) w task.1 task.2 v)
        force.workers tasks ∧
      (config.maxCostUsd = none → List.Forall₂ (fun worker (task : Task) =>
        ∃ v, Runs (S := sig) (fun _ _ => True) (arun worker config job) w task.1 task.2 v)
        force.workers tasks) := by
  have hstep : ∀ w w' v : World, billedLaw.step w w' → SameFlows w v → SameFlows w' v := by
    rintro w _ v ⟨_, _, _, rfl⟩ hv
    exact hv
  have hunpaused : ∀ worker ∈ force.workers, Each billedLaw (arun worker config job)
      fun outcome => outcome.2 = none :=
    fun worker hworker =>
      arun_toolless (resolveTools_toolless htoolless hworker) (serves_billedLaw _) config
  obtain ⟨tasks, rfl, hperm, hall⟩ := runs_parAll_among (L := billedLaw)
    (serves_billedLaw []).refl OnlyBilled.trans hstep hunpaused (rfl : SameFlows w w) hr
  refine ⟨tasks, rfl, hperm, hall.length_eq.symm, fun task htask => ?_,
    hall.imp fun _ _ h => h.1, fun hbudget => hall.imp fun worker _ h => ?_⟩
  · obtain ⟨worker, -, h⟩ := exists_of_mem_right hall htask
    exact h.2.1
  · exact h.2.2 (unseeing_arun worker hbudget job)

/-- Tasks of one worker that are answered alike end alike. -/
theorem outcomes_eq (htoolless : canParallelizeCollaborate force job = true)
    (hbudget : config.maxCostUsd = none) {w : World} {workers : List Worker}
    (hworkers : ∀ worker ∈ workers, worker ∈ force.workers) {tasks : List Task}
    (hall : List.Forall₂ (fun worker (task : Task) =>
      ∃ v, Runs (S := sig) (fun _ _ => True) (arun worker config job) w task.1 task.2 v) workers tasks) :
    ∀ {tasks' : List Task}, List.Forall₂ (fun worker (task : Task) =>
      ∃ v, Runs (S := sig) (fun _ _ => True) (arun worker config job) w task.1 task.2 v) workers tasks' →
      List.Forall₂ (fun task task' => ∃ outside : Trace sig → ∀ q, Answer q,
        Follows (S := sig) outside [] task.1 ∧ Follows (S := sig) outside [] task'.1) tasks tasks' →
      tasks.map Prod.snd = tasks'.map Prod.snd := by
  induction hall with
  | nil =>
    intro tasks' hall' _
    cases hall'
    rfl
  | @cons worker task workers tasks htask _ ih =>
    intro tasks' hall' halike
    obtain ⟨v, hr⟩ := htask
    cases hall' with
    | cons htask' hall' =>
      obtain ⟨v', hr'⟩ := htask'
      cases halike with
      | cons houtside halike =>
        obtain ⟨outside, ht, ht'⟩ := houtside
        have hworker := hworkers worker List.mem_cons_self
        have hsame := Lockstep.settled (unseeing_arun worker hbudget job)
          (straight_arun (resolveTools_toolless htoolless hworker) config)
          (rfl : SameFlows w w) hr hr' ht ht'
        have hrest := ih (fun worker h => hworkers worker (List.mem_cons_of_mem _ h)) hall' halike
        rw [List.map_cons, List.map_cons, hsame.2, hrest]

theorem Collected.unique {outcomes : List (Except Exn (Report × Option WorkerState))}
    {reduced reduced' : Trace sig} {r r' : Except Exn (Report × Option WorkforceState)}
    {outside : Trace sig → ∀ q, Answer q} (h : Collected force config outcomes reduced r)
    (h' : Collected force config outcomes reduced' r') (hr : Follows (S := sig) outside [] reduced)
    (hr' : Follows (S := sig) outside [] reduced') : r = r' := by
  by_cases hfailed : ∃ outcome ∈ outcomes, TaskFailed outcome
  · rw [h.failed hfailed, h'.failed hfailed]
  · have hnone : ∀ outcome ∈ outcomes, ¬ TaskFailed outcome :=
      fun outcome hmem hfail => hfailed ⟨outcome, hmem, hfail⟩
    cases hreducer : force.reducer with
    | none => rw [h.completed hnone hreducer, h'.completed hnone hreducer]
    | some fn =>
      obtain ⟨answer, rfl, rfl⟩ := h.reduced hnone fn hreducer
      obtain ⟨answer', rfl, rfl⟩ := h'.reduced hnone fn hreducer
      have hanswer : answer = answer' := hr.1.trans hr'.1.symm
      rw [hanswer]

/-- However the workers interleave, fail, raise or are cancelled, the parallel path does not
pause. Its result is a report on every worker in list order, failed exactly when a worker
failed, raised or was cancelled; or, when none did, what a reducer of the workforce makes of
the reports. Each report is that of a run of its worker among the others; without a cost
budget the result is settled by what each worker was answered. -/
theorem runCollaborateParallel_tasks (htoolless : canParallelizeCollaborate force job = true)
    {w w' : World} {t : Trace sig} {r : Except Exn (Report × Option WorkforceState)}
    (hr : Runs (S := sig) (fun _ _ => True) (runCollaborateParallel force config job) w t r w') :
    (∀ outcome, r = .ok outcome → outcome.2 = none) ∧
      (∃ tasks reduced, TaskRun force config job w t r tasks reduced) ∧
      ∀ t' r' tasks tasks' reduced reduced', config.maxCostUsd = none →
        TaskRun force config job w t r tasks reduced →
        TaskRun force config job w t' r' tasks' reduced' →
        AnsweredAlike tasks tasks' reduced reduced' → r = r' := by
  have htold : ∃ tasks reduced, TaskRun force config job w t r tasks reduced := by
    rcases runs_bind hr with ⟨e, hc, rfl⟩ | ⟨outcomes, t₁, t₂, w₁, hc, hrest, rfl⟩
    · obtain ⟨tasks, herror, -⟩ := runs_tasks htoolless hc
      cases herror
    · obtain ⟨tasks, hok, hperm, hlen, hunpaused, hamong, halone⟩ := runs_tasks htoolless hc
      obtain rfl := Except.ok.inj hok
      refine ⟨tasks, t₂, hperm.append_right t₂, hunpaused, ?_, hamong, halone⟩
      refine collected_of_runs (by rw [List.length_map, hlen]) ?_ hrest
      intro o ho
      obtain ⟨task, htask, rfl⟩ := List.mem_map.mp ho
      exact hunpaused task htask
  refine ⟨?_, htold, ?_⟩
  · obtain ⟨tasks, reduced, h⟩ := htold
    rintro outcome rfl
    by_cases hfailed : ∃ outcome ∈ tasks.map Prod.snd, TaskFailed outcome
    · rw [Except.ok.inj (h.collected.failed hfailed)]
    · have hnone : ∀ outcome ∈ tasks.map Prod.snd, ¬ TaskFailed outcome :=
        fun outcome hmem hfail => hfailed ⟨outcome, hmem, hfail⟩
      cases hreducer : force.reducer with
      | none => rw [Except.ok.inj (h.collected.completed hnone hreducer)]
      | some fn =>
        obtain ⟨answer, -, hanswer⟩ := h.collected.reduced hnone fn hreducer
        cases answer with
        | error e => cases hanswer
        | ok report => rw [Except.ok.inj hanswer]
  · intro t' r' tasks tasks' reduced reduced' hbudget h h' halike
    obtain ⟨outside, hreduced, hreduced'⟩ := halike.reducer
    have houtcomes : tasks.map Prod.snd = tasks'.map Prod.snd :=
      outcomes_eq htoolless hbudget (fun _ h => h) (h.alone hbudget) (h'.alone hbudget) halike.tasks
    have hcollected := h.collected
    rw [houtcomes] at hcollected
    exact hcollected.unique h'.collected hreduced hreduced'

/-- Two workers without tools. -/
def pairForce : Workforce where
  workers :=
    [{ plainWorker with
        name := "left", toolbelt := noTools, memoryScope := "worker:left", name_ne := by decide },
      { plainWorker with
        name := "right", toolbelt := noTools, memoryScope := "worker:right", name_ne := by decide }]
  mode := .collaborate
  workers_ne := by decide
  nodup := by decide
  manager_ok := by simp

theorem runCollaborateParallel_tasks_pair :
    ∃ tasks reduced, TaskRun pairForce plainConfig plainJob {}
      (runIn (plainAnswers plainModel) (runCollaborateParallel pairForce plainConfig plainJob) {}).1
      (runIn (plainAnswers plainModel) (runCollaborateParallel pairForce plainConfig plainJob) {}).2.1
      tasks reduced :=
  (runCollaborateParallel_tasks (by decide)
    (runIn_runs (fun _ _ => trivial) (runCollaborateParallel pairForce plainConfig plainJob) {})).2.1

/-- Models are done at once, each call costs a dollar, and reducers tell of a failure. -/
def pricedAnswers : ∀ q, Answer q
  | .complete .. => .ok (.response { content := some "done", usage := [("total_tokens", .int 1)] })
  | .usageCost .. => 1
  | .reduce .. => .ok { runId := "run", status := .failed }
  | q => plainAnswers plainModel 0 q

/-- The run of the two workers in which the scheduler takes the given sides. -/
def pairRun (reducer : Option FnId) (config : RunConfig) (side : ℕ → Bool) :
    Trace sig × Except Exn (Report × Option WorkforceState) × World :=
  drive (S := sig) (fun _ => pricedAnswers) side
    (runCollaborateParallel { pairForce with reducer := reducer } config plainJob) 0 {}

def resultStatus (r : Except Exn (Report × Option WorkforceState)) : Option RunStatus :=
  r.toOption.map (·.1.status)

/-- What the workers handed to the reducer came to. -/
def reducedStatuses (t : Trace sig) : List (List RunStatus) :=
  t.filterMap fun e =>
    match e.1 with
    | .reduce _ reports => some (reports.map Report.status)
    | _ => none

theorem half_nonneg : ∀ q ∈ some (1 / 2 : ℚ), 0 ≤ q := by simp

/-- A reducer may report a failure where no worker failed; and under a cost budget the worker
that calls its model second is stopped, unless it was let in before the first call was
charged. -/
theorem not_runCollaborateParallel_orderless :
    (reducedStatuses (pairRun (some 1) plainConfig fun _ => true).1 = [[.completed, .completed]] ∧
      resultStatus (pairRun (some 1) plainConfig fun _ => true).2.1 = some .failed) ∧
    resultStatus (pairRun none { plainConfig with
      maxCostUsd := some (1 / 2), maxCostUsd_nonneg := half_nonneg } fun _ => true).2.1 = some .failed ∧
    resultStatus (pairRun none { plainConfig with
      maxCostUsd := some (1 / 2), maxCostUsd_nonneg := half_nonneg } fun n => n < 10).2.1 =
        some .completed := by
  decide +kernel

end Blackgeorge.WorkforceRun
