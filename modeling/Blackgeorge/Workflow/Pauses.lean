import Blackgeorge.Workflow.Carried
import Blackgeorge.WorkforceRun.Parallel

/-! The cost budget over pauses and resumes. A pause stores the total that has been recorded, a
resume begins with the stored one, and over the budget no more than the turns in progress gets
through. -/

namespace Blackgeorge.Workflow

open Data Program Coroutine Coro WorkerRunner WorkforceRun Desk

variable {w w' : World} {t : Trace sig} {config : RunConfig} {k : Weights} {budget : ℚ} {ref : Ref}
  {desk : DeskSettings}

/-! ### Resumes -/

/-- What a resume of a state puts into empty totals. -/
def storedTotals : StepState → UsageTotals
  | .worker state => totalsFromMetrics state.metrics
  | .workforce state => state.usageTotals

/-- What a store and the desk may make of a paused state before it is resumed. -/
inductive StoredStep : StepState → StepState → Prop
  | worker {s s'} : Stored s s' → StoredStep (.worker s) (.worker s')
  | workforce {s s'} : StoredForce s s' → StoredStep (.workforce s) (.workforce s')

theorem storedTotals_stored {s s' : StepState} (h : StoredStep s s') : storedTotals s' = storedTotals s := by
  cases h with
  | worker h => exact congrArg totalsFromMetrics (metrics_stored h)
  | workforce h => exact forceTotals_stored h

/-- A resume of a worker or a workforce, and what is left of it once the totals are restored. -/
inductive Resumes (config : RunConfig) :
    StepState → Prog (Report × Option StepState) → Prog (Report × Option StepState) → Prop
  | worker (worker : Worker) (state : WorkerState) (decision : Value) (pos : Pos) :
    Resumes config (.worker state) (runners.aresume (.worker worker) config (.worker state) decision pos)
      (workerOutcome <$> resumeRest worker config state decision)
  | workforce (force : Workforce) (state : WorkforceState) (decision : Value) (pos : Pos) :
    Resumes config (.workforce state) (runners.aresume (.workforce force) config (.workforce state) decision pos)
      (workforceOutcome <$> restOfResume force config state decision)

theorem runs_resumes {ok : ∀ q, Answer q → Prop} {state : StepState} {c rest : Prog (Report × Option StepState)}
    {r : Except Exn (Report × Option StepState)} (h : Resumes config state c rest)
    (hempty : w.totals config.usageTotals = {}) (hr : Runs (S := sig) ok c w t r w') :
    ∃ w₁, w₁.totals config.usageTotals = storedTotals state ∧ Runs (S := sig) ok rest w₁ t r w' := by
  cases h with
  | worker worker state decision pos =>
    cases hr with
    | act hr => exact ⟨_, by simp [hempty, restoreTotals, storedTotals], hr⟩
  | workforce force state decision pos =>
    cases hr with
    | act hr => exact ⟨_, by simp [hempty, restoreTotals, storedTotals], hr⟩

theorem Resumes.looks {state : StepState} {c rest : Prog (Report × Option StepState)}
    (h : Resumes config state c rest) (hconfig : Capped config ref budget) :
    Looks (budgetGate k none ref budget) k.turn rest := by
  cases h with
  | worker worker state decision pos => exact looks_map (looks_resumeRest worker hconfig state decision)
  | workforce force state decision pos =>
    have hbudget : 0 ≤ budget := config.maxCostUsd_nonneg budget hconfig.maxCostUsd
    exact looks_map (looks_restOfResume force hconfig hbudget state decision)

theorem runs_workerOutcome {ok : ∀ q, Answer q → Prop} {c : Prog (Report × Option WorkerState)} {report : Report}
    {state : StepState} (hr : Runs (S := sig) ok (workerOutcome <$> c) w t (.ok (report, some state)) w') :
    ∃ s, state = .worker s ∧ Runs (S := sig) ok c w t (.ok (report, some s)) w' := by
  obtain ⟨⟨report', _ | s⟩, hout, hc⟩ := runs_map_ok hr
  · cases hout
  · cases hout
    exact ⟨s, rfl, hc⟩

theorem runs_workforceOutcome {ok : ∀ q, Answer q → Prop} {c : Prog (Report × Option WorkforceState)}
    {report : Report} {state : StepState}
    (hr : Runs (S := sig) ok (workforceOutcome <$> c) w t (.ok (report, some state)) w') :
    ∃ s, state = .workforce s ∧ Runs (S := sig) ok c w t (.ok (report, some s)) w' := by
  obtain ⟨⟨report', _ | s⟩, hout, hc⟩ := runs_map_ok hr
  · cases hout
  · cases hout
    exact ⟨s, rfl, hc⟩

/-- What a run stores where it pauses is what it has recorded. -/
theorem runner_carries {n : ℕ} {c : Prog (Report × Option StepState)} {report : Report} {state : StepState}
    (h : RunsRunner config n c) (hempty : w.totals config.usageTotals = {})
    (hr : Runs (S := sig) (fun _ _ => True) c w t (.ok (report, some state)) w') :
    totalsAmount (storedTotals state) = totalsAt config.usageTotals w' := by
  cases h with
  | arun runner job pos =>
    cases runner with
    | worker worker =>
      obtain ⟨s, rfl, hcall⟩ := runs_workerOutcome hr
      exact arun_carries hempty hcall
    | workforce force =>
      obtain ⟨s, rfl, hcall⟩ := runs_workforceOutcome hr
      exact congrArg totalsAmount (carriesTotals_arunWorkforce job w _ _ _ hcall _ _ rfl)
  | aresume runner state decision pos =>
    cases runner with
    | worker worker =>
      cases state with
      | worker state =>
        obtain ⟨s, rfl, hcall⟩ := runs_workerOutcome hr
        exact aresume_carries hempty hcall
      | workforce state => cases hr
    | workforce force =>
      cases state with
      | worker state => cases hr
      | workforce state =>
        obtain ⟨s, rfl, hcall⟩ := runs_workforceOutcome hr
        exact congrArg totalsAmount (carriesTotals_aresumeWorkforce _ decision w _ _ _ hcall _ _ rfl)

/-! ### Budgets over pauses -/

/-- A budget is kept over the pauses of workers and workforces: a pause stores the total that has been
recorded, and a resume, whose own totals are empty, begins with it. Over the budget each worker ends
at most the turn that it is in, and a resume makes no call. -/
structure RunnersKeep (budget : ℚ) (k : Weights) : Prop where
  paused : ∀ {config n c w t report state w' stored}, RunsRunner config n c → w.totals config.usageTotals = {} →
    Runs (S := sig) (fun _ _ => True) c w t (.ok (report, some state)) w' → StoredStep state stored →
      totalsAmount (storedTotals stored) = totalsAt config.usageTotals w'
  resumed : ∀ {config ref state c rest w t r w'}, Capped config ref budget → Resumes config state c rest →
    w.totals ref = {} → Runs (S := sig) Nonnegative c w t r w' →
      (∃ w₁, w₁.totals ref = storedTotals state ∧ Runs (S := sig) Nonnegative rest w₁ t r w') ∧
        (budget < (storedTotals state).costUsd.getD 0 → (t.map k.cost).sum = 0 ∧ OverBudget ref budget w')
  stopped : ∀ {config ref n c c' c'' w w' w'' t t'}, Capped config ref budget → RunsRunner config n c →
    Reaches (S := sig) (KeepsTotals none ref budget) Nonnegative c w t c' w' → OverBudget ref budget w' →
      Reaches (S := sig) (KeepsTotals none ref budget) Nonnegative c' w' t' c'' w'' →
        (t'.map k.cost).sum ≤ n * k.turn ∧ OverBudget ref budget w''

/-- The runs of a flow. -/
inductive RunsFlow (desk : DeskSettings) (flow : Flow) : Prog Report → Prop
  | run (job : Job) : RunsFlow desk flow (run desk runners flow job)
  | resume (state : FlowState) (decision : Value) (stream : Option Bool) :
    RunsFlow desk flow (resume desk runners flow state decision stream)

/-- A budget is kept over the pauses of flows, whose steps share the flow's totals. No other call runs
or resumes the flow object meanwhile. -/
structure FlowsKeep (desk : DeskSettings) (budget : ℚ) (k : Weights) : Prop where
  paused : ∀ {flow c w t report w'}, RunsFlow desk flow c →
    Runs (S := sig) (fun _ _ => True) c w t (.ok report) w' → HoldsTotals flow w'
  stored : ∀ {state state' : FlowState}, state.persisted = some state' → state'.usageTotals = state.usageTotals
  resumed : ∀ {flow state decision stream w t r w'},
    Runs (S := sig) Nonnegative (resume desk runners flow state decision stream) w t r w' →
      Comes k (AtSteps desk flow state.usageTotals) t r w' ∧
        (budget < state.usageTotals.costUsd.getD 0 → (t.map k.cost).sum = 0)
  stopped : ∀ {flow : Flow} {ref n c c' c'' w w' w'' t t'}, RunsSteps desk flow n c →
    (w.flows flow.id).usageTotals = ref →
      Reaches (S := sig) (KeepsTotals (some flow.id) ref budget) Nonnegative c w t c' w' →
        OverBudget ref budget w' →
          Reaches (S := sig) (KeepsTotals (some flow.id) ref budget) Nonnegative c' w' t' c'' w'' →
            (t'.map k.cost).sum ≤ n * k.turn ∧ (w''.flows flow.id).usageTotals = ref ∧ OverBudget ref budget w''

/-- A run that begins over the budget counts nothing and ends over it. -/
theorem runs_over {α : Type} {flow : Option ℕ} {cap : ℕ} {c : Prog α} {w w' : World} {t : Trace sig}
    {r : Except Exn α} (h : Looks (budgetGate k flow ref budget) cap c) (hw : HasTotals flow ref w)
    (hover : OverBudget ref budget w) (hr : Runs (S := sig) Nonnegative c w t r w') :
    (t.map k.cost).sum = 0 ∧ OverBudget ref budget w' := by
  have hend : Reaches (S := sig) (KeepsTotals flow ref budget) Nonnegative c w t (.ret r) w' := hr.reaches
  refine ⟨(spent_le_of_looks h hw .start hover hend).2 hover, ?_⟩
  exact (Looks.stays_shut (G := budgetGate k flow ref budget) h hw .start hover hend).2

theorem runnersKeep (budget : ℚ) (k : Weights) : RunnersKeep budget k where
  paused h hempty hr hstored := by
    rw [storedTotals_stored hstored]
    exact runner_carries h hempty hr
  resumed {config ref state c rest w t r w'} hconfig h hempty hr := by
    have hnone : HasTotals none ref w := fun id hid => nomatch hid
    rw [← hconfig.usageTotals] at hempty ⊢
    obtain ⟨w₁, hrestored, hrest⟩ := runs_resumes h hempty hr
    refine ⟨⟨w₁, hrestored, hrest⟩, fun hover => ?_⟩
    have hover₁ : OverBudget config.usageTotals budget w₁ := by
      rw [OverBudget, hrestored]
      exact hover
    exact runs_over (h.looks ⟨hconfig.maxCostUsd, rfl⟩) (fun _ hid => nomatch hid) hover₁ hrest
  stopped {config ref n c c' c'' w w' w'' t t'} hconfig h hr hover hr' := by
    have hw : HasTotals none ref w := fun _ hid => nomatch hid
    refine ⟨(spent_le_of_looks (h.looks hconfig) hw hr hover hr').1, ?_⟩
    exact (Looks.stays_shut (G := budgetGate k none ref budget) (h.looks hconfig) hw hr hover hr').2

theorem flowsKeep (hdesk : desk.maxCostUsd = some budget) (k : Weights) : FlowsKeep desk budget k where
  paused {flow c w t report w'} h hr := by
    cases h with
    | run job => exact holds_run job w t _ w' hr report rfl
    | resume state decision stream => exact holds_resume state decision stream w t _ w' hr report rfl
  stored h := flowState_totals h
  resumed {flow state decision stream w t r w'} hr := by
    have hcomes := comes_resume (k := k) state decision stream w t r w' hr
    refine ⟨hcomes, fun hover => ?_⟩
    rcases hcomes with hnone | ⟨c, w₁, t₁, t₂, rfl, hfree, ⟨⟨n, hsteps⟩, htotals⟩, hrest⟩
    · exact hnone
    · have hover₁ : OverBudget (w₁.flows flow.id).usageTotals budget w₁ := by
        rw [OverBudget, htotals]
        exact hover
      have hw₁ : HasTotals (some flow.id) (w₁.flows flow.id).usageTotals w₁ := by
        rintro _ ⟨⟩
        rfl
      rw [List.map_append, List.sum_append, hfree, zero_add]
      exact (runs_over (hsteps.looks hdesk) hw₁ hover₁ hrest).1
  stopped {flow ref n c c' c'' w w' w'' t t'} h hw hr hover hr' := by
    have hholds : HasTotals (some flow.id) ref w := by
      rintro _ ⟨⟩
      exact hw
    obtain ⟨hholds', hover'⟩ :=
      Looks.stays_shut (G := budgetGate k (some flow.id) ref budget) (h.looks hdesk) hholds hr hover hr'
    exact ⟨(spent_le_of_looks (h.looks hdesk) hholds hr hover hr').1, hholds' flow.id rfl, hover'⟩

/-- The recorded total of a run is kept over its pauses, and once it exceeds the budget nothing but the
turns in progress gets through, over any pauses. -/
theorem budget_kept_over_pauses (hdesk : desk.maxCostUsd = some budget) (k : Weights) :
    RunnersKeep budget k ∧ FlowsKeep desk budget k :=
  ⟨runnersKeep budget k, flowsKeep hdesk k⟩

/-! ### A deployment for two dollars -/

/-- Every call of the model deploys, for two dollars. -/
def deployingAnswers (n : ℕ) : ∀ q, Answer q
  | .complete .. => .ok (.response { guardedModel 0 with usage := [("total_tokens", .int 1)] })
  | .usageCost .. => 2
  | q => plainAnswers guardedModel n q

theorem deployingAnswers_nonnegative (n : ℕ) (q : Query) : Nonnegative q (deployingAnswers n q) := by
  cases q with
  | usageCost modelName usage => exact (by decide : (0 : ℚ) ≤ 2)
  | _ => trivial

/-- The run of the worker, which waits with the two dollars spent. -/
@[irreducible] def deployCall : Trace sig × Except Exn (Report × Option WorkerState) × World :=
  runIn deployingAnswers (arun plainWorker cappedConfig plainJob) {}

def deployOut : Report × Option WorkerState := deployCall.2.1.toOption.get (by decide +kernel)

def deployState : WorkerState := deployOut.2.get (by decide +kernel)

/-- Its resume, by a call with empty totals. -/
@[irreducible] def deployResume : Trace sig × Except Exn (Report × Option StepState) × World :=
  runIn deployingAnswers (runners.aresume (.worker plainWorker) cappedConfig (.worker deployState) (.bool true) [])
    {}

def deployFlow : Flow where
  id := 0
  steps := [.step 1 (.worker plainWorker) "deploy" none]
  name := "flow"

/-- The flow's run, which waits at its step. -/
@[irreducible] def deployFlowRun : Trace sig × Except Exn Report × World :=
  runIn deployingAnswers (run cappedDesk runners deployFlow plainJob) {}

def deployReport : Report := deployFlowRun.2.1.toOption.get (by decide +kernel)

/-- The state of the flow's run in the store. -/
def storedFlow (w : World) : Option FlowState :=
  match w.records (w.flows deployFlow.id).runId with
  | some { state := some (.flow state), .. } => some state
  | _ => none

def deployFlowState : FlowState := (storedFlow deployFlowRun.2.2).get (by decide +kernel)

/-- The resume of the flow. -/
@[irreducible] def deployFlowResume : Trace sig × Except Exn Report × World :=
  runIn deployingAnswers (resume cappedDesk runners deployFlow deployFlowState (.bool true) none) deployFlowRun.2.2

theorem budget_kept_over_pauses_deploy :
    (totalsAmount (totalsFromMetrics deployState.metrics) = totalsAt 0 deployCall.2.2 ∧
      (totalsFromMetrics deployState.metrics).costUsd = some 2 ∧ counted deployResume.1 = 0 ∧
        OverBudget 0 1 deployResume.2.2) ∧
      HoldsTotals deployFlow deployFlowRun.2.2 ∧ deployFlowState.usageTotals.costUsd = some 2 ∧
        counted deployFlowResume.1 = 0 := by
  obtain ⟨hrunners, hflows⟩ := budget_kept_over_pauses (show cappedDesk.maxCostUsd = some 1 from rfl) ⟨1, 1, 1⟩
  have hspent : (totalsFromMetrics deployState.metrics).costUsd = some 2 := by decide +kernel
  have hflowSpent : deployFlowState.usageTotals.costUsd = some 2 := by decide +kernel
  have hover : (1 : ℚ) < (some 2).getD 0 := by decide
  have hcall : Runs (S := sig) (fun _ _ => True) (runners.arun (.worker plainWorker) cappedConfig plainJob [])
      {} deployCall.1 (.ok (deployOut.1, some (.worker deployState))) deployCall.2.2 := by
    have hdone : deployCall.2.1 = .ok deployOut := eq_ok_get _
    have hpaused : deployOut.2 = some deployState := (Option.some_get _).symm
    have hrun : Runs (S := sig) (fun _ _ => True) (arun plainWorker cappedConfig plainJob) {} deployCall.1
        (.ok deployOut) deployCall.2.2 := by
      rw [← hdone]
      unfold deployCall
      exact runIn_runs (fun _ _ => trivial) _ _
    have hout : workerOutcome deployOut = (deployOut.1, some (.worker deployState)) := by
      rw [workerOutcome, hpaused]
      rfl
    show Runs (S := sig) _ (workerOutcome <$> arun plainWorker cappedConfig plainJob) _ _ _ _
    rw [map_eq_pure_bind, ← hout, ← List.append_nil deployCall.1]
    exact hrun.bind (.ret _ _)
  have hresume : Runs (S := sig) Nonnegative
      (runners.aresume (.worker plainWorker) cappedConfig (.worker deployState) (.bool true) []) {}
      deployResume.1 deployResume.2.1 deployResume.2.2 := by
    unfold deployResume
    exact runIn_runs deployingAnswers_nonnegative _ _
  have hflow : Runs (S := sig) (fun _ _ => True) (run cappedDesk runners deployFlow plainJob) {}
      deployFlowRun.1 (.ok deployReport) deployFlowRun.2.2 := by
    have hdone : deployFlowRun.2.1 = .ok deployReport := eq_ok_get _
    rw [← hdone]
    unfold deployFlowRun
    exact runIn_runs (fun _ _ => trivial) _ _
  have hflowResume : Runs (S := sig) Nonnegative
      (resume cappedDesk runners deployFlow deployFlowState (.bool true) none) deployFlowRun.2.2
      deployFlowResume.1 deployFlowResume.2.1 deployFlowResume.2.2 := by
    unfold deployFlowResume
    exact runIn_runs deployingAnswers_nonnegative _ _
  have hrest := (hrunners.resumed (show Capped cappedConfig 0 1 from ⟨rfl, rfl⟩)
    (.worker plainWorker deployState (.bool true) []) rfl hresume).2 (hspent ▸ hover)
  refine ⟨⟨?_, hspent, hrest⟩, hflows.paused (.run plainJob) hflow, hflowSpent, ?_⟩
  · exact hrunners.paused (.arun (.worker plainWorker) plainJob []) rfl hcall (.worker .same)
  · exact (hflows.resumed hflowResume).2 (hflowSpent ▸ hover)

/-! ### A turn that begins over the budget -/

/-- A dollar for the run, and one message of the history is too much. -/
def tightConfig : RunConfig :=
  { crowdedConfig with maxCostUsd := some 1, maxCostUsd_nonneg := one_nonneg_budget }

/-- Two workers at the same time, each of which has its history summarized first. -/
@[irreducible] def tightRun : Prog (Report × Option StepState) :=
  runners.arun (.workforce pairForce) tightConfig longJob []

/-- Whether the calls of the model are those of a turn, or summaries of a history. -/
def turnCalls (t : Trace sig) : List Bool :=
  t.filterMap fun e => match e.1 with
    | .complete _ call => some call.numRetries.isSome
    | _ => none

/-- The run until the dollar is spent; the sides of the first choices let one worker overtake. -/
@[irreducible] def overtaking : Trace sig × Prog (Report × Option StepState) × World :=
  driveUntil (S := sig) overspent costlyAnswers (fun n => n < 9) tightRun 0 {}

@[irreducible] def overtaken : Trace sig × Except Exn (Report × Option StepState) × World :=
  drive (S := sig) costlyAnswers (fun n => n < 9) overtaking.2.1 0 overtaking.2.2

/-- One worker has spent the dollar in its turn while the other waits for its summary, and the turn
of the other begins then. -/
theorem not_stopped_at_once : Capped tightConfig 0 1 ∧ RunsRunner tightConfig 2 tightRun ∧
    Reaches (S := sig) (KeepsTotals none 0 1) Nonnegative tightRun {} overtaking.1 overtaking.2.1 overtaking.2.2 ∧
      turnCalls overtaking.1 = [false, true] ∧ OverBudget 0 1 overtaking.2.2 ∧
        Reaches (S := sig) (KeepsTotals none 0 1) Nonnegative overtaking.2.1 overtaking.2.2 overtaken.1
          (.ret overtaken.2.1) overtaken.2.2 ∧ turnCalls overtaken.1 = [false, true] := by
  refine ⟨⟨rfl, rfl⟩, ?_, ?_, by decide +kernel, of_overspent (by decide +kernel), ?_, by decide +kernel⟩
  · unfold tightRun
    exact .arun (.workforce pairForce) longJob []
  · unfold overtaking
    exact driveUntil_reaches _ _ costlyAnswers_nonnegative _ _ _
  · unfold overtaken
    exact (drive_runs (S := sig) _ costlyAnswers_nonnegative _ _ _).reaches

end Blackgeorge.Workflow
