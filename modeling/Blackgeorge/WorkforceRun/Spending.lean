import Blackgeorge.WorkerRunner.Metering
import Blackgeorge.WorkforceRun.Calls

/-! What a worker's run spends over its pauses. The metrics and the totals get what the
turns recorded, which is all that the adapter reported but for the calls that summarize a
history and the structured calls that raise. -/

namespace Blackgeorge.WorkforceRun

open Data Program Coroutine Coro WorkerRunner

/-! ### Bills -/

variable {price : String → Dict → ℚ}

/-- What an adapter call cost in all. A structured call that raises returns no usage, but
its model calls may have reported some before. -/
def Billed (price : String → Dict → ℚ) : Event sig → Amount → Prop
  | ⟨.structured _ _, .error _⟩, _ => True
  | e, m => m = reportedAmount price e

/-- The calls that nothing meters. -/
def unmetered : Event sig → Bool
  | ⟨.structured _ _, .error _⟩ => true
  | e => asksSummary e

/-- What the unmetered calls of a trace cost on a bill. -/
def unmeteredAmount : Trace sig → List Amount → Amount
  | e :: t, m :: bill => (if unmetered e then m else 0) + unmeteredAmount t bill
  | _, _ => 0

theorem billed_split {e : Event sig} {m : Amount} (h : Billed price e m) :
    m = outstandingEvent price e + recordedEvent e + if unmetered e then m else 0 := by
  have hmetered (e : Event sig) (hm : m = reportedAmount price e)
      (hun : unmetered e = asksSummary e) :
      m = outstandingEvent price e + recordedEvent e + if unmetered e then m else 0 := by
    rw [outstandingEvent, sub_add_cancel, hun]
    split_ifs
    · rw [zero_add]
    · rw [add_zero, hm]
  obtain ⟨q, answer⟩ := e
  cases q with
  | structured sync call =>
    cases answer with
    | error e => simp [outstandingEvent, recordedEvent, reportedAmount, unmetered]
    | ok answer => exact hmetered _ h rfl
  | _ => exact hmetered _ h rfl

theorem bill_sum {t : Trace sig} {bill : List Amount} (h : List.Forall₂ (Billed price) t bill) :
    bill.sum = outstanding price t + recordedAmount t + unmeteredAmount t bill := by
  induction h with
  | nil => simp [unmeteredAmount]
  | @cons e m t bill he _ ih =>
    rw [List.sum_cons, ih, outstanding_cons, recordedAmount_cons, unmeteredAmount]
    have hm := billed_split he
    generalize (if unmetered e then m else 0) = k at hm ⊢
    subst hm
    abel

theorem billed_reported (t : Trace sig) :
    List.Forall₂ (Billed price) t (t.map (reportedAmount price)) := by
  induction t with
  | nil => exact .nil
  | cons e t ih =>
    refine .cons ?_ ih
    unfold Billed
    split
    · trivial
    · rfl

/-! ### Runs -/

/-- What a run has to take over from a paused state is put into empty totals only. -/
def restoredAmount (config : RunConfig) (state : WorkerState) (w : World) : Amount :=
  totalsAmount (restoreTotals (w.totals config.usageTotals) (totalsFromMetrics state.metrics))

/-- The runs of a worker over its pauses: what they asked, what they added to the totals
beyond what a resume restores, and how they ended. The configuration of a resume names a
model, as the desk's do. -/
inductive WorkerRuns (price : String → Dict → ℚ) :
    Trace sig → Amount → Except Exn (Report × Option WorkerState) → Prop
  | run {worker config job w t r w'} :
    Runs (S := sig) (Admitted price) (arun worker config job) w t r w' →
    WorkerRuns price t (totalsAt config.usageTotals w' - totalsAt config.usageTotals w) r
  | resume {t added report state state' worker config decision w t' r w'} :
    WorkerRuns price t added (.ok (report, some state)) → Stored state state' →
    config.modelName worker.model ≠ "" →
    Runs (S := sig) (Admitted price) (aresume worker config state' decision) w t' r w' →
    WorkerRuns price (t ++ t')
      (added + (totalsAt config.usageTotals w' - restoredAmount config state' w)) r

theorem metrics_stored {s s' : WorkerState} (h : Stored s s') : s'.metrics = s.metrics := by
  induction h with
  | same => rfl
  | dumped _ hdump ih =>
    simp only [WorkerState.persisted, StateCore.persisted, Option.bind_eq_bind,
      Option.bind_eq_some_iff] at hdump
    obtain ⟨core, ⟨_, _, _, _, _, _, _, _, hcore⟩, hs⟩ := hdump
    obtain rfl := Option.some.inj hcore
    obtain rfl := Option.some.inj hs
    exact ih
  | job _ _ ih => exact ih

theorem runs_aresume {ok : ∀ q, Answer q → Prop} {worker : Worker} {config : RunConfig}
    {state : WorkerState} {decision : Value} {w w' : World} {t : Trace sig}
    {r : Except Exn (Report × Option WorkerState)}
    (h : Runs (S := sig) ok (aresume worker config state decision) w t r w') :
    ∃ w₁, totalsAt config.usageTotals w₁ = restoredAmount config state w ∧
      Runs (S := sig) ok (resumeRest worker config state decision) w₁ t r w' := by
  cases h with
  | act h => exact ⟨_, by simp [totalsAt, restoredAmount], h⟩

/-- What a run has recorded so far. -/
structure Spent (price : String → Dict → ℚ) (t : Trace sig) (added : Amount)
    (out : Report × Option WorkerState) : Prop where
  metrics : metricsAmount out.1.metrics = recordedAmount t
  added : added = recordedAmount t
  outstanding : outstanding price t = 0
  paused : ∀ state ∈ out.2, state.metrics = out.1.metrics

theorem WorkerRuns.spent {t : Trace sig} {added : Amount} {r : Except Exn (Report × Option WorkerState)}
    (h : WorkerRuns price t added r) : ∀ out, r = .ok out → Spent price t added out := by
  induction h with
  | @run worker config job w t r w' hrun =>
    rintro out rfl
    have hbooks := (books_arun worker config job).runs (hrun.mono fun _ _ _ => trivial)
    obtain ⟨hadded, hmetrics, hpaused⟩ := hbooks
    have houtstanding := (meters_arun worker config job).runs hrun
    refine ⟨?_, hadded, houtstanding, hpaused⟩
    rw [← hadded]
    have hempty : metricsAmount {} = 0 := rfl
    rwa [Records, hempty, zero_add] at hmetrics
  | @resume t added report state state' worker config decision w t' r w' _ hstored hmodel hrun ih =>
    rintro out rfl
    have hspent := ih _ rfl
    have houtstanding : outstanding price t' = 0 :=
      (meters_aresume worker config state' decision).runs hrun
    obtain ⟨w₁, hrestored, hrest⟩ := runs_aresume hrun
    have hbooks := (books_resumeRest worker state' decision hmodel).runs
      (hrest.mono fun _ _ _ => trivial)
    obtain ⟨hadded, hmetrics, hpaused⟩ := hbooks
    rw [hrestored] at hadded
    have hstate : metricsAmount state'.metrics = recordedAmount t := by
      rw [metrics_stored hstored, hspent.paused state rfl, hspent.metrics]
    refine ⟨?_, ?_, ?_, hpaused⟩
    · rw [recordedAmount_append, ← hadded, ← hstate, ← hrestored]
      exact hmetrics
    · rw [recordedAmount_append, hadded, hspent.added]
    · rw [outstanding_append, hspent.outstanding, houtstanding, add_zero]

/-- The metrics and what was added to the totals are the sum of what all adapter calls of
the run cost, exactly when the unmetered ones cost nothing. -/
theorem workerRuns_metered_iff {t : Trace sig} {added : Amount} {out : Report × Option WorkerState}
    {bill : List Amount} (h : WorkerRuns price t added (.ok out))
    (hbill : List.Forall₂ (Billed price) t bill) :
    metricsAmount out.1.metrics = bill.sum ∧ added = bill.sum ↔ unmeteredAmount t bill = 0 := by
  have hspent := h.spent out rfl
  have hsum := bill_sum hbill
  rw [hspent.outstanding, zero_add] at hsum
  rw [hspent.metrics, hspent.added, and_self, hsum, left_eq_add]

/-! ### A summarized run -/

/-- Every answer is done and reports three tokens. -/
def meteredModel (_ : ℕ) : ModelResponse where
  content := some "done"
  usage := [("total_tokens", .int 3)]

def longJob : Job where
  id := "job"
  input := .str "go"
  initialMessages := some [{ role := .user, content := .text "earlier" }]

theorem admitted_plainAnswers (model : ℕ → ModelResponse) (n : ℕ) (q : Query) :
    Admitted (fun _ _ => 0) q (plainAnswers model n q) := by
  cases q with
  | store op => cases op <;> trivial
  | usageCost => rfl
  | _ => trivial

/-- A run of the plain worker in the plain environment, at no cost. -/
theorem workerRuns_plain (model : ℕ → ModelResponse) (config : RunConfig) (job : Job)
    {out : Report × Option WorkerState}
    (h : (runIn (plainAnswers model) (arun plainWorker config job) {}).2.1 = .ok out) :
    ∃ added, WorkerRuns (fun _ _ => 0)
      (runIn (plainAnswers model) (arun plainWorker config job) {}).1 added (.ok out) :=
  ⟨_, .run (h ▸ runIn_runs (admitted_plainAnswers model) _ _)⟩

/-- Looks something up first and deploys after it. -/
def deployingModel (n : ℕ) : ModelResponse where
  content := none
  toolCalls := if n < 6 then [{ id := "c1", name := "lookup", arguments := [] }]
    else [{ id := "c2", name := "deploy", arguments := [] }]
  usage := [("total_tokens", .int 3)]

/-- The run up to the deployment, which waits. -/
@[irreducible] def deployingRun : Trace sig × Except Exn (Report × Option WorkerState) × World :=
  runIn (plainAnswers deployingModel) (arun plainWorker plainConfig plainJob) {}

def deployingOut : Report × Option WorkerState :=
  deployingRun.2.1.toOption.get (by decide +kernel)

def deployingState : WorkerState := deployingOut.2.get (by decide +kernel)

/-- The run from the approval on. -/
@[irreducible] def deployedRun : Trace sig × Except Exn (Report × Option WorkerState) × World :=
  runIn (plainAnswers meteredModel) (aresume plainWorker plainConfig deployingState (.bool true)) {}

def deployedOut : Report × Option WorkerState :=
  deployedRun.2.1.toOption.get (by decide +kernel)

theorem workerRuns_deployed :
    ∃ added, WorkerRuns (fun _ _ => 0) (deployingRun.1 ++ deployedRun.1) added (.ok deployedOut) := by
  have hstart : Runs (S := sig) (Admitted fun _ _ => 0) (arun plainWorker plainConfig plainJob) {}
      deployingRun.1 deployingRun.2.1 deployingRun.2.2 := by
    unfold deployingRun
    exact runIn_runs (admitted_plainAnswers deployingModel) _ _
  have hwaits : deployingRun.2.1 = .ok (deployingOut.1, some deployingState) := by
    rw [deployingState, Option.some_get]
    exact eq_ok_get _
  have hresume : Runs (S := sig) (Admitted fun _ _ => 0)
      (aresume plainWorker plainConfig deployingState (.bool true)) {}
      deployedRun.1 deployedRun.2.1 deployedRun.2.2 := by
    unfold deployedRun
    exact runIn_runs (admitted_plainAnswers meteredModel) _ _
  have hdone : deployedRun.2.1 = .ok deployedOut := eq_ok_get _
  rw [hwaits] at hstart
  rw [hdone] at hresume
  exact ⟨_, .resume (.run hstart) .same (by decide) hresume⟩

/-- A run of three turns that pauses before the last one, and summarizes nothing, is metered in
full. -/
theorem workerRuns_metered_turns : ∃ t added out, ∃ bill : List Amount,
    WorkerRuns (fun _ _ => 0) t added (.ok out) ∧ (t.filter isModelCall).length = 3 ∧
      metricsAmount out.1.metrics = bill.sum ∧ added = bill.sum := by
  obtain ⟨added, hrun⟩ := workerRuns_deployed
  exact ⟨_, added, _, _, hrun, by decide +kernel,
    (workerRuns_metered_iff hrun (billed_reported _)).mpr (by decide +kernel)⟩

/-- The call that summarizes the history is missing in the metrics. -/
theorem not_metered_crowded : ∃ t added out, ∃ bill : List Amount, WorkerRuns (fun _ _ => 0) t added (.ok out) ∧
    List.Forall₂ (Billed fun _ _ => 0) t bill ∧ metricsAmount out.1.metrics ≠ bill.sum := by
  obtain ⟨added, hrun⟩ := workerRuns_plain meteredModel crowdedConfig longJob rfl
  exact ⟨_, added, _, _, hrun, billed_reported _, by decide +kernel⟩

end Blackgeorge.WorkforceRun
