import Blackgeorge.WorkforceRun.Relay
import Blackgeorge.WorkforceRun.Spending

/-! What is kept of a run's totals where it pauses. A workforce stores them as they are when it
pauses, and a worker that has them to itself has recorded the same in its own metrics. -/

namespace Blackgeorge.WorkforceRun

open Data Program Coroutine Coro WorkerRunner

variable {α : Type} {force : Workforce} {config : RunConfig} {w w' : World} {t : Trace sig}

/-! ### Workforces -/

/-- Where the program pauses, the state has the totals as they are then. -/
def CarriesTotals (config : RunConfig) (c : Prog (Report × Option WorkforceState)) : Prop :=
  ∀ w, After (S := sig) (fun _ _ => True) c w fun _ r w' =>
    ∀ report state, r = .ok (report, some state) → state.usageTotals = w'.totals config.usageTotals

theorem carriesTotals_bind {c : Prog α} {g : α → Prog (Report × Option WorkforceState)}
    (h : ∀ a, CarriesTotals config (g a)) : CarriesTotals config (c >>= g) :=
  fun _ => after_last (fun _ _ _ _ h => nomatch h) h

theorem carriesTotals_ended (report : Report) : CarriesTotals config (pure (report, none)) :=
  fun _ => after_pure fun _ _ h => nomatch h

theorem carriesTotals_pauseWith (runId : RunId) (job : Job) (report : Report) (workerState : WorkerState)
    (stage : Stage) : CarriesTotals config (pauseWith force config runId job report workerState stage) := by
  intro w
  apply after_bind
  apply after_look
  apply after_bind
  apply after_ofExcept
  cases hbuilt : buildWorkforceState force runId job job workerState stage (w.totals config.usageTotals) with
  | error e => exact fun _ _ h => nomatch h
  | ok state =>
    apply after_pure
    rintro _ _ ⟨⟩
    obtain ⟨_, _, hbuilt⟩ := ok_of_bind hbuilt
    obtain ⟨_, _, hbuilt⟩ := ok_of_bind hbuilt
    obtain ⟨_, _, hbuilt⟩ := ok_of_bind hbuilt
    obtain rfl := Except.ok.inj hbuilt
    rfl

theorem carriesTotals_collectTasks (job : Job)
    (tasks : List (Worker × Except Exn (Report × Option WorkerState))) (reports : List (Worker × Report)) :
    CarriesTotals config (collectTasks force config job tasks reports) := by
  induction tasks generalizing reports with
  | nil =>
    unfold collectTasks
    split_ifs
    · exact carriesTotals_ended _
    · exact carriesTotals_bind fun _ => carriesTotals_ended _
  | cons task tasks ih =>
    obtain ⟨worker, e | ⟨report, _ | workerState⟩⟩ := task
    · exact ih _
    · exact ih _
    · exact carriesTotals_pauseWith _ _ _ _ _

theorem carriesTotals_runCollaborateFrom (runId : RunId) (job : Job) (workers : List Worker)
    (reports : List (Worker × Report)) :
    CarriesTotals config (runCollaborateFrom force config runId job workers reports) := by
  induction workers generalizing reports with
  | nil => exact carriesTotals_bind fun _ => carriesTotals_ended _
  | cons worker workers ih =>
    refine carriesTotals_bind ?_
    rintro ⟨report, _ | workerState⟩
    · dsimp only
      split_ifs
      · exact carriesTotals_ended _
      · exact ih _
    · exact carriesTotals_pauseWith _ _ _ _ _

theorem carriesTotals_runCollaborateMode (job : Job) :
    CarriesTotals config (runCollaborateMode force config job) := by
  unfold runCollaborateMode
  split_ifs
  · exact carriesTotals_bind fun _ => carriesTotals_collectTasks job _ _
  · exact carriesTotals_runCollaborateFrom _ _ _ _

theorem carriesTotals_afterManager (runId : RunId) (job : Job) (report : Report)
    (workerState : Option WorkerState) :
    CarriesTotals config (afterManager force config runId job report workerState) := by
  cases workerState with
  | some workerState => exact carriesTotals_pauseWith _ _ _ _ _
  | none =>
    unfold afterManager
    dsimp only
    split_ifs
    · exact carriesTotals_ended _
    · refine carriesTotals_bind ?_
      rintro ⟨report', _ | workerState⟩
      · exact carriesTotals_ended _
      · exact carriesTotals_pauseWith _ _ _ _ _

theorem carriesTotals_swarmContinue (runId : RunId) (left count : ℕ) (history : List Report)
    (worker : Worker) (job : Job) (turn : Report × Option WorkerState) :
    CarriesTotals config (swarmContinue force config runId left count history worker job turn) := by
  induction left generalizing count history worker job turn with
  | zero =>
    obtain ⟨report, _ | workerState⟩ := turn
    · exact carriesTotals_ended _
    · unfold swarmContinue
      dsimp only
      split
      · exact carriesTotals_ended _
      · exact carriesTotals_pauseWith _ _ _ _ _
      · exact carriesTotals_ended _
  | succ left ih =>
    obtain ⟨report, _ | workerState⟩ := turn
    · exact carriesTotals_ended _
    · unfold swarmContinue
      dsimp only
      split
      · exact carriesTotals_ended _
      · exact carriesTotals_pauseWith _ _ _ _ _
      · exact carriesTotals_bind fun turn => ih _ _ _ _ turn

theorem carriesTotals_runMode (job : Job) : CarriesTotals config (runMode force config job) := by
  unfold runMode
  cases force.mode with
  | swarm => exact carriesTotals_bind fun turn => carriesTotals_swarmContinue _ _ _ _ _ _ turn
  | managed =>
    refine carriesTotals_bind fun id => carriesTotals_bind ?_
    rintro ⟨report, workerState⟩
    exact carriesTotals_afterManager _ _ _ _
  | collaborate => exact carriesTotals_runCollaborateMode job

theorem carriesTotals_resumeStage (state : WorkforceState) (workerState : WorkerState) (decision : Value) :
    CarriesTotals config (resumeStage force config state workerState decision) := by
  unfold resumeStage
  split
  · unfold resumeSwarmStage
    dsimp only
    split
    · exact carriesTotals_ended _
    · exact carriesTotals_bind fun turn => carriesTotals_swarmContinue _ _ _ _ _ _ turn
  · refine carriesTotals_bind ?_
    rintro ⟨report, next⟩
    exact carriesTotals_afterManager _ _ _ _
  · refine carriesTotals_bind ?_
    rintro ⟨report, _ | next⟩
    · exact carriesTotals_ended _
    · exact carriesTotals_pauseWith _ _ _ _ _
  · unfold resumeCollaborateStage
    split
    · exact carriesTotals_ended _
    · refine carriesTotals_bind ?_
      rintro ⟨report, _ | next⟩
      · dsimp only
        split_ifs
        · exact carriesTotals_ended _
        · exact carriesTotals_runCollaborateFrom _ _ _ _
      · exact carriesTotals_pauseWith _ _ _ _ _
  · exact carriesTotals_ended _

/-- What follows adds nothing to the totals, and no state. -/
theorem carriesTotals_then {c : Prog (Report × Option WorkforceState)}
    {g : Report × Option WorkforceState → Prog (Report × Option WorkforceState)} (hc : CarriesTotals config c)
    (hg : ∀ out w, After (S := sig) (fun _ _ => True) (g out) w fun _ r w' =>
      w'.totals = w.totals ∧ ∀ out', r = .ok out' → out'.2 = out.2) :
    CarriesTotals config (c >>= g) := by
  intro w
  apply after_bind
  refine (hc w).mono ?_
  rintro t (e | ⟨report, state⟩) w₁ hcarried
  · exact fun _ _ h => nomatch h
  · refine (hg _ w₁).mono ?_
    rintro t' r w' ⟨htotals, hsame⟩ report' state' hr
    obtain rfl : some state' = state := hsame _ hr
    rw [htotals]
    exact hcarried report state' rfl

theorem after_withTotals (out : Report × Option WorkforceState) (w : World) :
    After (S := sig) (fun _ _ => True) (withTotals config out) w fun _ r w' =>
      w' = w ∧ ∀ out', r = .ok out' → out'.2 = out.2 := by
  obtain ⟨report, _ | state⟩ := out
  · apply after_bind
    apply after_look
    refine after_pure ⟨rfl, ?_⟩
    rintro _ ⟨⟩
    rfl
  · refine after_pure ⟨rfl, ?_⟩
    rintro _ ⟨⟩
    rfl

theorem after_emitTotals (type source : String) (payload : Dict) (w : World) :
    After (S := sig) (fun _ _ => True) (config.emit type source payload) w fun _ _ w' => w'.totals = w.totals :=
  ((each_emit unbilledLaw_permits _ _ _ _).after (fun _ => rfl) fun _ _ _ huv hvw => hvw.trans huv).mono
    fun _ _ _ h => h.1

theorem carriesTotals_arunWorkforce (job : Job) : CarriesTotals config (arunWorkforce force config job) := by
  refine carriesTotals_bind fun _ => carriesTotals_then (carriesTotals_runMode job) fun out w => ?_
  apply after_bind
  refine (after_withTotals out w).mono ?_
  rintro t (e | out') w₁ ⟨rfl, hsame⟩
  · exact ⟨rfl, fun _ h => nomatch h⟩
  apply after_bind
  refine (after_emitTotals _ _ _ w₁).mono ?_
  rintro t (e | _) w₂ htotals
  · exact ⟨htotals, fun _ h => nomatch h⟩
  · refine after_pure ⟨htotals, ?_⟩
    rintro _ ⟨⟩
    exact hsame _ rfl

theorem carriesTotals_aresumeWorkforce (state : WorkforceState) (decision : Value) :
    CarriesTotals config (aresumeWorkforce force config state decision) := by
  refine carriesTotals_bind fun _ => ?_
  cases state.workerState with
  | none => exact carriesTotals_ended _
  | some workerState =>
    dsimp only
    split_ifs
    · exact carriesTotals_ended _
    · have hstage : CarriesTotals (resumeConfig config state.runId)
          (resumeStage force (resumeConfig config state.runId) state workerState decision) :=
        carriesTotals_resumeStage state workerState decision
      rw [CarriesTotals, resumeConfig_usageTotals] at hstage
      refine carriesTotals_then hstage fun out w => (after_withTotals out w).mono ?_
      rintro t r w' ⟨rfl, hsame⟩
      exact ⟨rfl, hsame⟩

theorem forceTotals_stored {s s' : WorkforceState} (h : StoredForce s s') : s'.usageTotals = s.usageTotals := by
  induction h with
  | same => rfl
  | dumped _ hdump ih =>
    simp only [WorkforceState.persisted, Option.bind_eq_bind, Option.bind_eq_some_iff] at hdump
    obtain ⟨_, _, _, _, _, _, _, _, hs⟩ := hdump
    obtain rfl := Option.some.inj hs
    exact ih
  | job _ _ ih => exact ih

/-! ### Workers -/

/-- A run that pauses with the totals to itself has recorded them in its own metrics. -/
theorem arun_carries {worker : Worker} {job : Job} {report : Report} {state : WorkerState}
    (hempty : w.totals config.usageTotals = {})
    (hr : Runs (S := sig) (fun _ _ => True) (arun worker config job) w t (.ok (report, some state)) w') :
    metricsAmount state.metrics = totalsAt config.usageTotals w' := by
  obtain ⟨-, hrecords, hpaused⟩ := (books_arun worker config job).runs hr
  have hstart : totalsAt config.usageTotals w = 0 := by
    rw [totalsAt, hempty]
    rfl
  have hnew : metricsAmount {} = 0 := rfl
  rw [hstart, sub_zero, Records, hnew, zero_add] at hrecords
  rw [hpaused state rfl, hrecords]

/-- Without a model a resume does not pause. -/
theorem resumeRest_unset {worker : Worker} {state : WorkerState} {decision : Value}
    (hmodel : config.modelName worker.model = "") (w : World) :
    After (S := sig) (fun _ _ => True) (resumeRest worker config state decision) w fun _ r _ =>
      ∀ out, r = .ok out → out.2 = none := by
  unfold resumeRest
  split
  · refine after_pure ?_
    rintro _ ⟨⟩
    rfl
  · refine after_returns ?_
    rintro ⟨call, result⟩ w₁
    refine after_returns fun toolCalls w₂ => ?_
    dsimp only
    rw [resumeConfig_modelName, if_pos hmodel]
    refine after_returns fun _ w₃ => after_pure ?_
    rintro _ ⟨⟩
    rfl

theorem aresume_carries {worker : Worker} {state state' : WorkerState} {decision : Value} {report : Report}
    (hempty : w.totals config.usageTotals = {})
    (hr : Runs (S := sig) (fun _ _ => True) (aresume worker config state decision) w t (.ok (report, some state')) w') :
    metricsAmount state'.metrics = totalsAt config.usageTotals w' := by
  obtain ⟨w₁, hrestored, hrest⟩ := runs_aresume hr
  by_cases hmodel : config.modelName worker.model = ""
  · exact nomatch resumeRest_unset hmodel w₁ _ _ _ hrest _ rfl
  obtain ⟨-, hrecords, hpaused⟩ := (books_resumeRest worker state decision hmodel).runs hrest
  have hstart : totalsAt config.usageTotals w₁ = metricsAmount state.metrics := by
    rw [hrestored, restoredAmount, hempty, restoreTotals, if_pos rfl]
    rfl
  rw [Records, hstart, add_sub_cancel] at hrecords
  rw [hpaused state' rfl, hrecords]

end Blackgeorge.WorkforceRun
