import Blackgeorge.Desk.Records
import Blackgeorge.Workflow.Budget
import Blackgeorge.WorkforceRun.Carried

/-! What the store keeps of a flow's totals. Whenever a run of the flow returns, its record has
the totals as they are, and a resume comes to its steps under the totals of the stored state. -/

namespace Blackgeorge.Workflow

open Data Program Coroutine Coro WorkerRunner WorkforceRun Desk

variable {α β : Type} {desk : DeskSettings} {flow : Flow} {w w' : World} {t : Trace sig}

/-! ### What is stored -/

/-- What the store holds of the flow's run has the totals as they are. -/
def HoldsTotals (flow : Flow) (w : World) : Prop :=
  ∀ record state, w.records (w.flows flow.id).runId = some record → record.state = some (.flow state) →
    state.usageTotals = w.totals (w.flows flow.id).usageTotals

/-- The law of programs that leave records, flows and totals alone. -/
def asideLaw : Law sig where
  step w w' := w'.records = w.records ∧ w'.flows = w.flows ∧ w'.totals = w.totals
  admits _ _ := True
  event _ := True

theorem asideLaw_permits : Permits asideLaw where
  refl _ := ⟨rfl, rfl, rfl⟩
  eventLists _ _ := ⟨rfl, rfl, rfl⟩
  storedEvents _ _ := ⟨rfl, rfl, rfl⟩
  routine _ _ _ := trivial

theorem after_aside {c : Prog α} (h : Each asideLaw c fun _ => True) (w : World) :
    After (S := sig) (fun _ _ => True) c w fun _ _ w' =>
      w'.records = w.records ∧ w'.flows = w.flows ∧ w'.totals = w.totals :=
  (h.after (fun _ => ⟨rfl, rfl, rfl⟩) fun _ _ _ huv hvw =>
    ⟨hvw.1.trans huv.1, hvw.2.1.trans huv.2.1, hvw.2.2.trans huv.2.2⟩).mono fun _ _ _ h => h.1

/-- A known run has the record that is written, and an unknown one may stay unknown. -/
theorem after_updateRun_record (runId : RunId) (status : RunStatus) (output : Option String)
    (outputJson : Value) (state : Option RunState) (w : World) :
    After (S := sig) (fun _ _ => True) (updateRun desk runId status output outputJson state) w
      fun _ r w' => r = .ok () → w'.flows = w.flows ∧ w'.totals = w.totals ∧
        ∀ record, w'.records runId = some record →
          storedRecord desk status output outputJson state = .ok record := by
  apply after_bind
  apply after_ofExcept
  cases hrecord : storedRecord desk status output outputJson state with
  | error e => exact fun h => nomatch h
  | ok record =>
    apply after_bind
    refine (after_store _ w).mono ?_
    rintro _ (e | _) w₁ ⟨rfl, rfl⟩
    · exact fun h => nomatch h
    · refine after_update fun _ => ?_
      split_ifs with hknown
      · exact ⟨rfl, rfl, by simp⟩
      · refine ⟨rfl, rfl, fun record' hrecord' => ?_⟩
        simp [hrecord'] at hknown

theorem flowState_totals {state state' : FlowState} (h : state.persisted = some state') :
    state'.usageTotals = state.usageTotals := by
  simp only [FlowState.persisted, Option.bind_eq_bind, Option.bind_eq_some_iff] at h
  obtain ⟨_, _, _, _, _, _, _, _, _, _, h⟩ := h
  obtain rfl := Option.some.inj h
  rfl

theorem storedRecord_totals {status : RunStatus} {output : Option String} {outputJson : Value}
    {state state' : FlowState} {record : RunRecord}
    (h : storedRecord desk status output outputJson (some (.flow state)) = .ok record)
    (hstate : record.state = some (.flow state')) : state'.usageTotals = state.usageTotals := by
  rcases storedRecord_ok h with hsame | hdumped
  · rw [hstate] at hsame
    obtain rfl : state' = state := by simpa using hsame
    rfl
  · rw [hstate] at hdumped
    cases hdump : state.persisted with
    | none => simp [RunState.persisted, hdump] at hdumped
    | some dumped =>
      obtain rfl : dumped = state' := by simpa [RunState.persisted, hdump] using hdumped
      exact flowState_totals hdump

/-- Where the program returns, the store holds the totals. -/
def Holds (flow : Flow) (c : Prog α) : Prop :=
  ∀ w, After (S := sig) (fun _ _ => True) c w fun _ r w' => ∀ x, r = .ok x → HoldsTotals flow w'

theorem holds_bind {c : Prog α} {g : α → Prog β} (hg : ∀ a, Holds flow (g a)) : Holds flow (c >>= g) :=
  fun _ => after_last (fun _ _ _ h => nomatch h) hg

theorem holds_then {c : Prog α} {g : α → β} (hc : Holds flow c) : Holds flow (c >>= fun x => pure (g x)) := by
  intro w
  apply after_bind
  refine (hc w).mono ?_
  rintro _ (e | x) w₁ hholds
  · exact fun _ h => nomatch h
  · exact after_pure fun _ _ => hholds x rfl

theorem holds_recordEnd (status : RunStatus) (type : String) (output : Option String) (outputJson : Value) :
    Holds flow (recordEnd desk flow status type output outputJson) := by
  intro w
  unfold recordEnd
  apply after_bind
  refine after_look ?_
  apply after_bind
  refine (after_aside (each_deskEmit asideLaw_permits _ _ _ _ _) w).mono ?_
  rintro _ (e | _) w₁ ⟨-, hflows, -⟩
  · exact fun _ h => nomatch h
  apply after_bind
  refine (after_updateRun_record _ _ _ _ _ w₁).mono ?_
  rintro _ (e | _) w₂ hwritten
  · exact fun _ h => nomatch h
  obtain ⟨hflows', -, hrecord⟩ := hwritten rfl
  refine after_update fun _ _ record state hknown hstate => ?_
  have hid : (w₂.flows flow.id).runId = (w.flows flow.id).runId := by rw [hflows', hflows]
  have hstored := hrecord record (hid ▸ hknown)
  have hnone : record.state.isSome = false := (storedRecord_status hstored).2.2
  rw [hstate] at hnone
  cases hnone

theorem holds_failRun (report : RunId → Report) : Holds flow (failRun desk flow report) :=
  holds_bind fun _ => holds_then (holds_recordEnd _ _ _ _)

theorem holds_pauseFlow (context : Ref) (report : Report) (paused : PausedFlow) :
    Holds flow (pauseFlow desk flow context report paused) := by
  intro w
  unfold pauseFlow
  apply after_bind
  refine after_look ?_
  apply after_bind
  refine after_look ?_
  apply after_bind
  refine after_look ?_
  show After (S := sig) _ _ w _
  dsimp only
  cases hbuilt : buildFlowState flow (w.flows flow.id).runId (w.totals (w.flows flow.id).usageTotals)
      (w.contexts context) { paused with stepState := paused.stepState.setStream paused.stream } with
  | error e =>
    dsimp only
    split_ifs
    · exact holds_then (holds_recordEnd _ _ _ _) w
    · exact after_raise fun _ h => nomatch h
  | ok state =>
    have htotals : state.usageTotals = w.totals (w.flows flow.id).usageTotals := by
      obtain ⟨_, _, hbuilt⟩ := ok_of_bind hbuilt
      obtain ⟨_, _, hbuilt⟩ := ok_of_bind hbuilt
      obtain ⟨_, _, hbuilt⟩ := ok_of_bind hbuilt
      obtain ⟨_, _, hbuilt⟩ := ok_of_bind hbuilt
      obtain rfl := Except.ok.inj hbuilt
      rfl
    apply after_bind
    refine (after_aside (each_deskEmit asideLaw_permits _ _ _ _ _) w).mono ?_
    rintro _ (e | _) w₁ ⟨-, hflows, hsame⟩
    · exact fun _ h => nomatch h
    apply after_bind
    refine (after_updateRun_record _ _ _ _ _ w₁).mono ?_
    rintro _ (e | _) w₂ hwritten
    · exact fun _ h => nomatch h
    obtain ⟨hflows', hsame', hrecord⟩ := hwritten rfl
    refine after_pure fun _ _ record state' hknown hstate => ?_
    have hfields : w₂.flows = w.flows := hflows'.trans hflows
    rw [hfields] at hknown ⊢
    rw [storedRecord_totals (hrecord record hknown) hstate, htotals, hsame', hsame]

/-- Where the program has ended the run, the store holds the totals. -/
def Concludes (flow : Flow) (c : Prog Progress) : Prop :=
  ∀ w, After (S := sig) (fun _ _ => True) c w fun _ r w' =>
    ∀ report, r = .ok (.ended report) → HoldsTotals flow w'

theorem Holds.concludes {c : Prog Progress} (h : Holds flow c) : Concludes flow c :=
  fun w => (h w).mono fun _ _ _ hholds _ hr => hholds _ hr

theorem concludes_bind {c : Prog α} {g : α → Prog Progress} (hg : ∀ a, Concludes flow (g a)) :
    Concludes flow (c >>= g) :=
  fun _ => after_last (fun _ _ _ h => nomatch h) hg

theorem concludes_executeStepResults (run : FlowRun) (stepIndex : ℕ) (remaining : List Continuation)
    (results : List StepOutput) (allReports : List Held) :
    Concludes flow (executeStepResults desk flow run stepIndex remaining results allReports) := by
  induction results generalizing allReports with
  | nil => exact fun _ => after_pure fun _ h => nomatch h
  | cons result tail ih =>
    unfold executeStepResults
    split
    · exact (holds_then (holds_failRun _)).concludes
    · exact (holds_then (holds_pauseFlow _ _ _)).concludes
    · exact (holds_then (holds_recordEnd _ _ _ _)).concludes
    · exact concludes_bind fun _ => ih _

/-- What follows a program that has not ended the run. -/
theorem concludes_go {c : Prog Progress} {g : Progress → Prog Progress} (hc : Concludes flow c)
    (hended : ∀ report, g (.ended report) = pure (.ended report))
    (hg : ∀ allReports, Concludes flow (g (.going allReports))) : Concludes flow (c >>= g) := by
  intro w
  apply after_bind
  refine (hc w).mono ?_
  rintro _ (e | report | allReports) w₁ hholds
  · exact fun _ h => nomatch h
  · show After (S := sig) _ (g (.ended report)) w₁ _
    rw [hended]
    exact after_pure fun _ _ => hholds report rfl
  · exact hg allReports w₁

theorem concludes_runSteps (run : FlowRun) (steps : List Node) (i : ℕ) (allReports : List Held) :
    Concludes flow (runSteps desk runners flow run steps i allReports) := by
  induction steps generalizing i allReports with
  | nil => exact fun _ => after_pure fun _ h => nomatch h
  | cons step steps ih =>
    refine concludes_bind fun results => ?_
    exact concludes_go (concludes_executeStepResults run i [] results allReports) (fun _ => rfl) fun _ => ih _ _

theorem concludes_runContinuations (run : FlowRun) (stepIndex : ℕ) (continuations : List Continuation)
    (allReports : List Held) :
    Concludes flow (runContinuations desk runners flow run stepIndex continuations allReports) := by
  induction continuations generalizing allReports with
  | nil => exact fun _ => after_pure fun _ h => nomatch h
  | cons continuation continuations ih =>
    refine concludes_bind fun results => ?_
    exact concludes_go (concludes_executeStepResults run stepIndex continuations results allReports) (fun _ => rfl)
      fun _ => ih _

theorem concludes_resumeRestored (run : FlowRun) (stepIndex : ℕ) (stepState : StepState) (stepPos : Pos)
    (restored : Restored) (decision : Value) :
    Concludes flow (resumeRestored desk runners flow run stepIndex stepState stepPos restored decision) := by
  refine concludes_bind ?_
  rintro ⟨held, updated⟩
  refine concludes_go (concludes_executeStepResults run stepIndex _ _ _) (fun _ => rfl) fun allReports => ?_
  exact concludes_go (concludes_runContinuations run stepIndex _ allReports) (fun _ => rfl) fun _ =>
    concludes_runSteps run _ _ _

/-- A run that has ended holds the totals, paused or not. -/
theorem holds_finish {c : Prog Progress} (hc : Concludes flow c) : Holds flow (c >>= finish desk flow) := by
  intro w
  apply after_bind
  refine (hc w).mono ?_
  rintro _ (e | report | allReports) w₁ hholds
  · exact fun _ h => nomatch h
  · exact after_pure fun _ _ => hholds report rfl
  · have hfinal : Holds flow (finalizeFlowRun desk flow allReports) := by
      unfold finalizeFlowRun
      split_ifs
      · exact holds_failRun _
      · exact holds_bind fun _ => holds_bind fun _ => holds_then (holds_recordEnd _ _ _ _)
    exact hfinal w₁

theorem holds_run (job : Job) : Holds flow (run desk runners flow job) :=
  holds_finish (concludes_bind fun flowRun => concludes_runSteps flowRun flow.steps 0 [])

theorem concludes_collectResume (state : FlowState) (decision : Value) (stream : Option Bool) :
    Concludes flow (collectResume desk runners flow state decision stream) := by
  have hfailure : ∀ error, Concludes flow (do pure (Progress.ended (← resumeFailure desk flow state error))) :=
    fun _ => (holds_then (holds_then (holds_recordEnd _ _ _ _))).concludes
  refine concludes_bind fun _ => concludes_bind fun events => concludes_bind fun _ => ?_
  split
  · exact hfailure _
  · refine concludes_bind fun parts => ?_
    cases parts with
    | error e =>
      dsimp only
      split_ifs
      · exact hfailure _
      · exact fun _ => after_raise fun _ h => nomatch h
    | ok restored =>
      refine concludes_bind fun totals => concludes_bind fun _ => concludes_bind fun _ => concludes_bind fun _ => ?_
      refine concludes_bind fun _ => concludes_bind fun context => ?_
      exact concludes_resumeRestored _ _ _ _ _ _

theorem holds_resume (state : FlowState) (decision : Value) (stream : Option Bool) :
    Holds flow (resume desk runners flow state decision stream) :=
  holds_finish (concludes_collectResume state decision stream)

/-! ### Resumes of flows -/

variable {k : Weights} {budget : ℚ} {ref : Ref}

/-- A run has counted nothing, or nothing before it came to such a program and such a world. -/
def Comes (k : Weights) (P : Prog Report → World → Prop) (t : Trace sig) (r : Except Exn Report)
    (w' : World) : Prop :=
  (t.map k.cost).sum = 0 ∨ ∃ c w t₁ t₂, t = t₁ ++ t₂ ∧ (t₁.map k.cost).sum = 0 ∧ P c w ∧
    Runs (S := sig) Nonnegative c w t₂ r w'

variable {P : Prog Report → World → Prop}

theorem Comes.behind {t t' : Trace sig} {r : Except Exn Report} (ht : (t.map k.cost).sum = 0)
    (h : Comes k P t' r w') : Comes k P (t ++ t') r w' := by
  rcases h with hnone | ⟨c, w, t₁, t₂, rfl, hnone, hP, hr⟩
  · left
    rw [List.map_append, List.sum_append, ht, hnone]
  · refine .inr ⟨c, w, t ++ t₁, t₂, (List.append_assoc ..).symm, ?_, hP, hr⟩
    rw [List.map_append, List.sum_append, ht, hnone]

theorem comes_here {c : Prog Report} (h : P c w) : After (S := sig) Nonnegative c w (Comes k P) :=
  fun t _ _ hr => .inr ⟨c, w, [], t, rfl, rfl, h, hr⟩

theorem comes_bind {c : Prog α} {g : α → Prog β} {f : β → Prog Report}
    (hc : After (S := sig) Nonnegative c w fun t r w₁ => (t.map k.cost).sum = 0 ∧
      ∀ a, r = .ok a → After (S := sig) Nonnegative (g a >>= f) w₁ (Comes k P)) :
    After (S := sig) Nonnegative (c >>= g >>= f) w (Comes k P) := by
  rw [LawfulMonad.bind_assoc]
  apply after_bind
  refine hc.mono ?_
  rintro t (e | a) w₁ ⟨ht, hrest⟩
  · exact .inl ht
  · exact (hrest a rfl).mono fun t' r w' h => h.behind ht

theorem free_idle {c : Prog α} {Φ : α → Prop} {flow : Option ℕ} {ref : Ref}
    (h : Each (budgetGate k flow ref budget).idle c Φ) (w : World) :
    After (S := sig) Nonnegative c w fun t _ _ => (t.map k.cost).sum = 0 := by
  intro t r w' hr
  refine List.sum_eq_zero fun n hn => ?_
  obtain ⟨e, he, rfl⟩ := List.mem_map.mp hn
  exact (h.runs hr).1 e he

/-- An event of the desk counts nothing and leaves flows and totals alone. -/
theorem after_eventFree (events : Ref) (runId : RunId) (type source : String) (payload : Dict) (w : World) :
    After (S := sig) Nonnegative (deskEmit events runId type source payload) w fun t _ w' =>
      (t.map k.cost).sum = 0 ∧ w'.flows = w.flows ∧ w'.totals = w.totals := by
  intro t r w' hr
  have hidle : Each (budgetGate k none 0 0).idle (deskEmit events runId type source payload) fun _ => True :=
    each_deskEmit budgetIdle_permits _ _ _ _ _
  have haside := after_aside (each_deskEmit asideLaw_permits events runId type source payload) w
  exact ⟨free_idle hidle w t r w' hr, (haside.admitted t r w' hr).2⟩

/-- The steps of a flow, under the totals that a state restores. -/
def AtSteps (desk : DeskSettings) (flow : Flow) (totals : UsageTotals) (c : Prog Report) (w : World) : Prop :=
  (∃ n, RunsSteps desk flow n c) ∧ w.totals (w.flows flow.id).usageTotals = totals

/-- A resume comes to the steps of its flow under the totals of the stored state. -/
theorem comes_resume (state : FlowState) (decision : Value) (stream : Option Bool) (w : World) :
    After (S := sig) Nonnegative (resume desk runners flow state decision stream) w
      (Comes k (AtSteps desk flow state.usageTotals)) := by
  have hfailure : ∀ w error, After (S := sig) Nonnegative
      ((do pure (Progress.ended (← resumeFailure desk flow state error))) >>= finish desk flow) w
        (Comes k (AtSteps desk flow state.usageTotals)) := by
    intro w error
    have hidle : Each (budgetGate k (some flow.id) 0 0).idle
        ((do pure (Progress.ended (← resumeFailure desk flow state error))) >>= finish desk flow)
          fun _ => True := by
      refine each_bind (P := fun _ => True) ?_ fun progress _ => idle_finish progress
      refine each_bind (P := fun _ => True) ?_ fun _ _ => each_pure trivial
      exact each_bind (idle_recordEnd _ _ _ _) fun _ _ => each_pure trivial
    exact (free_idle hidle w).mono fun t r w' h => .inl h
  have hevents : Each (budgetGate k (some flow.id) 0 0).idle (getEvents state.runId) fun _ => True := by
    refine each_bind (idle_store _) fun _ _ => each_bind (idle_look _) fun events _ => ?_
    exact each_exchange (fun _ => budgetGate_step rfl rfl) fun _ => trivial
  rw [resume, collectResume]
  refine comes_bind (after_update ⟨rfl, fun _ _ => ?_⟩)
  refine comes_bind ((free_idle hevents _).mono fun t r w₁ ht => ⟨ht, fun events _ => ?_⟩)
  refine comes_bind (after_update ⟨rfl, fun _ _ => ?_⟩)
  dsimp only
  cases checkFlowState flow state with
  | error message => exact hfailure _ _
  | ok checked =>
    obtain ⟨stepIndex, stepState⟩ := checked
    dsimp only
    refine comes_bind (after_exchange ⟨rfl, fun parts hparts => ?_⟩)
    cases parts with
    | error e =>
      dsimp only
      split_ifs
      · exact hfailure _ _
      · exact after_raise (.inl rfl)
    | ok restored =>
      dsimp only
      have hrestored : ∃ ref, restoreFlow flow state w₁.nextRef = .ok (restored, ref) := by
        cases hflow : restoreFlow flow state w₁.nextRef with
        | error e =>
          rw [hflow] at hparts
          cases hparts
        | ok parts =>
          obtain ⟨restored', ref⟩ := parts
          rw [hflow] at hparts
          cases hparts
          exact ⟨ref, rfl⟩
      obtain ⟨ref, hrestored⟩ := hrestored
      have hsteps : ∀ run, RunsSteps desk flow (max 1 (maxWidth flow.steps))
          (resumeRestored desk runners flow run stepIndex stepState state.stepPos restored decision >>=
            finish desk flow) :=
        fun run => @RunsSteps.resume desk flow state w₁.nextRef (restored, ref) run stepIndex stepState
          state.stepPos decision hrestored
      refine comes_bind (after_exchange ⟨rfl, fun totals htotals => ?_⟩)
      obtain rfl := Except.ok.inj htotals
      refine comes_bind (after_update ⟨rfl, fun _ _ => ?_⟩)
      refine comes_bind (after_update ⟨rfl, fun _ _ => ?_⟩)
      refine comes_bind ((after_eventFree (k := k) _ _ _ _ _ _).mono ?_)
      rintro t r w₃ ⟨hfree, hflows, htotals⟩
      refine ⟨hfree, fun _ _ => ?_⟩
      refine comes_bind (after_update ⟨rfl, fun _ _ => ?_⟩)
      refine comes_bind (after_exchange ⟨rfl, fun context _ => comes_here ?_⟩)
      refine ⟨⟨_, hsteps _⟩, ?_⟩
      simp [hflows, htotals]

end Blackgeorge.Workflow
