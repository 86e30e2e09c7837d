import Blackgeorge.Workflow.Effects

/-! The calls of a flow: what a run and a resume leave in the run store. -/

namespace Blackgeorge.Workflow

open Data Program Coroutine Coro WorkerRunner WorkforceRun Desk

variable {flow : Flow} {runId : RunId} {event : Event sig → Prop} {a : String} {w w₁ w' : World}
  {t : Trace sig} {r : Except Exn Report} {desk : DeskSettings}

/-! ### What a call leaves -/

/-- What a call on a run leaves in the store. -/
structure Leaves (runId : RunId) (event : Event sig → Prop) (a : String) (w : World) (t : Trace sig)
    (r : Except Exn Report) (w' : World) : Prop where
  others : ∀ r', r' ≠ runId → w'.records r' = w.records r'
  effect : Effect runId event a (w.records runId) (w'.records runId) t r

/-- A call that raises and leaves the records. -/
theorem Leaves.of_error {e : Exn} (hrecords : w'.records = w.records) (hev : ∀ e, Undecided e → event e)
    (hevents : ∀ e ∈ t, Undecided e) : Leaves runId event a w t (.error e) w' :=
  ⟨fun _ _ => by rw [hrecords], .of_error hev hevents (by rw [hrecords])⟩

/-- A call that refuses to do anything. -/
theorem Leaves.of_refused {report : Report} (hrecords : w'.records = w.records)
    (hev : ∀ e, Undecided e → event e) (hevents : ∀ e ∈ t, Undecided e) (hstatus : report.status = .failed)
    (hflow : NoFlow (w.records runId)) : Leaves runId event a w t (.ok report) w' :=
  ⟨fun _ _ => by rw [hrecords], .of_refused hev hevents (by rw [hrecords]) hstatus hflow⟩

/-- Nothing is decided in front of a call. -/
theorem Leaves.behind {t' : Trace sig} (h : Leaves runId event a w t' r w')
    (hev : ∀ e, Undecided e → event e) (hevents : ∀ e ∈ t, Undecided e) :
    Leaves runId event a w (t ++ t') r w' :=
  ⟨h.others, h.effect.behind hev hevents⟩

theorem Leaves.of_records (h : Leaves runId event a w₁ t r w') (hrecords : w₁.records = w.records) :
    Leaves runId event a w t r w' :=
  ⟨fun r' hr' => by rw [h.others r' hr', hrecords], hrecords ▸ h.effect⟩

/-- The rest of a flow's run, from where the run has a record. -/
theorem Files.ends {m : ℕ} (h : Files flow runId event a some m (fun _ => 0) (fun _ => True) w t r w') :
    Ends runId event a m (w.records runId) (w'.records runId) t r where
  events := h.events
  pays := by
    have hpays := h.pays
    cases r <;> simpa [left] using hpays
  filed report hr := h.filed report report hr rfl
  raised e he := by
    subst he
    exact .kept (h.kept fun _ h => by cases h)

/-- What a call on a new run leaves in the store. -/
def RunLeaves (a : String) (w : World) (t : Trace sig) (r : Except Exn Report) (w' : World) : Prop :=
  ∃ runId, (∀ r', r' ≠ runId → w'.records r' = w.records r') ∧
    Creates runId a (w.records runId) (w'.records runId) t r

theorem RunLeaves.of_records (h : RunLeaves a w₁ t r w') (hrecords : w₁.records = w.records) :
    RunLeaves a w t r w' := by
  rwa [RunLeaves, hrecords] at h

theorem RunLeaves.behind {t' : Trace sig} (h : RunLeaves a w t' r w') (hevents : ∀ e ∈ t, Undecided e) :
    RunLeaves a w (t ++ t') r w' := by
  obtain ⟨runId, hothers, hcreates⟩ := h
  exact ⟨runId, hothers, hcreates.behind hevents⟩

theorem RunLeaves.of_error {e : Exn} (hrecords : w'.records = w.records) (hevents : ∀ e ∈ t, Undecided e) :
    RunLeaves a w t (.error e) w' :=
  ⟨"", fun _ _ => by rw [hrecords], .of_error hevents (by rw [hrecords])⟩

/-! ### A run -/

/-- A run has begun once its record is there, under the run id the flow has. -/
structure Begun (flow : Flow) (runId : RunId) (w w' : World) : Prop where
  unknown : w.records runId = none
  records : w'.records = Function.update w.records runId (some begunRecord)
  runId_eq : (w'.flows flow.id).runId = runId

theorem Begun.quiet (h : Begun flow runId w w₁) (hrecords : w'.records = w₁.records)
    (hflows : w'.flows = w₁.flows) : Begun flow runId w w' where
  unknown := h.unknown
  records := hrecords.trans h.records
  runId_eq := by rw [hflows]; exact h.runId_eq

theorem Begun.others (h : Begun flow runId w w') (r' : RunId) (hr' : r' ≠ runId) :
    w'.records r' = w.records r' := by
  simp [h.records, hr']

/-- What the first part of a run leaves, whether it gets to its end or not. -/
def Begins {α : Type} (flow : Flow) (w : World) (t : Trace sig) (r : Except Exn α) (w' : World) : Prop :=
  (∀ e ∈ t, Undecided e) ∧ ∃ runId, Begun flow runId w w' ∧ creation runId ∈ t ∨
    w'.records = w.records ∧ ∃ e, r = .error e

/-- Neither records nor flow objects change. -/
def Silent {α : Type} (c : Prog α) (w : World) : Prop :=
  After (S := sig) (fun _ _ => True) c w fun t _ w' =>
    (∀ e ∈ t, Undecided e) ∧ w'.records = w.records ∧ w'.flows = w.flows

theorem silent_quiet {α : Type} {c : Prog α} {Φ : α → Prop} (h : Each (quietLaw Undecided) c Φ) : Silent c w := by
  refine (after_pays (pays_free (fun _ h => h) "" h)).mono ?_
  rintro t r w' ⟨hquiet, -, hevents, -⟩
  exact ⟨hevents, hquiet.records, hquiet.flows⟩

theorem silent_update {f : World → World} (hrecords : (f w).records = w.records) (hflows : (f w).flows = w.flows) :
    Silent (Prog.modify f) w :=
  after_update ⟨by simp, hrecords, hflows⟩

theorem silent_exchange {α : Type} {g : World → α} {f : World → World} (hrecords : (f w).records = w.records)
    (hflows : (f w).flows = w.flows) : Silent (exchange (S := sig) g f) w :=
  after_exchange ⟨by simp, hrecords, hflows⟩

/-- The record is there, and nothing has been decided. -/
def StaysBegun {α : Type} (flow : Flow) (runId : RunId) (w : World) (t : Trace sig) (_ : Except Exn α)
    (w' : World) : Prop :=
  (∀ e ∈ t, Undecided e) ∧ Begun flow runId w w'

/-- A silent part behind the creation of the record. -/
theorem after_begun {α β : Type} {c : Prog α} {g : α → Prog β} {w₀ : World}
    (hbegun : Begun flow runId w₀ w) (hc : Silent c w)
    (hg : ∀ x w₁, Begun flow runId w₀ w₁ →
      After (S := sig) (fun _ _ => True) (g x) w₁ (StaysBegun flow runId w₀)) :
    After (S := sig) (fun _ _ => True) (c >>= g) w (StaysBegun flow runId w₀) := by
  apply after_bind
  refine hc.mono ?_
  rintro t (e | x) w₁ ⟨hevents, hrecords, hflows⟩
  · exact ⟨hevents, hbegun.quiet hrecords hflows⟩
  · refine (hg x w₁ (hbegun.quiet hrecords hflows)).mono ?_
    rintro t' r w' ⟨hevents', hends⟩
    refine ⟨fun e he => ?_, hends⟩
    exact (List.mem_append.mp he).elim (hevents e) (hevents' e)

theorem after_beginRun (desk : DeskSettings) (flow : Flow) (job : Job) (w : World) :
    After (S := sig) (fun _ _ => True) (beginRun desk flow job) w (Begins flow w) := by
  unfold beginRun
  apply after_bind
  refine (after_deskOpen w).mono ?_
  rintro _ (e | _) w ⟨rfl, rfl⟩
  · exact ⟨by simp, "", .inr ⟨rfl, e, rfl⟩⟩
  apply after_bind
  refine after_query fun runId _ => ?_
  apply after_bind
  apply after_exchange
  apply after_bind
  apply after_exchange
  apply after_bind
  apply after_update
  apply after_bind
  refine (after_createRun desk runId job _).mono ?_
  rintro t (e | _) w₁ ⟨hevents, hraised, hok⟩
  · obtain rfl := hraised e rfl
    refine ⟨?_, runId, .inr ⟨rfl, e, rfl⟩⟩
    simpa using ⟨trivial, hevents⟩
  · obtain ⟨hcreation, hunknown, hwrites⟩ := hok rfl
    have hbegun : Begun flow runId w w₁ := by
      refine ⟨hunknown, hwrites.records, ?_⟩
      rw [hwrites.flows]
      simp
    refine After.mono (after_begun hbegun (silent_update rfl rfl) fun _ w₂ h₂ => ?_) ?_
    · refine after_begun h₂ (silent_quiet (quiet_emit _ _ _ _ _)) fun _ w₃ h₃ => ?_
      refine after_begun h₃ (silent_exchange rfl rfl) fun _ w₄ h₄ => ?_
      exact after_pure ⟨by simp, h₄⟩
    · rintro t' r w' ⟨hevents', hends⟩
      refine ⟨?_, runId, .inl ⟨hends, by simp [hcreation]⟩⟩
      simp only [List.nil_append, List.cons_append, List.forall_mem_cons, List.mem_append]
      exact ⟨trivial, fun e he => he.elim (hevents e) (hevents' e)⟩

variable {api : RunnerApi}

/-- A run leaves the record of a new run, or none. -/
theorem after_run (hapi : Honest a api) (job : Job) (w : World) :
    After (S := sig) (fun _ _ => True) (run desk api flow job) w (RunLeaves a w) := by
  have hev : ∀ e, Undecided e → Undecided e := fun _ h => h
  rw [run, collectRun, LawfulMonad.bind_assoc]
  apply after_bind
  refine (after_beginRun desk flow job w).mono ?_
  rintro t (e | flowRun) w₁ ⟨hevents, runId, ⟨hbegun, hcreation⟩ | ⟨hrecords, e', he⟩⟩
  · have hends : Ends runId Undecided a 0 (some begunRecord) (w₁.records runId) [] (.error e) :=
      .of_error hev (by simp) (by simp [hbegun.records])
    have hcreates := Creates.of_ends hends hevents hcreation
    rw [List.append_nil] at hcreates
    exact ⟨runId, hbegun.others, hbegun.unknown ▸ hcreates⟩
  · exact .of_error hrecords hevents
  · have hrecord : w₁.records runId = some begunRecord := by simp [hbegun.records]
    refine (files_finishing hev hbegun.runId_eq (by simp [hrecord])
      (files_runSteps hev hapi flowRun flow.steps 0 [] w₁ hbegun.runId_eq (by simp [hrecord])
        (by simp))).mono fun t' r w' h => ?_
    refine ⟨runId, fun r' hr' => (h.others r' hr').trans (hbegun.others r' hr'), ?_⟩
    rw [hbegun.unknown]
    exact .of_ends (hrecord ▸ h.ends) hevents hcreation
  · cases he

/-! ### A resume -/

section

variable {α β : Type} {ends : α → Option Report}

/-- A silent part that keeps the flow's run id. -/
theorem files_update (hev : ∀ e, Undecided e → event e) {c : Prog α} {Φ : α → Prop}
    (h : After (S := sig) (fun _ _ => True) c w fun t r w' => (∀ e ∈ t, Undecided e) ∧
      w'.records = w.records ∧ (w'.flows flow.id).runId = (w.flows flow.id).runId ∧ ∀ x, r = .ok x → Φ x) :
    After (S := sig) (fun _ _ => True) c w (Files flow runId event a goesOn 0 (fun _ => 0) Φ w) := by
  refine h.mono ?_
  rintro t r w' ⟨hevents, hrecords, hrunId, hok⟩
  have hspent := (approvals a).spent_eq_zero fun e he => approvals_cost (hevents e he)
  refine ⟨hrunId, fun _ _ => by rw [hrecords], fun e he => hev e (hevents e he), fun _ => by rw [hrecords],
    fun _ _ _ h => (nomatch h), ?_, hok⟩
  rw [hspent]
  cases r <;> simp [left]

theorem files_modifyFields (hev : ∀ e, Undecided e → event e) (f : FlowFields → FlowFields)
    (hf : ∀ fields, (f fields).runId = fields.runId) :
    After (S := sig) (fun _ _ => True) (modifyFields flow f) w
      (Files flow runId event a goesOn 0 (fun _ => 0) (fun _ => True) w) :=
  files_update hev (after_update ⟨by simp, rfl, by simp [hf], fun _ _ => trivial⟩)

theorem quiet_getEvents (runId : RunId) : Each (quietLaw Undecided) (getEvents runId) fun _ => True := by
  apply each_bind (quiet_store _)
  intro _ _
  refine each_bind (P := fun _ => True) (each_look Quiet.refl fun _ => trivial) fun events _ => ?_
  exact each_exchange (fun _ => ⟨rfl, rfl, rfl, rfl, rfl, rfl⟩) fun _ => trivial

end

/-- What a flow's state restores to. -/
structure RestoredOk (a : String) (state : FlowState) (restored : Restored) : Prop where
  credits : continuationsCredits a restored.continuations = allStoredCredits a (state.continuations.getD [])
  continuations : ContinuationsOk restored.continuations
  fine : ∀ held ∈ restored.allReports, Fine held.report

theorem restoreFlow_ok {state : FlowState} {ref : Ref} {restored : Restored × Ref}
    (hrun : RunOk runId (.flow state)) (h : restoreFlow flow state ref = .ok restored) :
    RestoredOk a state restored.1 := by
  obtain ⟨continuations, hcontinuations, h⟩ := ok_of_bind h
  obtain rfl := Except.ok.inj h
  obtain ⟨hcredits, hok⟩ := restoreAll_waits (a := a) flow.steps _ hcontinuations
  obtain ⟨-, hstored, hfine⟩ := hrun
  refine ⟨hcredits, hok hstored, fun held hheld => ?_⟩
  obtain ⟨o, ho, rfl⟩ := List.mem_map.mp hheld
  exact hfine o.1 (List.mem_of_getElem? (List.mem_zipIdx_iff_getElem?.mp ho))

theorem checkFlowState_ok {state : FlowState} {checked : ℕ × StepState} (h : checkFlowState flow state = .ok checked) :
    state.stepState = some checked.2 := by
  unfold checkFlowState at h
  split at h
  · cases h
  · cases h
  · next stepIndex stepState _ hstep =>
    split at h
    · cases h
    · split_ifs at h
      obtain rfl := Except.ok.inj h
      exact hstep

section

variable (hapi : Honest a api)

include hapi

theorem pays_resumeRunner (state : StepState) (decision : Value) (stream : Bool) (pos : Pos) :
    Pays (quietLaw (OnlyAction (stepAction state) decision)) (approvals a) (stepCredits a state)
      (resumeRunner desk api flow state decision stream pos) (heldCredits a) HeldOk := by
  have hev : ∀ e, Undecided e → OnlyAction (stepAction state) decision e := fun _ h => OnlyAction.of_undecided h
  apply pays_bind_free (pays_free hev a (quiet_flowRunConfig flow _))
  intro config _
  apply pays_bind_free (pays_free (Φ := fun _ => True) hev a (each_look Quiet.refl fun _ => trivial))
  intro runner _
  cases runner with
  | none =>
    dsimp only
    apply pays_bind_free (pays_free hev a quiet_newRef)
    intro ref _
    exact pays_pure (Nat.zero_le _) fun s h => nomatch h
  | some runner =>
    dsimp only
    apply pays_bind (hapi.aresume runner config state decision pos)
    intro o ho
    exact pays_events hev (pays_holdReport (some runner) pos o ho)

/-- A resume behind its checks keeps to the action of the paused step. -/
theorem files_resumeRestored {stepState : StepState} {decision : Value}
    (hev : ∀ e, OnlyAction (stepAction stepState) decision e → event e) (flowRun : FlowRun) (stepIndex : ℕ)
    (stepPos : Pos) {restored : Restored}
    (hown : (w.flows flow.id).runId = runId) (hcreated : (w.records runId).isSome = true)
    (hcontinuations : ContinuationsOk restored.continuations)
    (hfine : ∀ held ∈ restored.allReports, Fine held.report) :
    After (S := sig) (fun _ _ => True)
      (resumeRestored desk api flow flowRun stepIndex stepState stepPos restored decision) w
      (Files flow runId event a Progress.report?
        (stepCredits a stepState + continuationsCredits a restored.continuations) (leaves 0)
        Progress.Fine w) := by
  have hevents : ∀ e, Undecided e → event e := fun e h => hev e (OnlyAction.of_undecided h)
  have haction : stepAction (stepState.setStream flowRun.stream) = stepAction stepState := stepAction_setStream _ _
  have hcredits : stepCredits a (stepState.setStream flowRun.stream) = stepCredits a stepState := by
    rw [stepCredits, stepCredits, haction]
  have hresume : Pays (quietLaw (OnlyAction (stepAction stepState) decision)) (approvals a) (stepCredits a stepState)
      (resumeRunner desk api flow (stepState.setStream flowRun.stream) decision flowRun.stream stepPos)
      (heldCredits a) HeldOk := by
    rw [← hcredits, ← haction]
    exact pays_resumeRunner hapi _ decision _ stepPos
  unfold resumeRestored
  refine files_bind (files_pays ((pays_events hev hresume).frame (continuationsCredits a restored.continuations)))
    fun held w₁ hheld hfield hkept => ?_
  obtain ⟨held, updated⟩ := held
  have hown₁ := hfield.trans hown
  have hcreated₁ : (w₁.records runId).isSome = true := hkept ▸ hcreated
  refine files_go (n := continuationsCredits a restored.continuations)
    ((files_executeStepResults (a := a) hevents flowRun stepIndex hcontinuations [.result held updated []]
      restored.allReports w₁ hown₁ hcreated₁ ⟨⟨hheld, trivial⟩, trivial⟩ hfine).mono fun t r w' h =>
        h.mono ?_ fun _ h => ⟨le_rfl, h⟩) (fun _ => rfl) fun allReports w₂ hfine' hfield' hkept' => ?_
  · simp [outputsCredits, resultCredits, continuationsCredits, heldCredits]
  · have hown₂ := hfield'.trans hown₁
    have hcreated₂ : (w₂.records runId).isSome = true := hkept' ▸ hcreated₁
    refine files_go (files_runContinuations hevents hapi flowRun stepIndex restored.continuations allReports w₂
      hown₂ hcreated₂ hcontinuations hfine') (fun _ => rfl) fun allReports' w₃ hfine₃ hfield₃ hkept₃ => ?_
    exact files_runSteps hevents hapi flowRun _ (stepIndex + 1) allReports' w₃ (hfield₃.trans hown₂)
      (hkept₃ ▸ hcreated₂) hfine₃

omit hapi in
theorem files_resumeFailure (hev : ∀ e, Undecided e → event e) (state : FlowState) (error : String) (m : ℕ)
    (hown : (w.flows flow.id).runId = runId) (hcreated : (w.records runId).isSome = true) :
    After (S := sig) (fun _ _ => True) (resumeFailure desk flow state error) w
      (Files flow runId event a some m (fun _ => 0) (fun _ => True) w) :=
  files_map (files_emitRunFailed hev hown hcreated rfl m) fun _ _ => ⟨rfl, fun h => absurd h (Option.some_ne_none _), trivial⟩

omit hapi in
theorem files_restoreParts (hev : ∀ e, Undecided e → event e) {state : FlowState} (hrun : RunOk runId (.flow state)) :
    After (S := sig) (fun _ _ => True) (restoreParts flow state) w
      (Files flow runId event a goesOn 0 (fun _ => 0)
        (fun parts => ∀ restored, parts = .ok restored → RestoredOk a state restored) w) := by
  refine files_update hev (after_exchange ?_)
  have hrecords : ∀ r : Except Exn (Restored × Ref), r = restoreFlow flow state w.nextRef →
      ∀ restored, r.map Prod.fst = .ok restored → RestoredOk a state restored := by
    rintro (e | restored) hr _ ⟨⟩
    exact restoreFlow_ok hrun hr.symm
  cases hparts : restoreFlow flow state w.nextRef with
  | error e => exact ⟨by simp, rfl, rfl, fun x hx => Except.ok.inj hx ▸ fun _ h => nomatch h⟩
  | ok parts =>
    refine ⟨by simp, rfl, rfl, fun x hx => Except.ok.inj hx ▸ hrecords _ hparts.symm⟩

/-- A resume keeps to the action of the stored state, and leaves its run settled. -/
theorem after_resume {state : FlowState} (decision : Value) (stream : Option Bool) (hrun : RunOk runId (.flow state))
    (hstored : (w.records runId).bind RunRecord.state = some (.flow state)) :
    After (S := sig) (fun _ _ => True) (resume desk api flow state decision stream) w
      (Leaves runId (OnlyAction (runAction (.flow state)) decision) a w) := by
  have hev : ∀ e, Undecided e → OnlyAction (runAction (.flow state)) decision e := fun _ h => OnlyAction.of_undecided h
  have hcreated := created_of_stored hstored
  have hcredits := recordCredits_of_stored (a := a) hstored
  rw [resume, collectResume, LawfulMonad.bind_assoc]
  apply after_bind
  apply after_update
  refine After.mono (files_finishing (a := a) (m := runCredits a (.flow state)) hev ?_ hcreated ?_) ?_
  · simpa using hrun.1
  swap
  · exact fun t r w' h => Leaves.of_records ⟨h.others, h.ends.effect hcredits.ge⟩ rfl
  refine files_bind_free (files_each hev (quiet_getEvents _)) fun events w₁ _ hfield hkept => ?_
  refine files_bind_free (files_modifyFields hev _ fun _ => rfl) fun _ w₂ _ hfield' hkept' => ?_
  have hown₂ : (w₂.flows flow.id).runId = runId := by
    rw [hfield', hfield]
    simpa using hrun.1
  have hcreated₂ : (w₂.records runId).isSome = true := by rw [hkept', hkept]; exact hcreated
  have hfailure : ∀ (w : World) (error : String), (w.flows flow.id).runId = runId → (w.records runId).isSome = true →
      After (S := sig) (fun _ _ => True) (do pure (Progress.ended (← resumeFailure desk flow state error))) w
        (Files flow runId (OnlyAction (runAction (.flow state)) decision) a Progress.report? (runCredits a (.flow state))
          (leaves 0) Progress.Fine w) := fun w error hown hcreated =>
    files_map (files_resumeFailure hev state error _ hown hcreated) fun _ _ => ⟨rfl, fun h => absurd h (Option.some_ne_none _), trivial⟩
  cases hchecked : checkFlowState flow state with
  | error message => exact hfailure w₂ message hown₂ hcreated₂
  | ok checked =>
    obtain ⟨stepIndex, stepState⟩ := checked
    have hstep : state.stepState = some stepState := checkFlowState_ok hchecked
    dsimp only
    refine files_bind_free (files_restoreParts hev hrun) fun parts w₃ hparts hfield₃ hkept₃ => ?_
    have hown₃ := hfield₃.trans hown₂
    have hcreated₃ : (w₃.records runId).isSome = true := hkept₃ ▸ hcreated₂
    cases parts with
    | error e =>
      dsimp only
      split_ifs
      · exact hfailure w₃ _ hown₃ hcreated₃
      · exact files_raise e
    | ok restored =>
      obtain ⟨hcontinuationsCredits, hcontinuations, hfine⟩ := hparts restored rfl
      dsimp only
      refine files_bind_free (Φ := fun _ => True) (files_update hev (after_exchange ⟨by simp, rfl, rfl, fun _ _ => trivial⟩))
        fun totals w₄ _ hfield₄ hkept₄ => ?_
      refine files_bind_free (files_modifyFields hev _ fun _ => rfl) fun _ w₅ _ hfield₅ hkept₅ => ?_
      refine files_bind_free (Φ := fun _ => True) (files_update hev (after_update ⟨by simp, rfl, rfl, fun _ _ => trivial⟩))
        fun _ w₆ _ hfield₆ hkept₆ => ?_
      refine files_bind_free (files_each hev (quiet_emit _ _ _ _ _)) fun _ w₇ _ hfield₇ hkept₇ => ?_
      refine files_bind_free (files_modifyFields hev _ fun _ => rfl) fun _ w₈ _ hfield₈ hkept₈ => ?_
      refine files_bind_free (Φ := fun _ => True) (files_update hev (after_exchange ⟨by simp, rfl, rfl, fun _ _ => trivial⟩))
        fun context w₉ _ hfield₉ hkept₉ => ?_
      have hown₉ : (w₉.flows flow.id).runId = runId := by
        rw [hfield₉, hfield₈, hfield₇, hfield₆, hfield₅, hfield₄, hown₃]
      have hcreated₉ : (w₉.records runId).isSome = true := by
        rw [hkept₉, hkept₈, hkept₇, hkept₆, hkept₅, hkept₄]
        exact hcreated₃
      have haction : runAction (.flow state) = stepAction stepState := by simp [runAction, hstep]
      have hsum : stepCredits a stepState + continuationsCredits a restored.continuations =
          runCredits a (.flow state) := by
        simp [runCredits, hstep, hcontinuationsCredits]
      rw [haction, ← hsum]
      exact files_resumeRestored hapi (fun _ h => h) _ stepIndex state.stepPos hown₉ hcreated₉
        hcontinuations hfine

theorem after_aresume (report : Report) (decision : Value) (stream : Option Bool)
    (hsound : StoredSound report.runId (w.records report.runId)) :
    After (S := sig) (fun _ _ => True) (aresume desk api flow report decision stream) w
      (Leaves report.runId (OnlyAction (recordAction (w.records report.runId)) decision) a w) := by
  have hev : ∀ e, Undecided e → OnlyAction (recordAction (w.records report.runId)) decision e :=
    fun _ h => OnlyAction.of_undecided h
  rw [aresume, collectAresume, LawfulMonad.bind_assoc]
  apply after_bind
  refine (after_deskOpen w).mono ?_
  rintro _ (e | _) w ⟨rfl, rfl⟩
  · exact .of_error rfl hev (by simp)
  show After (S := sig) _ (_ >>= finish desk flow) w _
  rw [LawfulMonad.bind_assoc]
  apply after_bind
  refine (after_getRun report.runId w).mono ?_
  rintro t (e | record) w ⟨hevents, rfl, hrecord⟩
  · exact .of_error rfl hev (by simpa using hevents)
  obtain rfl := hrecord record rfl
  have hrefused : ∀ message, NoFlow (w.records report.runId) →
      After (S := sig) (fun _ _ => True) (finish desk flow (.ended (failedFrom report.runId report message))) w
        fun t' r w' => Leaves report.runId (OnlyAction (recordAction (w.records report.runId)) decision) a w ([] ++ (t ++ t')) r w' :=
    fun message hflow => after_pure (.of_refused rfl hev (by simpa using hevents) rfl hflow)
  show After (S := sig) _ (_ >>= finish desk flow) w _
  dsimp only
  cases hstate : (w.records report.runId).bind RunRecord.state with
  | none => exact hrefused _ fun state h => by simp [hstate] at h
  | some state =>
    cases state with
    | worker state => exact hrefused _ fun state h => by simp [hstate] at h
    | workforce state => exact hrefused _ fun state h => by simp [hstate] at h
    | flow state =>
      have haction := recordAction_of_stored hstate
      refine After.mono (after_resume (a := a) hapi decision stream (hsound _ hstate) hstate) ?_
      intro t' r w' h
      rw [haction]
      exact h.behind (fun _ h => OnlyAction.of_undecided h) (by simpa using hevents)

end

end Blackgeorge.Workflow
