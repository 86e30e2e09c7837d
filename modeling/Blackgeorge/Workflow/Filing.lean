import Blackgeorge.Desk.Records

/-! What a flow's run files while it has the flow object to itself: only the record of its own
run, and that only where it ends or pauses. A paused run's record holds what is left of the
credits that its actions have earned. -/

namespace Blackgeorge.Workflow

open Data Program Coroutine Coro WorkerRunner WorkforceRun Desk

/-! ### Records of ended runs -/

/-- The status that a flow records for a report. -/
def filedStatus : RunStatus → RunStatus
  | .paused => .paused
  | .failed => .failed
  | _ => .completed

/-- The record of a run that has ended in a report or paused with it. -/
structure Filed (runId : RunId) (report : Report) (record : RunRecord) : Prop where
  completed : report.status = .completed → record.status = .completed
  failed : report.status = .failed → record.status = .failed
  ended : record.status ≠ .running
  paused : record.state.isSome = true ↔ record.status = .paused
  waits : ∀ state, record.state = some state → Waits runId report state

/-- What a part of a flow's run leaves: `ends` says of a result with which report the run ended. -/
structure Files {α : Type} (flow : Flow) (runId : RunId) (event : Event sig → Prop) (a : String)
    (ends : α → Option Report) (m : ℕ) (P : α → ℕ) (Φ : α → Prop) (w : World) (t : Trace sig)
    (r : Except Exn α) (w' : World) : Prop where
  runId_eq : (w'.flows flow.id).runId = (w.flows flow.id).runId
  others : ∀ r', r' ≠ runId → w'.records r' = w.records r'
  events : ∀ e ∈ t, event e
  kept : (∀ x, r = .ok x → ends x = none) → w'.records runId = w.records runId
  filed : ∀ x report, r = .ok x → ends x = some report →
    ∃ record, w'.records runId = some record ∧ Filed runId report record
  pays : (approvals a).spent t +
    left (S := sig) (fun x => if (ends x).isSome then recordCredits a (w'.records runId) else P x) r ≤
      m + (approvals a).earned t
  ok : ∀ x, r = .ok x → Φ x

/-- A part that goes on in any case. -/
abbrev goesOn {α : Type} : α → Option Report := fun _ => none

variable {α β : Type} {flow : Flow} {runId : RunId} {event : Event sig → Prop} {a : String}
  {w w₁ : World}

theorem files_pays {m : ℕ} {c : Prog α} {P : α → ℕ} {Φ : α → Prop}
    (h : Pays (quietLaw event) (approvals a) m c P Φ) :
    After (S := sig) (fun _ _ => True) c w (Files flow runId event a goesOn m P Φ w) := by
  refine (after_pays h).mono ?_
  rintro t r w' ⟨hquiet, hpays, hevents, hok⟩
  refine ⟨by rw [hquiet.flows], fun _ _ => by rw [hquiet.records], hevents,
    fun _ => by rw [hquiet.records], fun _ _ _ h => (nomatch h), ?_, hok⟩
  cases r <;> exact hpays

theorem files_each (hev : ∀ e, Undecided e → event e) {c : Prog α} {Φ : α → Prop}
    (h : Each (quietLaw Undecided) c Φ) :
    After (S := sig) (fun _ _ => True) c w
      (Files flow runId event a goesOn 0 (fun _ => 0) Φ w) :=
  files_pays (pays_free hev a h)

theorem files_raise {ends : α → Option Report} {m : ℕ} {P : α → ℕ} {Φ : α → Prop} (e : Exn) :
    After (S := sig) (fun _ _ => True) (Prog.raise e : Prog α) w
      (Files flow runId event a ends m P Φ w) :=
  after_raise ⟨rfl, fun _ _ => rfl, by simp, fun _ => rfl, fun _ _ h => (nomatch h), by simp [left],
    fun _ h => nomatch h⟩

theorem files_pure {ends : α → Option Report} {m : ℕ} {P : α → ℕ} {Φ : α → Prop} {x : α}
    (hends : ends x = none) (hm : P x ≤ m) (hΦ : Φ x) :
    After (S := sig) (fun _ _ => True) (pure x) w (Files flow runId event a ends m P Φ w) := by
  refine after_pure ⟨rfl, fun _ _ => rfl, by simp, fun _ => rfl, ?_, ?_, ?_⟩
  · rintro _ report ⟨⟩ h
    exact nomatch hends.symm.trans h
  · simpa [left, hends] using hm
  · rintro _ ⟨⟩
    exact hΦ

theorem Files.mono {ends : α → Option Report} {m n : ℕ} {P P' : α → ℕ} {Φ Φ' : α → Prop} {t : Trace sig}
    {r : Except Exn α} {w' : World} (h : Files flow runId event a ends m P Φ w t r w') (hm : m ≤ n)
    (hP : ∀ x, Φ x → P' x ≤ P x ∧ Φ' x) : Files flow runId event a ends n P' Φ' w t r w' := by
  refine ⟨h.runId_eq, h.others, h.events, h.kept, h.filed, ?_, fun x hx => (hP x (h.ok x hx)).2⟩
  have hpays := h.pays
  cases r with
  | error e =>
    simp only [left] at hpays ⊢
    omega
  | ok x =>
    have hle := (hP x (h.ok x rfl)).1
    simp only [left] at hpays ⊢
    split_ifs at hpays ⊢ <;> omega

/-- Credits that a part is not given are left alone. -/
theorem Files.frame {m : ℕ} {P : α → ℕ} {Φ : α → Prop} {t : Trace sig} {r : Except Exn α} {w' : World}
    (h : Files flow runId event a goesOn m P Φ w t r w') (k : ℕ) :
    Files flow runId event a goesOn (m + k) (fun x => P x + k) Φ w t r w' := by
  refine ⟨h.runId_eq, h.others, h.events, h.kept, h.filed, ?_, h.ok⟩
  have hpays := h.pays
  cases r <;> simp only [left, Option.isSome_none, Bool.false_eq_true, if_false] at hpays ⊢ <;> omega

/-- What a part leaves from its own start is left from an earlier one that kept the records. -/
theorem Files.after {ends : β → Option Report} {m n : ℕ} {P : α → ℕ} {P' : β → ℕ} {Φ : α → Prop}
    {Φ' : β → Prop} {t t' : Trace sig} {x : α} {endsFirst : α → Option Report} {r : Except Exn β}
    {w' : World} (h : Files flow runId event a endsFirst m P Φ w t (.ok x) w₁)
    (hx : endsFirst x = none) (hn : n ≤ P x)
    (h' : Files flow runId event a ends n P' Φ' w₁ t' r w') :
    Files flow runId event a ends m P' Φ' w (t ++ t') r w' := by
  have hkept : w₁.records runId = w.records runId := h.kept fun y hy => Except.ok.inj hy ▸ hx
  refine ⟨h'.runId_eq.trans h.runId_eq, fun r' hr' => (h'.others r' hr').trans (h.others r' hr'), ?_,
    fun hnone => (h'.kept hnone).trans hkept, h'.filed, ?_, h'.ok⟩
  · intro e he
    rcases List.mem_append.mp he with he | he
    · exact h.events e he
    · exact h'.events e he
  · have hpays := h.pays
    have hpays' := h'.pays
    simp only [left, hx, Option.isSome_none, Bool.false_eq_true, if_false] at hpays
    rw [Tariff.spent_append, Tariff.earned_append]
    omega

theorem Files.raised {ends : α → Option Report} {ends' : β → Option Report} {m : ℕ} {P : α → ℕ}
    {P' : β → ℕ} {Φ : α → Prop} {Φ' : β → Prop} {t : Trace sig} {e : Exn} {w' : World}
    (h : Files flow runId event a ends m P Φ w t (.error e) w') :
    Files flow runId event a ends' m P' Φ' w t (.error e) w' :=
  ⟨h.runId_eq, h.others, h.events, fun _ => h.kept fun _ h => (nomatch h),
    fun _ _ h => (nomatch h), h.pays, fun _ h => nomatch h⟩

/-- Parts one after the other, where the first one goes on. -/
theorem files_bind {ends : β → Option Report} {m : ℕ} {c : Prog α} {g : α → Prog β} {P : α → ℕ}
    {P' : β → ℕ} {Φ : α → Prop} {Φ' : β → Prop}
    (hc : After (S := sig) (fun _ _ => True) c w (Files flow runId event a goesOn m P Φ w))
    (hg : ∀ x w₁, Φ x → (w₁.flows flow.id).runId = (w.flows flow.id).runId →
      w₁.records runId = w.records runId →
      After (S := sig) (fun _ _ => True) (g x) w₁ (Files flow runId event a ends (P x) P' Φ' w₁)) :
    After (S := sig) (fun _ _ => True) (c >>= g) w (Files flow runId event a ends m P' Φ' w) := by
  apply after_bind
  refine hc.mono ?_
  rintro t (e | x) w₁ h
  · exact h.raised
  · have hkept : w₁.records runId = w.records runId := h.kept fun _ _ => rfl
    refine (hg x w₁ (h.ok x rfl) h.runId_eq hkept).mono fun t' r w' h' => ?_
    exact h.after rfl le_rfl h'

/-- The first part neither gets nor leaves credits. -/
theorem files_bind_free {ends : β → Option Report} {m : ℕ} {c : Prog α} {g : α → Prog β}
    {P' : β → ℕ} {Φ : α → Prop} {Φ' : β → Prop}
    (hc : After (S := sig) (fun _ _ => True) c w
      (Files flow runId event a goesOn 0 (fun _ => 0) Φ w))
    (hg : ∀ x w₁, Φ x → (w₁.flows flow.id).runId = (w.flows flow.id).runId →
      w₁.records runId = w.records runId →
      After (S := sig) (fun _ _ => True) (g x) w₁ (Files flow runId event a ends m P' Φ' w₁)) :
    After (S := sig) (fun _ _ => True) (c >>= g) w (Files flow runId event a ends m P' Φ' w) := by
  refine files_bind (P := fun _ => m) ?_ hg
  refine hc.mono fun t r w' h => ?_
  simpa using h.frame m

/-- A result that follows from another one. -/
theorem files_map {ends : α → Option Report} {ends' : β → Option Report} {m : ℕ} {c : Prog α} {f : α → β}
    {P : α → ℕ} {P' : β → ℕ} {Φ : α → Prop} {Φ' : β → Prop}
    (hc : After (S := sig) (fun _ _ => True) c w (Files flow runId event a ends m P Φ w))
    (hf : ∀ x, Φ x → ends' (f x) = ends x ∧ (ends x = none → P' (f x) ≤ P x) ∧ Φ' (f x)) :
    After (S := sig) (fun _ _ => True) (c >>= fun x => pure (f x)) w
      (Files flow runId event a ends' m P' Φ' w) := by
  apply after_bind
  refine hc.mono ?_
  rintro t (e | x) w₁ h
  · exact h.raised
  · obtain ⟨hends, hP, hΦ⟩ := hf x (h.ok x rfl)
    refine after_pure ⟨h.runId_eq, h.others, by simpa using h.events, fun hnone => h.kept ?_, ?_, ?_, ?_⟩
    · intro y hy
      obtain rfl := Except.ok.inj hy
      exact hends ▸ hnone (f x) rfl
    · rintro y report hy hreport
      obtain rfl := Except.ok.inj hy
      exact h.filed x report rfl (hends ▸ hreport)
    · have hpays := h.pays
      simp only [left, hends, List.append_nil] at hpays ⊢
      by_cases hx : ends x = none
      · have hle := hP hx
        simp only [hx, Option.isSome_none, Bool.false_eq_true, if_false] at hpays ⊢
        omega
      · rw [if_pos (Option.isSome_iff_ne_none.mpr hx)] at hpays ⊢
        exact hpays
    · rintro y hy
      exact Except.ok.inj hy ▸ hΦ

/-! ### The end of a run -/

variable {desk : DeskSettings}

theorem quiet_emit (events : Ref) (runId : RunId) (type source : String) (payload : Dict) :
    Each (quietLaw Undecided) (deskEmit events runId type source payload) fun _ => True :=
  each_deskEmit ((quietLaw_bills fun _ h => h).toPermits) events runId type source payload

/-- A record without a state is filed for a report that is not paused. -/
theorem filed_end {report : Report} {record : RunRecord} (hstatus : record.status = filedStatus report.status)
    (hpaused : report.status ≠ .paused) (hstate : record.state = none) : Filed runId report record where
  completed h := by rw [hstatus, h]; rfl
  failed h := by rw [hstatus, h]; rfl
  ended := by
    rw [hstatus]
    cases report.status <;> exact fun h => nomatch h
  paused := by
    rw [hstate, hstatus]
    cases hreport : report.status with
    | paused => exact absurd hreport hpaused
    | _ => exact ⟨fun h => (nomatch h), fun h => nomatch h⟩
  waits state h := by simp [hstate] at h

/-- A record with a state is filed for the paused report that the state waits for. -/
theorem filed_paused {report : Report} {record : RunRecord} {output : Option String} {outputJson : Value}
    {state : RunState} (hrecord : storedRecord desk .paused output outputJson (some state) = .ok record)
    (hcarries : Carries report (runAction state)) (hrun : RunOk runId state) :
    Filed runId report record ∧ recordCredits a (some record) = runCredits a state := by
  obtain ⟨hstatus, -, hsome⟩ := storedRecord_status hrecord
  obtain ⟨hwaits, hcredits⟩ := storedRecord_waits (a := a) hrecord
  refine ⟨⟨?_, ?_, ?_, ?_, ?_⟩, hcredits⟩
  · exact fun h => nomatch hcarries.1.symm.trans h
  · exact fun h => nomatch hcarries.1.symm.trans h
  · exact fun h => nomatch hstatus.symm.trans h
  · simp [hsome, hstatus]
  · intro s hs
    obtain ⟨s₀, hs₀, haction, -, hown⟩ := hwaits s hs
    obtain rfl := Option.some.inj hs₀
    exact ⟨haction ▸ hcarries, hown _ hrun⟩

theorem files_updateRun (hev : ∀ e, Undecided e → event e) (hcreated : (w.records runId).isSome = true)
    (status : RunStatus) (output : Option String) (outputJson : Value) (state : Option RunState)
    {report : Report} {m : ℕ}
    (hfiled : ∀ record, storedRecord desk status output outputJson state = .ok record →
      Filed runId report record ∧ recordCredits a (some record) ≤ m) :
    After (S := sig) (fun _ _ => True) (updateRun desk runId status output outputJson state) w
      (Files flow runId event a (fun _ => some report) m (fun _ => 0) (fun _ => True) w) := by
  refine (after_updateRun desk hcreated status output outputJson state).mono ?_
  rintro t (e | _) w' ⟨hevents, hraised, hok⟩
  · obtain rfl := hraised e rfl
    have hspent := (approvals a).spent_eq_zero fun e he => approvals_cost (hevents e he)
    refine ⟨rfl, fun _ _ => rfl, fun e he => hev e (hevents e he), fun _ => rfl, fun _ _ h => (nomatch h), ?_,
      fun _ h => nomatch h⟩
    rw [hspent]
    exact Nat.zero_le _
  · obtain ⟨record, hrecord, hwrites⟩ := hok rfl
    obtain ⟨hfiled, hcredits⟩ := hfiled record hrecord
    have hself : w'.records runId = some record := by simp [hwrites.records]
    have hspent := (approvals a).spent_eq_zero fun e he => approvals_cost (hevents e he)
    refine ⟨by rw [hwrites.flows], fun r' hr' => by simp [hwrites.records, hr'],
      fun e he => hev e (hevents e he), fun hnone => (nomatch hnone () rfl), ?_, ?_, fun _ _ => trivial⟩
    · rintro _ _ _ ⟨⟩
      exact ⟨record, hself, hfiled⟩
    · rw [hspent, hself]
      simp only [left, Option.isSome_some, if_true]
      omega

/-- A last change that concerns neither records nor flow objects. -/
theorem files_then_modify {ends : Unit → Option Report} {m : ℕ} {c : Prog Unit} {P : Unit → ℕ}
    {f : World → World} (hrecords : ∀ w, (f w).records = w.records) (hflows : ∀ w, (f w).flows = w.flows)
    (hc : After (S := sig) (fun _ _ => True) c w
      (Files flow runId event a ends m P (fun _ => True) w)) :
    After (S := sig) (fun _ _ => True) (c >>= fun _ => Prog.modify f) w
      (Files flow runId event a ends m P (fun _ => True) w) := by
  apply after_bind
  refine hc.mono ?_
  rintro t (e | _) w₁ h
  · exact h.raised
  · refine after_update ⟨by rw [hflows]; exact h.runId_eq, fun r' hr' => by rw [hrecords]; exact h.others r' hr',
      by simpa using h.events, fun hnone => by rw [hrecords]; exact h.kept hnone, ?_, ?_, fun _ _ => trivial⟩
    · intro x report hx hreport
      rw [hrecords]
      exact h.filed x report hx hreport
    · rw [hrecords, List.append_nil]
      exact h.pays

section

variable (hev : ∀ e, Undecided e → event e) (hown : (w.flows flow.id).runId = runId)
  (hcreated : (w.records runId).isSome = true)

include hev hown hcreated

theorem files_recordEnd {report : Report} (hpaused : report.status ≠ .paused) {status : RunStatus}
    (hstatus : status = filedStatus report.status) (type : String) (output : Option String)
    (outputJson : Value) (m : ℕ) :
    After (S := sig) (fun _ _ => True) (recordEnd desk flow status type output outputJson) w
      (Files flow runId event a (fun _ => some report) m (fun _ => 0) (fun _ => True) w) := by
  unfold recordEnd
  apply after_bind
  refine after_look ?_
  show After (S := sig) _ _ w _
  simp only [List.nil_append, hown]
  refine files_bind_free (files_each hev (quiet_emit _ _ _ _ _)) fun _ w₁ _ _ hkept => ?_
  refine files_then_modify (fun _ => rfl) (fun _ => rfl) ?_
  refine files_updateRun hev (hkept ▸ hcreated) _ _ _ _ fun record hrecord => ?_
  obtain ⟨hrecordStatus, -, hstate⟩ := storedRecord_status hrecord
  have hnone : record.state = none := by simpa using hstate
  refine ⟨filed_end (hrecordStatus.trans hstatus) hpaused hnone, ?_⟩
  simp [recordCredits, hnone]

theorem files_emitRunFailed {report : Report} (hstatus : report.status = .failed) (m : ℕ) :
    After (S := sig) (fun _ _ => True) (emitRunFailed desk flow report) w
      (Files flow runId event a (fun _ => some report) m (fun _ => 0) (fun _ => True) w) :=
  files_recordEnd hev hown hcreated (by simp [hstatus]) (by rw [hstatus]; rfl) _ _ _ m

theorem files_failRun {report : RunId → Report} (hstatus : ∀ id, (report id).status = .failed) (m : ℕ) :
    After (S := sig) (fun _ _ => True) (failRun desk flow report) w
      (Files flow runId event a some m (fun _ => 0) (fun _ => True) w) := by
  unfold failRun
  apply after_bind
  refine after_look ?_
  show After (S := sig) _ _ w _
  simp only [List.nil_append, hown]
  have hstatus' : filedStatus (report runId).status = .failed := by rw [hstatus]; rfl
  exact files_map (files_recordEnd hev hown hcreated (by simp [hstatus])
    hstatus'.symm _ _ _ m) fun _ _ => ⟨rfl, fun h => absurd h (Option.some_ne_none _), trivial⟩

end

/-! ### A pause -/

theorem stepAction_setStream (s : StepState) (stream : Bool) : stepAction (s.setStream stream) = stepAction s := by
  cases s <;> rfl

theorem buildFlowState_waits {totals : UsageTotals} {c : Context} {paused : PausedFlow} {state : FlowState}
    (h : buildFlowState flow runId totals c paused = .ok state) :
    runAction (.flow state) = stepAction paused.stepState ∧
      runCredits a (.flow state) =
        stepCredits a paused.stepState + continuationsCredits a paused.continuations ∧
      (ContinuationsOk paused.continuations → (∀ held ∈ paused.allReports, Fine held.report) →
        RunOk runId (.flow state)) := by
  obtain ⟨outputs, houtputs, h⟩ := ok_of_bind h
  obtain ⟨stepState, hstep, h⟩ := ok_of_bind h
  obtain ⟨snapshot, _, h⟩ := ok_of_bind h
  obtain ⟨stored, hstored, h⟩ := ok_of_bind h
  obtain rfl := Except.ok.inj h
  have haction := stepAction_persisted (WorkforceRun.orSerializationError_ok hstep)
  obtain ⟨hcredits, hok⟩ := serializeAll_waits (a := a) flow.steps paused.continuations hstored
  refine ⟨haction, ?_, fun hcontinuations hfine => ⟨rfl, hok hcontinuations, fun o ho => ?_⟩⟩
  · simp [runCredits, stepCredits, haction, hcredits]
  · have hall := forall₂_of_mapM (WorkforceRun.orSerializationError_ok houtputs)
    obtain ⟨held, hheld, h⟩ := exists_of_mem_right hall ho
    simp only [Option.bind_eq_bind, Option.bind_eq_some_iff] at h
    obtain ⟨report, hreport, h⟩ := h
    obtain rfl := Option.some.inj h
    exact fine_persisted hreport (hfine held hheld)

theorem files_pauseFlow (hev : ∀ e, Undecided e → event e) (hown : (w.flows flow.id).runId = runId)
    (hcreated : (w.records runId).isSome = true) (context : Ref) {report : Report} {paused : PausedFlow}
    (hcarries : Carries report (stepAction paused.stepState))
    (hok : ContinuationsOk paused.continuations) (hfine : ∀ held ∈ paused.allReports, Fine held.report) :
    After (S := sig) (fun _ _ => True) (pauseFlow desk flow context report paused) w
      (Files flow runId event a some
        (stepCredits a paused.stepState + continuationsCredits a paused.continuations) (fun _ => 0)
        (fun _ => True) w) := by
  unfold pauseFlow
  apply after_bind
  refine after_look ?_
  show After (S := sig) _ _ w _
  simp only [List.nil_append, hown]
  refine files_bind_free (Φ := fun _ => True)
    (files_each hev (each_getTotals (serves_undecided []).toPermits _)) fun totals w₁ _ hfield hkept => ?_
  refine files_bind_free (files_each hev (quiet_getContext context)) fun c w₂ _ hfield' hkept' => ?_
  have hown₂ : (w₂.flows flow.id).runId = runId := (hfield'.trans hfield).trans hown
  have hcreated₂ : (w₂.records runId).isSome = true := by rw [hkept', hkept]; exact hcreated
  cases hstate : buildFlowState flow runId totals c
      { paused with stepState := paused.stepState.setStream paused.stream } with
  | error e =>
    dsimp only
    split_ifs
    · refine files_map (files_emitRunFailed hev hown₂ hcreated₂ rfl _) fun _ _ => ⟨rfl, fun h => absurd h (Option.some_ne_none _), trivial⟩
    · exact files_raise e
  | ok state =>
    obtain ⟨haction, hcredits, hrun⟩ := buildFlowState_waits (a := a) hstate
    rw [stepAction_setStream] at haction
    have hstepCredits : stepCredits a (paused.stepState.setStream paused.stream) =
        stepCredits a paused.stepState := by
      rw [stepCredits, stepCredits, stepAction_setStream]
    rw [hstepCredits] at hcredits
    dsimp only
    refine files_bind_free (files_each hev (quiet_emit _ _ _ _ _)) fun _ w₃ _ _ hkept₃ => ?_
    refine files_map (files_updateRun hev (hkept₃ ▸ hcreated₂) _ _ _ _ ?_)
      fun _ _ => ⟨rfl, fun h => absurd h (Option.some_ne_none _), trivial⟩
    intro record hrecord
    obtain ⟨hfiled, hrecordCredits⟩ := filed_paused (a := a) hrecord (haction ▸ hcarries) (hrun hok hfine)
    exact ⟨hfiled, (hrecordCredits.trans hcredits).le⟩

/-! ### Steps and continuations -/

/-- The report that a part of the run has ended with. -/
def Progress.report? : Progress → Option Report
  | .ended report => some report
  | .going _ => none

/-- The flow went on after every report it has collected. -/
def Progress.Fine : Progress → Prop
  | .ended _ => True
  | .going allReports => ∀ held ∈ allReports, Workflow.Fine held.report

theorem fine_of {report : Report} {status : RunStatus} (h : report.status = status)
    (hpaused : status ≠ .paused) (hfailed : status ≠ .failed) : Workflow.Fine report := by
  subst h
  exact ⟨hpaused, hfailed⟩

/-- The credits behind a part that may end the run. -/
abbrev leaves (n : ℕ) : Progress → ℕ := fun _ => n

/-- A part that may end the run, and the rest of it. -/
theorem files_go {m n k : ℕ} {c : Prog Progress} {g : Progress → Prog Progress}
    (hc : After (S := sig) (fun _ _ => True) c w
      (Files flow runId event a Progress.report? m (leaves n) Progress.Fine w))
    (hended : ∀ report, g (.ended report) = pure (.ended report))
    (hg : ∀ allReports w₁, (∀ held ∈ allReports, Fine held.report) →
      (w₁.flows flow.id).runId = (w.flows flow.id).runId → w₁.records runId = w.records runId →
      After (S := sig) (fun _ _ => True) (g (.going allReports)) w₁
        (Files flow runId event a Progress.report? n (leaves k) Progress.Fine w₁)) :
    After (S := sig) (fun _ _ => True) (c >>= g) w
      (Files flow runId event a Progress.report? m (leaves k) Progress.Fine w) := by
  apply after_bind
  refine hc.mono ?_
  rintro t (e | report | allReports) w₁ h
  · exact h.raised
  · show After (S := sig) _ (g (.ended report)) w₁ _
    rw [hended]
    refine after_pure ?_
    rw [List.append_nil]
    refine ⟨h.runId_eq, h.others, h.events, h.kept, h.filed, ?_, fun x hx => Except.ok.inj hx ▸ trivial⟩
    have hpays := h.pays
    simpa [left, Progress.report?] using hpays
  · have hkept : w₁.records runId = w.records runId := by
      refine h.kept fun x hx => ?_
      obtain rfl := Except.ok.inj hx
      rfl
    refine (hg allReports w₁ (h.ok _ rfl) h.runId_eq hkept).mono fun t' r w' h' => ?_
    exact h.after rfl le_rfl h'

section

variable (hev : ∀ e, Undecided e → event e)

include hev

theorem files_executeStepResults (run : FlowRun) (stepIndex : ℕ) {remaining : List Continuation}
    (hremaining : ContinuationsOk remaining) : ∀ (results : List StepOutput) (allReports : List Held)
    (w : World), (w.flows flow.id).runId = runId → (w.records runId).isSome = true → OutputsOk results →
    (∀ held ∈ allReports, Fine held.report) →
    After (S := sig) (fun _ _ => True)
      (executeStepResults desk flow run stepIndex remaining results allReports) w
      (Files flow runId event a Progress.report?
        (outputsCredits a results + continuationsCredits a remaining)
        (leaves (continuationsCredits a remaining)) Progress.Fine w)
  | [], allReports, w, _, _, _, hfine => by
    exact files_pure rfl (by simp [outputsCredits]) hfine
  | output :: tail, allReports, w, hown, hcreated, hok, hfine => by
    obtain ⟨hcarries, hown'⟩ := (resultOk_iff output).mp hok.1
    have hends : ∀ report, Progress.report? (.ended report) = some report := fun _ => rfl
    unfold executeStepResults
    have hgoes : Fine output.report →
        After (S := sig) (fun _ _ => True) (do
          modifyContext run.context (Context.addOutput output.held)
          executeStepResults desk flow run stepIndex remaining tail (allReports ++ [output.held])) w
          (Files flow runId event a Progress.report?
            (outputsCredits a (output :: tail) + continuationsCredits a remaining)
            (leaves (continuationsCredits a remaining)) Progress.Fine w) := by
      intro hheld
      refine files_bind_free (files_each hev (quiet_modifyContext _ _)) fun _ w₁ _ hfield hkept => ?_
      have hfine' : ∀ held ∈ allReports ++ [output.held], Fine held.report := by
        intro held hmem
        rcases List.mem_append.mp hmem with hmem | hmem
        · exact hfine held hmem
        · exact List.mem_singleton.mp hmem ▸ hheld
      refine (files_executeStepResults run stepIndex hremaining tail _ w₁ (hfield.trans hown)
        (hkept ▸ hcreated) hok.2 hfine').mono fun t r w' h => ?_
      exact h.mono (by simp only [outputsCredits]; omega) fun _ hx => ⟨le_rfl, hx⟩
    cases hstatus : output.status with
    | paused =>
      cases hstate : output.state with
      | none =>
        refine files_map (files_failRun hev hown hcreated (fun _ => rfl) _) fun report _ => ?_
        exact ⟨hends report, fun h => absurd h (Option.some_ne_none _), trivial⟩
      | some s =>
        have hcontinuations : ContinuationsOk (output.continuations ++
            (parked (tail.map StepOutput.normalized) ++ remaining)) := by
          simp only [continuationsOk_append, continuationsOk_parked, outputsOk_normalized]
          exact ⟨hown', hok.2, hremaining⟩
        refine files_map ((files_pauseFlow hev hown hcreated run.context (hcarries s hstate) hcontinuations
          hfine).mono fun t r w' h => h.mono ?_ fun _ h => ⟨le_rfl, h⟩) fun report _ => ?_
        · simp only [outputsCredits, resultCredits_eq output, hstate, continuationsCredits_append,
            continuationsCredits_parked, outputsCredits_normalized, Option.elim_some]
          omega
        · exact ⟨hends report, fun h => absurd h (Option.some_ne_none _), trivial⟩
    | failed =>
      refine files_map (files_emitRunFailed hev hown hcreated hstatus _) fun _ _ => ?_
      exact ⟨hends _, fun h => absurd h (Option.some_ne_none _), trivial⟩
    | completed => exact hgoes (fine_of hstatus (by decide) (by decide))
    | running => exact hgoes (fine_of hstatus (by decide) (by decide))

omit hev in
theorem pays_events {event' : Event sig → Prop} (h : ∀ e, event e → event' e) {m : ℕ} {c : Prog α}
    {P : α → ℕ} {Φ : α → Prop} (hc : Pays (quietLaw event) (approvals a) m c P Φ) :
    Pays (quietLaw event') (approvals a) m c P Φ := by
  intro w
  refine wp_post ?_ (hc w)
  rintro t r _ ⟨ht, he, hΦ⟩
  exact ⟨ht, fun e hmem => h e (he e hmem), hΦ⟩

section

variable {api : RunnerApi} (hapi : Honest a api) (run : FlowRun)

include hapi

theorem files_runSteps : ∀ (steps : List Node) (i : ℕ) (allReports : List Held) (w : World),
    (w.flows flow.id).runId = runId → (w.records runId).isSome = true →
    (∀ held ∈ allReports, Fine held.report) →
    After (S := sig) (fun _ _ => True) (runSteps desk api flow run steps i allReports) w
      (Files flow runId event a Progress.report? 0 (leaves 0) Progress.Fine w)
  | [], _, _, _, _, _, hfine => files_pure rfl le_rfl hfine
  | step :: steps, i, allReports, w, hown, hcreated, hfine => by
    refine files_bind (files_pays (pays_events hev (pays_execute hapi flow run.context step [.seq i])))
      fun results w₁ hok hfield hkept => ?_
    have hown₁ := hfield.trans hown
    have hcreated₁ : (w₁.records runId).isSome = true := hkept ▸ hcreated
    refine files_go (files_executeStepResults hev run i (show ContinuationsOk [] from trivial) results allReports
      w₁ hown₁ hcreated₁ hok hfine) (fun _ => rfl) fun allReports' w₂ hfine' hfield' hkept' => ?_
    exact files_runSteps steps (i + 1) allReports' w₂ (hfield'.trans hown₁) (hkept' ▸ hcreated₁) hfine'

theorem files_runContinuations (stepIndex : ℕ) : ∀ (ks : List Continuation) (allReports : List Held)
    (w : World), (w.flows flow.id).runId = runId → (w.records runId).isSome = true → ContinuationsOk ks →
    (∀ held ∈ allReports, Fine held.report) →
    After (S := sig) (fun _ _ => True) (runContinuations desk api flow run stepIndex ks allReports) w
      (Files flow runId event a Progress.report? (continuationsCredits a ks) (leaves 0) Progress.Fine w)
  | [], _, _, _, _, _, hfine => files_pure rfl (Nat.zero_le _) hfine
  | k :: ks, allReports, w, hown, hcreated, hok, hfine => by
    refine files_bind (files_pays ((pays_events hev (pays_runContinuation hapi flow run.context k hok.1)).frame
      (continuationsCredits a ks))) fun results w₁ hresults hfield hkept => ?_
    have hown₁ := hfield.trans hown
    have hcreated₁ : (w₁.records runId).isSome = true := hkept ▸ hcreated
    refine files_go (files_executeStepResults hev run stepIndex hok.2 results allReports
      w₁ hown₁ hcreated₁ hresults hfine) (fun _ => rfl) fun allReports' w₂ hfine' hfield' hkept' => ?_
    exact files_runContinuations stepIndex ks allReports' w₂ (hfield'.trans hown₁) (hkept' ▸ hcreated₁)
      hok.2 hfine'

end

/-! ### The whole run -/

omit hev in
theorem filedStatus_completed {report : Report} (h : Fine report) : filedStatus report.status = .completed := by
  obtain ⟨hpaused, hfailed⟩ := h
  cases hstatus : report.status with
  | completed => rfl
  | running => rfl
  | paused => exact absurd hstatus hpaused
  | failed => exact absurd hstatus hfailed

omit hev in
theorem fine_finalReport (runId : RunId) (totals : UsageTotals) {allReports : List Held}
    (hfine : ∀ held ∈ allReports, Fine held.report) :
    Fine (finalReport runId totals (allReports.map Held.report)) := by
  match allReports with
  | [] => exact ⟨fun h => (nomatch h), fun h => (nomatch h)⟩
  | [held] => exact hfine held (by simp)
  | _ :: _ :: _ => exact ⟨fun h => (nomatch h), fun h => (nomatch h)⟩

theorem files_finish {p : Progress} (hown : (w.flows flow.id).runId = runId)
    (hcreated : (w.records runId).isSome = true) {allReports : List Held}
    (hp : p = .going allReports) (hfine : ∀ held ∈ allReports, Fine held.report) :
    After (S := sig) (fun _ _ => True) (finish desk flow p) w
      (Files flow runId event a some 0 (fun _ => 0) (fun _ => True) w) := by
  subst hp
  show After (S := sig) _ (finalizeFlowRun desk flow allReports) w _
  unfold finalizeFlowRun
  split_ifs
  · exact files_failRun hev hown hcreated (fun _ => rfl) 0
  · apply after_bind
    refine after_look ?_
    show After (S := sig) _ _ w _
    simp only [List.nil_append, hown]
    refine files_bind_free (Φ := fun _ => True)
      (files_each hev (each_getTotals (serves_undecided []).toPermits _)) fun totals w₁ _ hfield hkept => ?_
    have hreport := fine_finalReport runId totals hfine
    refine files_map (files_recordEnd hev
      (hfield.trans hown) (hkept ▸ hcreated) hreport.1 (filedStatus_completed hreport).symm _ _ _ 0) ?_
    exact fun _ _ => ⟨rfl, fun h => absurd h (Option.some_ne_none _), trivial⟩

/-- A run up to its final report. -/
theorem files_finishing {m : ℕ} {c : Prog Progress} (hown : (w.flows flow.id).runId = runId)
    (hcreated : (w.records runId).isSome = true)
    (hc : After (S := sig) (fun _ _ => True) c w
      (Files flow runId event a Progress.report? m (leaves 0) Progress.Fine w)) :
    After (S := sig) (fun _ _ => True) (c >>= finish desk flow) w
      (Files flow runId event a some m (fun _ => 0) (fun _ => True) w) := by
  apply after_bind
  refine hc.mono ?_
  rintro t (e | report | allReports) w₁ h
  · exact h.raised
  · refine after_pure ?_
    rw [List.append_nil]
    refine ⟨h.runId_eq, h.others, h.events, fun hnone => (nomatch hnone report rfl), ?_, ?_, fun _ _ => trivial⟩
    · rintro _ report' ⟨⟩ hreport
      exact h.filed (.ended report) report' rfl hreport
    · have hpays := h.pays
      simpa [left, Progress.report?] using hpays
  · have hkept : w₁.records runId = w.records runId := by
      refine h.kept fun x hx => ?_
      obtain rfl := Except.ok.inj hx
      rfl
    refine (files_finish (a := a) hev (h.runId_eq.trans hown) (hkept ▸ hcreated) rfl (h.ok _ rfl)).mono ?_
    intro t' r w' h'
    exact h.after rfl le_rfl h'

end

end Blackgeorge.Workflow
