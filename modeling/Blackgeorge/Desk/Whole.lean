import Blackgeorge.Coroutine.Cells
import Blackgeorge.Workflow.Whole

/-! The calls of a desk: what a run of a worker or a workforce, and the resume of any run, do to
the record of their run. All that is assumed of others is that they leave this record alone, so
it holds of calls that run one after another and of calls that run at the same time. -/

namespace Blackgeorge.Desk

open Data Program Coroutine Coro WorkerRunner WorkforceRun Workflow

variable {desk : DeskSettings} {runId : RunId} {event : Event sig → Prop} {a : String} {w : World}
  {before : Option RunRecord} {α : Type} {m : ℕ}

/-! ### Parts of a call -/

/-- The call has the record of its run to itself and keeps all others. -/
abbrev runRules (runId : RunId) : Rules sig := ownRules World.records {runId}

theorem runRules_rely {w' : World} : (runRules runId).rely w w' ↔ w'.records runId = w.records runId :=
  Set.eqOn_singleton

theorem runRules_refl (w : World) : (runRules runId).rely w w :=
  own_refl (S := sig) World.records {runId} w

/-- A program whose steps keep the records keeps the record of the run. -/
theorem wp_keeps {L : Law sig} {Q : Post sig α} {c : Prog α} (h : wp L.rules Q c w)
    (hstep : ∀ w w', L.step w w' → w'.records = w.records) (hadmits : ∀ q answer, L.admits q answer)
    (hrecord : w.records runId = before) :
    wp (runRules runId) (fun t r w' => Q t r w' ∧ w'.records runId = before) c w := by
  let rules : Rules sig := ⟨(runRules runId).rely, fun w w' => w'.records = w.records, fun _ _ => True⟩
  have hkeeps : wp rules Q c w :=
    wp_mono (fun _ _ _ => trivial) hstep (fun q answer _ => hadmits q answer) (fun _ _ _ h => h) h
  have hrely : ∀ w w' : World, (runRules runId).rely w w' → w.records runId = before → w'.records runId = before :=
    fun w w' hrely h => (runRules_rely.mp hrely).trans h
  have hguar : ∀ w w' : World, w'.records = w.records → w.records runId = before → w'.records runId = before :=
    fun w w' hrecords h => (congrFun hrecords runId).trans h
  have hkept := wp_keep (I := fun w : World => w.records runId = before) hrely hguar hkeeps hrecord
  have hweaker : ∀ w w' : World, w'.records = w.records → (runRules runId).guar w w' :=
    fun w w' hrecords r' _ => congrFun hrecords r'
  have hsame : ∀ w w', (runRules runId).rely w w' → rules.rely w w' := fun _ _ h => h
  exact wp_mono hsame hweaker (fun _ _ h => h) (fun _ _ _ h => h) hkept

/-- Programs that write no record and decide nothing. -/
def stillLaw : Law sig where
  step w w' := w'.records = w.records
  admits _ _ := True
  event := Undecided

abbrev Still (c : Prog α) : Prop := Each stillLaw c fun _ => True

theorem still_quiet {c : Prog α} {Φ : α → Prop} (h : Each (quietLaw Undecided) c Φ) : Still c := by
  intro w
  have hrecords : ∀ w w' : World, Quiet w w' → stillLaw.rules.guar w w' := fun _ _ h => h.records
  have hsame : ∀ w w', stillLaw.rules.rely w w' → (quietLaw Undecided).rules.rely w w' := fun _ _ h => h
  exact wp_mono hsame hrecords (fun _ _ h => h) (fun _ _ _ h => ⟨h.1, fun _ _ => trivial⟩) (h w)

theorem still_update {f : World → World} (h : ∀ w, (f w).records = w.records) : Still (Prog.modify f) :=
  each_update h trivial

theorem still_exchange {g : World → α} {f : World → World} (h : ∀ w, (f w).records = w.records) :
    Still (exchange (S := sig) g f) :=
  each_exchange h fun _ => trivial

theorem still_look (g : World → α) : Still (Prog.get g) :=
  each_look (fun _ => rfl) fun _ => trivial

theorem still_ask {q : Query} (h : ∀ answer, Undecided ⟨q, answer⟩) : Still (Prog.ask q) :=
  each_query fun answer _ => ⟨h answer, trivial⟩

theorem still_deskOpen : Still deskOpen := by
  refine each_bind (still_look _) fun closed _ => ?_
  split_ifs
  · exact each_raise
  · exact each_pure trivial

theorem after_still {c : Prog α} (h : Still c) :
    After (S := sig) (fun _ _ => True) c w fun t _ w' => (∀ e ∈ t, Undecided e) ∧ w'.records = w.records := by
  intro t r w' hr
  exact ⟨(h.runs hr).1, h.runs_step (fun _ => rfl) (fun _ _ _ huv hvw => hvw.trans huv) hr⟩

/-- What the end of a call does to the record of the run. -/
abbrev endsPost (runId : RunId) (event : Event sig → Prop) (a : String) (m : ℕ) (before : Option RunRecord) :
    Post sig Report :=
  fun t r w => Ends runId event a m before (w.records runId) t r

/-- A part that pays, and the rest of the call. -/
theorem ends_bind {c : Prog α} {g : α → Prog Report} {P : α → ℕ} {Φ : α → Prop}
    (hc : Pays (quietLaw event) (approvals a) m c P Φ) (hrecord : w.records runId = before)
    (hg : ∀ x w, Φ x → w.records runId = before →
      wp (runRules runId) (endsPost runId event a (P x) before) (g x) w) :
    wp (runRules runId) (endsPost runId event a m before) (c >>= g) w := by
  have hkeeps := wp_keeps (hc w) (fun _ _ h => h.records) (fun _ _ => trivial) hrecord
  refine wp_bind runRules_refl (wp_post ?_ hkeeps)
  rintro t (e | x) w₁ ⟨⟨hpays, hevents, hok⟩, hrecord₁⟩
  · exact ⟨hevents, hpays, fun _ h => (nomatch h), fun _ _ => .kept hrecord₁⟩
  · refine wp_post (fun t' r w' h => h.behind hevents ?_) (hg x w₁ (hok x rfl) hrecord₁)
    simpa [left] using hpays

/-- The update that ends a call or a part of it. -/
theorem wp_updateRun (hrecord : w.records runId = before) (hcreated : before.isSome = true)
    (status : RunStatus) (output : Option String) (outputJson : Value) (state : Option RunState) :
    wp (runRules runId) (fun t r w' => (∀ e ∈ t, Undecided e) ∧ (∀ e, r = .error e → w'.records runId = before) ∧
        (r = .ok () → ∃ record, storedRecord desk status output outputJson state = .ok record ∧
          w'.records runId = some record))
      (updateRun desk runId status output outputJson state) w := by
  have hstable : ∀ {w w' : World}, (runRules runId).rely w w' → w.records runId = before →
      w'.records runId = before := fun hrely h => (runRules_rely.mp hrely).trans h
  unfold updateRun
  cases hstored : storedRecord desk status output outputJson state with
  | error e => exact fun w' hrely => ⟨by simp, fun _ _ => hstable hrely hrecord, fun h => nomatch h⟩
  | ok record =>
    intro answer _
    cases answer with
    | error e =>
      exact fun w' hrely => ⟨List.forall_mem_singleton.mpr trivial, fun _ _ => hstable hrely hrecord,
        fun h => nomatch h⟩
    | ok _ =>
      intro w₁ hrely
      have hrecord₁ := hstable hrely hrecord
      have hknown : (desk.inMemoryStore || (w₁.records runId).isSome) = true := by simp [hrecord₁, hcreated]
      refine ⟨?_, fun w₂ hrely₂ => ⟨List.forall_mem_singleton.mpr trivial, fun _ h => (nomatch h), fun _ => ?_⟩⟩
      · intro r' hr'
        simp [hknown, Function.update_of_ne hr']
      · refine ⟨record, rfl, (runRules_rely.mp hrely₂).trans ?_⟩
        simp [hknown]

/-- A postcondition that a part which decides nothing and writes no record may stand in front of. -/
structure Continues (runId : RunId) (before : Option RunRecord) (Q : Post sig Report) : Prop where
  raised : ∀ {t e} {w : World}, (∀ e ∈ t, Undecided e) → w.records runId = before → Q t (.error e) w
  behind : ∀ {t t' r} {w : World}, (∀ e ∈ t, Undecided e) → Q t' r w → Q (t ++ t') r w

/-- A part that writes no record, and the rest of the call. -/
theorem Continues.still {Q : Post sig Report} (hQ : Continues runId before Q) {c : Prog α}
    {g : α → Prog Report} (hc : Still c) (hrecord : w.records runId = before)
    (hg : ∀ x w, w.records runId = before → wp (runRules runId) Q (g x) w) :
    wp (runRules runId) Q (c >>= g) w := by
  refine wp_bind runRules_refl (wp_post ?_ (wp_keeps (hc w) (fun _ _ h => h) (fun _ _ => trivial) hrecord))
  rintro t (e | x) w₁ ⟨⟨hevents, -⟩, hrecord₁⟩
  · exact hQ.raised hevents hrecord₁
  · exact wp_post (fun t' r w' h => hQ.behind hevents h) (hg x w₁ hrecord₁)

/-- A report that decides nothing on its way out. -/
theorem wp_return {Q : Post sig Report} {report : Report} (hrecord : w.records runId = before)
    (h : ∀ w : World, w.records runId = before → Q [] (.ok report) w) :
    wp (runRules runId) Q (pure report : Prog Report) w :=
  fun w' hrely => h w' ((runRules_rely.mp hrely).trans hrecord)

section

variable (hev : ∀ e, Undecided e → event e)

include hev

theorem continues_ends : Continues runId before (endsPost runId event a m before) where
  raised hevents hkept := .of_error hev hevents hkept
  behind hevents h := h.behind (fun e he => hev e (hevents e he)) (by rw [spent_undecided hevents]; omega)

variable (hcreated : before.isSome = true) (hrecord : w.records runId = before)

include hcreated hrecord

/-- The update that ends a call. -/
theorem ends_updateRun (status : RunStatus) (output : Option String) (outputJson : Value)
    (state : Option RunState) {report : Report}
    (hfiled : ∀ record, storedRecord desk status output outputJson state = .ok record →
      Filed runId report record ∧ recordCredits a (some record) ≤ m) :
    wp (runRules runId) (endsPost runId event a m before)
      (updateRun desk runId status output outputJson state >>= fun _ => pure report) w := by
  refine wp_bind runRules_refl (wp_post ?_ (wp_updateRun hrecord hcreated status output outputJson state))
  rintro t (e | _) w₁ ⟨hevents, hraised, hok⟩
  · exact .of_error hev hevents (hraised e rfl)
  · intro w₂ hrely
    obtain ⟨record, hstored, hrecord₁⟩ := hok rfl
    obtain ⟨hfiled, hcredits⟩ := hfiled record hstored
    rw [endsPost, runRules_rely.mp hrely, hrecord₁]
    exact .of_filed hev (by simpa using hevents) hfiled hcredits

/-- A rest that writes no record and does not change the report. -/
def Trailing (report : Report) (c : Prog Report) : Prop := Each stillLaw c fun x => x = report

omit hev hcreated hrecord in
theorem trailing_still {report : Report} {c : Prog α} (hc : Still c) :
    Trailing report (c >>= fun _ => pure report) :=
  each_bind hc fun _ _ => each_pure rfl

/-- The update that ends a run, with a rest that may still raise. -/
theorem ends_ended {status : RunStatus} (hends : status = .failed ∨ status = .completed)
    (output : Option String) (outputJson : Value) {report : Report} {c : Prog Report} (hc : Trailing report c)
    (hfiled : ∀ record, record.status = status → record.state = none → Filed runId report record) :
    wp (runRules runId) (endsPost runId event a m before)
      (updateRun desk runId status output outputJson none >>= fun _ => c) w := by
  refine wp_bind runRules_refl (wp_post ?_ (wp_updateRun hrecord hcreated status output outputJson none))
  rintro t (e | _) w₁ ⟨hevents, hraised, hok⟩
  · exact .of_error hev hevents (hraised e rfl)
  · obtain ⟨record, hstored, hrecord₁⟩ := hok rfl
    obtain ⟨hstatus, -, hstate⟩ := storedRecord_status hstored
    have hnone : record.state = none := by simpa using hstate
    refine wp_post ?_ (wp_keeps (hc w₁) (fun _ _ h => h) (fun _ _ => trivial) hrecord₁)
    rintro t' r w₂ ⟨⟨hevents', hreport⟩, hrecord₂⟩
    have hall : ∀ e ∈ t ++ t', Undecided e := fun e he => (List.mem_append.mp he).elim (hevents e) (hevents' e)
    rw [endsPost, hrecord₂]
    cases r with
    | error e =>
      refine ⟨fun e he => hev e (hall e he), ?_, fun _ h => (nomatch h), fun _ _ => ?_⟩
      · rw [spent_undecided hall]
        exact Nat.zero_le _
      · exact .ended rfl hnone (by rw [hstatus]; exact hends)
    | ok x =>
      obtain rfl := hreport x rfl
      refine .of_filed hev hall (hfiled record hstatus hnone) ?_
      simp [recordCredits, hnone]

/-! ### The end of a call -/

omit hev hcreated hrecord in
theorem still_modifyOverride (f : Option (List Tool) → Option (List Tool)) : Still (modifyOverride runId f) :=
  still_update fun _ => rfl

omit hev hcreated hrecord in
/-- A report that has not paused is filed as it ended. -/
theorem filed_status {report : Report} {record : RunRecord} (hstatus : record.status = report.status)
    (hends : report.status = .failed ∨ report.status = .completed) (hstate : record.state = none) :
    Filed runId report record := by
  refine filed_end ?_ ?_ hstate
  · rw [hstatus]
    rcases hends with h | h <;> rw [h] <;> rfl
  · rcases hends with h | h <;> rw [h] <;> exact fun h => nomatch h

omit hev hcreated hrecord in
/-- A report that paused without a state, or has not ended, is filed as failed. -/
theorem filed_failed {report : Report} {record : RunRecord} (hrecord : record.status = .failed)
    (hreport : report.status ≠ .completed) (hstate : record.state = none) : Filed runId report record where
  completed h := absurd h hreport
  failed _ := hrecord
  ended h := nomatch hrecord.symm.trans h
  paused := by simp [hrecord, hstate]
  waits state h := by simp [hstate] at h

theorem ends_failed {report : Report} (hreport : report.status ≠ .completed) (output : Option String)
    (outputJson : Value) :
    wp (runRules runId) (endsPost runId event a m before)
      (updateRun desk runId .failed output outputJson none >>= fun _ => pure report) w := by
  refine ends_updateRun hev hcreated hrecord _ _ _ _ fun record hstored => ?_
  obtain ⟨hstatus, -, hstate⟩ := storedRecord_status hstored
  have hnone : record.state = none := by simpa using hstate
  exact ⟨filed_failed hstatus hreport hnone, by simp [recordCredits, hnone]⟩

theorem ends_finalizeRun (runner : Option Runner) {report : Report} {state : Option StepState}
    (ho : StepOutcome (report, state)) (events : Ref) (stream : Bool) :
    wp (runRules runId) (endsPost runId event a (stepOutcomeCredits a (report, state)) before)
      (finalizeRun desk runner report state runId events stream) w := by
  have hcontinues : Continues runId before
      (endsPost runId event a (stepOutcomeCredits a (report, state)) before) := continues_ends hev
  unfold finalizeRun recordFinal
  have hfailed : ∀ payload, report.status ≠ .completed →
      wp (runRules runId) (endsPost runId event a (stepOutcomeCredits a (report, state)) before) ((do
        forgetTools runId
        deskEmit events runId "run.failed" "desk" payload
        updateRun desk runId .failed report.content report.data.toJsonValue none) >>= fun _ => pure report) w := by
    intro payload hreport
    rw [LawfulMonad.bind_assoc]
    refine hcontinues.still (still_modifyOverride _) hrecord fun _ w₁ hrecord₁ => ?_
    rw [LawfulMonad.bind_assoc]
    refine hcontinues.still (still_quiet (quiet_emit _ _ _ _ _)) hrecord₁ fun _ w₂ hrecord₂ => ?_
    exact ends_failed hev hcreated hrecord₂ hreport _ _
  cases hstatus : report.status with
  | running => cases state <;> exact hfailed _ (by simp [hstatus])
  | failed => cases state <;> exact hfailed _ (by simp [hstatus])
  | completed =>
    have hcompleted : wp (runRules runId)
        (endsPost runId event a (stepOutcomeCredits a (report, state)) before) ((do
          forgetTools runId
          deskEmit events runId "run.completed" "desk" []
          updateRun desk runId .completed report.content report.data.toJsonValue none
          recordMemory runner report) >>= fun _ => pure report) w := by
      rw [LawfulMonad.bind_assoc]
      refine hcontinues.still (still_modifyOverride _) hrecord fun _ w₁ hrecord₁ => ?_
      rw [LawfulMonad.bind_assoc]
      refine hcontinues.still (still_quiet (quiet_emit _ _ _ _ _)) hrecord₁ fun _ w₂ hrecord₂ => ?_
      rw [LawfulMonad.bind_assoc]
      refine ends_ended hev hcreated hrecord₂ (.inr rfl) _ _
        (trailing_still (still_quiet (quiet_recordMemory runner report))) fun record hrecord hnone => ?_
      exact filed_status (hrecord.trans hstatus.symm) (.inr hstatus) hnone
    cases state <;> exact hcompleted
  | paused =>
    cases state with
    | none => exact hfailed _ (by simp [hstatus])
    | some state =>
      have haction : runAction (state.toRunState.setStream stream) = stepAction state := by cases state <;> rfl
      have hcredits : runCredits a (state.toRunState.setStream stream) = stepCredits a state := by
        cases state <;> rfl
      have hown : RunOk runId (state.toRunState.setStream stream) := by cases state <;> trivial
      dsimp only
      rw [LawfulMonad.bind_assoc]
      refine hcontinues.still (still_modifyOverride _) hrecord fun _ w₁ hrecord₁ => ?_
      rw [LawfulMonad.bind_assoc]
      refine hcontinues.still (still_quiet (quiet_emit _ _ _ _ _)) hrecord₁ fun _ w₂ hrecord₂ => ?_
      refine ends_updateRun hev hcreated hrecord₂ _ _ _ _ fun record hstored => ?_
      obtain ⟨hfiled, hrecordCredits⟩ := filed_paused (a := a) hstored (haction ▸ ho state rfl) hown
      exact ⟨hfiled, (hrecordCredits.trans hcredits).le⟩

omit hrecord in
theorem ends_failResume (report : Report) (events : Ref) (message : String)
    (hrecord : w.records report.runId = before) :
    wp (runRules report.runId) (endsPost report.runId event a m before)
      (failResume desk report events message) w := by
  unfold failResume
  refine (continues_ends hev).still (still_quiet (quiet_emit _ _ _ _ _)) hrecord fun _ w₁ hrecord₁ => ?_
  refine ends_ended hev hcreated hrecord₁ (.inl rfl) _ _ (trailing_still (still_modifyOverride _))
    fun record hrecord hnone => ?_
  exact filed_status hrecord (.inl rfl) hnone

/-- A failure that is recorded and raised again. -/
theorem ends_recordUnexpectedFailure (events : Ref) (e : Exn) :
    wp (runRules runId) (endsPost runId event a m before)
      (recordUnexpectedFailure desk runId events e >>= fun _ => Prog.raise e) w := by
  have hemit : ∀ payload, Still (deskEmit events runId "run.failed" "desk" payload).attempt := fun payload =>
    (each_attempt (still_quiet (quiet_emit events runId "run.failed" "desk" payload))).mono fun _ _ => trivial
  unfold recordUnexpectedFailure recordFailure
  simp only [LawfulMonad.bind_assoc]
  refine (continues_ends hev).still (hemit _) hrecord fun emitted w₁ hrecord₁ => ?_
  refine (continues_ends hev).still (still_modifyOverride _) hrecord₁ fun _ w₂ hrecord₂ => ?_
  -- no report is returned, so any report that failed will do
  let failed : Report := ⟨runId, .failed, none, none, none, .none, [], [], {}, []⟩
  refine ends_ended hev hcreated hrecord₂ (.inl rfl) _ _ (?_ : Trailing failed _)
    fun record hrecord hnone => filed_status hrecord (.inl rfl) hnone
  exact each_bind (P := fun _ => True) (each_ofExcept fun _ _ => trivial) fun _ _ => each_raise

end

/-! ### Run -/

/-- What a call on a new run does to its record. -/
abbrev createsPost (runId : RunId) (a : String) (before : Option RunRecord) : Post sig Report :=
  fun t r w => Creates runId a before (w.records runId) t r

theorem continues_creates : Continues runId before (createsPost runId a before) where
  raised hevents hkept := .of_error hevents hkept
  behind hevents h := h.behind hevents

theorem still_runIdOr (runId : Option RunId) : Still (runIdOr runId) := by
  unfold runIdOr
  split
  · exact each_pure trivial
  · exact still_ask fun _ => trivial

/-- A created run has a record that runs; a known run is not created again. -/
theorem wp_createRun (desk : DeskSettings) (job : Job) (hrecord : w.records runId = before) :
    wp (runRules runId) (fun t r w' => (∀ e ∈ t, Undecided e) ∧ (∀ e, r = .error e → w'.records runId = before) ∧
        (r = .ok () → creation runId ∈ t ∧ before = none ∧ w'.records runId = some begunRecord))
      (createRun desk runId job) w := by
  have hstable : ∀ {w w' : World}, (runRules runId).rely w w' → w.records runId = before →
      w'.records runId = before := fun hrely h => (runRules_rely.mp hrely).trans h
  unfold createRun
  cases orSerializationError job.persisted with
  | error e => exact fun w' hrely => ⟨by simp, fun _ _ => hstable hrely hrecord, fun h => nomatch h⟩
  | ok _ =>
    intro w₁ hrely
    have hrecord₁ := hstable hrely hrecord
    refine ⟨Set.eqOn_refl _ _, ?_⟩
    by_cases hknown : (w₁.records runId).isSome = true
    · simp only [hknown]
      exact fun w₂ hrely₂ => ⟨by simp, fun _ _ => hstable hrely₂ hrecord₁, fun h => nomatch h⟩
    · have hunknown : before = none := by simpa [hrecord₁] using hknown
      simp only [hknown]
      intro answer _
      cases answer with
      | error e =>
        exact fun w₂ hrely₂ => ⟨List.forall_mem_singleton.mpr trivial, fun _ _ => hstable hrely₂ hrecord₁,
          fun h => nomatch h⟩
      | ok _ =>
        intro w₂ _
        refine ⟨fun r' hr' => by simp [Function.update_of_ne hr'], fun w₃ hrely₃ => ?_⟩
        refine ⟨List.forall_mem_singleton.mpr trivial, fun _ h => (nomatch h), fun _ => ?_⟩
        refine ⟨List.mem_singleton.mpr rfl, hunknown, (runRules_rely.mp hrely₃).trans ?_⟩
        simp

/-- `Desk.arun` behind the choice of its run id. -/
def runAs (desk : DeskSettings) (api : RunnerApi) (runner : Runner) (job : Job) (stream : Option Bool)
    (runId : RunId) : Prog Report := do
  let events ← newEventList []
  let streamEnabled := stream.getD desk.stream
  let job ← prepareJob desk runner job
  createRun desk runId job
  deskEmit events runId "run.started" "desk" [("job_id", .str job.id)]
  let totals ← newTotals {}
  let config := makeRunConfig desk (.desk events runId) runId totals streamEnabled
  match ← (registeredRun api runner config job).attempt with
  | .error e => do
    recordUnexpectedFailure desk runId events e
    Prog.raise e
  | .ok (report, state) => finalizeRun desk (some runner) report state runId events streamEnabled

theorem arun_runAs (desk : DeskSettings) (api : RunnerApi) (runner : Runner) (job : Job) (stream : Option Bool)
    (runId : Option RunId) : arun desk api runner job stream runId = (do
      deskOpen
      let runId ← runIdOr runId
      runAs desk api runner job stream runId) := rfl

variable {api : RunnerApi}

section

variable (hapi : Honest a api)

include hapi

theorem pays_registeredRun (runner : Runner) (config : RunConfig) (job : Job) :
    Pays (quietLaw Undecided) (approvals a) 0 (registeredRun api runner config job) (stepOutcomeCredits a)
      StepOutcome := by
  apply pays_bind_free (pays_quiet (quiet_registerRunner runner))
  intro _ _
  exact hapi.arun runner config job []

theorem wp_runAs (runner : Runner) (job : Job) (stream : Option Bool) (hrecord : w.records runId = before) :
    wp (runRules runId) (createsPost runId a before) (runAs desk api runner job stream runId) w := by
  have hev : ∀ e, Undecided e → Undecided e := fun _ h => h
  unfold runAs
  refine continues_creates.still (still_exchange fun _ => rfl) hrecord fun events w₁ hrecord₁ => ?_
  refine continues_creates.still (still_quiet (quiet_prepareJob desk runner job)) hrecord₁ fun job w₂ hrecord₂ => ?_
  refine wp_bind runRules_refl (wp_post ?_ (wp_createRun desk job hrecord₂))
  rintro t (e | _) w₃ ⟨hevents, hraised, hok⟩
  · exact .of_error hevents (hraised e rfl)
  obtain ⟨hcreation, rfl, hrecord₃⟩ := hok rfl
  refine wp_post (P := endsPost runId Undecided a 0 (some begunRecord)) (fun t' r w' h =>
    .of_ends h hevents hcreation) ?_
  have hcontinues : Continues runId (some begunRecord) (endsPost runId Undecided a 0 (some begunRecord)) :=
    continues_ends hev
  refine hcontinues.still (still_quiet (quiet_emit _ _ _ _ _)) hrecord₃ fun _ w₄ hrecord₄ => ?_
  refine hcontinues.still (still_exchange fun _ => rfl) hrecord₄ fun totals w₅ hrecord₅ => ?_
  refine ends_bind (pays_attempt (pays_registeredRun hapi runner _ job)) hrecord₅ ?_
  rintro (e | ⟨report, state⟩) w₆ ho hrecord₆
  · exact ends_recordUnexpectedFailure hev rfl hrecord₆ events e
  · exact ends_finalizeRun hev rfl hrecord₆ (some runner) (ho _ rfl) events _

/-- A run of a worker or a workforce leaves the record of a new run, or none. -/
theorem after_arun (runner : Runner) (job : Job) (stream : Option Bool) (runId : Option RunId) (w : World) :
    After (S := sig) (fun _ _ => True) (arun desk api runner job stream runId) w (RunLeaves a w) := by
  rw [arun_runAs]
  apply after_bind
  refine (after_deskOpen w).mono ?_
  rintro _ (e | _) w ⟨rfl, rfl⟩
  · exact .of_error rfl (by simp)
  apply after_bind
  refine (after_still (still_runIdOr runId)).mono ?_
  rintro t (e | runId) w₁ ⟨hevents, hrecords⟩
  · exact .of_error hrecords hevents
  refine (own_after (S := sig) (wp_runAs hapi runner job stream rfl)).mono ?_
  rintro t' r w' ⟨hcreates, hothers⟩
  have hleaves : RunLeaves a w₁ t' r w' := ⟨runId, fun r' hr' => hothers hr', hcreates⟩
  exact (hleaves.of_records hrecords).behind hevents

/-! ### Resume -/

/-- What a resume does to the record of its run. -/
abbrev resumesPost (runId : RunId) (decision : Value) (a : String) (before : Option RunRecord) :
    Post sig Report :=
  fun t r w => Effect runId (OnlyAction (recordAction before) decision) a before (w.records runId) t r

omit hapi in
theorem continues_resumes {decision : Value} : Continues runId before (resumesPost runId decision a before) where
  raised hevents hkept := .of_error (fun _ h => OnlyAction.of_undecided h) hevents hkept
  behind hevents h := h.behind (fun _ h => OnlyAction.of_undecided h) hevents

omit hapi in
theorem wp_getRun (hrecord : w.records runId = before) :
    wp (runRules runId) (fun t r w' => ((∀ e ∈ t, Undecided e) ∧ w'.records runId = before) ∧
      ∀ record, r = .ok record → record = before) (getRun runId) w := by
  have hstable : ∀ {w w' : World}, (runRules runId).rely w w' → w.records runId = before →
      w'.records runId = before := fun hrely h => (runRules_rely.mp hrely).trans h
  intro answer _
  cases answer with
  | error e =>
    exact fun w₁ hrely => ⟨⟨List.forall_mem_singleton.mpr trivial, hstable hrely hrecord⟩, fun _ h => nomatch h⟩
  | ok _ =>
    intro w₁ hrely
    refine ⟨Set.eqOn_refl _ _, fun w₂ hrely₂ => ?_⟩
    have hrecord₁ := hstable hrely hrecord
    refine ⟨⟨List.forall_mem_singleton.mpr trivial, hstable hrely₂ hrecord₁⟩, ?_⟩
    rintro _ ⟨⟩
    exact hrecord₁

theorem ends_resumeRun (hev : ∀ e, Undecided e → event e) (report : Report) (events : Ref) (state : StepState)
    (decision : Value) (stream : Option Bool) (hcreated : before.isSome = true)
    (haction : ∀ e, OnlyAction (stepAction state) decision e → event e) (hrecord : w.records report.runId = before) :
    wp (runRules report.runId) (endsPost report.runId event a (stepCredits a state) before)
      (resumeRun desk api report events state decision stream) w := by
  unfold resumeRun
  refine (continues_ends hev).still (still_quiet (quiet_emit _ _ _ _ _)) hrecord fun _ w₁ hrecord₁ => ?_
  refine (continues_ends hev).still (still_exchange fun _ => rfl) hrecord₁ fun totals w₂ hrecord₂ => ?_
  refine (continues_ends hev).still (still_look _) hrecord₂ fun runner w₃ hrecord₃ => ?_
  cases runner with
  | none => exact ends_failResume hev hcreated report events _ hrecord₃
  | some runner =>
    refine ends_bind (pays_events haction (hapi.aresume runner _ state decision [])) hrecord₃
      fun o w₄ ho hrecord₄ => ?_
    exact ends_finalizeRun hev hcreated hrecord₄ (memoryRunner runner) ho events _

omit hapi in
theorem stepState_withJob {state : RunState} {job : Job} {s : StepState}
    (h : stepState? (state.withJob job) = some s) :
    stepAction s = runAction state ∧ stepCredits a s = runCredits a state := by
  cases state with
  | worker state =>
    obtain rfl := Option.some.inj h
    exact ⟨rfl, rfl⟩
  | workforce state =>
    obtain rfl := Option.some.inj h
    exact ⟨rfl, rfl⟩
  | flow state => cases h

/-- A resume of a run that is no flow's. -/
theorem wp_resumeState (report : Report) (events : Ref) {state : RunState} (decision : Value)
    (stream : Option Bool) (hstored : before.bind RunRecord.state = some state) (hflow : NoFlow before)
    (hrecord : w.records report.runId = before) :
    wp (runRules report.runId) (resumesPost report.runId decision a before)
      (resumeState desk api report events state decision stream) w := by
  have hev : ∀ e, Undecided e → OnlyAction (recordAction before) decision e := fun _ h => OnlyAction.of_undecided h
  have hcreated := created_of_stored hstored
  unfold resumeState
  refine continues_resumes.still (still_look _) hrecord fun known w₁ hrecord₁ => ?_
  cases hstep : stepState? (state.withJob (restoredJob known state.core.job)) with
  | some s =>
    obtain ⟨haction, hstepCredits⟩ := stepState_withJob (a := a) hstep
    refine wp_post (fun t r w' h => h.effect ?_)
      (ends_resumeRun hapi hev report events s decision stream hcreated
        (fun e h => ?_) hrecord₁)
    · rwa [recordAction_of_stored hstored, ← haction]
    · rw [hstepCredits, recordCredits_of_stored hstored]
  | none =>
    cases state with
    | worker _ => cases hstep
    | workforce _ => cases hstep
    | flow state => exact absurd hstored (hflow state)

/-- A resume of a run that is no flow's keeps to the action that the run waits for. -/
theorem wp_aresume (report : Report) (decision : Value) (stream : Option Bool) (hflow : NoFlow before)
    (hrecord : w.records report.runId = before) :
    wp (runRules report.runId) (resumesPost report.runId decision a before)
      (aresume desk api report decision stream) w := by
  have hev : ∀ e, Undecided e → OnlyAction (recordAction before) decision e := fun _ h => OnlyAction.of_undecided h
  unfold aresume
  refine continues_resumes.still still_deskOpen hrecord fun _ w₁ hrecord₁ => ?_
  refine wp_bind runRules_refl (wp_post ?_ (wp_getRun hrecord₁))
  rintro t (e | record) w₂ ⟨⟨hevents, hrecord₂⟩, hok⟩
  · exact continues_resumes.raised hevents hrecord₂
  obtain rfl := hok record rfl
  refine wp_post (P := resumesPost report.runId decision a record) (fun t' r w' h => continues_resumes.behind hevents h) ?_
  cases record with
  | none => exact wp_return hrecord₂ fun w hrecord => .of_refused hev (by simp) hrecord rfl hflow
  | some record =>
    refine continues_resumes.still (still_quiet (quiet_getEvents _)) hrecord₂ fun events w₃ hrecord₃ => ?_
    cases hstate : record.state with
    | none =>
      exact wp_post (fun t r w' h => Ends.effect h (Nat.zero_le _))
        (ends_failResume hev rfl report events _ hrecord₃)
    | some state => exact wp_resumeState hapi report events decision stream hstate hflow hrecord₃

/-- A resume keeps to the action that the run waits for, and leaves its record settled. -/
theorem after_aresume (report : Report) (decision : Value) (stream : Option Bool)
    (hsound : StoredSound report.runId (w.records report.runId)) :
    After (S := sig) (fun _ _ => True) (aresume desk api report decision stream) w
      (Leaves report.runId (OnlyAction (recordAction (w.records report.runId)) decision) a w) := by
  have hown : NoFlow (w.records report.runId) →
      After (S := sig) (fun _ _ => True) (aresume desk api report decision stream) w
        (Leaves report.runId (OnlyAction (recordAction (w.records report.runId)) decision) a w) := fun hflow =>
    (own_after (S := sig) (wp_aresume hapi report decision stream hflow rfl)).mono fun t r w' h =>
      ⟨fun r' hr' => h.2 hr', h.1⟩
  by_cases hflow : NoFlow (w.records report.runId)
  · exact hown hflow
  obtain ⟨state, hstored⟩ := not_forall_not.mp hflow
  clear hown hflow
  have hev : ∀ e, Undecided e → OnlyAction (recordAction (w.records report.runId)) decision e :=
    fun _ h => OnlyAction.of_undecided h
  unfold aresume
  apply after_bind
  refine (after_deskOpen w).mono ?_
  rintro _ (e | _) w ⟨rfl, rfl⟩
  · exact .of_error rfl hev (by simp)
  apply after_bind
  refine (after_getRun report.runId w).mono ?_
  rintro t (e | record) w ⟨hevents, rfl, hrecord⟩
  · exact .of_error rfl hev (by simpa using hevents)
  obtain rfl := hrecord record rfl
  obtain ⟨record, hcreated, hstate⟩ := Option.bind_eq_some_iff.mp hstored
  refine After.mono (Q := Leaves report.runId (OnlyAction (recordAction (w.records report.runId)) decision) a w) ?_
    fun t' r w' h => h.behind hev (by simpa using hevents)
  show After (S := sig) _ _ w _
  generalize haction : recordAction (w.records report.runId) = action at hev ⊢
  rw [hcreated]
  dsimp only
  apply after_bind
  refine (after_still (still_quiet (quiet_getEvents report.runId))).mono ?_
  rintro t₁ (e | events) w₁ ⟨hevents₁, hkept⟩
  · exact .of_error hkept hev hevents₁
  refine After.mono (Q := Leaves report.runId (OnlyAction action decision) a w₁) ?_
    fun t' r w' h => (h.of_records hkept).behind hev hevents₁
  rw [← hkept] at hsound hstored haction
  beta_reduce
  rw [hstate]
  dsimp only [resumeState]
  apply after_bind
  apply after_look
  apply after_bind
  refine after_look ?_
  show After (S := sig) _ _ w₁ _
  dsimp only
  cases w₁.flowRuns report.runId with
  | none =>
    refine (own_after (S := sig) (ends_failResume (a := a) (m := 0) hev (created_of_stored hstored) report events
      "Flow not registered" rfl)).mono fun t r w' h => ?_
    exact ⟨fun r' hr' => h.2 hr', h.1.effect (Nat.zero_le _)⟩
  | some flow => exact haction ▸ Workflow.after_aresume hapi report decision stream hsound

end

end Blackgeorge.Desk
