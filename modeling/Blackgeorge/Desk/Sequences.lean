import Blackgeorge.Coroutine.Calls
import Blackgeorge.Desk.Whole
import Blackgeorge.Program.Environment
import Mathlib.Algebra.BigOperators.Group.Finset.Basic

/-! Any sequence of calls on a desk: runs and resumes of workers, workforces and flows. Each call
changes the record of one run and leaves it settled; a resume decides on nothing but the action
that the run's last paused report carries, and an approved tool runs once unless a resume
raises. -/

namespace Blackgeorge.Desk

open Data Program Coroutine Coro WorkerRunner WorkforceRun Workflow

/-! ### Calls -/

/-- A call on a desk or on one of its flows. -/
inductive Entry where
  | run (runner : Runner) (job : Job) (stream : Option Bool) (runId : Option RunId)
  | resume (report : Report) (decision : Value) (stream : Option Bool)
  | runFlow (flow : Flow) (job : Job)
  | resumeFlow (flow : Flow) (report : Report) (decision : Value) (stream : Option Bool)

/-- The call's program, with the runners of the program. -/
def Entry.program (desk : DeskSettings) : Entry → Prog Report
  | run runner job stream runId => arun desk runners runner job stream runId
  | resume report decision stream => aresume desk runners report decision stream
  | runFlow flow job => Workflow.run desk runners flow job
  | resumeFlow flow report decision stream => Workflow.aresume desk runners flow report decision stream

/-- The run that a call resumes. -/
def Entry.target : Entry → Option RunId
  | run .. => none
  | resume report .. => some report.runId
  | runFlow .. => none
  | resumeFlow _ report .. => some report.runId

/-- The action that the run of a call waits for. -/
def Entry.action (w : World) (entry : Entry) : Option Awaited :=
  entry.target.bind fun runId => recordAction (w.records runId)

/-- The decision that a resume is given. -/
def Entry.decision : Entry → Value
  | run .. => .none
  | resume _ decision _ => decision
  | runFlow .. => .none
  | resumeFlow _ _ decision _ => decision

abbrev DeskCall := Call sig Entry Report

/-- Calls one after another. In between anything may change but the records of the store. -/
abbrev DeskCalls (desk : DeskSettings) : World → List DeskCall → World → Prop :=
  Calls (S := sig) (fun _ _ => True) (Entry.program desk) fun w w' => w'.records = w.records

/-! ### What each call leaves -/

/-- A record with a state is paused, and its state waits for an action. -/
structure Sane (runId : RunId) (record : RunRecord) : Prop where
  paused : record.state.isSome = true ↔ record.status = .paused
  waits : ∀ state, record.state = some state → RunOk runId state ∧ ∃ action, runAction state = some action

def AllSane (w : World) : Prop := ∀ runId record, w.records runId = some record → Sane runId record

variable {desk : DeskSettings} {w₀ w w' : World} {calls : List DeskCall} {t : Trace sig}
  {r : Except Exn Report} {entry : Entry}

theorem AllSane.sound (h : AllSane w) (runId : RunId) : StoredSound runId (w.records runId) := by
  intro state hstate
  obtain ⟨record, hrecord, hstate⟩ := Option.bind_eq_some_iff.mp hstate
  exact ((h runId record hrecord).waits state hstate).1

/-- What a call leaves of the run it is on: a new one, or the one that it resumes. -/
structure Entry.Leaves (entry : Entry) (a : String) (w : World) (t : Trace sig) (r : Except Exn Report)
    (w' : World) (runId : RunId) : Prop extends
    Workflow.Leaves runId (OnlyAction (entry.action w) entry.decision) a w t r w' where
  target : ∀ target, entry.target = some target → runId = target
  created : entry.target = none →
    w'.records runId = w.records runId ∨ w.records runId = none ∧ creation runId ∈ t

theorem entry_leaves (a : String) (entry : Entry) (hsane : AllSane w) :
    After (S := sig) (fun _ _ => True) (entry.program desk) w fun t r w' =>
      ∃ runId, entry.Leaves a w t r w' runId := by
  have hnew : ∀ {entry : Entry}, entry.target = none → ∀ t r w', RunLeaves a w t r w' →
      ∃ runId, entry.Leaves a w t r w' runId := by
    rintro entry htarget t r w' ⟨runId, hothers, heffect, hcreated⟩
    refine ⟨runId, ⟨⟨hothers, fun e he => OnlyAction.of_undecided (heffect.events e he), heffect.pays,
      heffect.settled⟩, ?_, fun _ => hcreated⟩⟩
    simp [htarget]
  cases entry with
  | run runner job stream runId => exact (after_arun (runners_honest a) runner job stream runId w).mono (hnew rfl)
  | runFlow flow job => exact (after_run (runners_honest a) job w).mono (hnew rfl)
  | resume report decision stream =>
    refine (after_aresume (runners_honest a) report decision stream (hsane.sound _)).mono fun t r w' h => ?_
    exact ⟨report.runId, h, fun _ h => Option.some.inj h, fun h => nomatch h⟩
  | resumeFlow flow report decision stream =>
    refine (Workflow.after_aresume (runners_honest a) report decision stream (hsane.sound _)).mono fun t r w' h => ?_
    exact ⟨report.runId, h, fun _ h => Option.some.inj h, fun h => nomatch h⟩

theorem Entry.Leaves.known {a : String} {runId : RunId} (h : entry.Leaves a w t r w' runId)
    (htarget : entry.target = none) (hknown : (w.records runId).isSome = true) :
    w'.records runId = w.records runId := by
  rcases h.created htarget with hkept | ⟨hnone, -⟩
  · exact hkept
  · simp [hnone] at hknown

/-- Every call keeps the records sane. -/
theorem Entry.Leaves.sane {a : String} {runId : RunId} (h : entry.Leaves a w t r w' runId) (hsane : AllSane w) :
    AllSane w' := by
  intro r' record hrecord
  by_cases hr' : r' = runId
  · subst hr'
    cases h.effect.settled with
    | filed hfiledRecord hfiled =>
      obtain rfl := Option.some.inj (hfiledRecord.symm.trans hrecord)
      refine ⟨hfiled.paused, fun state hstate => ?_⟩
      obtain ⟨⟨-, action, haction, -⟩, hrun⟩ := hfiled.waits state hstate
      exact ⟨hrun, action, haction⟩
    | refused hkept _ _ => exact hsane _ _ (hkept.symm.trans hrecord)
    | kept hkept => exact hsane _ _ (hkept.symm.trans hrecord)
    | begun _ hbegun =>
      obtain rfl := Option.some.inj (hbegun.symm.trans hrecord)
      exact ⟨⟨fun h => (nomatch h), fun h => nomatch h⟩, fun _ h => nomatch h⟩
    | ended hended hstate hstatus =>
      obtain rfl := Option.some.inj (hended.symm.trans hrecord)
      refine ⟨?_, fun _ h => nomatch hstate.symm.trans h⟩
      rcases hstatus with hstatus | hstatus <;> simp [hstate, hstatus]
  · exact hsane _ _ ((h.others r' hr').symm.trans hrecord)

/-- Calls on a new store. -/
structure Reached (desk : DeskSettings) (w₀ : World) (calls : List DeskCall) (w : World) : Prop where
  new : ∀ runId, w₀.records runId = none
  calls : DeskCalls desk w₀ calls w

theorem Reached.sane (h : Reached desk w₀ calls w) : AllSane w := by
  refine h.calls.invariant (I := fun _ => AllSane) ?_ ?_ ?_
  · intro runId record hrecord
    simp [h.new] at hrecord
  · intro _ w w' hsane hrecords runId record hrecord
    exact hsane runId record (by rwa [hrecords] at hrecord)
  · intro _ w entry t r w' hsane hr
    obtain ⟨runId, hleaves⟩ := entry_leaves "" entry hsane t r w' hr
    exact hleaves.sane hsane

/-- What follows from one call, wherever the calls before it have led. -/
theorem Reached.leaves (a : String) (h : Reached desk w₀ calls w)
    (hr : Runs (S := sig) (fun _ _ => True) (entry.program desk) w t r w') :
    ∃ runId, entry.Leaves a w t r w' runId :=
  entry_leaves a entry h.sane t r w' hr

/-! ### Calls on a worker that asks before it deploys -/

/-- Calls the tool that waits, and is done once it is asked later. -/
def deployModel (n : ℕ) : ModelResponse :=
  if n < 7 then
    { content := none, toolCalls := [{ id := "c1", name := "deploy", arguments := [] }] }
  else { content := some "done" }

def waitingReport : Report where
  runId := "run"
  status := .paused

def deployEntry : Entry := .run (.worker plainWorker) plainJob none (some "run")

def approveEntry : Entry := .resume waitingReport (.bool true) none

/-- A call on that desk. -/
@[irreducible] def ran (entry : Entry) (w : World) : Trace sig × Except Exn Report × World :=
  runIn (plainAnswers deployModel) (entry.program plainDesk) w

theorem runs_ran (entry : Entry) (w : World) : Runs (S := sig) (fun _ _ => True) (entry.program plainDesk) w
    (ran entry w).1 (ran entry w).2.1 (ran entry w).2.2 := by
  rw [ran]
  exact runIn_runs (fun _ _ => trivial) _ _

/-- The run, which pauses. -/
abbrev deployed : Trace sig × Except Exn Report × World := ran deployEntry {}

/-- Its resume, which runs the tool and completes. -/
abbrev approved : Trace sig × Except Exn Report × World := ran approveEntry deployed.2.2

/-- The same resume once more. -/
abbrev approvedAgain : Trace sig × Except Exn Report × World := ran approveEntry approved.2.2

theorem reached_deployed : Reached plainDesk {} [⟨deployEntry, deployed.1, deployed.2.1⟩] deployed.2.2 :=
  ⟨fun _ => rfl, Calls.start.call (runs_ran deployEntry _)⟩

theorem reached_approved : Reached plainDesk {}
    [⟨deployEntry, deployed.1, deployed.2.1⟩, ⟨approveEntry, approved.1, approved.2.1⟩] approved.2.2 :=
  ⟨fun _ => rfl, reached_deployed.calls.call (runs_ran approveEntry _)⟩

/-! ### Settled records -/

/-- Where a record is running, a call has raised. -/
def RunningRaised (calls : List DeskCall) (w : World) : Prop :=
  ∀ runId record, w.records runId = some record → record.status = .running →
    ∃ call ∈ calls, ∃ e, call.result = .error e

/-- After any calls, a record has a state exactly when it is paused, and is running only if a call
has raised. -/
theorem reached_settled (h : Reached desk w₀ calls w) {runId : RunId} {record : RunRecord}
    (hrecord : w.records runId = some record) : (record.state.isSome = true ↔ record.status = .paused) ∧
      (record.status = .running → ∃ call ∈ calls, ∃ e, call.result = .error e) := by
  refine ⟨(h.sane runId record hrecord).paused, ?_⟩
  have hinvariant : AllSane w ∧ RunningRaised calls w := by
    refine h.calls.invariant (I := fun calls w => AllSane w ∧ RunningRaised calls w) ?_ ?_ ?_
    · exact ⟨fun runId record hrecord => by simp [h.new] at hrecord,
        fun runId record hrecord => by simp [h.new] at hrecord⟩
    · rintro calls w w' ⟨hsane, hrunning⟩ hrecords
      simp only [AllSane, RunningRaised, hrecords]
      exact ⟨hsane, hrunning⟩
    · rintro calls w entry t r w' ⟨hsane, hrunning⟩ hr
      obtain ⟨runId, hleaves⟩ := entry_leaves "" entry hsane t r w' hr
      refine ⟨hleaves.sane hsane, fun r' record hrecord hstatus => ?_⟩
      have hbefore : w.records r' = some record ∨ ∃ e, r = .error e := by
        by_cases hr' : r' = runId
        · subst hr'
          have hsettled := hleaves.effect.settled
          rw [hrecord] at hsettled
          exact (hsettled.running hstatus).imp_right And.right
        · exact .inl ((hleaves.others r' hr').symm.trans hrecord)
      rcases hbefore with hbefore | hraised
      · obtain ⟨call, hcall, hraised⟩ := hrunning r' record hbefore hstatus
        exact ⟨call, List.mem_append_left _ hcall, hraised⟩
      · exact ⟨⟨entry, t, r⟩, List.mem_append_right _ (List.mem_singleton.mpr rfl), hraised⟩
  exact hinvariant.2 runId record hrecord

theorem reached_settled_deployed : ∃ record, deployed.2.2.records "run" = some record ∧
    (record.state.isSome = true ↔ record.status = .paused) := by
  obtain ⟨record, hrecord⟩ := Option.isSome_iff_exists.mp
    (show (deployed.2.2.records "run").isSome = true by decide +kernel)
  exact ⟨record, hrecord, (reached_settled reached_deployed hrecord).1⟩

/-! ### Completed runs -/

/-- A flow's resume of a run without a stored state leaves the records. -/
theorem resumeFlow_kept (flow : Flow) {report : Report} (decision : Value) (stream : Option Bool)
    (hstate : (w.records report.runId).bind RunRecord.state = none) :
    After (S := sig) (fun _ _ => True) (Workflow.aresume desk runners flow report decision stream) w
      fun _ _ w' => w'.records = w.records := by
  rw [Workflow.aresume, collectAresume, LawfulMonad.bind_assoc]
  apply after_bind
  refine (after_deskOpen w).mono ?_
  rintro _ (e | _) w ⟨rfl, rfl⟩
  · rfl
  show After (S := sig) _ (_ >>= finish desk flow) w _
  rw [LawfulMonad.bind_assoc]
  apply after_bind
  refine (after_getRun report.runId w).mono ?_
  rintro t (e | record) w ⟨-, rfl, hrecord⟩
  · rfl
  obtain rfl := hrecord record rfl
  show After (S := sig) _ (_ >>= finish desk flow) w _
  dsimp only
  rw [hstate]
  exact after_pure rfl

/-- A desk's resume of a run without a stored state files it as failed, unless it raises. -/
theorem resume_failed {report : Report} (decision : Value) (stream : Option Bool) {record : RunRecord}
    (hrecord : w.records report.runId = some record) (hstate : record.state = none) :
    After (S := sig) (fun _ _ => True) (aresume desk runners report decision stream) w
      fun _ r w' => ∀ x, r = .ok x →
        ∃ record', w'.records report.runId = some record' ∧ record'.status = .failed := by
  unfold aresume
  apply after_bind
  refine (after_deskOpen w).mono ?_
  rintro _ (e | _) w ⟨rfl, rfl⟩
  · exact fun _ h => nomatch h
  apply after_bind
  refine (after_getRun report.runId w).mono ?_
  rintro t (e | known) w ⟨-, rfl, hknown⟩
  · exact fun _ h => nomatch h
  obtain rfl := hknown known rfl
  show After (S := sig) _ _ w _
  rw [hrecord]
  dsimp only
  rw [hstate]
  apply after_bind
  refine (silent_quiet (w := w) (quiet_getEvents report.runId)).mono ?_
  rintro t (e | events) w₁ ⟨-, hkept, -⟩
  · exact fun _ h => nomatch h
  intro t' r w' hr x hx
  subst hx
  have hfailed : x.status = .failed := by
    refine after_returns (P := fun x : Report => x.status = .failed) (fun _ w => ?_) t' _ w' hr x rfl
    refine after_returns fun _ w => after_returns fun _ w => after_pure ?_
    rintro _ ⟨⟩
    rfl
  have hends : wp (runRules report.runId) (endsPost report.runId Undecided "" 0 (w₁.records report.runId))
      (failResume desk report events "No stored state") w₁ :=
    ends_failResume (fun _ h => h) (by rw [hkept, hrecord]; rfl) report events _ rfl
  obtain ⟨record', hrecord', hfiled⟩ := (own_after (S := sig) hends t' _ w' hr).1.filed x rfl
  exact ⟨record', hrecord', hfiled.failed hfailed⟩

/-- What a call that raises leaves of the record of its run. -/
abbrev keptPost (runId : RunId) (before : Option RunRecord) : Post sig Report :=
  fun _ r w => ∀ e, r = .error e → w.records runId = before

theorem continues_kept {runId : RunId} {before : Option RunRecord} :
    Continues runId before (keptPost runId before) where
  raised _ hkept _ _ := hkept
  behind _ h := h

/-- The record is the last thing that such a resume writes. -/
theorem wp_failResume_kept {report : Report} {before : Option RunRecord} (events : Ref) (message : String)
    (hcreated : before.isSome = true) (hrecord : w.records report.runId = before) :
    wp (runRules report.runId) (keptPost report.runId before) (failResume desk report events message) w := by
  unfold failResume
  refine continues_kept.still (still_quiet (quiet_emit _ _ _ _ _)) hrecord fun _ w₁ hrecord₁ => ?_
  refine wp_bind runRules_refl (wp_post ?_ (wp_updateRun hrecord₁ hcreated _ _ _ _))
  rintro t (e | _) w₂ ⟨-, hraised, -⟩
  · exact fun _ _ => hraised e rfl
  · intro w₃ _
    exact ⟨fun _ _ => rfl, fun _ _ _ h => nomatch h⟩

/-- A desk's resume of a run without a stored state leaves the record if it raises. -/
theorem resume_raised {report : Report} (decision : Value) (stream : Option Bool) {record : RunRecord}
    (hrecord : w.records report.runId = some record) (hstate : record.state = none) :
    After (S := sig) (fun _ _ => True) (aresume desk runners report decision stream) w
      fun _ r w' => ∀ e, r = .error e → w'.records report.runId = some record := by
  have hkept : wp (runRules report.runId) (keptPost report.runId (some record))
      (aresume desk runners report decision stream) w := by
    unfold aresume
    refine continues_kept.still still_deskOpen hrecord fun _ w₁ hrecord₁ => ?_
    refine wp_bind runRules_refl (wp_post ?_ (wp_getRun hrecord₁))
    rintro t (e | known) w₂ ⟨⟨hevents, hrecord₂⟩, hok⟩
    · exact continues_kept.raised hevents hrecord₂
    obtain rfl := hok known rfl
    dsimp only [thenPost]
    refine continues_kept.still (still_quiet (quiet_getEvents _)) hrecord₂ fun events w₃ hrecord₃ => ?_
    rw [hstate]
    exact wp_failResume_kept events _ rfl hrecord₃
  exact (own_after (S := sig) hkept).mono fun _ _ _ h => h.1

/-- A resume of the run on the desk. -/
def Entry.Resumes (runId : RunId) (entry : Entry) : Prop :=
  ∃ report decision stream, entry = .resume report decision stream ∧ report.runId = runId

/-- The call resumed the run on the desk and returned. -/
def Refiles (runId : RunId) (call : DeskCall) : Prop :=
  call.entry.Resumes runId ∧ call.returned = true

/-- What later calls leave of a record without a state: a resume on the desk has filed it as failed. -/
structure Kept (runId : RunId) (record : RunRecord) (later : List DeskCall) (w : World) : Prop where
  sane : AllSane w
  kept : (∀ call ∈ later, ¬ Refiles runId call) → w.records runId = some record
  failed : (∃ call ∈ later, Refiles runId call) →
    ∃ record', w.records runId = some record' ∧ record'.status = .failed

theorem Kept.ended {runId : RunId} {record : RunRecord} {later : List DeskCall}
    (h : Kept runId record later w) (hstate : record.state = none) :
    ∃ record', w.records runId = some record' ∧ record'.state = none := by
  by_cases hresumes : ∃ call ∈ later, Refiles runId call
  · obtain ⟨record', hrecord', hfailed⟩ := h.failed hresumes
    have hpaused := (h.sane runId record' hrecord').paused
    rw [hfailed] at hpaused
    exact ⟨record', hrecord', by simpa using hpaused⟩
  · exact ⟨record, h.kept fun call hcall hresume => hresumes ⟨call, hcall, hresume⟩, hstate⟩

/-- A call that is no resume on the desk, concerns another run or raises changes nothing. -/
theorem Kept.call {runId : RunId} {record : RunRecord} {later : List DeskCall}
    (h : Kept runId record later w) (hsane : AllSane w') (hnot : ¬ Refiles runId ⟨entry, t, r⟩)
    (hrecord : w'.records runId = w.records runId) : Kept runId record (later ++ [⟨entry, t, r⟩]) w' := by
  refine ⟨hsane, fun hresumes => ?_, ?_⟩
  · rw [hrecord]
    exact h.kept fun call hcall => hresumes call (List.mem_append_left _ hcall)
  · rintro ⟨call, hcall, hresume⟩
    rw [hrecord]
    rcases List.mem_append.mp hcall with hcall | hcall
    · exact h.failed ⟨call, hcall, hresume⟩
    · obtain rfl := List.mem_singleton.mp hcall
      exact absurd hresume hnot

theorem calls_keep {runId : RunId} {record : RunRecord} {later : List DeskCall} (hsane : AllSane w)
    (hrecord : w.records runId = some record) (hstate : record.state = none)
    (hcalls : DeskCalls desk w later w') : Kept runId record later w' := by
  refine hcalls.invariant (I := fun later (w' : World) => Kept runId record later w') ?_ ?_ ?_
  · exact ⟨hsane, fun _ => hrecord, by simp⟩
  · rintro later w w' ⟨hsane, hkept, hfailed⟩ hrecords
    refine ⟨?_, ?_, ?_⟩
    · simpa only [AllSane, hrecords] using hsane
    · simpa only [hrecords] using hkept
    · simpa only [hrecords] using hfailed
  · intro later w entry t r w' hkept hr
    obtain ⟨changed, hleaves⟩ := entry_leaves "" entry hkept.sane t r w' hr
    have hsane := hleaves.sane hkept.sane
    obtain ⟨current, hcurrent, hnone⟩ := hkept.ended hstate
    by_cases hresume : entry.Resumes runId
    · obtain ⟨report, decision, stream, rfl, rfl⟩ := hresume
      cases r with
      | error e =>
        refine hkept.call hsane (fun h => nomatch h.2) ?_
        rw [resume_raised decision stream hcurrent hnone t _ w' hr e rfl, hcurrent]
      | ok x =>
        have hfailed := resume_failed decision stream hcurrent hnone t _ w' hr x rfl
        have hrefiles : Refiles report.runId ⟨Entry.resume report decision stream, t, .ok x⟩ :=
          ⟨⟨report, decision, stream, rfl, rfl⟩, rfl⟩
        refine ⟨hsane, fun hno => ?_, fun _ => hfailed⟩
        exact absurd hrefiles (hno _ (List.mem_append_right _ (List.mem_singleton.mpr rfl)))
    · refine hkept.call hsane (fun h => hresume h.1) ?_
      by_cases hchanged : runId = changed
      swap
      · exact hleaves.others runId hchanged
      subst hchanged
      cases entry with
      | run => exact hleaves.known rfl (by rw [hcurrent]; rfl)
      | runFlow => exact hleaves.known rfl (by rw [hcurrent]; rfl)
      | resume report decision stream =>
        have htarget := hleaves.target report.runId rfl
        exact absurd ⟨report, decision, stream, rfl, htarget.symm⟩ hresume
      | resumeFlow flow report decision stream =>
        obtain rfl := hleaves.target report.runId rfl
        have hnone' : (w.records report.runId).bind RunRecord.state = none := by rw [hcurrent]; exact hnone
        rw [resumeFlow_kept flow decision stream hnone' t r w' hr]

/-- The record of a completed run stays as it is as long as the run is not resumed on the desk; a
resume there that returns files it as failed, and so it stays. -/
theorem completed_kept_iff (h : Reached desk w₀ calls w) {later : List DeskCall}
    (hcalls : DeskCalls desk w later w') {runId : RunId} {record : RunRecord}
    (hrecord : w.records runId = some record) (hcompleted : record.status = .completed)
    (hreturned : ∀ call ∈ later, call.entry.Resumes runId → call.returned = true) :
    (w'.records runId = some record ↔ ∀ call ∈ later, ¬ call.entry.Resumes runId) ∧
      ((∃ call ∈ later, call.entry.Resumes runId) →
        ∃ record', w'.records runId = some record' ∧ record'.status = .failed) := by
  have hstate : record.state = none := by
    have hpaused := (h.sane runId record hrecord).paused
    rw [hcompleted] at hpaused
    simpa using hpaused
  have hkept := calls_keep h.sane hrecord hstate hcalls
  have hfailed : (∃ call ∈ later, call.entry.Resumes runId) →
      ∃ record', w'.records runId = some record' ∧ record'.status = .failed := fun ⟨call, hcall, hresume⟩ =>
    hkept.failed ⟨call, hcall, hresume, hreturned call hcall hresume⟩
  refine ⟨⟨fun hsame call hcall hresume => ?_, fun hno => ?_⟩, hfailed⟩
  · obtain ⟨record', hrecord', hfailed⟩ := hfailed ⟨call, hcall, hresume⟩
    obtain rfl := Option.some.inj (hsame.symm.trans hrecord')
    exact nomatch hcompleted.symm.trans hfailed
  · exact hkept.kept fun call hcall h => hno call hcall h.1

theorem completed_approved : ∃ record, approved.2.2.records "run" = some record ∧ record.status = .completed := by
  have hstatus : (approved.2.2.records "run").map RunRecord.status = some .completed := by decide +kernel
  exact Option.map_eq_some_iff.mp hstatus

theorem completed_kept_iff_again : ∃ record, approved.2.2.records "run" = some record ∧
    record.status = .completed ∧ approvedAgain.2.2.records "run" ≠ some record ∧
      ∃ record', approvedAgain.2.2.records "run" = some record' ∧ record'.status = .failed := by
  obtain ⟨record, hrecord, hcompleted⟩ := completed_approved
  have hreturned : Except.isOk approvedAgain.2.1 = true := by decide +kernel
  have hcalls : DeskCalls plainDesk approved.2.2 [⟨approveEntry, approvedAgain.1, approvedAgain.2.1⟩]
      approvedAgain.2.2 := Calls.start.call (runs_ran approveEntry _)
  have hresumed : approveEntry.Resumes "run" := ⟨waitingReport, .bool true, none, rfl, rfl⟩
  obtain ⟨hkept, hfailed⟩ := completed_kept_iff reached_approved hcalls hrecord hcompleted (by
    intro call hcall _
    obtain rfl := List.mem_singleton.mp hcall
    exact hreturned)
  exact ⟨record, hrecord, hcompleted, fun hsame => hkept.mp hsame _ (List.mem_singleton.mpr rfl) hresumed,
    hfailed ⟨_, List.mem_singleton.mpr rfl, hresumed⟩⟩

/-- A record with the status and the outputs of another one. -/
structure SameOutput (record record' : RunRecord) : Prop where
  status : record'.status = record.status
  output : record'.output = record.output
  outputJson : record'.outputJson = record.outputJson

/-- A completed run keeps its status and its outputs over any calls as long as no resume of it on the
desk returns, and only so long. -/
theorem completed_lasts_iff (h : Reached desk w₀ calls w) {later : List DeskCall}
    (hcalls : DeskCalls desk w later w') {runId : RunId} {record : RunRecord}
    (hrecord : w.records runId = some record) (hcompleted : record.status = .completed) :
    (∃ record', w'.records runId = some record' ∧ SameOutput record record') ↔
      ∀ call ∈ later, ¬ Refiles runId call := by
  have hstate : record.state = none := by
    have hpaused := (h.sane runId record hrecord).paused
    rw [hcompleted] at hpaused
    simpa using hpaused
  have hkept := calls_keep h.sane hrecord hstate hcalls
  constructor
  · rintro ⟨record', hrecord', hsame⟩ call hcall hrefiles
    obtain ⟨failed, hfailed, hstatus⟩ := hkept.failed ⟨call, hcall, hrefiles⟩
    obtain rfl := Option.some.inj (hrecord'.symm.trans hfailed)
    exact nomatch hstatus.symm.trans (hsame.status.trans hcompleted)
  · exact fun hno => ⟨record, hkept.kept hno, rfl, rfl, rfl⟩

/-- Another run under the id of the completed one is refused. -/
abbrev deployedAgain : Trace sig × Except Exn Report × World := ran deployEntry approved.2.2

theorem completed_lasts_iff_deployed : ∃ record record', approved.2.2.records "run" = some record ∧
    record.status = .completed ∧ deployedAgain.2.2.records "run" = some record' ∧ SameOutput record record' := by
  obtain ⟨record, hrecord, hcompleted⟩ := completed_approved
  have hcalls : DeskCalls plainDesk approved.2.2 [⟨deployEntry, deployedAgain.1, deployedAgain.2.1⟩]
      deployedAgain.2.2 := Calls.start.call (runs_ran deployEntry _)
  obtain ⟨record', hrecord', hsame⟩ :=
    (completed_lasts_iff reached_approved hcalls hrecord hcompleted).mpr (by
      intro call hcall hrefiles
      obtain rfl := List.mem_singleton.mp hcall
      obtain ⟨⟨_, _, _, hentry, -⟩, -⟩ := hrefiles
      cases hentry)
  exact ⟨record, record', hrecord, hcompleted, hrecord', hsame⟩

/-- A completed run does not stay as it is over all calls. -/
theorem not_completed_lasts : ¬ ∀ (desk : DeskSettings) (w₀ w w' : World) (calls later : List DeskCall)
    (runId : RunId) (record : RunRecord), Reached desk w₀ calls w → DeskCalls desk w later w' →
      w.records runId = some record → record.status = .completed →
        ∃ record', w'.records runId = some record' ∧ SameOutput record record' := by
  intro h
  obtain ⟨record, hrecord, hcompleted⟩ := completed_approved
  obtain ⟨record', hrecord', hsame⟩ := h plainDesk _ _ _ _ _ "run" record reached_approved
    (Calls.start.call (runs_ran approveEntry _)) hrecord hcompleted
  have hstatus : (approvedAgain.2.2.records "run").map RunRecord.status = some .failed := by decide +kernel
  rw [hrecord', Option.map_some] at hstatus
  exact nomatch (Option.some.inj hstatus).symm.trans (hsame.status.trans hcompleted)

/-! ### Decisions -/

/-- The action that an event decides on, or runs a tool for. -/
def actsOn : Event sig → Option String
  | ⟨.decide pending _, _⟩ => some pending.actionId
  | ⟨.runTool _ _ approved, _⟩ => approved
  | _ => none

theorem actsOn_only {action : String} {waiting : Option Awaited} {decision : Value} {e : Event sig}
    (h : OnlyAction waiting decision e) (hacts : actsOn e = some action) :
    ∃ x, waiting = some x ∧ x.actionId = action := by
  obtain ⟨q, answer⟩ := e
  cases q with
  | runTool tool call approved =>
    obtain rfl : approved = some action := hacts
    obtain ⟨x, hx, hid, -⟩ := h
    exact ⟨x, hx, hid⟩
  | decide pending decision =>
    obtain rfl : pending.actionId = action := Option.some.inj hacts
    exact ⟨awaited pending, h.1, rfl⟩
  | _ => cases hacts

/-- The call resumed the run or created it. -/
def IsOn (runId : RunId) (call : DeskCall) : Prop :=
  call.entry.target = some runId ∨ call.entry.target = none ∧ creation runId ∈ call.trace

/-- The last paused report of a run: no later resume of the run has returned another one. -/
def LastPaused (runId : RunId) (calls : List DeskCall) (report : Report) : Prop :=
  ∃ pre call post, calls = pre ++ call :: post ∧ IsOn runId call ∧ call.result = .ok report ∧
    report.status = .paused ∧ ∀ later ∈ post, later.entry.target = some runId →
      ∀ other, later.result = .ok other → other.status ≠ .paused

theorem LastPaused.behind {runId : RunId} {report : Report} {call : DeskCall} (h : LastPaused runId calls report)
    (hcall : call.entry.target = some runId → ∀ other, call.result = .ok other → other.status ≠ .paused) :
    LastPaused runId (calls ++ [call]) report := by
  obtain ⟨pre, first, post, rfl, hon, hresult, hpaused, hpost⟩ := h
  refine ⟨pre, first, post ++ [call], by simp, hon, hresult, hpaused, fun later hlater => ?_⟩
  rcases List.mem_append.mp hlater with hlater | hlater
  · exact hpost later hlater
  · exact List.mem_singleton.mp hlater ▸ hcall

/-- What is stored waits for the action of the run's last paused report. -/
def WaitsForLast (calls : List DeskCall) (w : World) : Prop :=
  ∀ runId state, (w.records runId).bind RunRecord.state = some state →
    ∃ report, LastPaused runId calls report ∧ Carries report (runAction state)

theorem Entry.Leaves.waitsForLast {a : String} {runId : RunId} (h : entry.Leaves a w t r w' runId)
    (hwaits : WaitsForLast calls w) : WaitsForLast (calls ++ [⟨entry, t, r⟩]) w' := by
  intro r' state hstate
  have hkept : w'.records r' = w.records r' →
      (entry.target = some r' → ∀ other, r = .ok other → other.status ≠ .paused) →
      ∃ report, LastPaused r' (calls ++ [⟨entry, t, r⟩]) report ∧ Carries report (runAction state) := by
    intro hsame hcall
    obtain ⟨report, hlast, hcarries⟩ := hwaits r' state (hsame ▸ hstate)
    exact ⟨report, hlast.behind hcall, hcarries⟩
  by_cases hr' : r' = runId
  swap
  · exact hkept (h.others r' hr') fun htarget => absurd (h.target r' htarget).symm hr'
  subst hr'
  cases h.effect.settled with
  | @filed report record hrecord hfiled =>
    rw [hrecord] at hstate
    obtain ⟨hcarries, -⟩ := hfiled.waits state hstate
    have hon : IsOn r' ⟨entry, t, .ok report⟩ ∨ w'.records r' = w.records r' ∧ entry.target = none := by
      cases htarget : entry.target with
      | some target => exact .inl (.inl (htarget.trans (congrArg some (h.target target htarget).symm)))
      | none => exact (h.created htarget).symm.imp (fun hcreated => .inr ⟨htarget, hcreated.2⟩) fun hsame => ⟨hsame, rfl⟩
    rcases hon with hon | ⟨hsame, htarget⟩
    · exact ⟨report, ⟨calls, _, [], rfl, hon, rfl, hcarries.1, by simp⟩, hcarries⟩
    · exact hkept hsame fun h => nomatch htarget.symm.trans h
  | refused hsame hfailed _ =>
    refine hkept hsame fun _ other hother hpaused => ?_
    obtain rfl := Except.ok.inj hother
    exact nomatch hfailed.symm.trans hpaused
  | kept hsame => exact hkept hsame fun _ _ h => nomatch h
  | begun _ hbegun =>
    rw [hbegun] at hstate
    cases hstate
  | ended hended hnone _ =>
    rw [hended] at hstate
    exact nomatch hnone.symm.trans hstate

theorem Reached.waits (h : Reached desk w₀ calls w) : WaitsForLast calls w := by
  have hwaits : AllSane w ∧ WaitsForLast calls w := by
    refine h.calls.invariant (I := fun calls (w : World) => AllSane w ∧ WaitsForLast calls w) ?_ ?_ ?_
    · exact ⟨fun runId record hrecord => by simp [h.new] at hrecord,
        fun runId state hstate => by simp [h.new] at hstate⟩
    · rintro calls w w' ⟨hsane, hwaits⟩ hrecords
      simpa only [AllSane, WaitsForLast, hrecords] using And.intro hsane hwaits
    · rintro calls w entry t r w' ⟨hsane, hwaits⟩ hr
      obtain ⟨runId, hleaves⟩ := entry_leaves "" entry hsane t r w' hr
      exact ⟨hleaves.sane hsane, hleaves.waitsForLast hwaits⟩
  exact hwaits.2

/-- What a resume finds awaited is what the last paused report of its run carries. -/
theorem Reached.awaited (h : Reached desk w₀ calls w) {x : Awaited} (hx : entry.action w = some x) :
    ∃ runId report pending, entry.target = some runId ∧ LastPaused runId calls report ∧
      report.pendingAction = some pending ∧ WorkerRunner.awaited pending = x := by
  obtain ⟨runId, htarget, hrecord⟩ := Option.bind_eq_some_iff.mp hx
  obtain ⟨state, hstate, haction⟩ := Option.bind_eq_some_iff.mp hrecord
  obtain ⟨report, hlast, -, y, hy, hreport⟩ := h.waits runId state hstate
  obtain rfl := Option.some.inj (haction.symm.trans hy)
  obtain ⟨pending, hpending, hawaited⟩ := Option.map_eq_some_iff.mp hreport
  exact ⟨runId, report, pending, htarget, hlast, hpending, hawaited⟩

/-- A resume decides on no action but the one that the last paused report of its run carries, and runs
no other tool on approval; a new run does neither. -/
theorem decides_last (h : Reached desk w₀ calls w)
    (hr : Runs (S := sig) (fun _ _ => True) (entry.program desk) w t r w') {e : Event sig} (he : e ∈ t)
    {action : String} (hacts : actsOn e = some action) :
    ∃ runId report pending, entry.target = some runId ∧ LastPaused runId calls report ∧
      report.pendingAction = some pending ∧ pending.actionId = action := by
  obtain ⟨runId, hleaves⟩ := h.leaves "" hr
  obtain ⟨x, hx, rfl⟩ := actsOn_only (hleaves.effect.events e he) hacts
  obtain ⟨runId, report, pending, htarget, hlast, hpending, rfl⟩ := h.awaited hx
  exact ⟨runId, report, pending, htarget, hlast, hpending, rfl⟩

theorem decides_last_approved : ∃ e ∈ approved.1, actsOn e = some "7" ∧ ∃ report pending,
    LastPaused "run" [⟨deployEntry, deployed.1, deployed.2.1⟩] report ∧ report.pendingAction = some pending ∧
      pending.actionId = "7" := by
  have hacts : ∃ e ∈ approved.1, actsOn e = some "7" := by decide +kernel
  obtain ⟨e, he, haction⟩ := hacts
  obtain ⟨runId, report, pending, htarget, hlast, hpending⟩ := decides_last reached_deployed
    (runs_ran approveEntry _) he haction
  obtain rfl := Option.some.inj htarget
  exact ⟨e, he, haction, report, pending, hlast, hpending⟩

/-- A tool that is held back for a confirmation, a user input or a handoff runs only in a resume: it is
the tool that the last paused report of the run names, it runs on the call which that report carries,
and a confirmation has been given. -/
theorem tools_guarded (h : Reached desk w₀ calls w)
    (hr : Runs (S := sig) (fun _ _ => True) (entry.program desk) w t r w') {tool : Tool} {call : ToolCall}
    {approval : Option String} {answer : Except Exn ToolResult} (he : ⟨.runTool tool call approval, answer⟩ ∈ t) :
    approval = none ∧ Unguarded tool ∨ ∃ runId report pending, approval = some pending.actionId ∧
      entry.target = some runId ∧ LastPaused runId calls report ∧ report.pendingAction = some pending ∧
        (awaited pending).Fulfils entry.decision tool call := by
  obtain ⟨runId, hleaves⟩ := h.leaves "" hr
  have honly := hleaves.effect.events _ he
  cases approval with
  | none => exact .inl ⟨rfl, honly⟩
  | some action =>
    obtain ⟨x, hx, rfl, hfulfils⟩ := honly
    obtain ⟨runId, report, pending, htarget, hlast, hpending, rfl⟩ := h.awaited hx
    exact .inr ⟨runId, report, pending, rfl, htarget, hlast, hpending, hfulfils⟩

theorem runTool_of_cost {a : String} {e : Event sig} (h : (approvals a).cost e ≠ 0) :
    ∃ tool call answer, e = ⟨.runTool tool call (some a), answer⟩ := by
  obtain ⟨q, answer⟩ := e
  cases q with
  | runTool tool call approved =>
    by_cases happroved : approved = some a
    · exact ⟨tool, call, answer, by rw [happroved]⟩
    · exact absurd (if_neg happroved) h
  | _ => exact absurd rfl h

theorem tools_guarded_approved : ∃ tool call answer, ⟨.runTool tool call (some "7"), answer⟩ ∈ approved.1 ∧
    ∃ report pending, LastPaused "run" [⟨deployEntry, deployed.1, deployed.2.1⟩] report ∧
      report.pendingAction = some pending ∧ (awaited pending).Fulfils (.bool true) tool call := by
  have hruns : ∃ e ∈ approved.1, ∃ tool call answer, e = ⟨.runTool tool call (some "7"), answer⟩ := by
    have hspent : (approvals "7").spent approved.1 ≠ 0 := by decide +kernel
    have hcosts : ∃ e ∈ approved.1, (approvals "7").cost e ≠ 0 := by
      by_contra! hnone
      exact hspent ((approvals "7").spent_eq_zero hnone)
    obtain ⟨e, hmem, hcost⟩ := hcosts
    exact ⟨e, hmem, runTool_of_cost hcost⟩
  obtain ⟨e, he, tool, call, answer, rfl⟩ := hruns
  rcases tools_guarded reached_deployed (runs_ran approveEntry _) he with ⟨hnone, -⟩ | hfulfilled
  · cases hnone
  · obtain ⟨runId, report, pending, -, htarget, hlast, hpending, hfulfils⟩ := hfulfilled
    obtain rfl := Option.some.inj htarget
    exact ⟨tool, call, answer, he, report, pending, hlast, hpending, hfulfils⟩

/-! ### Approved executions -/

section

variable {a : String}

/-- The records hold at most so many credits for executions of the action. -/
def Holding (a : String) (n : ℕ) (w : World) : Prop :=
  AllSane w ∧ ∃ known : Finset RunId, (∀ runId ∉ known, w.records runId = none) ∧
    ∑ runId ∈ known, recordCredits a (w.records runId) ≤ n

/-- The credits of all records, one record set apart. -/
theorem sum_records {known : Finset RunId} (hknown : ∀ runId ∉ known, w.records runId = none) (runId : RunId) :
    recordCredits a (w.records runId) +
        ∑ r' ∈ (insert runId known).erase runId, recordCredits a (w.records r') =
      ∑ r' ∈ known, recordCredits a (w.records r') := by
  rw [Finset.add_sum_erase _ (fun r' => recordCredits a (w.records r')) (Finset.mem_insert_self runId known)]
  by_cases hmem : runId ∈ known
  · rw [Finset.insert_eq_of_mem hmem]
  · have hzero : recordCredits a (w.records runId) = 0 := by
      rw [hknown runId hmem]
      rfl
    rw [Finset.sum_insert hmem, hzero, Nat.zero_add]

theorem Entry.Leaves.solvent {runId : RunId} {n : ℕ} (h : entry.Leaves a w t r w' runId) (hheld : Holding a n w) :
    Solvent (approvals a) (Holding a) n t r w' := by
  obtain ⟨hsane, known, hknown, hsum⟩ := hheld
  have hknown' : ∀ r' ∉ insert runId known, w'.records r' = none := by
    intro r' hr'
    obtain ⟨hne, hmem⟩ := not_or.mp (fun h => hr' (Finset.mem_insert.mpr h))
    exact (h.others r' hne).trans (hknown r' hmem)
  have hold := sum_records (a := a) hknown runId
  have hnew := sum_records (a := a) hknown' runId
  have hrest : ∑ r' ∈ (insert runId known).erase runId, recordCredits a (w'.records r') =
      ∑ r' ∈ (insert runId known).erase runId, recordCredits a (w.records r') :=
    Finset.sum_congr rfl fun r' hr' => by rw [h.others r' (Finset.ne_of_mem_erase hr')]
  rw [Finset.insert_eq_of_mem (Finset.mem_insert_self runId known), hrest] at hnew
  have hpays := h.effect.pays
  refine ⟨by omega, h.sane hsane, insert runId known, hknown', ?_⟩
  cases r with
  | error e =>
    have hle := h.effect.settled.credits_le (a := a)
    simp only [Except.isOk, Except.toBool, Bool.false_eq_true, if_false]
    omega
  | ok report =>
    simp only [left, Except.isOk, Except.toBool, if_true] at hpays ⊢
    omega

/-- How often the tool behind an action has run on its approval in a call. -/
def approvedRuns (a : String) (call : DeskCall) : ℕ := (approvals a).spent call.trace

/-- How often the id of an action was handed out as a new one. -/
def handedOut (a : String) (calls : List DeskCall) : ℕ := (approvals a).earnedBy calls

/-- No call runs the tool of an action more often than its id was handed out, those that returned
before it counted in. -/
theorem Reached.ledger (a : String) (h : Reached desk w₀ calls w) :
    (approvals a).spentBy calls ≤ handedOut a calls ∧ ∀ pre call post, calls = pre ++ call :: post →
      (approvals a).spentBy pre + approvedRuns a call ≤ handedOut a (pre ++ [call]) := by
  have hstart : Holding a 0 w₀ :=
    ⟨fun runId record hrecord => by simp [h.new] at hrecord, ∅, fun runId _ => h.new runId, by simp⟩
  have hledger := h.calls.ledger (T := approvals a) hstart ?_ ?_
  · obtain ⟨⟨left, -, hsum⟩, hcalls⟩ := hledger
    refine ⟨by unfold handedOut; omega, fun pre call post hsplit => ?_⟩
    have hle := hcalls pre call post hsplit
    unfold handedOut approvedRuns
    omega
  · rintro n w w' ⟨hsane, known, hknown, hsum⟩ hrecords
    exact ⟨by simpa only [AllSane, hrecords] using hsane, known, by rwa [hrecords], by rwa [hrecords]⟩
  · intro n w entry t r w' hheld hr
    obtain ⟨runId, hleaves⟩ := entry_leaves a entry hheld.1 t r w' hr
    exact hleaves.solvent hheld

/-- The tool behind an approved action runs at most once in a call, and once a call in which it has
run has returned, it does not run again. -/
theorem approved_once (h : Reached desk w₀ calls w) {pre post : List DeskCall} {call : DeskCall}
    (hcalls : calls = pre ++ call :: post) (hfresh : handedOut a (pre ++ [call]) ≤ 1) :
    approvedRuns a call ≤ 1 ∧ ∀ earlier ∈ pre, earlier.returned = true → 0 < approvedRuns a earlier →
      approvedRuns a call = 0 := by
  have hle := (h.ledger a).2 pre call post hcalls
  refine ⟨by omega, fun earlier hearlier hreturned hran => ?_⟩
  have hspent := (approvals a).spent_le_spentBy hearlier hreturned
  unfold approvedRuns at hran hle ⊢
  omega

theorem approved_once_again :
    approvedRuns "7" ⟨approveEntry, approvedAgain.1, approvedAgain.2.1⟩ = 0 := by
  have hreached : Reached plainDesk {} ([⟨deployEntry, deployed.1, deployed.2.1⟩,
      ⟨approveEntry, approved.1, approved.2.1⟩] ++ [⟨approveEntry, approvedAgain.1, approvedAgain.2.1⟩])
      approvedAgain.2.2 := ⟨fun _ => rfl, reached_approved.calls.call (runs_ran approveEntry _)⟩
  have hreturned : Except.isOk approved.2.1 = true := by decide +kernel
  exact (approved_once hreached (a := "7") rfl (by decide +kernel)).2
    ⟨approveEntry, approved.1, approved.2.1⟩ (by simp) hreturned (by decide +kernel)

end

end Blackgeorge.Desk
