import Blackgeorge.Desk.Sequences

/-! Resumes out of turn: with a report that is no longer the last of its run, and once more after
a resume that raised. A resume looks up what the run waits for now, whichever of its reports it is
given, and the state it has used up stays stored if it raises. -/

namespace Blackgeorge.Desk

open Data Program Coroutine Coro WorkerRunner WorkforceRun Workflow

variable {desk : DeskSettings} {w₀ w w' : World} {calls : List DeskCall} {entry : Entry} {t : Trace sig}
  {r : Except Exn Report} {a : String}

/-! ### Resumes with the first report of a run -/

@[irreducible] def ranUnder (answers : ℕ → ∀ q, Answer q) (entry : Entry) (w : World) :
    Trace sig × Except Exn Report × World :=
  runIn answers (entry.program plainDesk) w

theorem runs_ranUnder (answers : ℕ → ∀ q, Answer q) (entry : Entry) (w : World) :
    Runs (S := sig) (fun _ _ => True) (entry.program plainDesk) w (ranUnder answers entry w).1
      (ranUnder answers entry w).2.1 (ranUnder answers entry w).2.2 := by
  rw [ranUnder]
  exact runIn_runs (fun _ _ => trivial) _ _

/-- The report with which the run has paused. -/
def firstReport : Report := deployed.2.1.toOption.getD waitingReport

def resumeFirst : Entry := .resume firstReport (.bool true) none

/-- Calls the tool that waits in every turn. -/
def insistingModel (_ : ℕ) : ModelResponse where
  content := none
  toolCalls := [{ id := "c1", name := "deploy", arguments := [] }]

/-- The resume that runs the tool and pauses again. -/
abbrev pausedAgain : Trace sig × Except Exn Report × World :=
  ranUnder (plainAnswers insistingModel) resumeFirst deployed.2.2

/-- The same resume once more: the run waits for another action now. -/
abbrev staleResume : Trace sig × Except Exn Report × World :=
  ranUnder (plainAnswers deployModel) resumeFirst pausedAgain.2.2

/-- The model cannot be reached. -/
def outageAnswers (n : ℕ) : ∀ q, Answer q
  | .complete .. => .error (runtimeError "Connection reset")
  | q => plainAnswers deployModel n q

/-- The resume that runs the tool and raises in the model call behind it. -/
abbrev brokenResume : Trace sig × Except Exn Report × World :=
  ranUnder outageAnswers resumeFirst deployed.2.2

/-- The same resume once the model can be reached. -/
abbrev repeatedResume : Trace sig × Except Exn Report × World :=
  ranUnder (plainAnswers deployModel) resumeFirst brokenResume.2.2

/-! ### Decisions -/

/-- Whatever a resume decides on, runs a tool for or feeds with an input, it applies the decision it is
given, and to the action that the last paused report of its run carries. -/
theorem decisions_meet_last (h : Reached desk w₀ calls w)
    (hr : Runs (S := sig) (fun _ _ => True) (entry.program desk) w t r w') {e : Event sig} (he : e ∈ t)
    (hacts : (actsOn e).isSome = true) :
    ∃ runId report pending, entry.target = some runId ∧ LastPaused runId calls report ∧
      report.pendingAction = some pending ∧ OnlyAction (some (awaited pending)) entry.decision e := by
  obtain ⟨runId, hleaves⟩ := h.leaves "" hr
  have honly := hleaves.effect.events e he
  obtain ⟨action, haction⟩ := Option.isSome_iff_exists.mp hacts
  obtain ⟨x, hx, -⟩ := actsOn_only honly haction
  obtain ⟨runId, report, pending, htarget, hlast, hpending, rfl⟩ := h.awaited hx
  exact ⟨runId, report, pending, htarget, hlast, hpending, hx ▸ honly⟩

theorem decisions_meet_last_approved : ∃ e ∈ approved.1, ∃ report pending,
    LastPaused "run" [⟨deployEntry, deployed.1, deployed.2.1⟩] report ∧ report.pendingAction = some pending ∧
      OnlyAction (some (awaited pending)) (.bool true) e := by
  have hacts : ∃ e ∈ approved.1, (actsOn e).isSome = true := by decide +kernel
  obtain ⟨e, he, haction⟩ := hacts
  obtain ⟨runId, report, pending, htarget, hlast, hpending, honly⟩ := decisions_meet_last reached_deployed
    (runs_ran approveEntry _) he haction
  obtain rfl := Option.some.inj htarget
  exact ⟨e, he, report, pending, hlast, hpending, honly⟩

theorem deployed_firstReport : deployed.2.1 = .ok firstReport := by
  have hok : deployed.2.1.toOption.isSome = true := by decide +kernel
  rw [firstReport, ← Option.get_eq_getD (h := hok)]
  exact eq_ok_get hok

/-- A paused report of a run is no assurance that a resume with it decides on the action it carries. -/
theorem not_decisions_meet_own : ¬ ∀ (desk : DeskSettings) (w₀ w w' : World) (calls : List DeskCall)
    (report : Report) (decision : Value) (stream : Option Bool) (t : Trace sig) (r : Except Exn Report)
    (e : Event sig) (action : String), Reached desk w₀ calls w →
      (∃ call ∈ calls, call.result = .ok report ∧ report.status = .paused) →
      Runs (S := sig) (fun _ _ => True) ((Entry.resume report decision stream).program desk) w t r w' →
      e ∈ t → actsOn e = some action → report.pendingAction.map PendingAction.actionId = some action := by
  intro h
  have hreached : Reached plainDesk {} ([⟨deployEntry, deployed.1, deployed.2.1⟩] ++
      [⟨resumeFirst, pausedAgain.1, pausedAgain.2.1⟩]) pausedAgain.2.2 :=
    ⟨fun _ => rfl, reached_deployed.calls.call (runs_ranUnder _ resumeFirst _)⟩
  have hpaused : firstReport.status = .paused := by decide +kernel
  have hacts : ∃ e ∈ staleResume.1, actsOn e = some "11" := by decide +kernel
  have haction : firstReport.pendingAction.map PendingAction.actionId = some "7" := by decide +kernel
  obtain ⟨e, he, hacts⟩ := hacts
  have hsame := h plainDesk {} _ _ _ firstReport (.bool true) none _ _ e "11" hreached
    ⟨_, List.mem_append_left _ (List.mem_singleton.mpr rfl), deployed_firstReport, hpaused⟩
    (runs_ranUnder (plainAnswers deployModel) resumeFirst _) he hacts
  rw [haction] at hsame
  exact absurd (Option.some.inj hsame) (by decide)

/-! ### Executions -/

/-- The tool behind an action runs once in all calls if no call raises in which it has run. -/
theorem approved_once_in_all (h : Reached desk w₀ calls w) (hfresh : handedOut a calls ≤ 1)
    (hreturned : ∀ call ∈ calls, 0 < approvedRuns a call → call.returned = true) :
    (calls.map (approvedRuns a)).sum ≤ 1 := by
  have hle := (h.ledger a).1
  have hsum : (approvals a).spentBy calls = (calls.map (approvedRuns a)).sum :=
    (approvals a).spentBy_eq_sum hreturned
  omega

theorem approved_once_in_all_twice : ([(⟨deployEntry, deployed.1, deployed.2.1⟩ : DeskCall),
    ⟨approveEntry, approved.1, approved.2.1⟩, ⟨approveEntry, approvedAgain.1, approvedAgain.2.1⟩].map
      (approvedRuns "7")).sum ≤ 1 := by
  have hreached : Reached plainDesk {} ([⟨deployEntry, deployed.1, deployed.2.1⟩,
      ⟨approveEntry, approved.1, approved.2.1⟩] ++ [⟨approveEntry, approvedAgain.1, approvedAgain.2.1⟩])
      approvedAgain.2.2 := ⟨fun _ => rfl, reached_approved.calls.call (runs_ran approveEntry _)⟩
  have hreturned : ∀ call ∈ ([⟨deployEntry, deployed.1, deployed.2.1⟩,
      ⟨approveEntry, approved.1, approved.2.1⟩] ++ [⟨approveEntry, approvedAgain.1, approvedAgain.2.1⟩] :
      List DeskCall), 0 < approvedRuns "7" call → call.returned = true := by decide +kernel
  exact approved_once_in_all hreached (by decide +kernel) hreturned

/-- A tool that has run for an action runs for it again if the resume raised behind it. -/
theorem not_approved_once_in_all : ¬ ∀ (desk : DeskSettings) (w₀ w : World) (calls : List DeskCall)
    (a : String), Reached desk w₀ calls w → handedOut a calls ≤ 1 → (calls.map (approvedRuns a)).sum ≤ 1 := by
  intro h
  have hbroken : Reached plainDesk {} ([⟨deployEntry, deployed.1, deployed.2.1⟩] ++
      [⟨resumeFirst, brokenResume.1, brokenResume.2.1⟩]) brokenResume.2.2 :=
    ⟨fun _ => rfl, reached_deployed.calls.call (runs_ranUnder _ resumeFirst _)⟩
  have hrepeated : Reached plainDesk {} ([⟨deployEntry, deployed.1, deployed.2.1⟩] ++
      [⟨resumeFirst, brokenResume.1, brokenResume.2.1⟩] ++ [⟨resumeFirst, repeatedResume.1, repeatedResume.2.1⟩])
      repeatedResume.2.2 := ⟨fun _ => rfl, hbroken.calls.call (runs_ranUnder _ resumeFirst _)⟩
  exact absurd (h _ _ _ _ "7" hrepeated (by decide +kernel)) (by decide +kernel)

end Blackgeorge.Desk
