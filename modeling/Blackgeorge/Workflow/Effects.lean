import Blackgeorge.Workflow.Filing

/-! What a call does to the record of its run. -/

namespace Blackgeorge.Workflow

open Data Program Coroutine Coro WorkerRunner WorkforceRun Desk

variable {runId : RunId} {event : Event sig → Prop} {a : String} {before after : Option RunRecord} {m : ℕ}
  {t t' : Trace sig} {r : Except Exn Report}

/-! ### Records -/

/-- The record of a run that has only begun. -/
abbrev begunRecord : RunRecord := { status := .running }

/-- What is stored for a run is no flow's state. -/
def NoFlow (record : Option RunRecord) : Prop := ∀ state, record.bind RunRecord.state ≠ some (.flow state)

/-- The action that a record waits for. -/
def recordAction (record : Option RunRecord) : Option Awaited := (record.bind RunRecord.state).bind runAction

/-- What is stored for a run is sound if it is a flow's state. -/
def StoredSound (runId : RunId) (record : Option RunRecord) : Prop :=
  ∀ state, record.bind RunRecord.state = some state → RunOk runId state

theorem created_of_stored {record : Option RunRecord} {state : RunState}
    (h : record.bind RunRecord.state = some state) : record.isSome = true := by
  cases record with
  | none => cases h
  | some record => rfl

theorem recordCredits_of_stored {record : Option RunRecord} {state : RunState}
    (h : record.bind RunRecord.state = some state) : recordCredits a record = runCredits a state := by
  rw [recordCredits, h]
  rfl

theorem recordAction_of_stored {record : Option RunRecord} {state : RunState}
    (h : record.bind RunRecord.state = some state) : recordAction record = runAction state := by
  rw [recordAction, h]
  rfl

/-! ### What a call does -/

/-- What a call leaves of the record of its run. -/
inductive Settled (runId : RunId) (before after : Option RunRecord) : Except Exn Report → Prop
  | filed {report record} : after = some record → Filed runId report record →
    Settled runId before after (.ok report)
  | refused {report} : after = before → report.status = .failed → NoFlow before →
    Settled runId before after (.ok report)
  | kept {e} : after = before → Settled runId before after (.error e)
  | begun {e} : before = none → after = some begunRecord → Settled runId before after (.error e)
  | ended {e record} : after = some record → record.state = none →
    (record.status = .failed ∨ record.status = .completed) → Settled runId before after (.error e)

/-- A record is running only where the call that made it has raised. -/
theorem Settled.running {record : RunRecord} (h : Settled runId before (some record) r)
    (hrunning : record.status = .running) :
    before = some record ∨ before = none ∧ ∃ e, r = .error e := by
  cases h with
  | filed hrecord hfiled =>
    obtain rfl := Option.some.inj hrecord
    exact absurd hrunning hfiled.ended
  | refused hkept _ _ => exact .inl hkept.symm
  | kept hkept => exact .inl hkept.symm
  | begun hnone _ => exact .inr ⟨hnone, _, rfl⟩
  | ended hended _ hstatus =>
    obtain rfl := Option.some.inj hended
    rcases hstatus with hstatus | hstatus <;> exact nomatch hrunning.symm.trans hstatus

/-- A record that a call which raised has left holds no more than before. -/
theorem Settled.credits_le {e : Exn} (h : Settled runId before after (.error e)) :
    recordCredits a after ≤ recordCredits a before := by
  cases h with
  | kept hkept => rw [hkept]
  | begun _ hbegun =>
    rw [hbegun]
    exact Nat.zero_le _
  | ended hended hstate _ =>
    rw [hended]
    simp [recordCredits, hstate]

/-- The events of a call, what it pays for, and the record it leaves. -/
structure Effect (runId : RunId) (event : Event sig → Prop) (a : String) (before after : Option RunRecord)
    (t : Trace sig) (r : Except Exn Report) : Prop where
  events : ∀ e ∈ t, event e
  pays : (approvals a).spent t + left (S := sig) (fun _ => recordCredits a after) r ≤
    recordCredits a before + (approvals a).earned t
  settled : Settled runId before after r

theorem spent_undecided (h : ∀ e ∈ t, Undecided e) : (approvals a).spent t = 0 :=
  (approvals a).spent_eq_zero fun e he => approvals_cost (h e he)

/-- A call that raises and leaves the record. -/
theorem Effect.of_error {e : Exn} (hev : ∀ e, Undecided e → event e) (hevents : ∀ e ∈ t, Undecided e)
    (hkept : after = before) : Effect runId event a before after t (.error e) where
  events e he := hev e (hevents e he)
  pays := by
    rw [spent_undecided hevents]
    exact Nat.zero_le _
  settled := .kept hkept

/-- A call that refuses to do anything. -/
theorem Effect.of_refused {report : Report} (hev : ∀ e, Undecided e → event e)
    (hevents : ∀ e ∈ t, Undecided e) (hkept : after = before) (hstatus : report.status = .failed)
    (hflow : NoFlow before) : Effect runId event a before after t (.ok report) where
  events e he := hev e (hevents e he)
  pays := by
    rw [spent_undecided hevents, hkept]
    simp [left]
  settled := .refused hkept hstatus hflow

/-- Nothing is decided in front of a call. -/
theorem Effect.behind (h : Effect runId event a before after t' r) (hev : ∀ e, Undecided e → event e)
    (hevents : ∀ e ∈ t, Undecided e) : Effect runId event a before after (t ++ t') r where
  events e he := (List.mem_append.mp he).elim (fun he => hev e (hevents e he)) (h.events e)
  pays := by
    have hpays := h.pays
    rw [Tariff.spent_append, Tariff.earned_append, spent_undecided hevents]
    omega
  settled := h.settled

/-- What the part of a call does that ends it: a report is filed, whatever is raised. -/
structure Ends (runId : RunId) (event : Event sig → Prop) (a : String) (m : ℕ) (before after : Option RunRecord)
    (t : Trace sig) (r : Except Exn Report) : Prop where
  events : ∀ e ∈ t, event e
  pays : (approvals a).spent t + left (S := sig) (fun _ => recordCredits a after) r ≤ m + (approvals a).earned t
  filed : ∀ report, r = .ok report → ∃ record, after = some record ∧ Filed runId report record
  raised : ∀ e, r = .error e → Settled runId before after (.error e)

theorem Ends.of_error {e : Exn} (hev : ∀ e, Undecided e → event e) (hevents : ∀ e ∈ t, Undecided e)
    (hkept : after = before) : Ends runId event a m before after t (.error e) where
  events e he := hev e (hevents e he)
  pays := by
    rw [spent_undecided hevents]
    exact Nat.zero_le _
  filed _ h := nomatch h
  raised _ _ := .kept hkept

/-- What is filed for a report, with the trace of what has filed it. -/
theorem Ends.of_filed {record : RunRecord} {report : Report} (hev : ∀ e, Undecided e → event e)
    (hevents : ∀ e ∈ t, Undecided e) (hfiled : Filed runId report record)
    (hcredits : recordCredits a (some record) ≤ m) :
    Ends runId event a m before (some record) t (.ok report) where
  events e he := hev e (hevents e he)
  pays := by
    rw [spent_undecided hevents]
    simp only [left]
    omega
  filed report hr := by
    obtain rfl := Except.ok.inj hr
    exact ⟨record, rfl, hfiled⟩
  raised _ h := nomatch h

/-- A part that pays in front of the one that ends the call. -/
theorem Ends.behind {k : ℕ} (h : Ends runId event a k before after t' r) (hevents : ∀ e ∈ t, event e)
    (hpays : (approvals a).spent t + k ≤ m + (approvals a).earned t) :
    Ends runId event a m before after (t ++ t') r where
  events e he := (List.mem_append.mp he).elim (hevents e) (h.events e)
  pays := by
    have hrest := h.pays
    rw [Tariff.spent_append, Tariff.earned_append]
    omega
  filed := h.filed
  raised := h.raised

theorem Ends.effect (h : Ends runId event a m before after t r) (hm : m ≤ recordCredits a before) :
    Effect runId event a before after t r where
  events := h.events
  pays := h.pays.trans (Nat.add_le_add_right hm _)
  settled := by
    cases r with
    | error e => exact h.raised e rfl
    | ok report =>
      obtain ⟨record, hrecord, hfiled⟩ := h.filed report rfl
      exact .filed hrecord hfiled

/-- The end of a run that was created for the call. -/
theorem Ends.created (h : Ends runId event a 0 (some begunRecord) after t r) :
    Ends runId event a 0 none after t r where
  events := h.events
  pays := h.pays
  filed := h.filed
  raised e he := by
    cases h.raised e he with
    | kept hkept => exact .begun rfl hkept
    | begun hnone _ => cases hnone
    | ended hrecord hstate hstatus => exact .ended hrecord hstate hstatus

/-- What a call on a new run does: a run that is known is left alone. -/
def Creates (runId : RunId) (a : String) (before after : Option RunRecord) (t : Trace sig)
    (r : Except Exn Report) : Prop :=
  Effect runId Undecided a before after t r ∧ (after = before ∨ before = none ∧ creation runId ∈ t)

theorem Creates.of_error {e : Exn} (hevents : ∀ e ∈ t, Undecided e) (hkept : after = before) :
    Creates runId a before after t (.error e) :=
  ⟨.of_error (fun _ h => h) hevents hkept, .inl hkept⟩

theorem Creates.behind (h : Creates runId a before after t' r) (hevents : ∀ e ∈ t, Undecided e) :
    Creates runId a before after (t ++ t') r :=
  ⟨h.1.behind (fun _ h => h) hevents, h.2.imp_right fun h => ⟨h.1, List.mem_append_right _ h.2⟩⟩

/-- The end of a call behind the creation of its run. -/
theorem Creates.of_ends (h : Ends runId Undecided a 0 (some begunRecord) after t' r)
    (hevents : ∀ e ∈ t, Undecided e) (hcreation : creation runId ∈ t) :
    Creates runId a none after (t ++ t') r :=
  ⟨(h.created.effect (Nat.zero_le _)).behind (fun _ h => h) hevents, .inr ⟨rfl, List.mem_append_left _ hcreation⟩⟩

end Blackgeorge.Workflow
