import Blackgeorge.Coroutine.Solo
import Blackgeorge.Desk.Calls
import Blackgeorge.Workflow.Pending

/-! What the operations on the run store do to its records, and what a call leaves alone
while it writes the record of one run. -/

namespace Blackgeorge.Desk

open Data Program Coroutine Coro WorkerRunner WorkforceRun Workflow

variable {w : World}

/-! ### Programs that leave the records -/

/-- A quiet program that pays is one quiet step. -/
theorem after_pays {event : Event sig → Prop} {T : Tariff sig} {α : Type} {m : ℕ} {c : Prog α}
    {P : α → ℕ} {Φ : α → Prop} (h : Pays (quietLaw event) T m c P Φ) :
    After (S := sig) (fun _ _ => True) c w fun t r w' => Quiet w w' ∧
      T.spent t + left P r ≤ m + T.earned t ∧ (∀ e ∈ t, event e) ∧ ∀ x, r = .ok x → Φ x := by
  intro t r w' hr
  exact ⟨h.each.runs_step Quiet.refl Quiet.trans hr, h.runs hr⟩

theorem after_deskOpen (w : World) :
    After (S := sig) (fun _ _ => True) deskOpen w fun t _ w' => t = [] ∧ w' = w := by
  apply after_bind
  apply after_look
  show After (S := sig) _ (if w.closed then _ else _) w _
  split_ifs
  · exact after_raise ⟨rfl, rfl⟩
  · exact after_pure ⟨rfl, rfl⟩

theorem after_store (op : StoreOp) (w : World) :
    After (S := sig) (fun _ _ => True) (Prog.store op) w fun t r w' =>
      t = [⟨.store op, r⟩] ∧ w' = w :=
  after_bind (after_query fun _ _ => after_ofExcept ⟨rfl, rfl⟩)

theorem after_getRun (runId : RunId) (w : World) :
    After (S := sig) (fun _ _ => True) (getRun runId) w fun t r w' =>
      (∀ e ∈ t, Undecided e) ∧ w' = w ∧ ∀ record, r = .ok record → record = w.records runId := by
  apply after_bind
  refine (after_store _ w).mono ?_
  rintro _ (e | _) _ ⟨rfl, rfl⟩
  · exact ⟨List.forall_mem_singleton.mpr trivial, rfl, fun _ h => nomatch h⟩
  · refine after_look ⟨List.forall_mem_singleton.mpr trivial, rfl, ?_⟩
    rintro _ ⟨⟩
    rfl

/-! ### Writing a record -/

/-- Another record at a run: nothing else changes. -/
structure Writes (runId : RunId) (record : RunRecord) (w w' : World) : Prop where
  records : w'.records = Function.update w.records runId (some record)
  flows : w'.flows = w.flows

theorem after_updateRun (desk : DeskSettings) {runId : RunId} (hcreated : (w.records runId).isSome = true)
    (status : RunStatus) (output : Option String) (outputJson : Value) (state : Option RunState) :
    After (S := sig) (fun _ _ => True) (updateRun desk runId status output outputJson state) w
      fun t r w' => (∀ e ∈ t, Undecided e) ∧ (∀ e, r = .error e → w' = w) ∧
        (r = .ok () → ∃ record, storedRecord desk status output outputJson state = .ok record ∧
          Writes runId record w w') := by
  apply after_bind
  apply after_ofExcept
  cases hrecord : storedRecord desk status output outputJson state with
  | error e => exact ⟨by simp, fun _ _ => rfl, fun h => nomatch h⟩
  | ok record =>
    apply after_bind
    refine (after_store _ w).mono ?_
    rintro _ (e | _) w₁ ⟨rfl, rfl⟩
    · exact ⟨List.forall_mem_singleton.mpr trivial, fun _ _ => rfl, fun h => nomatch h⟩
    · refine after_update ⟨List.forall_mem_singleton.mpr trivial, fun _ h => (nomatch h), fun _ => ?_⟩
      refine ⟨record, rfl, ?_⟩
      rw [if_pos (by simp [hcreated])]
      exact ⟨rfl, rfl⟩

/-- The event of a run's creation. -/
abbrev creation (runId : RunId) : Event sig := ⟨.store (.createRun runId), .ok ()⟩

/-- A created run has a record that runs; a known run is not created again. -/
theorem after_createRun (desk : DeskSettings) (runId : RunId) (job : Job) (w : World) :
    After (S := sig) (fun _ _ => True) (createRun desk runId job) w fun t r w' =>
      (∀ e ∈ t, Undecided e) ∧ (∀ e, r = .error e → w' = w) ∧
        (r = .ok () → creation runId ∈ t ∧ w.records runId = none ∧
          Writes runId { status := .running } w w') := by
  apply after_bind
  apply after_ofExcept
  cases orSerializationError job.persisted with
  | error e => exact ⟨by simp, fun _ _ => rfl, fun h => nomatch h⟩
  | ok _ =>
    apply after_bind
    apply after_look
    show After (S := sig) _ (if (w.records runId).isSome then _ else _) w _
    by_cases hknown : (w.records runId).isSome = true
    · rw [if_pos hknown]
      exact after_raise ⟨by simp, fun _ _ => rfl, fun h => nomatch h⟩
    · rw [if_neg hknown]
      apply after_bind
      refine (after_store _ w).mono ?_
      rintro _ (e | _) w₁ ⟨rfl, rfl⟩
      · exact ⟨List.forall_mem_singleton.mpr trivial, fun _ _ => rfl, fun h => nomatch h⟩
      · refine after_update ⟨List.forall_mem_singleton.mpr trivial, fun _ h => (nomatch h), fun _ => ?_⟩
        exact ⟨List.mem_singleton.mpr rfl, by simpa using hknown, rfl, rfl⟩

theorem storedRecord_status {desk : DeskSettings} {status : RunStatus} {output : Option String}
    {outputJson : Value} {state : Option RunState} {record : RunRecord}
    (h : storedRecord desk status output outputJson state = .ok record) :
    record.status = status ∧ record.output = output ∧ (record.state.isSome = state.isSome) := by
  unfold storedRecord at h
  by_cases hmemory : desk.inMemoryStore = true
  · rw [if_pos hmemory] at h
    obtain rfl := Except.ok.inj h
    exact ⟨rfl, rfl, rfl⟩
  by_cases hplain : outputJson.plain = true
  · rw [if_neg hmemory, if_pos hplain] at h
    obtain ⟨stored, hstored, h⟩ := ok_of_bind h
    obtain rfl := Except.ok.inj h
    refine ⟨rfl, rfl, ?_⟩
    have hmap := WorkforceRun.orSerializationError_ok hstored
    cases state with
    | none =>
      obtain rfl : none = stored := by simpa using hmap
      rfl
    | some s =>
      obtain ⟨s', -, rfl⟩ : ∃ s', s.persisted = some s' ∧ some s' = stored := by simpa using hmap
      rfl
  · rw [if_neg hmemory, if_neg hplain] at h
    cases h

end Blackgeorge.Desk
