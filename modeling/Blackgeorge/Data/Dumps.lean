import Blackgeorge.Data.State

/-! What comes back from JSON is written as itself. -/

namespace Blackgeorge.Data

variable {α β : Type}

/-- A sequence that returns has returned in both parts. -/
theorem ok_of_bind {α β ε : Type} {x : Except ε α} {f : α → Except ε β} {b : β}
    (h : (x >>= f) = .ok b) : ∃ a, x = .ok a ∧ f a = .ok b := by
  cases x with
  | error e => cases h
  | ok a => exact ⟨a, rfl, h⟩

/-- What `f` gives is kept by `f`. -/
def Settles (f : α → Option α) : Prop := ∀ a b, f a = some b → f b = some b

theorem Settles.list {f : α → Option α} (h : Settles f) : Settles fun l : List α => l.mapM f := by
  intro l l' hl
  induction l generalizing l' with
  | nil =>
    obtain rfl : [] = l' := by simpa using hl
    rfl
  | cons a l ih =>
    simp only [List.mapM_cons, Option.bind_eq_bind, Option.bind_eq_some_iff] at hl
    obtain ⟨b, hb, bs, hbs, hl⟩ := hl
    obtain rfl := Option.some.inj hl
    have hrest := ih bs hbs
    dsimp only at hrest
    simp [h a b hb, hrest]

theorem Settles.option {f : α → Option α} (h : Settles f) : Settles fun o : Option α => o.mapM f := by
  intro o o' ho
  cases o with
  | none =>
    obtain rfl : none = o' := by simpa using ho
    rfl
  | some a =>
    obtain ⟨b, hb, rfl⟩ : ∃ b, f a = some b ∧ some b = o' := by simpa using ho
    simp [h a b hb]

theorem forall₂_of_mapM {α β : Type} {f : α → Option β} {l : List α} {l' : List β}
    (h : l.mapM f = some l') : List.Forall₂ (fun a b => f a = some b) l l' := by
  induction l generalizing l' with
  | nil =>
    obtain rfl : [] = l' := by simpa using h
    exact .nil
  | cons a l ih =>
    simp only [List.mapM_cons, Option.bind_eq_bind, Option.bind_eq_some_iff] at h
    obtain ⟨b, hb, bs, hbs, h⟩ := h
    obtain rfl : b :: bs = l' := by simpa using h
    exact .cons hb (ih hbs)

theorem exists_of_mem_right {α β : Type} {R : α → β → Prop} {l : List α} {l' : List β}
    (h : List.Forall₂ R l l') {b : β} (hb : b ∈ l') : ∃ a ∈ l, R a b := by
  induction h with
  | nil => cases hb
  | cons hab _ ih =>
    rcases List.mem_cons.mp hb with rfl | hb
    · exact ⟨_, List.mem_cons_self, hab⟩
    · obtain ⟨a, ha, h⟩ := ih hb
      exact ⟨a, List.mem_cons_of_mem _ ha, h⟩

theorem settles_dumpJson : Settles Value.dumpJson := fun _ _ h => Value.dumpJson_dumpJson h

theorem settles_dict : Settles Dict.persisted := by
  refine Settles.list fun f g h => ?_
  simp only [Option.bind_eq_bind, Option.bind_eq_some_iff] at h
  obtain ⟨v, hv, h⟩ := h
  obtain rfl := Option.some.inj h
  simp [settles_dumpJson _ _ hv]

theorem settles_callResult : Settles CallResult.persisted := by
  rintro (r | v) b h
  · simp only [CallResult.persisted, Option.bind_eq_bind, Option.bind_eq_some_iff] at h
    obtain ⟨u, hu, h⟩ := h
    obtain rfl := Option.some.inj h
    simp [CallResult.persisted, settles_dumpJson _ _ hu]
  · simp only [CallResult.persisted, Option.bind_eq_bind, Option.bind_eq_some_iff] at h
    obtain ⟨u, hu, h⟩ := h
    obtain rfl := Option.some.inj h
    simp [CallResult.persisted, settles_dumpJson _ _ hu]

theorem settles_toolCall : Settles ToolCall.persisted := by
  intro c c' h
  simp only [ToolCall.persisted, Option.bind_eq_bind, Option.bind_eq_some_iff] at h
  obtain ⟨arguments, ha, result, hr, h⟩ := h
  obtain rfl := Option.some.inj h
  simp [ToolCall.persisted, settles_dict _ _ ha, settles_callResult.option _ _ hr]

theorem settles_content : Settles Content.persisted := by
  rintro (s | items) b h
  · obtain rfl := Option.some.inj h
    rfl
  · simp only [Content.persisted, Option.bind_eq_bind, Option.bind_eq_some_iff] at h
    obtain ⟨items', hitems, h⟩ := h
    obtain rfl := Option.some.inj h
    simp [Content.persisted, settles_dumpJson.list _ _ hitems]

theorem settles_message : Settles Message.persisted := by
  intro m m' h
  simp only [Message.persisted, Option.bind_eq_bind, Option.bind_eq_some_iff] at h
  obtain ⟨content, hc, blocks, hb, toolCalls, ht, metadata, hm, h⟩ := h
  obtain rfl := Option.some.inj h
  simp [Message.persisted, settles_content _ _ hc, settles_dumpJson.list.option _ _ hb,
    settles_toolCall.list _ _ ht, settles_dict _ _ hm]

theorem settles_pendingAction : Settles PendingAction.persisted := by
  intro p p' h
  simp only [PendingAction.persisted, Option.bind_eq_bind, Option.bind_eq_some_iff] at h
  obtain ⟨toolCall, ht, metadata, hm, h⟩ := h
  obtain rfl := Option.some.inj h
  simp [PendingAction.persisted, settles_toolCall _ _ ht, settles_dict _ _ hm]

theorem settles_schema : Settles Schema.persisted := by
  intro s s' h
  cases s with
  | model path importable =>
    cases importable <;> cases h
    rfl
  | adapterModel path importable =>
    cases importable <;> cases h
    rfl
  | adapter => cases h

theorem schema_bind_persisted (s : Option Schema) :
    (s.bind Schema.persisted).bind Schema.persisted = s.bind Schema.persisted := by
  cases h : s.bind Schema.persisted with
  | none => rfl
  | some s' =>
    obtain ⟨a, _, ha⟩ := Option.bind_eq_some_iff.mp h
    exact settles_schema a s' ha

theorem settles_job : Settles Job.persisted := by
  intro j j' h
  simp only [Job.persisted, Option.bind_eq_bind, Option.bind_eq_some_iff] at h
  obtain ⟨input, hi, constraints, hc, initial, hm, thinking, ht, extra, he, h⟩ := h
  obtain rfl := Option.some.inj h
  simp [Job.persisted, settles_dumpJson _ _ hi, settles_dict _ _ hc, settles_message.list.option _ _ hm,
    settles_dict.option _ _ ht, settles_dict.option _ _ he, schema_bind_persisted, ToolRef.text,
    Function.comp_def]

theorem settles_report : Settles Report.persisted := by
  intro r r' h
  simp only [Report.persisted, Option.bind_eq_bind, Option.bind_eq_some_iff] at h
  obtain ⟨pending, hp, data, hd, messages, hm, toolCalls, ht, h⟩ := h
  obtain rfl := Option.some.inj h
  simp [Report.persisted, settles_pendingAction.option _ _ hp, settles_dumpJson _ _ hd,
    settles_message.list _ _ hm, settles_toolCall.list _ _ ht]

theorem settles_stateCore : Settles StateCore.persisted := by
  intro s s' h
  simp only [StateCore.persisted, Option.bind_eq_bind, Option.bind_eq_some_iff] at h
  obtain ⟨job, hj, messages, hm, toolCalls, ht, pending, hp, h⟩ := h
  obtain rfl := Option.some.inj h
  simp [StateCore.persisted, settles_job _ _ hj, settles_pendingAction.option _ _ hp,
    settles_message.list _ _ hm, settles_toolCall.list _ _ ht]

theorem settles_workerState : Settles WorkerState.persisted := by
  intro s s' h
  simp only [WorkerState.persisted, Option.bind_eq_bind, Option.bind_eq_some_iff] at h
  obtain ⟨core, hc, h⟩ := h
  obtain rfl := Option.some.inj h
  simp [WorkerState.persisted, settles_stateCore _ _ hc]

theorem settles_stage : Settles Stage.persisted := by
  intro s s' h
  cases s with
  | collaborate completedReports index =>
    simp only [Stage.persisted, Option.bind_eq_bind, Option.bind_eq_some_iff] at h
    obtain ⟨reports, hr, h⟩ := h
    obtain rfl := Option.some.inj h
    simp [Stage.persisted, settles_report.list _ _ hr]
  | swarm current count history =>
    simp only [Stage.persisted, Option.bind_eq_bind, Option.bind_eq_some_iff] at h
    obtain ⟨reports, hr, h⟩ := h
    obtain rfl := Option.some.inj h
    simp [Stage.persisted, settles_report.list _ _ hr]
  | _ =>
    obtain rfl := Option.some.inj h
    rfl

theorem settles_workforceState : Settles WorkforceState.persisted := by
  intro s s' h
  simp only [WorkforceState.persisted, Option.bind_eq_bind, Option.bind_eq_some_iff] at h
  obtain ⟨core, hc, stage, hs, workerState, hw, rootJob, hj, h⟩ := h
  obtain rfl := Option.some.inj h
  simp [WorkforceState.persisted, settles_stateCore _ _ hc, settles_stage _ _ hs,
    settles_workerState.option _ _ hw, settles_job.option _ _ hj]

theorem settles_stepState : Settles StepState.persisted := by
  rintro (s | s) s' h
  · simp only [StepState.persisted, Option.bind_eq_bind, Option.bind_eq_some_iff] at h
    obtain ⟨t, ht, h⟩ := h
    obtain rfl := Option.some.inj h
    simp [StepState.persisted, settles_workerState _ _ ht]
  · simp only [StepState.persisted, Option.bind_eq_bind, Option.bind_eq_some_iff] at h
    obtain ⟨t, ht, h⟩ := h
    obtain rfl := Option.some.inj h
    simp [StepState.persisted, settles_workforceState _ _ ht]

end Blackgeorge.Data
