import Blackgeorge.Data.Dumps

/-! What is the same after JSON: exactly what holds nothing but JSON values. -/

namespace Blackgeorge.Data

variable {α β γ : Type}

/-- What `f` gives satisfies `p`, and `f` keeps what satisfies `p`. -/
structure Fixes (f : α → Option α) (p : α → Prop) : Prop where
  plain : ∀ a b, f a = some b → p b
  keep : ∀ a, p a → f a = some a

/-- What went through JSON is what it was if and only if it was plain. -/
theorem Fixes.eq_iff {f : α → Option α} {p : α → Prop} (h : Fixes f p) {a b : α} (hf : f a = some b) :
    b = a ↔ p a := by
  constructor
  · rintro rfl
    exact h.plain _ _ hf
  · intro ha
    exact Option.some.inj (hf.symm.trans (h.keep a ha))

theorem Fixes.list {f : α → Option α} {p : α → Prop} (h : Fixes f p) :
    Fixes (fun l : List α => l.mapM f) fun l => ∀ a ∈ l, p a := by
  constructor
  · intro l
    induction l with
    | nil =>
      intro l' hl a ha
      obtain rfl : [] = l' := by simpa using hl
      cases ha
    | cons a l ih =>
      intro l' hl
      simp only [List.mapM_cons, Option.bind_eq_bind, Option.bind_eq_some_iff] at hl
      obtain ⟨b, hb, bs, hbs, hl⟩ := hl
      obtain rfl := Option.some.inj hl
      intro c hc
      obtain rfl | hc := List.mem_cons.mp hc
      · exact h.plain a c hb
      · exact ih bs hbs c hc
  · intro l hl
    induction l with
    | nil => rfl
    | cons a l ih =>
      have hrest := ih fun b hb => hl b (List.mem_cons_of_mem _ hb)
      rw [List.mapM_cons, h.keep a (hl a List.mem_cons_self), hrest]
      rfl

theorem Fixes.option {f : α → Option α} {p : α → Prop} (h : Fixes f p) :
    Fixes (fun o : Option α => o.mapM f) fun o => ∀ a, o = some a → p a := by
  constructor
  · intro o o' ho
    cases o with
    | none =>
      obtain rfl : none = o' := by simpa using ho
      intro a ha
      cases ha
    | some a =>
      obtain ⟨b, hb, rfl⟩ : ∃ b, f a = some b ∧ some b = o' := by simpa using ho
      intro c hc
      obtain rfl := Option.some.inj hc
      exact h.plain a b hb
  · intro o ho
    cases o with
    | none => rfl
    | some a => simp [h.keep a (ho a rfl)]

/-! ### JSON values and what holds them -/

theorem fixes_dumpJson : Fixes Value.dumpJson fun v => v.plain = true := by
  constructor
  · intro v u h
    unfold Value.dumpJson at h
    split_ifs at h with hp
    obtain rfl := Option.some.inj h
    exact hp
  · intro v h
    rw [Value.dumpJson, Value.dumped_of_plain h, if_pos h]

def Dict.Plain (d : Dict) : Prop := ∀ f ∈ d, f.2.plain = true

theorem Dict.plain_iff (d : Dict) : d.Plain ↔ Value.plainFields d = true := by
  induction d with
  | nil => simp [Dict.Plain, Value.plainFields]
  | cons f d ih =>
    obtain ⟨key, v⟩ := f
    unfold Dict.Plain at ih ⊢
    rw [List.forall_mem_cons, ih, Value.plainFields, Bool.and_eq_true]

theorem fixes_dict : Fixes Dict.persisted Dict.Plain := by
  have hentry : Fixes (fun f : String × Value => do pure (f.1, ← f.2.dumpJson))
      fun f => f.2.plain = true := by
    constructor
    · intro f g h
      simp only [Option.bind_eq_bind, Option.bind_eq_some_iff] at h
      obtain ⟨v, hv, h⟩ := h
      obtain rfl := Option.some.inj h
      exact fixes_dumpJson.plain _ _ hv
    · intro f h
      simp [fixes_dumpJson.keep _ h]
  exact hentry.list

/-- A result that is still an object becomes a dictionary. -/
def CallResult.Plain : CallResult → Prop
  | .live _ => False
  | .dumped v => v.plain = true

theorem fixes_callResult : Fixes CallResult.persisted CallResult.Plain := by
  constructor
  · rintro (r | v) b h
    · simp only [CallResult.persisted, Option.bind_eq_bind, Option.bind_eq_some_iff] at h
      obtain ⟨u, hu, h⟩ := h
      obtain rfl := Option.some.inj h
      exact fixes_dumpJson.plain _ _ hu
    · simp only [CallResult.persisted, Option.bind_eq_bind, Option.bind_eq_some_iff] at h
      obtain ⟨u, hu, h⟩ := h
      obtain rfl := Option.some.inj h
      exact fixes_dumpJson.plain _ _ hu
  · rintro (r | v) h
    · exact h.elim
    · have hv : v.dumpJson = some v := fixes_dumpJson.keep v h
      simp [CallResult.persisted, hv]

structure ToolCall.Plain (c : ToolCall) : Prop where
  arguments : c.arguments.Plain
  result : ∀ r, c.result = some r → r.Plain

theorem fixes_toolCall : Fixes ToolCall.persisted ToolCall.Plain := by
  constructor
  · intro c c' h
    simp only [ToolCall.persisted, Option.bind_eq_bind, Option.bind_eq_some_iff] at h
    obtain ⟨arguments, ha, result, hr, h⟩ := h
    obtain rfl := Option.some.inj h
    exact ⟨fixes_dict.plain _ _ ha, fixes_callResult.option.plain _ _ hr⟩
  · intro c h
    have hresult := fixes_callResult.option.keep _ h.result
    simp [ToolCall.persisted, fixes_dict.keep _ h.arguments, hresult]

def Content.Plain : Content → Prop
  | .text _ => True
  | .blocks items => ∀ v ∈ items, v.plain = true

theorem fixes_content : Fixes Content.persisted Content.Plain := by
  constructor
  · rintro (s | items) b h
    · obtain rfl := Option.some.inj h
      trivial
    · simp only [Content.persisted, Option.bind_eq_bind, Option.bind_eq_some_iff] at h
      obtain ⟨items', hitems, h⟩ := h
      obtain rfl := Option.some.inj h
      exact fixes_dumpJson.list.plain _ _ hitems
  · rintro (s | items) h
    · rfl
    · have hitems := fixes_dumpJson.list.keep items h
      simp [Content.persisted, hitems]

structure Message.Plain (m : Message) : Prop where
  content : m.content.Plain
  thinkingBlocks : ∀ blocks, m.thinkingBlocks = some blocks → ∀ v ∈ blocks, v.plain = true
  toolCalls : ∀ c ∈ m.toolCalls, c.Plain
  metadata : m.metadata.Plain

theorem fixes_message : Fixes Message.persisted Message.Plain := by
  constructor
  · intro m m' h
    simp only [Message.persisted, Option.bind_eq_bind, Option.bind_eq_some_iff] at h
    obtain ⟨content, hc, blocks, hb, toolCalls, ht, metadata, hm, h⟩ := h
    obtain rfl := Option.some.inj h
    exact ⟨fixes_content.plain _ _ hc, fixes_dumpJson.list.option.plain _ _ hb,
      fixes_toolCall.list.plain _ _ ht, fixes_dict.plain _ _ hm⟩
  · intro m h
    have hblocks := fixes_dumpJson.list.option.keep _ h.thinkingBlocks
    have hcalls := fixes_toolCall.list.keep _ h.toolCalls
    simp [Message.persisted, fixes_content.keep _ h.content, hblocks, hcalls,
      fixes_dict.keep _ h.metadata]

structure PendingAction.Plain (p : PendingAction) : Prop where
  toolCall : p.toolCall.Plain
  metadata : p.metadata.Plain

theorem fixes_pendingAction : Fixes PendingAction.persisted PendingAction.Plain := by
  constructor
  · intro p p' h
    simp only [PendingAction.persisted, Option.bind_eq_bind, Option.bind_eq_some_iff] at h
    obtain ⟨toolCall, ht, metadata, hm, h⟩ := h
    obtain rfl := Option.some.inj h
    exact ⟨fixes_toolCall.plain _ _ ht, fixes_dict.plain _ _ hm⟩
  · intro p h
    simp [PendingAction.persisted, fixes_toolCall.keep _ h.toolCall, fixes_dict.keep _ h.metadata]

/-- A report without models, other objects and tool results that are still objects. -/
structure Report.Plain (r : Report) : Prop where
  pendingAction : ∀ p, r.pendingAction = some p → p.Plain
  data : r.data.plain = true
  messages : ∀ m ∈ r.messages, m.Plain
  toolCalls : ∀ c ∈ r.toolCalls, c.Plain

theorem fixes_report : Fixes Report.persisted Report.Plain := by
  constructor
  · intro r r' h
    simp only [Report.persisted, Option.bind_eq_bind, Option.bind_eq_some_iff] at h
    obtain ⟨pending, hp, data, hd, messages, hm, toolCalls, ht, h⟩ := h
    obtain rfl := Option.some.inj h
    exact ⟨fixes_pendingAction.option.plain _ _ hp, fixes_dumpJson.plain _ _ hd,
      fixes_message.list.plain _ _ hm, fixes_toolCall.list.plain _ _ ht⟩
  · intro r h
    have hpending := fixes_pendingAction.option.keep _ h.pendingAction
    have hmessages := fixes_message.list.keep _ h.messages
    have hcalls := fixes_toolCall.list.keep _ h.toolCalls
    simp [Report.persisted, hpending, fixes_dumpJson.keep _ h.data, hmessages, hcalls]

/-! ### Reports and their JSON forms -/

/-- What stands in a stored state for a report. -/
def JsonForm (report report' : Report) : Prop := report.persisted = some report'

theorem JsonForm.eq_iff {report report' : Report} (h : JsonForm report report') :
    report' = report ↔ report.Plain :=
  fixes_report.eq_iff h

/-- A store that writes a state once more keeps the JSON forms in it. -/
theorem JsonForm.again {report report' : Report} (h : JsonForm report report') :
    JsonForm report' report' :=
  settles_report _ _ h

theorem JsonForm.trans {report report' report'' : Report} (h : JsonForm report report')
    (h' : JsonForm report' report'') : JsonForm report report'' := by
  have hsame : report'' = report' := Option.some.inj (h'.symm.trans h.again)
  exact hsame ▸ h

/-- What a stored list keeps when it is written once more. -/
theorem forall₂_comp {r : α → β → Prop} {s : β → γ → Prop} {t : α → γ → Prop}
    (hcomp : ∀ a b c, r a b → s b c → t a c) {l : List α} {l' : List β} (h : List.Forall₂ r l l')
    {l'' : List γ} (h' : List.Forall₂ s l' l'') : List.Forall₂ t l l'' := by
  induction h generalizing l'' with
  | nil =>
    cases h'
    exact .nil
  | cons hfirst hrest ih =>
    cases h' with
    | cons hfirst' hrest' => exact .cons (hcomp _ _ _ hfirst hfirst') (ih hrest')

/-! ### Reports that say the same -/

/-- As it was or as it is after JSON. -/
def UpToJson (f : α → Option α) (a b : α) : Prop := b = a ∨ f a = some b

theorem UpToJson.refl (f : α → Option α) (a : α) : UpToJson f a a := .inl rfl

/-- What is written once more is still the JSON form of what it was. -/
theorem UpToJson.dump {f : α → Option α} (hf : Settles f) {a b c : α} (h : UpToJson f a b) (hc : f b = some c) :
    UpToJson f a c := by
  rcases h with rfl | h
  · exact .inr hc
  · have hsame : c = b := Option.some.inj (hc.symm.trans (hf a b h))
    exact .inr (hsame ▸ h)

theorem UpToJson.trans {f : α → Option α} (hf : Settles f) {a b c : α} (h : UpToJson f a b)
    (h' : UpToJson f b c) : UpToJson f a c := by
  rcases h' with rfl | h'
  · exact h
  · exact h.dump hf h'

theorem forall₂_refl {r : α → α → Prop} (h : ∀ a, r a a) : ∀ l : List α, List.Forall₂ r l l
  | [] => .nil
  | a :: l => .cons (h a) (forall₂_refl h l)

theorem upToJson_list {f : α → Option α} {l l' : List α} (h : l.mapM f = some l') :
    List.Forall₂ (UpToJson f) l l' :=
  (forall₂_of_mapM h).imp fun _ _ => .inr

/-- Two reports with the same texts, calls, messages and data, in the second of which values
may be in their JSON form. -/
structure SameReport (report report' : Report) : Prop where
  status : report'.status = report.status
  content : report'.content = report.content
  errors : report'.errors = report.errors
  toolCalls : List.Forall₂ (UpToJson ToolCall.persisted) report.toolCalls report'.toolCalls
  messages : List.Forall₂ (UpToJson Message.persisted) report.messages report'.messages
  data : report'.data.dumped = report.data.dumped

theorem SameReport.refl (report : Report) : SameReport report report :=
  ⟨rfl, rfl, rfl, forall₂_refl (.refl _) _, forall₂_refl (.refl _) _, rfl⟩

theorem SameReport.trans {report report' report'' : Report} (h : SameReport report report')
    (h' : SameReport report' report'') : SameReport report report'' where
  status := h'.status.trans h.status
  content := h'.content.trans h.content
  errors := h'.errors.trans h.errors
  toolCalls := forall₂_comp (fun _ _ _ h h' => h.trans settles_toolCall h') h.toolCalls h'.toolCalls
  messages := forall₂_comp (fun _ _ _ h h' => h.trans settles_message h') h.messages h'.messages
  data := h'.data.trans h.data

theorem dumped_of_dump {v u : Value} (h : v.dumpJson = some u) : u.dumped = v.dumped := by
  unfold Value.dumpJson at h
  split_ifs at h with hplain
  obtain rfl := Option.some.inj h
  exact Value.dumped_of_plain hplain

theorem JsonForm.same {report report' : Report} (h : JsonForm report report') : SameReport report report' := by
  unfold JsonForm at h
  simp only [Report.persisted, Option.bind_eq_bind, Option.bind_eq_some_iff] at h
  obtain ⟨pending, _, data, hdata, messages, hmessages, toolCalls, hcalls, h⟩ := h
  obtain rfl := Option.some.inj h
  exact ⟨rfl, rfl, rfl, upToJson_list hcalls, upToJson_list hmessages, dumped_of_dump hdata⟩

/-- A report that is as it was or in its JSON form. -/
theorem same_of_upToJson {report report' : Report} (h : UpToJson Report.persisted report report') :
    SameReport report report' := by
  rcases h with rfl | h
  · exact .refl report'
  · exact JsonForm.same h

end Blackgeorge.Data
