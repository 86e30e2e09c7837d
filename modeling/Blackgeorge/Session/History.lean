import Blackgeorge.Data.Dumps
import Blackgeorge.Session.Calls
import Blackgeorge.WorkerRunner.Roles

/-! What a turn of a session does to its history. A turn begins with the history behind one
system message, goes on behind it, and what is extracted of its conversation is the history
with the turn's messages behind it. -/

namespace Blackgeorge.Session

open Data Program WorkerRunner

/-! ### Histories -/

/-- A history as the store keeps it: conversation without system messages, which neither
extraction nor JSON changes. -/
structure Settled (history : List Message) : Prop where
  conversation : ∀ m ∈ history, m.role ≠ .system ∧ isConversation m = true
  plain : ∀ m ∈ history, conversationMessage m = m
  stored : ∀ m ∈ history, m.persisted = some m

theorem settled_nil : Settled [] := ⟨by simp, by simp, by simp⟩

variable {before : List Message}

theorem Settled.nonSystem (h : Settled before) : nonSystem before = before :=
  List.filter_eq_self.mpr fun m hm => by simpa using (h.conversation m hm).1

theorem Settled.filter (h : Settled before) : before.filter isConversation = before :=
  List.filter_eq_self.mpr fun m hm => (h.conversation m hm).2

theorem Settled.map (h : Settled before) : before.map conversationMessage = before :=
  List.map_congr_left h.plain |>.trans (List.map_id before)

theorem Settled.mapM (h : Settled before) : before.mapM Message.persisted = some before := by
  have hstored := h.stored
  clear h
  induction before with
  | nil => rfl
  | cons m before ih =>
    have hrest := ih fun m' h => hstored m' (List.mem_cons_of_mem _ h)
    simp [hstored m List.mem_cons_self, hrest]

/-! ### Messages through JSON -/

theorem persisted_fields {m m' : Message} (h : m.persisted = some m') :
    m'.role = m.role ∧ m'.toolCallId = m.toolCallId ∧ m'.reasoningContent = m.reasoningContent ∧
      (m.thinkingBlocks = none → m'.thinkingBlocks = none) ∧
      (m'.toolCalls = [] → m.toolCalls = []) ∧ (m.metadata = [] → m'.metadata = []) := by
  simp only [Message.persisted, Option.bind_eq_bind, Option.bind_eq_some_iff] at h
  obtain ⟨content, -, blocks, hblocks, toolCalls, hcalls, metadata, hmetadata, h⟩ := h
  obtain rfl := Option.some.inj h
  refine ⟨rfl, rfl, rfl, ?_, ?_, ?_⟩
  · intro hnone
    rw [hnone] at hblocks
    exact (Option.some.inj hblocks).symm
  · rintro rfl
    have hlength := (forall₂_of_mapM hcalls).length_eq
    exact List.length_eq_zero_iff.mp hlength
  · intro hnil
    rw [hnil] at hmetadata
    exact (Option.some.inj hmetadata).symm

theorem mapM_nonSystem {messages messages' : List Message}
    (h : messages.mapM Message.persisted = some messages') :
    (nonSystem messages).mapM Message.persisted = some (nonSystem messages') := by
  induction messages generalizing messages' with
  | nil =>
    obtain rfl : [] = messages' := by simpa using h
    rfl
  | cons m messages ih =>
    simp only [List.mapM_cons, Option.bind_eq_bind, Option.bind_eq_some_iff] at h
    obtain ⟨m', hm, rest, hrest, h⟩ := h
    obtain rfl : m' :: rest = messages' := Option.some.inj h
    have hrole := (persisted_fields hm).1
    have ih := ih hrest
    unfold WorkerRunner.nonSystem at ih ⊢
    by_cases hsystem : m.role = .system
    · rw [List.filter_cons_of_neg (by simpa using hsystem),
        List.filter_cons_of_neg (by simpa [hrole] using hsystem), ih]
    · rw [List.filter_cons_of_pos (by simpa using hsystem),
        List.filter_cons_of_pos (by simpa [hrole] using hsystem), List.mapM_cons, hm, ih]
      rfl

/-! ### The messages of a turn -/

def userMessage (job : Job) : Message where
  role := .user
  content := renderInput job.input

/-- Messages in the course of a turn. Unless they were compacted, they are the history, the
user's message, perhaps through JSON, and what the turn has added, among system messages that
are no summaries. -/
structure InTurn (before : List Message) (job : Job) (messages : List Message) (metrics : Metrics) :
    Prop where
  plain : ∀ m ∈ messages, m.role = .system → m.metadata = []
  behind : metrics.contextSummaries = none → ∃ user added,
    (user = userMessage job ∨ (userMessage job).persisted = some user) ∧
      nonSystem messages = before ++ user :: added

variable {job : Job} {messages messages' : List Message} {metrics metrics' : Metrics}

theorem InTurn.grow (h : InTurn before job messages metrics) (hunled : Unled messages messages')
    (hgrown : Grown messages metrics messages' metrics') : InTurn before job messages' metrics' where
  plain m hm hrole := h.plain m (hunled m hm hrole) hrole
  behind := by
    intro hnone
    obtain ⟨hnone', more, rfl⟩ := hgrown hnone
    obtain ⟨user, added, huser, hmessages⟩ := h.behind hnone'
    refine ⟨user, added ++ nonSystem more, huser, ?_⟩
    rw [WorkerRunner.nonSystem, List.filter_append]
    show nonSystem messages ++ nonSystem more = _
    rw [hmessages, List.append_assoc, List.cons_append]

/-- A completed report grows out of the state it ended. -/
theorem grown_of_ended {s : LoopState} {report : Report} (h : Ended s report)
    (hstatus : report.status = .completed) :
    Grown s.messages s.metrics report.messages report.metrics := by
  intro hnone
  obtain ⟨hnone', ms, m, hmessages, -⟩ := h.answered hstatus hnone
  exact ⟨hnone', ms ++ [m], by rw [hmessages, List.append_assoc]⟩

theorem InTurn.persisted (hsettled : Settled before) (h : InTurn before job messages metrics)
    (hmessages : messages.mapM Message.persisted = some messages') :
    InTurn before job messages' metrics where
  plain := by
    intro m' hm' hrole
    have hall := forall₂_of_mapM hmessages
    obtain ⟨m, hm, hpersisted⟩ := exists_of_mem_right hall hm'
    have hfields := persisted_fields hpersisted
    exact hfields.2.2.2.2.2 (h.plain m hm (hfields.1 ▸ hrole))
  behind := by
    intro hnone
    obtain ⟨user, added, huser, hadded⟩ := h.behind hnone
    have hrest := mapM_nonSystem hmessages
    rw [hadded, List.mapM_append, hsettled.mapM] at hrest
    simp only [List.mapM_cons, Option.bind_eq_bind, Option.bind_eq_some_iff, Option.bind_some] at hrest
    obtain ⟨rest, ⟨user', huser', added', -, hrest⟩, hnon⟩ := hrest
    obtain rfl := Option.some.inj hrest
    refine ⟨user', added', .inr ?_, (Option.some.inj hnon).symm⟩
    rcases huser with rfl | huser
    · exact huser'
    · obtain rfl : user = user' := Option.some.inj ((settles_message _ _ huser).symm.trans huser')
      exact huser

/-! ### The opening of a turn -/

/-- The text of the memory, as `_apply_memory` writes it. -/
def memoryText : Value → String
  | .str s => s
  | v => v.dumps

/-- The one system message of a turn, with the memory and what the worker is told, or none. -/
def leading (instructions : Option String) (memory : Option Value) (job : Job) : List Message :=
  match (memory.map fun value => "Memory:\n" ++ memoryText value).toList ++
      (systemMessage instructions job).toList with
  | [] => []
  | texts => [{ role := .system, content := .text ("\n\n".intercalate texts) }]

/-- The messages a turn begins with. -/
def opening (instructions : Option String) (memory : Option Value) (job : Job)
    (before : List Message) : List Message :=
  leading instructions memory job ++ before ++ [userMessage job]

/-- The job that `_apply_memory` makes of a job with a history. -/
def rememberedJob (memory : Option Value) (job : Job) (before : List Message) : Job :=
  match memory with
  | none => { job with initialMessages := if before.isEmpty then none else some before }
  | some value =>
    { job with
      initialMessages :=
        some ({ role := .system, content := .text ("Memory:\n" ++ memoryText value) } :: before) }

/-- A turn begins with one system message at most, however long the history is. -/
theorem buildMessages_remembered (hsettled : Settled before) (instructions : Option String)
    (memory : Option Value) (job : Job) :
    buildMessages instructions (rememberedJob memory job before) =
      opening instructions memory job before := by
  unfold opening leading
  cases memory with
  | none =>
    have hinitial : (if before.isEmpty then none else some before).getD [] = before := by
      cases before <;> rfl
    have hsystem : systemMessage instructions (rememberedJob none job before) =
        systemMessage instructions job := rfl
    have hinitial' : (rememberedJob none job before).initialMessages.getD [] = before := hinitial
    unfold buildMessages
    simp only [hsystem, hinitial']
    cases systemMessage instructions job with
    | none => rfl
    | some text =>
      cases before with
      | nil => rfl
      | cons first rest =>
        have hfirst := (hsettled.conversation first List.mem_cons_self).1
        dsimp only
        rw [if_neg hfirst]
        rfl
  | some value =>
    have hsystem : systemMessage instructions (rememberedJob (some value) job before) =
        systemMessage instructions job := rfl
    unfold buildMessages
    rw [hsystem]
    cases systemMessage instructions job with
    | none => rfl
    | some text => rfl

theorem inTurn_opening (hsettled : Settled before) (instructions : Option String)
    (memory : Option Value) (job : Job) (metrics : Metrics) :
    InTurn before job (opening instructions memory job before) metrics := by
  have hleading : ∀ m ∈ leading instructions memory job, m.role = .system ∧ m.metadata = [] := by
    intro m hm
    unfold leading at hm
    split at hm
    · cases hm
    · obtain rfl := List.mem_singleton.mp hm
      exact ⟨rfl, rfl⟩
  refine ⟨?_, fun _ => ⟨userMessage job, [], .inl rfl, ?_⟩⟩
  · intro m hm hrole
    rw [opening, List.append_assoc, List.mem_append, List.mem_append] at hm
    rcases hm with hm | hm | hm
    · exact (hleading m hm).2
    · exact absurd hrole (hsettled.conversation m hm).1
    · rw [List.mem_singleton.mp hm] at hrole
      cases hrole
  · have hnone : nonSystem (leading instructions memory job) = [] :=
      List.filter_eq_nil_iff.mpr fun m hm => by simp [(hleading m hm).1]
    rw [opening, WorkerRunner.nonSystem, List.filter_append, List.filter_append]
    show nonSystem (leading instructions memory job) ++ nonSystem before ++ _ = _
    rw [hnone, hsettled.nonSystem]
    rfl

/-! ### What is stored -/

/-- Without summaries among them system messages are not extracted. -/
theorem filter_conversation (hplain : ∀ m ∈ messages, m.role = .system → m.metadata = []) :
    messages.filter isConversation = (nonSystem messages).filter isConversation := by
  rw [WorkerRunner.nonSystem, List.filter_filter]
  apply List.filter_congr
  intro m hm
  by_cases hrole : m.role = .system
  · simp [isConversation, isSummary, hrole, hplain m hm hrole, Dict.get]
  · simp [hrole]

/-- What is stored of a turn's conversation is settled. -/
theorem settled_stored {stored : List Message}
    (hplain : ∀ m ∈ messages, m.role = .system → m.metadata = [])
    (hstored : ((messages.filter isConversation).map conversationMessage).mapM Message.persisted =
      some stored) : Settled stored := by
  have hmem : ∀ m' ∈ stored, ∃ m, m.role ≠ .system ∧ isConversation m = true ∧
      (conversationMessage m).persisted = some m' := by
    intro m' hm'
    obtain ⟨c, hc, hpersisted⟩ := exists_of_mem_right (forall₂_of_mapM hstored) hm'
    rw [filter_conversation hplain] at hc
    obtain ⟨m, hm, rfl⟩ := List.mem_map.mp hc
    obtain ⟨hm, hconversation⟩ := List.mem_filter.mp hm
    exact ⟨m, by simpa using (List.mem_filter.mp hm).2, hconversation, hpersisted⟩
  have hsame (m : Message) : (conversationMessage m).role = m.role ∧
      (conversationMessage m).toolCallId = m.toolCallId := by
    unfold conversationMessage
    split_ifs <;> exact ⟨rfl, rfl⟩
  refine ⟨?_, ?_, ?_⟩
  · intro m' hm'
    obtain ⟨m, hrole, hconversation, hpersisted⟩ := hmem m' hm'
    have hfields := persisted_fields hpersisted
    have hrole' : m'.role = m.role := hfields.1.trans (hsame m).1
    have hid : m'.toolCallId = m.toolCallId := hfields.2.1.trans (hsame m).2
    refine ⟨hrole' ▸ hrole, ?_⟩
    have hsummary (m : Message) (h : m.role ≠ .system) : isSummary m = false := by simp [isSummary, h]
    unfold isConversation at hconversation ⊢
    rw [hsummary m hrole] at hconversation
    rw [hsummary m' (hrole' ▸ hrole), hrole', hid]
    exact hconversation
  · intro m' hm'
    obtain ⟨m, -, -, hpersisted⟩ := hmem m' hm'
    have hfields := persisted_fields hpersisted
    unfold conversationMessage
    split_ifs with hplain'
    · rw [Bool.and_eq_true, decide_eq_true_eq, List.isEmpty_iff] at hplain'
      have hcalls := hfields.2.2.2.2.1 hplain'.2
      have hcalls' : m.toolCalls = [] := by
        unfold conversationMessage at hcalls
        split_ifs at hcalls <;> exact hcalls
      have hrole : m.role = .assistant := (hsame m).1.symm.trans (hfields.1.symm.trans hplain'.1)
      have hconversation : conversationMessage m =
          { m with reasoningContent := none, thinkingBlocks := none } := by
        unfold conversationMessage
        rw [if_pos (by simp [hrole, hcalls'])]
      rw [hconversation] at hfields
      have hreasoning : m'.reasoningContent = none := hfields.2.2.1
      have hthinking : m'.thinkingBlocks = none := hfields.2.2.2.1 rfl
      rw [← hreasoning, ← hthinking]
    · rfl
  · intro m' hm'
    obtain ⟨m, -, -, hpersisted⟩ := hmem m' hm'
    exact settles_message _ _ hpersisted

/-- An uncompacted turn appends its user message and the conversation it added. -/
theorem stored_inTurn (hsettled : Settled before) (h : InTurn before job messages metrics)
    (hnone : metrics.contextSummaries = none) {stored : List Message}
    (hstored : ((messages.filter isConversation).map conversationMessage).mapM Message.persisted =
      some stored) :
    ∃ user added kept, (userMessage job).persisted = some user ∧
      (nonSystem messages = before ++ userMessage job :: added ∨
        nonSystem messages = before ++ user :: added) ∧
      ((added.filter isConversation).map conversationMessage).mapM Message.persisted = some kept ∧
      stored = before ++ user :: kept := by
  obtain ⟨user₀, added, huser, hmessages⟩ := h.behind hnone
  rw [filter_conversation h.plain, hmessages, List.filter_append, List.map_append, List.mapM_append,
    hsettled.filter, hsettled.map, hsettled.mapM] at hstored
  have hrole : user₀.role = .user := by
    rcases huser with rfl | huser
    · rfl
    · exact (persisted_fields huser).1
  have hkept : isConversation user₀ = true := by simp [isConversation, hrole]
  have hplain : conversationMessage user₀ = user₀ := by simp [conversationMessage, hrole]
  rw [List.filter_cons_of_pos hkept, List.map_cons, hplain] at hstored
  simp only [List.mapM_cons, Option.bind_eq_bind, Option.bind_eq_some_iff, Option.bind_some] at hstored
  obtain ⟨rest, ⟨user, huser', kept, hadded, hrest⟩, hstored⟩ := hstored
  obtain rfl := Option.some.inj hrest
  obtain rfl := Option.some.inj hstored
  rcases huser with rfl | huser
  · exact ⟨user, added, kept, huser', .inl hmessages, hadded, rfl⟩
  · obtain rfl : user₀ = user := Option.some.inj ((settles_message _ _ huser).symm.trans huser')
    exact ⟨user₀, added, kept, huser, .inr hmessages, hadded, rfl⟩

end Blackgeorge.Session
