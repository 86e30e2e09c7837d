import Blackgeorge.Program.Laws
import Blackgeorge.Transcript.Basic
import Blackgeorge.WorkforceRun.Handoff

/-! The conversation a model is sent. A history is a conversation when its request items
form a well-formed transcript; every way in which a worker's run changes the history
keeps that, so every model call of a run sends a conversation. A paused run holds one
whose last group lacks exactly the answer of the pending call. -/

namespace Blackgeorge.WorkerRunner

open Data Program Coroutine Coro Transcript WorkforceRun

/-! ### Requests as transcripts -/

/-- The part of a request item in the exchange of calls and answers. -/
def PayloadMessage.item (m : PayloadMessage) : Item (Option String) :=
  match m.role with
  | .tool => .answer m.toolCallId
  | .assistant =>
    if m.toolCalls.isEmpty then .text else .calls (m.toolCalls.map fun call => some call.id)
  | _ => .text

/-- The message list of a request is well formed. -/
def WellFormedPayload (payload : List PayloadMessage) : Prop :=
  WellFormed (payload.map PayloadMessage.item)

instance (payload : List PayloadMessage) : Decidable (WellFormedPayload payload) :=
  inferInstanceAs (Decidable (WellFormed _))

/-- The history makes a well-formed request. -/
def Conversation (messages : List Message) : Prop := WellFormedPayload (messagesToPayload messages)

instance (messages : List Message) : Decidable (Conversation messages) :=
  inferInstanceAs (Decidable (WellFormedPayload _))

def messageItem (m : Message) : Item (Option String) := PayloadMessage.item (messageToPayload m)

theorem conversation_iff (messages : List Message) :
    Conversation messages ↔ WellFormed (messages.map messageItem) := by
  rw [Conversation, WellFormedPayload, messagesToPayload, List.map_map]
  rfl

@[simp] theorem messageItem_system {m : Message} (h : m.role = .system) : messageItem m = .text := by
  simp [messageItem, PayloadMessage.item, messageToPayload, h]

@[simp] theorem messageItem_user {m : Message} (h : m.role = .user) : messageItem m = .text := by
  simp [messageItem, PayloadMessage.item, messageToPayload, h]

theorem messageItem_assistant {m : Message} (h : m.role = .assistant) :
    messageItem m =
      if m.toolCalls.isEmpty then .text else .calls (m.toolCalls.map fun call => some call.id) := by
  simp only [messageItem, PayloadMessage.item, messageToPayload, h, if_true, List.isEmpty_map,
    List.map_map]
  rfl

theorem messageItem_tool {m : Message} (h : m.role = .tool) :
    messageItem m = .answer (m.toolCallId.filter (· ≠ "")) := by
  simp [messageItem, PayloadMessage.item, messageToPayload, h]

theorem messageItem_eq_calls {m : Message} {ids : List (Option String)}
    (h : messageItem m = .calls ids) :
    m.role = .assistant ∧ ids = m.toolCalls.map fun call => some call.id := by
  cases hrole : m.role with
  | system => rw [messageItem_system hrole] at h; cases h
  | user => rw [messageItem_user hrole] at h; cases h
  | tool => rw [messageItem_tool hrole] at h; cases h
  | assistant =>
    rw [messageItem_assistant hrole] at h
    split_ifs at h
    exact ⟨rfl, (Item.calls.inj h).symm⟩

theorem messageItem_eq_answer {m : Message} {id : Option String} (h : messageItem m = .answer id) :
    m.role = .tool ∧ id = m.toolCallId.filter (· ≠ "") := by
  cases hrole : m.role with
  | system => rw [messageItem_system hrole] at h; cases h
  | user => rw [messageItem_user hrole] at h; cases h
  | assistant => rw [messageItem_assistant hrole] at h; split_ifs at h
  | tool =>
    rw [messageItem_tool hrole] at h
    exact ⟨rfl, (Item.answer.inj h).symm⟩

/-- A message that is neither an answer nor a group of calls. -/
theorem messageItem_text_of_role {m : Message} (h : m.role = .system ∨ m.role = .user) :
    messageItem m = .text := by
  rcases h with h | h
  · exact messageItem_system h
  · exact messageItem_user h

theorem Conversation.append {l m : List Message} (hl : Conversation l) (hm : Conversation m) :
    Conversation (l ++ m) := by
  rw [conversation_iff] at *
  rw [List.map_append]
  exact hl.append hm

theorem conversation_plain {ms : List Message} (h : ∀ m ∈ ms, m.role = .system ∨ m.role = .user) :
    Conversation ms := by
  rw [conversation_iff]
  refine wellFormed_texts _ fun x hx => ?_
  obtain ⟨m, hm, rfl⟩ := List.mem_map.mp hx
  exact messageItem_text_of_role (h m hm)

/-- The message answers the call. -/
def Answers (m : Message) (id : String) : Prop := m.role = .tool ∧ m.toolCallId = some id

theorem messageItem_answers {m : Message} {id : String} (h : Answers m id) (hid : id ≠ "") :
    messageItem m = .answer (some id) := by
  rw [messageItem_tool h.1, h.2]
  simp [hid]

/-! ### Edits of the history -/

theorem Conversation.filter_system {messages : List Message} (h : Conversation messages) :
    Conversation (messages.filter (·.role ≠ .system)) := by
  rw [conversation_iff] at *
  refine WellFormed.filter (fun m hm => messageItem_system ?_) h
  simpa using hm

theorem mem_toolCallIdSet {messages : List Message} {m : Message} {id : String}
    (hm : m ∈ messages) (hi : messageItem m = .answer (some id)) :
    id ∈ toolCallIdSet messages := by
  obtain ⟨hrole, hid⟩ := messageItem_eq_answer hi
  exact List.mem_filterMap.mpr ⟨m, hm, by rw [if_pos hrole, ← hid]⟩

theorem issuesOneOf_of_calls {ids : List String} {m : Message} {calls : List (Option String)}
    {id : String} (hi : messageItem m = .calls calls) (hid : some id ∈ calls) (hids : id ∈ ids) :
    issuesOneOf ids m = true := by
  obtain ⟨hrole, rfl⟩ := messageItem_eq_calls hi
  obtain ⟨call, hcall, hcid⟩ := List.mem_map.mp hid
  obtain rfl := Option.some.inj hcid
  simp only [issuesOneOf, hrole, decide_true, Bool.true_and, List.any_eq_true]
  exact ⟨call, hcall, by simpa using hids⟩

theorem matchingAssistantIndex_none {messages : List Message} {ids : List String} {boundary : ℕ}
    (h : matchingAssistantIndex messages ids boundary = none) :
    ∀ m ∈ messages.take boundary, issuesOneOf ids m = false := by
  induction boundary with
  | zero => simp
  | succ n ih =>
    unfold matchingAssistantIndex at h
    split_ifs at h with hn
    intro m hm
    rw [List.take_add_one, List.mem_append] at hm
    rcases hm with hm | hm
    · exact ih h m hm
    · cases hget : messages[n]? with
      | none => simp [hget] at hm
      | some m' =>
        obtain rfl : m = m' := by simpa [hget] using hm
        simpa [hget] using hn

theorem matchingAssistantIndex_some {messages : List Message} {ids : List String}
    {boundary index : ℕ} (h : matchingAssistantIndex messages ids boundary = some index) :
    ∃ m, messages[index]? = some m ∧ issuesOneOf ids m = true := by
  induction boundary with
  | zero => simp [matchingAssistantIndex] at h
  | succ n ih =>
    unfold matchingAssistantIndex at h
    split_ifs at h with hn
    · obtain rfl := Option.some.inj h
      exact Option.any_eq_true _ _ |>.mp hn
    · exact ih h

/-- A cut that no answer behind it crosses. -/
theorem Conversation.drop_of_unmatched {messages : List Message} {boundary : ℕ}
    (h : Conversation messages)
    (hb : ∀ m ∈ messages.take boundary,
      issuesOneOf (toolCallIdSet (messages.drop boundary)) m = false) :
    Conversation (messages.drop boundary) := by
  rw [conversation_iff] at *
  rw [← List.take_append_drop boundary messages, List.map_append] at h
  refine h.of_append fun id hid ids hids hmem => ?_
  obtain ⟨m, hm, hi⟩ := List.mem_map.mp hids
  obtain ⟨m', hm', hi'⟩ := List.mem_map.mp (List.mem_of_mem_head? hid)
  cases id with
  | none =>
    obtain ⟨-, rfl⟩ := messageItem_eq_calls hi
    simp at hmem
  | some id =>
    have hissues := issuesOneOf_of_calls hi hmem (mem_toolCallIdSet hm' hi')
    rw [hb m hm] at hissues
    cases hissues

theorem Conversation.drop_moveBoundary {messages : List Message} (h : Conversation messages)
    {fuel boundary : ℕ} (hlt : boundary < fuel) :
    Conversation (messages.drop (moveBoundary messages fuel boundary)) := by
  induction fuel generalizing boundary with
  | zero => omega
  | succ fuel ih =>
    unfold moveBoundary
    split_ifs with h₀
    · exact h
    · dsimp only
      split_ifs with hids
      · exact h.drop_of_unmatched fun m _ => by simp [hids, issuesOneOf]
      · split
        · next hnone => exact h.drop_of_unmatched (matchingAssistantIndex_none hnone)
        · next index hsome =>
          have := matchingAssistantIndex_lt hsome
          exact ih (by omega)

/-- What compaction puts in the history's place is a conversation again. -/
theorem Conversation.summarySplit {messages : List Message} (h : Conversation messages)
    (preserveRecent : Bool) (messageLimit : Option ℕ) (summary : String) :
    Conversation ((summarySplit messages preserveRecent messageLimit).1 ++
      [summaryMessage summary] ++ (summarySplit messages preserveRecent messageLimit).2.2) := by
  have hsystem : Conversation (messages.filter (·.role = .system) ++ [summaryMessage summary]) := by
    refine conversation_plain fun m hm => ?_
    rcases List.mem_append.mp hm with hm | hm
    · exact .inl (by simpa using (List.mem_filter.mp hm).2)
    · obtain rfl := List.mem_singleton.mp hm
      exact .inr rfl
  unfold WorkerRunner.summarySplit
  dsimp only
  generalize hn : messages.filter (·.role ≠ .system) = nonSystem
  have hns : Conversation nonSystem := hn ▸ h.filter_system
  split_ifs
  · exact hsystem.append trivial
  · exact hsystem.append hns
  · exact hsystem.append trivial
  · exact hsystem.append (hns.drop_moveBoundary (Nat.lt_succ_of_le (clampBoundary_le _ _)))
  · exact hsystem.append (hns.drop_moveBoundary (Nat.lt_succ_of_le (clampBoundary_le _ _)))

/-! ### Building messages -/

theorem Conversation.buildMessages {job : Job} (instructions : Option String)
    (h : ∀ ms ∈ job.initialMessages, Conversation ms) :
    Conversation (buildMessages instructions job) := by
  have hinit : Conversation (job.initialMessages.getD []) := by
    cases hms : job.initialMessages with
    | none => trivial
    | some ms => exact h ms hms
  have huser : Conversation [{ role := .user, content := renderInput job.input }] := trivial
  unfold WorkerRunner.buildMessages
  dsimp only
  generalize job.initialMessages.getD [] = messages at hinit
  split
  · exact hinit.append huser
  · match messages, hinit with
    | [], _ => exact trivial
    | first :: rest, hinit =>
      dsimp only
      split_ifs with hrole
      · refine Conversation.append ?_ huser
        rw [conversation_iff, List.map_cons, messageItem_system hrole] at hinit
        rw [conversation_iff, List.map_cons, messageItem_system (by exact hrole)]
        exact hinit
      · exact Conversation.append (l := [_]) trivial (hinit.append huser)

/-! ### The law of a run -/

/-- The calls of a response have distinct ids that are not empty. -/
def DistinctCalls (r : ModelResponse) : Prop :=
  (r.toolCalls.map ToolCall.id).Nodup ∧ ∀ call ∈ r.toolCalls, call.id ≠ ""

def DistinctAnswer : CompletionAnswer → Prop
  | .response r => DistinctCalls r
  | .stream _ (.ok r) => DistinctCalls r
  | _ => True

/-- Completion calls are answered by responses with distinct calls. -/
def distinctResponses : ∀ q, Answer q → Prop
  | .complete .., r => ∀ a, r = .ok a → DistinctAnswer a
  | _, _ => True

/-- The request of a model call is well formed. -/
def SendsConversation : Event sig → Prop
  | ⟨.complete _ request, _⟩ => WellFormedPayload request.messages
  | ⟨.structured _ request, _⟩ => WellFormedPayload request.messages
  | _ => True

/-- Every model call sends a conversation. -/
def sendLaw : Law sig where
  step _ _ := True
  admits := distinctResponses
  event := SendsConversation

theorem sendLaw_bills : Bills sendLaw where
  refl _ := trivial
  eventLists _ _ := trivial
  storedEvents _ _ := trivial
  routine q a hq := by cases q <;> trivial
  totals _ _ := trivial
  usageCost _ _ _ := trivial

theorem sendLaw_permits : Permits sendLaw := sendLaw_bills.toPermits

theorem distinctCalls_responseOf {a : CompletionAnswer} (h : DistinctAnswer a) :
    DistinctCalls (responseOf a) := by
  cases a with
  | response r => exact h
  | stream _ _ => exact ⟨List.nodup_nil, by simp [responseOf]⟩
  | raw => exact ⟨List.nodup_nil, by simp [responseOf]⟩

/-- A completion call with a well-formed request. -/
theorem each_complete {sync : Bool} {request : Completion} (h : WellFormedPayload request.messages) :
    Each sendLaw (Prog.ask (.complete sync request)) fun r => ∀ a, r = .ok a → DistinctAnswer a :=
  each_query fun _ ha => ⟨h, ha⟩

theorem each_structured {sync : Bool} {request : StructuredCompletion}
    (h : WellFormedPayload request.messages) :
    Each sendLaw (Prog.ask (.structured sync request)) fun _ => True :=
  each_query fun _ _ => ⟨h, trivial⟩

/-! ### Compaction -/

theorem each_tokenCount (modelName text : String) :
    Each sendLaw (tokenCount modelName text) fun _ => True := by
  unfold tokenCount
  split_ifs
  · exact each_pure trivial
  · exact each_routine sendLaw_permits trivial

theorem each_chunkText (modelName text : String) (targetTokens : ℕ) :
    Each sendLaw (chunkText modelName text targetTokens) fun _ => True := by
  unfold chunkText
  split_ifs
  · exact each_pure trivial
  · refine each_bind (each_tokenCount _ _) fun _ _ => ?_
    split_ifs <;> exact each_pure trivial

theorem wellFormedPayload_summaryRequest (modelName chunk : String) (temperature : Option ℚ) :
    WellFormedPayload (summaryRequest modelName chunk temperature).messages :=
  wellFormed_texts _ (by simp [summaryRequest, PayloadMessage.item])

theorem each_summarizeChunk (modelName chunk : String) (temperature : Option ℚ) :
    Each sendLaw (summarizeChunk modelName chunk temperature) fun _ => True := by
  have hreq := wellFormedPayload_summaryRequest modelName chunk temperature
  refine each_bind (each_complete hreq) ?_
  rintro (e | answer) _
  · dsimp only
    split_ifs
    · refine each_bind (each_complete hreq) fun r _ => ?_
      exact each_bind (each_ofExcept fun _ _ => trivial) fun _ _ => each_pure trivial
    · exact each_raise
  · exact each_pure trivial

theorem each_summarizeChunks (modelName : String) (temperature : Option ℚ) (chunks : List String) :
    Each sendLaw (summarizeChunks modelName temperature chunks) fun _ => True := by
  induction chunks with
  | nil => exact each_pure trivial
  | cons chunk chunks ih =>
    refine each_bind (each_summarizeChunk _ _ _) fun _ _ => ?_
    exact each_bind ih fun _ _ => each_pure trivial

theorem each_summarizeText (modelName text : String) (temperature : Option ℚ) (targetTokens : ℕ) :
    Each sendLaw (summarizeText modelName text temperature targetTokens) fun _ => True := by
  refine each_bind (each_chunkText _ _ _) fun chunks _ => ?_
  refine each_bind (each_summarizeChunks _ _ _) fun summaries _ => ?_
  split_ifs
  · exact each_pure trivial
  · exact each_bind (each_summarizeChunk _ _ _) fun _ _ => each_pure trivial
  · exact each_pure trivial

theorem each_summarizeAttempts (modelName text : String) (temperature : Option ℚ)
    (attempts targetTokens : ℕ) :
    Each sendLaw (summarizeAttempts modelName text temperature attempts targetTokens)
      fun _ => True := by
  induction attempts generalizing targetTokens with
  | zero => exact each_pure trivial
  | succ attempts ih =>
    refine each_tryExcept (each_summarizeText _ _ _ _) fun e => ?_
    split_ifs
    · exact ih _
    · exact each_raise

theorem each_summarizeMessages (modelName : String) (messages : List Message)
    (temperature : Option ℚ) :
    Each sendLaw (summarizeMessages modelName messages temperature) fun _ => True := by
  refine each_bind (each_ofExcept fun _ _ => trivial) fun lines _ => ?_
  dsimp only
  split_ifs
  · exact each_pure trivial
  · exact each_summarizeAttempts _ _ _ _ _

/-- The loop's history after a step that keeps the conversation. -/
def InConversation (state : LoopState) : Prop := Conversation state.messages

theorem each_applyContextSummary (config : RunConfig) (modelName : String) {state : LoopState}
    (h : InConversation state) (preserveRecent : Bool) (messageLimit : Option ℕ) :
    Each sendLaw (applyContextSummary config modelName state preserveRecent messageLimit)
      fun r => InConversation r.2 := by
  unfold applyContextSummary
  dsimp only
  split_ifs
  · exact each_pure h
  · refine each_bind (P := fun _ => True) ?_ fun summary _ => ?_
    · exact each_tryExcept (each_summarizeMessages _ _ _) fun _ => each_pure trivial
    · cases summary with
      | none => exact each_pure h
      | some summary =>
        refine each_bind (each_emit sendLaw_permits _ _ _ _) fun _ _ => ?_
        exact each_pure (Conversation.summarySplit h _ _ _)

end Blackgeorge.WorkerRunner
