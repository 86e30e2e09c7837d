import Blackgeorge.WorkerRunner.Conversation
import Blackgeorge.WorkerRunner.Turns

/-! What a worker's run sends. Each function of a turn sends conversations when its
history is one and leaves a conversation, or a paused state that lacks one answer. -/

namespace Blackgeorge.WorkerRunner

open Data Program Coroutine Coro Transcript

/-! ### Model calls -/

theorem each_completion (ctx : RunContext) {messages : List Message} (h : Conversation messages)
    (tools : List Tool) (job : Job) :
    Each sendLaw (completion ctx messages tools job) DistinctCalls := by
  refine each_bind (each_complete h) ?_
  rintro (e | answer) ha
  · dsimp only
    split_ifs
    · refine each_bind (each_complete h) fun r hr => ?_
      refine each_bind (each_ofExcept hr) fun answer ha => ?_
      exact each_pure (distinctCalls_responseOf ha)
    · exact each_raise
  · exact each_pure (distinctCalls_responseOf (ha answer rfl))

theorem each_finishStream (ctx : RunContext) (workerName : String) {messages : List Message}
    (h : Conversation messages) (tools : List Tool) (job : Job) {r : Except Exn CompletionAnswer}
    (hr : ∀ a, r = .ok a → DistinctAnswer a) :
    Each sendLaw (finishStream ctx workerName messages tools job r) DistinctCalls := by
  match r, hr with
  | .ok (.response r), hr => exact each_pure (hr _ rfl)
  | .ok (.stream tokens result), hr =>
    refine each_bind (P := fun _ => True) ?_ fun _ _ => each_ofExcept fun a ha => ?_
    · exact each_forM fun token _ => each_emit sendLaw_permits _ _ _ _
    · subst ha
      exact hr _ rfl
  | .ok .raw, _ => exact each_completion ctx h tools job
  | .error e, _ =>
    rw [finishStream]
    split_ifs
    · exact each_completion ctx h tools job
    · exact each_raise

theorem each_streamCompletion (ctx : RunContext) (workerName : String) {messages : List Message}
    (h : Conversation messages) (tools : List Tool) (job : Job) (schema : Option Schema) :
    Each sendLaw (streamCompletion ctx workerName messages tools job schema) DistinctCalls := by
  refine each_bind (each_complete h) ?_
  rintro (e | answer) ha
  · dsimp only
    split_ifs
    · exact each_bind (each_complete h) fun r hr => each_finishStream ctx workerName h tools job hr
    · exact each_finishStream ctx workerName h tools job fun _ h => nomatch h
  · exact each_finishStream ctx workerName h tools job ha

theorem each_structuredAnswer {request : StructuredCompletion}
    (h : WellFormedPayload request.messages) :
    Each sendLaw (structuredAnswer request) fun _ => True := by
  refine each_bind (each_structured h) ?_
  rintro (e | answer) _
  · dsimp only
    split_ifs
    · exact each_bind (each_structured h) fun _ _ => each_ofExcept fun _ _ => trivial
    · exact each_raise
  · exact each_pure trivial

theorem each_structuredCompletion (ctx : RunContext) {state : LoopState} (h : InConversation state)
    (job : Job) (schema : Schema) :
    Each sendLaw (structuredCompletion ctx state job schema) fun r => InConversation r.2 := by
  refine each_bind (each_structuredAnswer h) fun answer _ => ?_
  split
  · exact each_pure h
  · refine each_bind (each_recordUsage sendLaw_bills _ _ _) ?_
    rintro _ ⟨metrics, -, rfl⟩
    exact each_pure h

theorem each_retryContextOrReport (ctx : RunContext) {state : LoopState} (h : InConversation state) :
    Each sendLaw (retryContextOrReport ctx state) fun r => InConversation r.2 := by
  unfold retryContextOrReport
  split_ifs
  · exact each_bind (each_failReport sendLaw_permits _ _ _) fun _ _ => each_pure h
  · exact each_bind (each_failReport sendLaw_permits _ _ _) fun _ _ => each_pure h
  · refine each_bind (each_applyContextSummary _ _ h _ _) ?_
    rintro ⟨applied, state'⟩ h'
    dsimp only
    split_ifs
    · exact each_pure h'
    · exact each_bind (each_failReport sendLaw_permits _ _ _) fun _ _ => each_pure h'

/-- What is known when the model has answered: the history is a conversation, and a
response has distinct calls. -/
def AcquiredOk (r : Acquired × LoopState) : Prop :=
  InConversation r.2 ∧ ∀ response, r.1 = .response response → DistinctCalls response

theorem each_retryOrRaise (ctx : RunContext) {state : LoopState} (h : InConversation state)
    (e : Exn) : Each sendLaw (retryOrRaise ctx state e) AcquiredOk := by
  unfold retryOrRaise
  split_ifs
  · refine each_bind (each_retryContextOrReport ctx h) ?_
    rintro ⟨_ | report, state'⟩ h'
    · exact each_pure ⟨h', fun _ h => nomatch h⟩
    · exact each_pure ⟨h', fun _ h => nomatch h⟩
  · exact each_raise

theorem each_structuredOrReport (ctx : RunContext) {state : LoopState} (h : InConversation state)
    (job : Job) (schema : Schema) :
    Each sendLaw (structuredOrReport ctx state job schema) AcquiredOk := by
  refine each_bind (each_attempt (each_structuredCompletion ctx h job schema)) ?_
  rintro (e | ⟨data, state'⟩) hr
  · dsimp only
    split_ifs
    · exact each_raise
    · refine each_bind (each_retryContextOrReport ctx h) ?_
      rintro ⟨_ | report, state'⟩ h'
      · exact each_pure ⟨h', fun _ h => nomatch h⟩
      · exact each_pure ⟨h', fun _ h => nomatch h⟩
    · refine each_bind (each_failReport sendLaw_permits _ _ _) fun _ _ => ?_
      exact each_pure ⟨h, fun _ h => nomatch h⟩
  · refine each_bind (each_finalizeStructured sendLaw_permits _ _ _) fun _ _ => ?_
    exact each_pure ⟨hr _ rfl, fun _ h => nomatch h⟩

theorem each_previewOrReport (ctx : RunContext) {state : LoopState} (h : InConversation state)
    (job : Job) (schema : Schema) :
    Each sendLaw (previewOrReport ctx state job schema) AcquiredOk := by
  refine each_bind (each_attempt (each_streamCompletion ctx _ h [] job (some schema))) ?_
  rintro (e | streamed) _
  · dsimp only
    split_ifs
    · exact each_retryOrRaise ctx h e
    · exact each_raise
  · refine each_bind (each_recordUsage sendLaw_bills _ _ _) ?_
    rintro _ ⟨metrics, -, rfl⟩
    have h' : InConversation { state with metrics := metrics } := h
    refine each_bind (each_routine sendLaw_permits trivial) ?_
    rintro (e | data) _
    · dsimp only
      split_ifs
      · exact each_structuredOrReport ctx h' job schema
      · exact each_raise
    · refine each_bind (each_finalizeStructured sendLaw_permits _ _ _) fun _ _ => ?_
      exact each_pure ⟨h', fun _ h => nomatch h⟩

/-- A response of a completion call, or the retry of a failed one. -/
theorem each_responseOrRetry (ctx : RunContext) {state : LoopState} (h : InConversation state)
    {request : Prog ModelResponse} (hreq : Each sendLaw request DistinctCalls) :
    Each sendLaw (do
      match ← request.attempt with
      | .ok response => pure (.response response, state)
      | .error e => if e.isException then retryOrRaise ctx state e else Prog.raise e) AcquiredOk := by
  refine each_bind (each_attempt hreq) ?_
  rintro (e | response) hr
  · dsimp only
    split_ifs
    · exact each_retryOrRaise ctx h e
    · exact each_raise
  · exact each_pure ⟨h, fun _ heq => Acquired.response.inj heq ▸ hr response rfl⟩

theorem each_acquireTurnResponse (ctx : RunContext) {state : LoopState} (h : InConversation state)
    (job : Job) (tools : List Tool) :
    Each sendLaw (acquireTurnResponse ctx state job tools) AcquiredOk := by
  unfold acquireTurnResponse
  split
  · split_ifs
    · exact each_previewOrReport ctx h job _
    · exact each_structuredOrReport ctx h job _
    · exact each_responseOrRetry ctx h (each_completion ctx h tools job)
  · refine each_responseOrRetry ctx h ?_
    split_ifs
    · exact each_streamCompletion ctx _ h tools job none
    · exact each_completion ctx h tools job

/-! ### Tool calls -/

/-- The ids a plan accounts for: the calls it answers and the one it holds back. -/
def ToolPlan.ids (plan : ToolPlan) : List String :=
  plan.orderedCalls.map ToolCall.id ++ (plan.pending.map (·.toolCall.id)).toList

theorem ToolPlan.ids_immediate (plan : ToolPlan) (call : ToolCall) (error : String) :
    (plan.immediate call error).ids.Perm (plan.ids ++ [call.id]) := by
  simp only [ToolPlan.ids, ToolPlan.immediate, List.map_append, List.map_cons, List.map_nil,
    List.append_assoc]
  exact List.perm_append_comm.append_left _

/-- Unless the limit is exceeded, every skipped call is answered. -/
theorem skipRemaining_ids (maxToolCalls : ℕ) (calls toolCalls : List ToolCall) (plan : ToolPlan)
    (h : (skipRemaining maxToolCalls calls toolCalls plan).1.maxToolCallsExceeded = false) :
    (skipRemaining maxToolCalls calls toolCalls plan).1.ids.Perm
      (plan.ids ++ calls.map ToolCall.id) := by
  induction calls generalizing toolCalls plan with
  | nil => simp [skipRemaining]
  | cons call calls ih =>
    unfold skipRemaining at h ⊢
    split_ifs at h ⊢
    refine (ih _ _ h).trans ?_
    rw [List.map_cons, List.append_cons]
    exact (plan.ids_immediate call _).append_right _

/-- Unless the limit is exceeded, the plan accounts for every call of the response. -/
theorem each_planToolCalls (allowedTools : String → Option Tool) (maxToolCalls : ℕ)
    (calls toolCalls : List ToolCall) (plan : ToolPlan) (hp : plan.pending = none) :
    Each sendLaw (planToolCalls allowedTools maxToolCalls calls toolCalls plan) fun r =>
      r.1.maxToolCallsExceeded = false → r.1.ids.Perm (plan.ids ++ calls.map ToolCall.id) := by
  induction calls generalizing toolCalls plan with
  | nil => exact each_pure fun _ => by simp
  | cons call calls ih =>
    have hnext (next : ToolPlan) (hnone : next.pending = none)
        (hids : next.ids.Perm (plan.ids ++ [call.id])) :
        Each sendLaw (planToolCalls allowedTools maxToolCalls calls (toolCalls ++ [call]) next)
          fun r => r.1.maxToolCallsExceeded = false →
            r.1.ids.Perm (plan.ids ++ (call :: calls).map ToolCall.id) := by
      refine (ih _ next hnone).mono fun r hr hx => (hr hx).trans ?_
      rw [List.map_cons, List.append_cons]
      exact hids.append_right _
    unfold planToolCalls
    split_ifs
    · exact each_pure fun h => nomatch h
    · split
      · exact hnext _ hp (plan.ids_immediate call _)
      · exact hnext _ hp (plan.ids_immediate call _)
      · split
        · refine each_bind (P := fun _ => True) (each_query fun _ _ => ⟨trivial, trivial⟩) ?_
          intro actionId _
          refine each_pure fun hx => (skipRemaining_ids _ _ _ _ hx).trans ?_
          simp [ToolPlan.ids, hp, pendingActionFor]
        · exact hnext _ hp (by simp [ToolPlan.ids, hp])

theorem each_executeTool (tool : Tool) (call : ToolCall) (approved : Option String) :
    Each sendLaw (executeTool tool call approved) fun _ => True :=
  each_bind (P := fun _ => True) (each_query fun _ _ => ⟨trivial, trivial⟩) fun _ _ =>
    each_ofExcept fun _ _ => trivial

/-- Each call gets one tool message, in the order of the calls. -/
theorem each_appendResults (config : RunConfig) (results : String → Option ToolResult)
    (calls : List ToolCall) (messages : List Message) (toolCalls : List ToolCall) :
    Each sendLaw (appendResults config results calls messages toolCalls) fun r =>
      ∃ ms, r.1 = messages ++ ms ∧ List.Forall₂ Answers ms (calls.map ToolCall.id) := by
  induction calls generalizing messages toolCalls with
  | nil => exact each_pure ⟨[], by simp, .nil⟩
  | cons call calls ih =>
    refine each_bind (each_emitToolResult sendLaw_permits _ _ _ _) fun _ _ => ?_
    refine each_bind (P := fun _ => True) (each_ofExcept fun _ _ => trivial) fun toolCalls' _ => ?_
    refine (ih _ _).mono ?_
    rintro r ⟨ms, hms, hall⟩
    exact ⟨_, hms.trans (List.append_assoc _ _ _), .cons ⟨rfl, rfl⟩ hall⟩

theorem each_executeToolCalls (config : RunConfig) (plan : ToolPlan) (messages : List Message)
    (toolCalls : List ToolCall) :
    Each sendLaw (executeToolCalls config plan messages toolCalls) fun r =>
      ∃ ms, r.1 = messages ++ ms ∧
        List.Forall₂ Answers ms (plan.orderedCalls.map ToolCall.id) := by
  refine each_bind (each_forM fun _ _ => each_emit sendLaw_permits _ _ _ _) fun _ _ => ?_
  refine each_bind (each_gather (P := fun _ => True) ?_) fun _ _ => each_appendResults _ _ _ _ _
  intro c hc
  obtain ⟨⟨call, tool⟩, -, rfl⟩ := List.mem_map.mp hc
  exact each_executeTool tool call none

/-! ### A turn -/

theorem map_messageItem_of_answers {ms : List Message} {ids : List String}
    (h : List.Forall₂ Answers ms ids) (hids : ∀ id ∈ ids, id ≠ "") :
    ms.map messageItem = (ids.map some).map .answer := by
  induction h with
  | nil => rfl
  | cons hm _ ih =>
    rw [List.map_cons, messageItem_answers hm (hids _ (by simp)),
      ih fun id hid => hids id (by simp [hid])]
    rfl

/-- An assistant message with distinct calls and an answer to each of them. -/
theorem Conversation.group {messages : List Message} (h : Conversation messages) {m : Message}
    (hrole : m.role = .assistant) (hne : m.toolCalls ≠ [])
    (hnodup : (m.toolCalls.map ToolCall.id).Nodup) (hids : ∀ call ∈ m.toolCalls, call.id ≠ "")
    {ms : List Message} {ids : List String} (hms : List.Forall₂ Answers ms ids)
    (hperm : ids.Perm (m.toolCalls.map ToolCall.id)) : Conversation (messages ++ [m] ++ ms) := by
  have hne' : ∀ id ∈ ids, id ≠ "" := by
    intro id hid
    obtain ⟨call, hcall, rfl⟩ := List.mem_map.mp (hperm.mem_iff.mp hid)
    exact hids call hcall
  have hcalls : m.toolCalls.map (fun call => some call.id) =
      (m.toolCalls.map ToolCall.id).map some := by
    rw [List.map_map]; rfl
  have hgroup : Conversation ([m] ++ ms) := by
    rw [conversation_iff, List.map_append, List.map_singleton, messageItem_assistant hrole,
      if_neg (by simpa using hne), map_messageItem_of_answers hms hne', hcalls]
    exact wellFormed_group (hnodup.map (Option.some_injective _)) (hperm.map some)
  rw [List.append_assoc]
  exact h.append hgroup

/-- The history lacks one thing, the answer of the pending call. -/
def AwaitsAnswer (messages : List Message) (pending : Option PendingAction) : Prop :=
  ∀ p ∈ pending, ∀ m, Answers m p.toolCall.id → Conversation (messages ++ [m])

/-- A paused report and its state await the same answer. -/
def PausedOk (report : Report) (state : WorkerState) : Prop :=
  AwaitsAnswer report.messages report.pendingAction ∧
    AwaitsAnswer state.messages state.pendingAction

def TurnEnd.Ok : TurnEnd → Prop
  | .next state => InConversation state
  | .report _ => True
  | .paused r state => PausedOk r state

theorem each_processToolCalls (ctx : RunContext) {state : LoopState} (h : InConversation state)
    (job : Job) {response : ModelResponse} (hr : DistinctCalls response)
    (hne : response.toolCalls ≠ []) (allowedTools : String → Option Tool) :
    Each sendLaw (processToolCalls ctx state job response allowedTools) TurnEnd.Ok := by
  refine each_bind (each_emitAssistantMessage sendLaw_permits _ _ _) fun _ _ => ?_
  refine each_bind (each_planToolCalls _ _ _ _ _ rfl) ?_
  rintro ⟨plan, toolCalls⟩ hplan
  refine each_bind (each_executeToolCalls _ _ _ _) ?_
  rintro ⟨messages, toolCalls'⟩ ⟨ms, rfl, hms⟩
  dsimp only at hplan ⊢
  split_ifs with hx
  · exact each_bind (each_failReport sendLaw_permits _ _ _) fun _ _ => each_pure trivial
  · replace hplan := hplan (by simpa using hx)
    cases hpending : plan.pending with
    | none =>
      have hperm : (plan.orderedCalls.map ToolCall.id).Perm (response.toolCalls.map ToolCall.id) := by
        simpa [ToolPlan.ids, hpending] using hplan
      exact each_pure (h.group rfl hne hr.1 hr.2 hms hperm)
    | some pending =>
      refine each_bind (each_emitPause sendLaw_permits _ _ _) fun _ _ => each_pure ?_
      have hwait : AwaitsAnswer (state.messages ++ [callMessage response] ++ ms) (some pending) := by
        rintro _ ⟨⟩ m hm
        rw [List.append_assoc]
        refine h.group rfl hne hr.1 hr.2 (List.rel_append hms (.cons hm .nil)) ?_
        simpa [ToolPlan.ids, hpending, callMessage] using hplan
      exact ⟨hwait, hwait⟩

theorem each_processTurnResponse (ctx : RunContext) {state : LoopState} (h : InConversation state)
    (job : Job) {response : ModelResponse} (hr : DistinctCalls response)
    (allowedTools : String → Option Tool) :
    Each sendLaw (processTurnResponse ctx state job response allowedTools) TurnEnd.Ok := by
  refine each_bind (each_recordUsage sendLaw_bills _ _ _) ?_
  rintro _ ⟨metrics, -, rfl⟩
  have h' : InConversation { state with metrics := metrics } := h
  split_ifs with hcalls
  · split
    · refine each_bind (each_structuredOrReport ctx h' job _) ?_
      rintro ⟨_ | _ | _, state'⟩ hs
      · exact each_pure hs.1
      · exact each_pure hs.1
      · exact each_pure trivial
    · exact each_bind (each_finalizePlain sendLaw_permits _ _ _) fun _ _ => each_pure trivial
  · exact each_processToolCalls ctx h' job hr (by simpa using hcalls) allowedTools

/-! ### The run -/

def OutcomeOk (outcome : Report × Option WorkerState) : Prop :=
  ∀ state, outcome.2 = some state → PausedOk outcome.1 state

theorem each_compactToLimit (ctx : RunContext) {state : LoopState} (h : InConversation state) :
    Each sendLaw (compactToLimit ctx state) InConversation := by
  unfold compactToLimit
  split
  · split_ifs
    · exact each_bind (each_applyContextSummary _ _ h _ _) fun _ h' => each_pure h'
    · exact each_pure h
  · exact each_pure h

theorem outcomeOk_none (report : Report) : OutcomeOk (report, none) := fun _ h => nomatch h

/-- The invariant of the loop is that its history is a conversation. -/
theorem each_runLoop (ctx : RunContext) (job : Job) (tools : List Tool) (left : ℕ)
    {state : LoopState} (h : InConversation state) :
    Each sendLaw (runLoop ctx job tools left state) OutcomeOk := by
  induction left generalizing state with
  | zero =>
    exact each_bind (each_failReport sendLaw_permits _ _ _) fun _ _ => each_pure (outcomeOk_none _)
  | succ left ih =>
    refine each_bind (each_getTotals sendLaw_permits _) fun totals _ => ?_
    have h' : InConversation { state with iteration := state.iteration + 1 } := h
    dsimp only
    split
    · exact each_bind (each_failReport sendLaw_permits _ _ _) fun _ _ =>
        each_pure (outcomeOk_none _)
    · refine each_bind (each_compactToLimit ctx h') fun compacted hc => ?_
      refine each_bind (each_acquireTurnResponse ctx hc job tools) ?_
      rintro ⟨response | _ | report, acquired⟩ ⟨ha, hresponse⟩
      · refine each_bind (each_processTurnResponse ctx ha job (hresponse _ rfl) _) ?_
        rintro (next | report | ⟨report, paused⟩) hturn
        · exact ih hturn
        · exact each_pure (outcomeOk_none _)
        · exact each_pure fun _ hs => Option.some.inj hs ▸ hturn
      · exact ih ha
      · exact each_pure (outcomeOk_none _)

theorem each_enterLoop (worker : Worker) (config : RunConfig) (modelName : String)
    {state : LoopState} (h : InConversation state) (job : Job) :
    Each sendLaw (enterLoop worker config modelName state job) OutcomeOk :=
  each_bind (each_emit sendLaw_permits _ _ _ _) fun _ _ => each_runLoop _ _ _ _ h

theorem each_modelNotSet (worker : Worker) (config : RunConfig) (runId : RunId)
    (messages : List Message) :
    Each sendLaw (modelNotSet worker config runId messages) OutcomeOk :=
  each_bind (each_emit sendLaw_permits _ _ _ _) fun _ _ => each_pure (outcomeOk_none _)

/-- A run on a job whose history is a conversation. -/
theorem each_arun (worker : Worker) (config : RunConfig) {job : Job}
    (h : ∀ ms ∈ job.initialMessages, Conversation ms) :
    Each sendLaw (arun worker config job) OutcomeOk := by
  unfold arun
  dsimp only
  split_ifs
  · exact each_modelNotSet _ _ _ _
  · refine each_bind (each_routine sendLaw_permits trivial) fun registered _ => ?_
    have hstate : InConversation (startState worker config job registered) :=
      Conversation.buildMessages _ h
    exact each_enterLoop _ _ _ hstate _

theorem each_resolvePending (worker : Worker) (config : RunConfig) (job : Job)
    (pending : PendingAction) (decision : Value) :
    Each sendLaw (resolvePending worker config job pending decision) fun r =>
      r.1.id = pending.toolCall.id := by
  have hrefuse (error : String) : Each sendLaw (do
      config.emit "tool.failed" pending.toolCall.name
        [("tool_call_id", .str pending.toolCall.id), ("error", .str error)]
      pure (pending.toolCall, ({ error := some error } : ToolResult)))
      fun r => r.1.id = pending.toolCall.id :=
    each_bind (each_emit sendLaw_permits _ _ _ _) fun _ _ => each_pure rfl
  unfold resolvePending
  refine each_bind (P := fun _ => True) (each_query fun _ _ => ⟨trivial, trivial⟩) fun _ _ => ?_
  dsimp only
  split
  · exact hrefuse _
  · split_ifs with _ huser
    · exact hrefuse _
    all_goals
      refine each_bind (each_emit sendLaw_permits _ _ _ _) fun _ _ => ?_
      refine each_bind (each_executeTool _ _ _) fun result _ => ?_
      refine each_bind (each_emitToolResult sendLaw_permits _ _ _ _) fun _ _ => ?_
      exact each_pure rfl

theorem each_resumePending (worker : Worker) (config : RunConfig) {state : WorkerState}
    {pending : PendingAction} (h : AwaitsAnswer state.messages (some pending)) (decision : Value) :
    Each sendLaw (resumePending worker config state pending decision) OutcomeOk := by
  refine each_bind (each_resolvePending _ _ _ _ _) ?_
  rintro ⟨call, result⟩ hid
  refine each_bind (P := fun _ => True) (each_ofExcept fun _ _ => trivial) fun toolCalls _ => ?_
  dsimp only at hid ⊢
  split_ifs
  · exact each_modelNotSet _ _ _ _
  · refine each_bind (each_routine sendLaw_permits trivial) fun registered _ => ?_
    have hstate :
        InConversation (resumedState worker config state call result toolCalls registered) :=
      h pending rfl _ ⟨rfl, congrArg some hid⟩
    exact each_enterLoop _ _ _ hstate _

/-- A resume of a state that awaits one answer gives it and goes on. -/
theorem each_aresume (worker : Worker) (config : RunConfig) {state : WorkerState}
    (h : AwaitsAnswer state.messages state.pendingAction) (decision : Value) :
    Each sendLaw (aresume worker config state decision) OutcomeOk := by
  refine each_bind (each_modifyTotals sendLaw_bills _ _) fun _ _ => ?_
  split
  · exact each_pure (outcomeOk_none _)
  · next pending hpending => exact each_resumePending _ _ (hpending ▸ h) _

end Blackgeorge.WorkerRunner
