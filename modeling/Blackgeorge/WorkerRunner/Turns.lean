import Blackgeorge.Program.Laws
import Blackgeorge.WorkerRunner.Run

/-! What any turn of a worker does, under any law that lets its bookkeeping, its requests
and its tools pass: the history grows unless it is compacted, the requests offer the
worker's tools, and a run pauses on a call of one of them. -/

namespace Blackgeorge.WorkerRunner

open Data Program Coroutine Coro

variable {L : Law sig} {tools : List Tool}

/-! ### Bookkeeping -/

theorem each_recordUsage (hL : Bills L) (ctx : RunContext) (state : LoopState) (usage : Dict) :
    Each L (recordUsage ctx state usage) fun s => ∃ metrics : Metrics,
      metrics.contextSummaries = state.metrics.contextSummaries ∧
        s = { state with metrics := metrics } := by
  unfold recordUsage
  split_ifs
  · exact each_pure ⟨state.metrics, rfl, rfl⟩
  · have hcost : Each L (Prog.ask (.usageCost ctx.modelName usage)) fun _ => True :=
      each_query fun cost _ => ⟨hL.usageCost _ _ cost, trivial⟩
    apply each_bind hcost
    intro cost _
    apply each_bind (each_modifyTotals hL _ _)
    intro _ _
    exact each_pure ⟨state.metrics.recordTurn usage cost, rfl, rfl⟩

theorem each_failReport (hL : Permits L) (ctx : RunContext) (state : LoopState) (message : String) :
    Each L (failReport ctx state message) fun _ => True :=
  each_bind (each_emit hL _ _ _ _) fun _ _ => each_pure trivial

theorem each_emitAssistantMessage (hL : Permits L) (config : RunConfig) (workerName : String)
    (message : Message) : Each L (emitAssistantMessage config workerName message) fun _ => True :=
  each_emit hL _ _ _ _

theorem each_finalizeStructured (hL : Permits L) (ctx : RunContext) (state : LoopState)
    (data : Value) : Each L (finalizeStructured ctx state data) fun _ => True := by
  refine each_bind (each_emitAssistantMessage hL _ _ _) fun _ _ => ?_
  exact each_bind (each_emit hL _ _ _ _) fun _ _ => each_pure trivial

theorem each_finalizePlain (hL : Permits L) (ctx : RunContext) (state : LoopState)
    (response : ModelResponse) : Each L (finalizePlain ctx state response) fun _ => True := by
  refine each_bind (each_emitAssistantMessage hL _ _ _) fun _ _ => ?_
  exact each_bind (each_emit hL _ _ _ _) fun _ _ => each_pure trivial

theorem each_emitToolResult (hL : Permits L) (config : RunConfig) (source : String)
    (call : ToolCall) (result : ToolResult) :
    Each L (emitToolResult config source call result) fun _ => True := by
  unfold emitToolResult
  split_ifs <;> exact each_emit hL _ _ _ _

theorem each_emitPause (hL : Permits L) (config : RunConfig) (workerName : String)
    (pending : PendingAction) : Each L (emitPause config workerName pending) fun _ => True := by
  refine each_bind (P := fun _ => True) ?_ fun _ _ => each_emit hL _ _ _ _
  unfold emitRequest
  split
  · exact each_emit hL _ _ _ _
  · exact each_emit hL _ _ _ _
  · exact each_pure trivial

/-! ### Laws for workers -/

/-- Questions without a tool, a decision or a price. -/
def FreeQuery : Query → Prop
  | .complete .. | .runTool .. | .decide .. | .usageCost .. => False
  | _ => True

/-- The law lets a worker that offers these tools call its model. -/
structure Requests (L : Law sig) (tools : List Tool) : Prop extends Permits L where
  free : ∀ q a, FreeQuery q → L.event ⟨q, a⟩
  complete : ∀ sync call a, call.tools = none ∨ call.tools = some (toolSchemas tools) →
    L.event ⟨.complete sync call, a⟩

/-- The law lets a worker with these tools run them. -/
structure Performs (L : Law sig) (tools : List Tool) : Prop extends Permits L where
  newId : ∀ a, L.event ⟨.newId, a⟩
  runTool : ∀ tool ∈ tools, Unguarded tool → ∀ call a, L.event ⟨.runTool tool call none, a⟩

/-- The law lets a worker with these tools do its turns. -/
structure Serves (L : Law sig) (tools : List Tool) : Prop extends
  Requests L tools, Performs L tools, Bills L

theorem Serves.requests (hL : Serves L tools) : Requests L tools := hL.toRequests

theorem each_free (hL : Requests L tools) {q : Query} (hq : FreeQuery q) :
    Each L (Prog.ask q) fun _ => True :=
  each_query fun a _ => ⟨hL.free q a hq, trivial⟩

theorem each_request (hL : Requests L tools) {sync : Bool} {call : Completion}
    (h : call.tools = none ∨ call.tools = some (toolSchemas tools)) :
    Each L (Prog.ask (.complete sync call)) fun _ => True :=
  each_query fun a _ => ⟨hL.complete sync call a h, trivial⟩

theorem each_outcome {α : Type} (r : Except Exn α) : Each L (Prog.ofExcept r) fun _ => True :=
  each_ofExcept fun _ _ => trivial

/-! ### Histories that grow -/

/-- Unless it was compacted, the history is the old one with more behind it. -/
def Grown (messages : List Message) (metrics : Metrics) (messages' : List Message)
    (metrics' : Metrics) : Prop :=
  metrics'.contextSummaries = none → metrics.contextSummaries = none ∧ messages <+: messages'

/-- What a state of the loop hands on to the next one: its history and its identity. -/
structure Grows (s s' : LoopState) : Prop where
  grown : Grown s.messages s.metrics s'.messages s'.metrics
  runId_eq : s'.runId = s.runId
  workerName_eq : s'.workerName = s.workerName

theorem Grows.refl (s : LoopState) : Grows s s := ⟨fun h => ⟨h, List.prefix_rfl⟩, rfl, rfl⟩

theorem Grows.trans {s₁ s₂ s₃ : LoopState} (h : Grows s₁ s₂) (h' : Grows s₂ s₃) : Grows s₁ s₃ where
  grown := by
    intro hnone
    obtain ⟨hnone₂, hmessages'⟩ := h'.grown hnone
    obtain ⟨hnone₁, hmessages⟩ := h.grown hnone₂
    exact ⟨hnone₁, hmessages.trans hmessages'⟩
  runId_eq := h'.runId_eq.trans h.runId_eq
  workerName_eq := h'.workerName_eq.trans h.workerName_eq

theorem Grows.of_metrics {s : LoopState} {metrics : Metrics}
    (h : metrics.contextSummaries = s.metrics.contextSummaries) :
    Grows s { s with metrics := metrics } :=
  ⟨fun hnone => ⟨h ▸ hnone, List.prefix_rfl⟩, rfl, rfl⟩

theorem Grows.of_messages {s : LoopState} {messages : List Message} {toolCalls : List ToolCall}
    (h : s.messages <+: messages) :
    Grows s { s with messages := messages, toolCalls := toolCalls } :=
  ⟨fun hnone => ⟨hnone, h⟩, rfl, rfl⟩

theorem Grows.of_iteration {s : LoopState} {iteration : ℕ} :
    Grows s { s with iteration := iteration } :=
  ⟨fun hnone => ⟨hnone, List.prefix_rfl⟩, rfl, rfl⟩

/-- A state of the same turn: no call was recorded since. -/
structure Keeps (s s' : LoopState) : Prop extends Grows s s' where
  toolCalls : s'.toolCalls = s.toolCalls
  iteration : s'.iteration = s.iteration

theorem Keeps.refl (s : LoopState) : Keeps s s := ⟨Grows.refl s, rfl, rfl⟩

theorem Keeps.trans {s₁ s₂ s₃ : LoopState} (h : Keeps s₁ s₂) (h' : Keeps s₂ s₃) : Keeps s₁ s₃ :=
  ⟨h.toGrows.trans h'.toGrows, h'.toolCalls.trans h.toolCalls, h'.iteration.trans h.iteration⟩

theorem Keeps.of_metrics {s : LoopState} {metrics : Metrics}
    (h : metrics.contextSummaries = s.metrics.contextSummaries) :
    Keeps s { s with metrics := metrics } :=
  ⟨Grows.of_metrics h, rfl, rfl⟩

/-- A report that ends a run. A completed one answers behind the history it began with. -/
structure Ended (s : LoopState) (report : Report) : Prop where
  status : report.status = .completed ∨ report.status = .failed
  answered : report.status = .completed → report.metrics.contextSummaries = none →
    s.metrics.contextSummaries = none ∧
      ∃ ms m, report.messages = s.messages ++ ms ++ [m] ∧ m.role = .assistant ∧ m.toolCalls = []

theorem Ended.of_grows {s s' : LoopState} {report : Report} (h : Grows s s')
    (h' : Ended s' report) : Ended s report where
  status := h'.status
  answered := by
    intro hstatus hnone
    obtain ⟨hnone', ms, m, hmessages, hm⟩ := h'.answered hstatus hnone
    obtain ⟨hnone'', ms', hms'⟩ := h.grown hnone'
    refine ⟨hnone'', ms' ++ ms, m, ?_, hm⟩
    rw [hmessages, ← hms', List.append_assoc s.messages]

theorem Ended.of_failed {s : LoopState} {report : Report} (h : report.status = .failed) :
    Ended s report :=
  ⟨.inr h, fun hc => by rw [h] at hc; cases hc⟩

/-- A completed report whose last message is the answer. -/
theorem Ended.of_answer {s : LoopState} {runId : RunId} {content reasoning : Option String}
    {data : Value} {m : Message} (hrole : m.role = .assistant) (hcalls : m.toolCalls = []) :
    Ended s (buildReport runId .completed content reasoning data
      { s with messages := s.messages ++ [m] } none) where
  status := .inl rfl
  answered := by
    intro _ hnone
    have hmessages : s.messages ++ [m] = s.messages ++ [] ++ [m] := by simp
    exact ⟨hnone, [], m, hmessages, hrole, hcalls⟩

/-- A report that ends a run with the calls recorded so far. -/
structure Reported (s : LoopState) (report : Report) : Prop extends Ended s report where
  toolCalls : report.toolCalls = s.toolCalls

theorem Reported.of_keeps {s s' : LoopState} {report : Report} (h : Keeps s s')
    (h' : Reported s' report) : Reported s report :=
  ⟨h'.toEnded.of_grows h.toGrows, h'.toolCalls.trans h.toolCalls⟩

theorem ends_failReport (hL : Permits L) (ctx : RunContext) (state : LoopState) (message : String) :
    Each L (failReport ctx state message) fun r => ∀ s, Ended s r := by
  apply each_bind (each_emit hL _ _ _ _)
  intro _ _
  exact each_pure fun s => Ended.of_failed rfl

theorem reports_failReport (hL : Permits L) (ctx : RunContext) (state : LoopState)
    (message : String) : Each L (failReport ctx state message) (Reported state) := by
  apply each_bind (each_emit hL _ _ _ _)
  intro _ _
  exact each_pure ⟨Ended.of_failed rfl, rfl⟩

theorem reports_finalizeStructured (hL : Permits L) (ctx : RunContext) (state : LoopState)
    (data : Value) : Each L (finalizeStructured ctx state data) (Reported state) := by
  apply each_bind (each_emitAssistantMessage hL _ _ _)
  intro _ _
  apply each_bind (each_emit hL _ _ _ _)
  intro _ _
  exact each_pure ⟨Ended.of_answer rfl rfl, rfl⟩

theorem reports_finalizePlain (hL : Permits L) (ctx : RunContext) (state : LoopState)
    (response : ModelResponse) : Each L (finalizePlain ctx state response) (Reported state) := by
  apply each_bind (each_emitAssistantMessage hL _ _ _)
  intro _ _
  apply each_bind (each_emit hL _ _ _ _)
  intro _ _
  exact each_pure ⟨Ended.of_answer rfl rfl, rfl⟩

/-! ### Compaction -/

/-- The law lets a history be summarized. -/
structure Summarizes (L : Law sig) : Prop extends Permits L where
  summary : ∀ sync modelName chunk temperature a,
    L.event ⟨.complete sync (summaryRequest modelName chunk temperature), a⟩

theorem Requests.summarizes (hL : Requests L tools) : Summarizes L where
  toPermits := hL.toPermits
  summary sync _ _ _ a := hL.complete sync _ a (.inl rfl)

theorem each_summaryRequest (hL : Summarizes L) (sync : Bool) (modelName chunk : String)
    (temperature : Option ℚ) :
    Each L (Prog.ask (.complete sync (summaryRequest modelName chunk temperature)))
      fun _ => True :=
  each_query fun a _ => ⟨hL.summary sync _ _ _ a, trivial⟩

/-- What a compaction leaves: another history, and metrics with the same usage. -/
structure Compacted (s s' : LoopState) : Prop where
  toolCalls : s'.toolCalls = s.toolCalls
  iteration : s'.iteration = s.iteration
  costUsd : s'.metrics.costUsd = s.metrics.costUsd
  usage : s'.metrics.usage = s.metrics.usage
  grows : Grows s s'

theorem Compacted.keeps {s s' : LoopState} (h : Compacted s s') : Keeps s s' :=
  ⟨h.grows, h.toolCalls, h.iteration⟩

theorem Compacted.refl (s : LoopState) : Compacted s s := ⟨rfl, rfl, rfl, rfl, Grows.refl s⟩

theorem summarizes_tokenCount (hL : Summarizes L) (modelName text : String) :
    Each L (tokenCount modelName text) fun _ => True := by
  unfold tokenCount
  split_ifs
  · exact each_pure trivial
  · exact each_routine hL.toPermits trivial

theorem summarizes_chunkText (hL : Summarizes L) (modelName text : String) (targetTokens : ℕ) :
    Each L (chunkText modelName text targetTokens) fun _ => True := by
  unfold chunkText
  split_ifs
  · exact each_pure trivial
  · apply each_bind (summarizes_tokenCount hL _ _)
    intro _ _
    split_ifs <;> exact each_pure trivial

theorem summarizes_summarizeChunk (hL : Summarizes L) (modelName chunk : String)
    (temperature : Option ℚ) : Each L (summarizeChunk modelName chunk temperature) fun _ => True := by
  refine each_bind (each_summaryRequest hL _ _ _ _) ?_
  rintro (e | answer) _
  · dsimp only
    split_ifs
    · refine each_bind (each_summaryRequest hL _ _ _ _) fun r _ => ?_
      exact each_bind (each_outcome r) fun _ _ => each_pure trivial
    · exact each_raise
  · exact each_pure trivial

theorem summarizes_summarizeChunks (hL : Summarizes L) (modelName : String)
    (temperature : Option ℚ) (chunks : List String) :
    Each L (summarizeChunks modelName temperature chunks) fun _ => True := by
  induction chunks with
  | nil => exact each_pure trivial
  | cons chunk chunks ih =>
    apply each_bind (summarizes_summarizeChunk hL _ _ _)
    intro _ _
    exact each_bind ih fun _ _ => each_pure trivial

theorem summarizes_summarizeText (hL : Summarizes L) (modelName text : String)
    (temperature : Option ℚ) (targetTokens : ℕ) :
    Each L (summarizeText modelName text temperature targetTokens) fun _ => True := by
  apply each_bind (summarizes_chunkText hL _ _ _)
  intro chunks _
  apply each_bind (summarizes_summarizeChunks hL _ _ _)
  intro summaries _
  split_ifs
  · exact each_pure trivial
  · exact each_bind (summarizes_summarizeChunk hL _ _ _) fun _ _ => each_pure trivial
  · exact each_pure trivial

theorem summarizes_summarizeAttempts (hL : Summarizes L) (modelName text : String)
    (temperature : Option ℚ) (attempts targetTokens : ℕ) :
    Each L (summarizeAttempts modelName text temperature attempts targetTokens)
      fun _ => True := by
  induction attempts generalizing targetTokens with
  | zero => exact each_pure trivial
  | succ attempts ih =>
    apply each_tryExcept (summarizes_summarizeText hL _ _ _ _)
    intro e
    split_ifs
    · exact ih _
    · exact each_raise

theorem summarizes_summarizeMessages (hL : Summarizes L) (modelName : String)
    (messages : List Message) (temperature : Option ℚ) :
    Each L (summarizeMessages modelName messages temperature) fun _ => True := by
  apply each_bind (each_outcome _)
  intro lines _
  dsimp only
  split_ifs
  · exact each_pure trivial
  · exact summarizes_summarizeAttempts hL _ _ _ _ _

/-- A compaction is recorded in the metrics. -/
theorem compacts_applyContextSummary (hL : Summarizes L) (config : RunConfig) (modelName : String)
    (state : LoopState) (preserveRecent : Bool) (messageLimit : Option ℕ) :
    Each L (applyContextSummary config modelName state preserveRecent messageLimit)
      fun r => Compacted state r.2 := by
  unfold applyContextSummary
  dsimp only
  split_ifs
  · exact each_pure (Compacted.refl _)
  · have hsummary : Each L (Prog.tryExcept (summarizeMessages modelName
        (summarySplit state.messages preserveRecent messageLimit).2.1 config.temperature)
        fun _ => pure none) fun _ => True :=
      each_tryExcept (summarizes_summarizeMessages hL _ _ _) fun _ => each_pure trivial
    apply each_bind hsummary
    intro summary _
    cases summary with
    | none => exact each_pure (Compacted.refl _)
    | some summary =>
      apply each_bind (each_emit hL.toPermits _ _ _ _)
      intro _ _
      exact each_pure ⟨rfl, rfl, rfl, rfl, fun hnone => by simp [recordSummary] at hnone, rfl, rfl⟩

theorem compacts_compactToLimit (hL : Summarizes L) (ctx : RunContext) (state : LoopState) :
    Each L (compactToLimit ctx state) (Compacted state) := by
  unfold compactToLimit
  split
  · split_ifs
    · exact each_bind (compacts_applyContextSummary hL _ _ _ _ _) fun _ h => each_pure h
    · exact each_pure (Compacted.refl _)
  · exact each_pure (Compacted.refl _)

/-! ### Model calls -/

theorem completionRequest_tools (ctx : RunContext) (messages : List Message) (tools : List Tool)
    (job : Job) (stream : Bool) (schema : Option Schema) :
    (completionRequest ctx messages tools job stream schema).tools = none ∨
      (completionRequest ctx messages tools job stream schema).tools = some (toolSchemas tools) := by
  unfold completionRequest
  dsimp only
  split_ifs
  · exact .inl rfl
  · exact .inr rfl

/-- A request offers the worker's tools or none. -/
def Offers (tools offered : List Tool) : Prop := offered = tools ∨ offered = []

theorem each_completionRequest (hL : Requests L tools) {offered : List Tool} (h : Offers tools offered)
    (ctx : RunContext) (messages : List Message) (job : Job) (stream sync : Bool)
    (schema : Option Schema) :
    Each L (Prog.ask (.complete sync (completionRequest ctx messages offered job stream schema)))
      fun _ => True := by
  apply each_request hL
  rcases h with rfl | rfl
  · exact completionRequest_tools _ _ _ _ _ _
  · exact .inl rfl

theorem serves_completion (hL : Requests L tools) {offered : List Tool} (h : Offers tools offered)
    (ctx : RunContext) (messages : List Message) (job : Job) :
    Each L (completion ctx messages offered job) fun _ => True := by
  refine each_bind (each_completionRequest hL h _ _ _ _ _ _) ?_
  rintro (e | answer) _
  · dsimp only
    split_ifs
    · refine each_bind (each_completionRequest hL h _ _ _ _ _ _) fun r _ => ?_
      exact each_bind (each_outcome r) fun _ _ => each_pure trivial
    · exact each_raise
  · exact each_pure trivial

theorem serves_finishStream (hL : Requests L tools) {offered : List Tool} (h : Offers tools offered)
    (ctx : RunContext) (workerName : String) (messages : List Message) (job : Job)
    (r : Except Exn CompletionAnswer) :
    Each L (finishStream ctx workerName messages offered job r) fun _ => True := by
  match r with
  | .ok (.response r) => exact each_pure trivial
  | .ok (.stream tokens result) =>
    apply each_bind (each_forM fun token _ => each_emit hL.toPermits _ _ _ _)
    intro _ _
    exact each_outcome _
  | .ok .raw => exact serves_completion hL h ctx messages job
  | .error e =>
    rw [finishStream]
    split_ifs
    · exact serves_completion hL h ctx messages job
    · exact each_raise

theorem serves_streamCompletion (hL : Requests L tools) {offered : List Tool}
    (h : Offers tools offered) (ctx : RunContext) (workerName : String) (messages : List Message)
    (job : Job) (schema : Option Schema) :
    Each L (streamCompletion ctx workerName messages offered job schema) fun _ => True := by
  refine each_bind (each_completionRequest hL h _ _ _ _ _ _) ?_
  rintro (e | answer) _
  · dsimp only
    split_ifs
    · refine each_bind (each_completionRequest hL h _ _ _ _ _ _) fun r _ => ?_
      exact serves_finishStream hL h _ _ _ _ _
    · exact serves_finishStream hL h _ _ _ _ _
  · exact serves_finishStream hL h _ _ _ _ _

theorem serves_structuredAnswer (hL : Requests L tools) (request : StructuredCompletion) :
    Each L (structuredAnswer request) fun _ => True := by
  refine each_bind (each_free hL trivial) ?_
  rintro (e | answer) _
  · dsimp only
    split_ifs
    · exact each_bind (each_free hL trivial) fun r _ => each_outcome r
    · exact each_raise
  · exact each_pure trivial

theorem serves_structuredCompletion (hL : Requests L tools) (hB : Bills L) (ctx : RunContext) (state : LoopState)
    (job : Job) (schema : Schema) :
    Each L (structuredCompletion ctx state job schema) fun r => Keeps state r.2 := by
  apply each_bind (serves_structuredAnswer hL _)
  intro answer _
  split
  · exact each_pure (Keeps.refl _)
  · refine each_bind (each_recordUsage hB _ _ _) ?_
    rintro _ ⟨metrics, hmetrics, rfl⟩
    exact each_pure (Keeps.of_metrics hmetrics)

/-- What a turn goes on with, from the state it began in. -/
def AcquiredFrom (state : LoopState) (r : Acquired × LoopState) : Prop :=
  Keeps state r.2 ∧ ∀ report, r.1 = .report report → Reported state report

theorem AcquiredFrom.of_keeps {s s' : LoopState} {r : Acquired × LoopState} (h : Keeps s s')
    (h' : AcquiredFrom s' r) : AcquiredFrom s r :=
  ⟨h.trans h'.1, fun report hr => (h'.2 report hr).of_keeps h⟩

theorem AcquiredFrom.of_report {s s' : LoopState} {report : Report} (h : Keeps s s')
    (h' : Reported s report) : AcquiredFrom s (.report report, s') := by
  refine ⟨h, ?_⟩
  rintro _ ⟨⟩
  exact h'

theorem serves_retryContextOrReport (hL : Requests L tools) (ctx : RunContext) (state : LoopState) :
    Each L (retryContextOrReport ctx state) fun r =>
      Keeps state r.2 ∧ ∀ report, r.1 = some report → Reported state report := by
  have hfail (message : String) (state' : LoopState) (h : Keeps state state') :
      Each L (do pure (some (← failReport ctx state' message), state')) fun r =>
        Keeps state r.2 ∧ ∀ report, r.1 = some report → Reported state report := by
    apply each_bind (reports_failReport hL.toPermits _ _ _)
    intro report hreport
    refine each_pure ⟨h, ?_⟩
    rintro _ ⟨⟩
    exact hreport.of_keeps h
  unfold retryContextOrReport
  split_ifs
  · exact hfail _ _ (Keeps.refl _)
  · exact hfail _ _ (Keeps.refl _)
  · apply each_bind (compacts_applyContextSummary hL.summarizes _ _ _ _ _)
    rintro ⟨applied, state'⟩ hcompacted
    have h' := hcompacted.keeps
    dsimp only
    split_ifs
    · exact each_pure ⟨⟨⟨h'.grown, h'.runId_eq, h'.workerName_eq⟩, h'.toolCalls, h'.iteration⟩,
        fun _ h => nomatch h⟩
    · exact hfail _ _ h'

/-- The answer to a retry. -/
theorem each_retry (hL : Requests L tools) (ctx : RunContext) (state : LoopState) :
    Each L (do
      match ← retryContextOrReport ctx state with
      | (some report, state) => pure (.report report, state)
      | (none, state) => pure (.again, state)) (AcquiredFrom state) := by
  apply each_bind (serves_retryContextOrReport hL ctx state)
  rintro ⟨_ | report, state'⟩ ⟨hkeeps, hreport⟩
  · exact each_pure ⟨hkeeps, fun _ h => nomatch h⟩
  · exact each_pure (AcquiredFrom.of_report hkeeps (hreport report rfl))

theorem serves_retryOrRaise (hL : Requests L tools) (ctx : RunContext) (state : LoopState) (e : Exn) :
    Each L (retryOrRaise ctx state e) (AcquiredFrom state) := by
  unfold retryOrRaise
  split_ifs
  · exact each_retry hL ctx state
  · exact each_raise

theorem serves_structuredOrReport (hL : Requests L tools) (hB : Bills L) (ctx : RunContext) (state : LoopState)
    (job : Job) (schema : Schema) :
    Each L (structuredOrReport ctx state job schema) (AcquiredFrom state) := by
  refine each_bind (each_attempt (serves_structuredCompletion hL hB ctx state job schema)) ?_
  rintro (e | ⟨data, state'⟩) hr
  · dsimp only
    split_ifs
    · exact each_raise
    · exact each_retry hL ctx state
    · apply each_bind (reports_failReport hL.toPermits _ _ _)
      intro report hreport
      exact each_pure (AcquiredFrom.of_report (Keeps.refl _) hreport)
  · have hkeeps : Keeps state state' := hr _ rfl
    apply each_bind (reports_finalizeStructured hL.toPermits _ _ _)
    intro report hreport
    exact each_pure (AcquiredFrom.of_report hkeeps (hreport.of_keeps hkeeps))

theorem serves_previewOrReport (hL : Requests L tools) (hB : Bills L) (ctx : RunContext) (state : LoopState)
    (job : Job) (schema : Schema) :
    Each L (previewOrReport ctx state job schema) (AcquiredFrom state) := by
  have hstream := serves_streamCompletion hL (.inr rfl) ctx state.workerName state.messages job
    (some schema)
  refine each_bind (each_attempt hstream) ?_
  rintro (e | streamed) _
  · dsimp only
    split_ifs
    · exact serves_retryOrRaise hL ctx state e
    · exact each_raise
  · refine each_bind (each_recordUsage hB _ _ _) ?_
    rintro _ ⟨metrics, hmetrics, rfl⟩
    have hkeeps := Keeps.of_metrics hmetrics
    refine each_bind (each_free hL trivial) ?_
    rintro (e | data) _
    · dsimp only
      split_ifs
      · exact (serves_structuredOrReport hL hB ctx _ job schema).mono fun _ h => h.of_keeps hkeeps
      · exact each_raise
    · apply each_bind (reports_finalizeStructured hL.toPermits _ _ _)
      intro report hreport
      exact each_pure (AcquiredFrom.of_report hkeeps (hreport.of_keeps hkeeps))

/-- The response of a completion call, or the retry of a failed one. -/
theorem serves_responseOrRetry (hL : Requests L tools) (ctx : RunContext) (state : LoopState)
    {request : Prog ModelResponse} (hreq : Each L request fun _ => True) :
    Each L (do
      match ← request.attempt with
      | .ok response => pure (.response response, state)
      | .error e => if e.isException then retryOrRaise ctx state e else Prog.raise e)
      (AcquiredFrom state) := by
  refine each_bind (each_attempt hreq) ?_
  rintro (e | response) _
  · dsimp only
    split_ifs
    · exact serves_retryOrRaise hL ctx state e
    · exact each_raise
  · exact each_pure ⟨Keeps.refl _, fun _ h => nomatch h⟩

theorem serves_acquireTurnResponse (hL : Requests L tools) (hB : Bills L) (ctx : RunContext) (state : LoopState)
    (job : Job) : Each L (acquireTurnResponse ctx state job tools) (AcquiredFrom state) := by
  have hcompletion := serves_completion hL (.inl rfl) ctx state.messages job
  unfold acquireTurnResponse
  split
  · split_ifs
    · exact serves_previewOrReport hL hB ctx state job _
    · exact serves_structuredOrReport hL hB ctx state job _
    · exact serves_responseOrRetry hL ctx state hcompletion
  · apply serves_responseOrRetry hL ctx state
    split_ifs
    · exact serves_streamCompletion hL (.inl rfl) ctx _ _ job none
    · exact hcompletion

end Blackgeorge.WorkerRunner
