import Blackgeorge.WorkerRunner.Messages

/-! Context compaction: where the history is cut, how its head is summarized by the
model, and how the summary takes the head's place. -/

namespace Blackgeorge.WorkerRunner

open Data Program

def contextLimitErrors : List String :=
  ["expected a string with maximum length", "maximum context length", "context length exceeded",
    "context_length_exceeded", "context window full", "too many tokens", "input is too long",
    "exceeds token limit"]

def isContextLimitError (e : Exn) : Bool :=
  e.kind = .contextLimit || contextLimitErrors.any (Text.contains (Text.lower e.text))

def summarySystemPrompt : String :=
  "You are a summarization assistant. Preserve key facts, decisions, tool results, " ++
    "names, numbers, and user constraints. Be concise and avoid adding information."

def summaryInstruction (content : String) : String :=
  "Summarize the following conversation history:\n\n" ++ content

def summaryChunkTokens : ℕ := 2000
def summaryTailMessages : ℕ := 4
def summaryAttemptLimit : ℕ := 2
def summaryMaxOutputTokens : ℕ := 800

def modelRegistrationHint : String :=
  "Register the model in LiteLLM with context window and token limits " ++
    "(register_model or proxy model_info) for accurate context handling."

/-! ### The cut -/

def toolCallIdSet (messages : List Message) : List String :=
  messages.filterMap fun m => if m.role = .tool then m.toolCallId.filter (· ≠ "") else none

/-- An assistant message that issued one of the calls. -/
def issuesOneOf (ids : List String) (m : Message) : Bool :=
  m.role = .assistant && m.toolCalls.any fun call => ids.contains call.id

/-- The last index below `boundary` of a message that issued one of the calls. -/
def matchingAssistantIndex (messages : List Message) (ids : List String) : ℕ → Option ℕ
  | 0 => none
  | index + 1 =>
    if (messages[index]?).any (issuesOneOf ids) then some index
    else matchingAssistantIndex messages ids index

theorem matchingAssistantIndex_lt {messages : List Message} {ids : List String} {boundary index : ℕ}
    (h : matchingAssistantIndex messages ids boundary = some index) : index < boundary := by
  induction boundary with
  | zero => simp [matchingAssistantIndex] at h
  | succ n ih =>
    unfold matchingAssistantIndex at h
    split_ifs at h with hm
    · obtain rfl := Option.some.inj h
      exact Nat.lt_succ_self _
    · exact Nat.lt_succ_of_lt (ih h)

/-- The loop of `_preserve_tool_call_boundary`, which moves the cut in front of every
assistant message that issued a call answered behind it. `fuel` counts the boundaries
that are left; the boundary falls with every turn. -/
def moveBoundary (messages : List Message) : ℕ → ℕ → ℕ
  | 0, boundary => boundary
  | fuel + 1, boundary =>
    if boundary = 0 then 0
    else
      let ids := toolCallIdSet (messages.drop boundary)
      if ids = [] then boundary
      else
        match matchingAssistantIndex messages ids boundary with
        | none => boundary
        | some index => moveBoundary messages fuel index

/-- The boundary that is asked for, brought into the list. -/
def clampBoundary (messages : List Message) (boundary : ℤ) : ℕ :=
  (min (max boundary 0) messages.length).toNat

theorem clampBoundary_le (messages : List Message) (boundary : ℤ) :
    clampBoundary messages boundary ≤ messages.length := by
  unfold clampBoundary
  omega

def preserveToolCallBoundary (messages : List Message) (boundary : ℤ) : ℕ :=
  moveBoundary messages (messages.length + 1) (clampBoundary messages boundary)

/-- `_summary_split`: the system messages, the head to summarize and the tail to keep. -/
def summarySplit (messages : List Message) (preserveRecent : Bool) (messageLimit : Option ℕ) :
    List Message × List Message × List Message :=
  let systemMessages := messages.filter (·.role = .system)
  let nonSystem := messages.filter (·.role ≠ .system)
  if nonSystem = [] then (systemMessages, [], [])
  else
    let tailLimit :=
      match messageLimit with
      | none => summaryTailMessages
      | some limit => min summaryTailMessages (limit - systemMessages.length - 1)
    if nonSystem.length ≤ tailLimit then
      if preserveRecent then (systemMessages, [], nonSystem) else (systemMessages, nonSystem, [])
    else
      let boundary :=
        preserveToolCallBoundary nonSystem
          (if preserveRecent then nonSystem.length - tailLimit else nonSystem.length : ℕ)
      (systemMessages, nonSystem.take boundary, nonSystem.drop boundary)

/-! ### The summary -/

/-- Windows of `size` characters; `fuel` bounds their number. -/
def windows (size : ℕ) : ℕ → List Char → List String
  | 0, _ => []
  | _, [] => []
  | fuel + 1, text => String.ofList (text.take size) :: windows size fuel (text.drop size)

/-- `token_count`, whose count by the tokenizer is a question. -/
def tokenCount (modelName text : String) : Prog ℕ :=
  if text = "" then pure 0 else Prog.ask (.tokenCount modelName text)

def chunkText (modelName text : String) (targetTokens : ℕ) : Prog (List String) := do
  if text = "" then pure [""]
  else if (← tokenCount modelName text) ≤ targetTokens then pure [text]
  else pure (windows (max 200 (targetTokens * 4)) text.length text.toList)

def blockText : Value → Option String
  | .dict fields =>
    match (Dict.get fields "type").bind Value.str? with
    | some "text" | some "input_text" | some "output_text" =>
      ((Dict.get fields "text").bind Value.str?).filter (· ≠ "")
    | _ => none
  | _ => none

def contentParts : Content → List String
  | .text s => if s = "" then [] else [s]
  | .blocks items =>
    if items = [] then []
    else
      match items.filterMap blockText with
      | [] => ["[multimodal message]"]
      | texts => [" ".intercalate texts]

/-- A call in a summary; `json.dumps` raises on arguments that are not JSON. -/
def callText (call : ToolCall) : Except Exn String :=
  match (Value.dict call.arguments).sortKeys.dumpsStrict with
  | some args => .ok (call.name ++ "(" ++ args ++ ")")
  | none => .error (typeError "Object is not JSON serializable")

def messageSummaryText (m : Message) : Except Exn String := do
  let calls ← m.toolCalls.mapM callText
  let parts := contentParts m.content ++
    (if m.toolCalls = [] then [] else ["tool_calls=" ++ "; ".intercalate calls]) ++
    (if m.role = .tool then
      ((m.toolCallId.filter (· ≠ "")).map ("tool_call_id=" ++ ·)).toList else [])
  pure (if parts = [] then "" else m.role.text ++ ": " ++ " ".intercalate parts)

def summaryRequest (modelName chunk : String) (temperature : Option ℚ) : Completion where
  model := modelName
  messages := [{ role := .system, content := .text summarySystemPrompt },
    { role := .user, content := .text (summaryInstruction chunk) }]
  temperature := temperature
  maxTokens := some summaryMaxOutputTokens

/-- `_do_summarize_chunk`. -/
def summaryOf : CompletionAnswer → String
  | .response r => r.content.getD ""
  | _ => ""

def summarizeChunk (modelName chunk : String) (temperature : Option ℚ) : Prog String := do
  let request := summaryRequest modelName chunk temperature
  match ← Prog.ask (.complete false request) with
  | .ok answer => pure (summaryOf answer)
  | .error e =>
    if e.kind = .notImplemented then
      pure (summaryOf (← Prog.ofExcept (← Prog.ask (.complete true request))))
    else Prog.raise e

def summarizeChunks (modelName : String) (temperature : Option ℚ) :
    List String → Prog (List String)
  | [] => pure []
  | chunk :: chunks => do
    let summary ← summarizeChunk modelName chunk temperature
    let summaries ← summarizeChunks modelName temperature chunks
    pure (if summary = "" then summaries else summary :: summaries)

/-- One attempt of `asummarize_messages`. -/
def summarizeText (modelName text : String) (temperature : Option ℚ) (targetTokens : ℕ) :
    Prog (Option String) := do
  let chunks ← chunkText modelName text targetTokens
  let summaries ← summarizeChunks modelName temperature chunks
  if summaries = [] then pure none
  else
    let merged := "\n".intercalate summaries
    if 1 < summaries.length then
      let combined ← summarizeChunk modelName merged temperature
      pure (some (if combined = "" then merged else combined))
    else pure (some merged)

/-- The attempts of `asummarize_messages`, each with smaller chunks than the last. -/
def summarizeAttempts (modelName text : String) (temperature : Option ℚ) :
    ℕ → ℕ → Prog (Option String)
  | 0, _ => pure none
  | attempts + 1, targetTokens =>
    Prog.tryExcept (summarizeText modelName text temperature targetTokens) fun e =>
      if isContextLimitError e then
        summarizeAttempts modelName text temperature attempts (max 200 (targetTokens / 2))
      else Prog.raise e

def summarizeMessages (modelName : String) (messages : List Message) (temperature : Option ℚ) :
    Prog (Option String) := do
  let lines ← Prog.ofExcept (messages.mapM messageSummaryText)
  let lines := lines.filter (· ≠ "")
  if lines = [] then pure (some "")
  else
    summarizeAttempts modelName ("\n".intercalate lines) temperature summaryAttemptLimit
      summaryChunkTokens

/-! ### The loop's state -/

/-- `LoopState`: what one run or resume of a worker changes. -/
structure LoopState where
  runId : RunId
  workerName : String
  messages : List Message
  toolCalls : List ToolCall := []
  metrics : Metrics := {}
  errors : List String := []
  iteration : ℕ := 0
  contextSummaries : ℕ := 0
  modelRegistered : Bool

def summaryMessage (summary : String) : Message where
  role := .user
  content := .text ("Summary of previous context:\n" ++ summary)
  metadata := [("summary", .bool true)]

def SummaryInfo.payload (info : SummaryInfo) : Dict :=
  [("model", .str info.model), ("summarized_messages", .int info.summarizedMessages),
    ("kept_messages", .int info.keptMessages)] ++
  (if info.unregisteredModel then
    [("unregistered_model", .bool true), ("registration_hint", .str modelRegistrationHint)] else [])

/-- The metrics' part of `_commit_context_summary`. -/
def recordSummary (metrics : Metrics) (info : SummaryInfo) : Metrics :=
  let warnings := metrics.warnings.getD []
  { metrics with
    warnings :=
      if info.unregisteredModel then
        some (if warnings.contains modelRegistrationHint then warnings
          else warnings ++ [modelRegistrationHint])
      else metrics.warnings
    contextSummaries := some (metrics.contextSummaries.getD [] ++ [info]) }

def applyContextSummary (config : RunConfig) (modelName : String) (state : LoopState)
    (preserveRecent : Bool) (messageLimit : Option ℕ) : Prog (Bool × LoopState) := do
  let (systemMessages, head, tail) := summarySplit state.messages preserveRecent messageLimit
  if head = [] then pure (false, state)
  else
    let summary ←
      Prog.tryExcept (summarizeMessages modelName head config.temperature) fun _ => pure none
    match summary with
    | none => pure (false, state)
    | some summary =>
      let info : SummaryInfo :=
        ⟨modelName, head.length, tail.length, !state.modelRegistered⟩
      config.emit "worker.context_summarized" state.workerName (SummaryInfo.payload info)
      pure (true, { state with
        messages := systemMessages ++ [summaryMessage summary] ++ tail
        metrics := recordSummary state.metrics info })

def contextErrorMessage (modelRegistered allowSummary : Bool) : String :=
  let message :=
    if allowSummary then "Context length exceeded after summarization attempts."
    else "Context length exceeded. Set Desk(respect_context_window=True) to allow summarization."
  if modelRegistered then message else message ++ " " ++ modelRegistrationHint

end Blackgeorge.WorkerRunner
