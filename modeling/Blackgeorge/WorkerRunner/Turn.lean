import Blackgeorge.WorkerRunner.Context

/-! One turn of a worker: the model is called, its tool calls are planned and executed,
and the turn ends in another turn, a report or a pause. -/

namespace Blackgeorge.WorkerRunner

open Data Program

/-! ### Reports -/

def buildReport (runId : RunId) (status : RunStatus) (content reasoningContent : Option String)
    (data : Value) (state : LoopState) (pendingAction : Option PendingAction) : Report where
  runId := runId
  status := status
  content := content
  reasoningContent := reasoningContent
  data := data
  messages := state.messages
  toolCalls := state.toolCalls
  metrics := state.metrics
  pendingAction := pendingAction
  errors := state.errors

def buildErrorReport (runId : RunId) (messages : List Message) (errors : List String) : Report where
  runId := runId
  status := .failed
  messages := messages
  errors := errors

/-- `CompletionContext`: the configuration and the model of a run. -/
structure RunContext where
  config : RunConfig
  modelName : String

def failReport (ctx : RunContext) (state : LoopState) (message : String) : Prog Report := do
  ctx.config.emit "worker.failed" state.workerName [("error", .str message)]
  pure (buildReport ctx.config.runId .failed none none .none
    { state with errors := state.errors ++ [message] } none)

def finalizeStructured (ctx : RunContext) (state : LoopState) (data : Value) : Prog Report := do
  let content := structuredContent data
  let message : Message := { role := .assistant, content := .text content }
  emitAssistantMessage ctx.config state.workerName message
  ctx.config.emit "worker.completed" state.workerName []
  pure (buildReport ctx.config.runId .completed (some content) none data
    { state with messages := state.messages ++ [message] } none)

def finalizePlain (ctx : RunContext) (state : LoopState) (response : ModelResponse) :
    Prog Report := do
  let message : Message :=
    { role := .assistant
      content := .text (response.content.getD "")
      reasoningContent := response.reasoningContent
      thinkingBlocks := response.thinkingBlocks }
  emitAssistantMessage ctx.config state.workerName message
  ctx.config.emit "worker.completed" state.workerName []
  pure (buildReport ctx.config.runId .completed response.content response.reasoningContent .none
    { state with messages := state.messages ++ [message] } none)

/-- `CompletionContext.pause`. -/
def pauseReport (state : LoopState) (pending : PendingAction) : Report :=
  buildReport state.runId .paused none none .none state (some pending)

def pauseState (state : LoopState) (job : Job) (pending : PendingAction) : WorkerState where
  runId := state.runId
  status := .paused
  runnerName := state.workerName
  job := job
  messages := state.messages
  toolCalls := state.toolCalls
  pendingAction := some pending
  metrics := state.metrics
  iteration := state.iteration

/-! ### Calling the model -/

/-- `_record_usage`: nothing is recorded when the provider reports no usage. -/
def recordUsage (ctx : RunContext) (state : LoopState) (usage : Dict) : Prog LoopState := do
  if usage = [] then pure state
  else
    let cost ← Prog.ask (.usageCost ctx.modelName usage)
    modifyTotals ctx.config.usageTotals fun totals => totals.recordTurn usage cost
    pure { state with metrics := state.metrics.recordTurn usage cost }

/-- The request of `_acompletion` and `_astream_completion`. -/
def completionRequest (ctx : RunContext) (messages : List Message) (tools : List Tool) (job : Job)
    (stream : Bool) (responseSchema : Option Schema) : Completion where
  model := ctx.modelName
  messages := messagesToPayload messages
  tools := if tools.isEmpty then none else some (toolSchemas tools)
  temperature := ctx.config.temperature
  maxTokens := ctx.config.maxTokens
  stream := stream
  thinking := job.thinking
  dropParams := job.dropParams
  extraBody := job.extraBody
  numRetries := some ctx.config.numRetries
  responseSchema := responseSchema

def responseOf : CompletionAnswer → ModelResponse
  | .response r => r
  | _ => { content := none }

/-- `_acompletion`: the synchronous method serves adapters without an asynchronous one. -/
def completion (ctx : RunContext) (messages : List Message) (tools : List Tool) (job : Job) :
    Prog ModelResponse := do
  let request := completionRequest ctx messages tools job false none
  match ← Prog.ask (.complete false request) with
  | .ok answer => pure (responseOf answer)
  | .error e =>
    if e.kind = .notImplemented then
      pure (responseOf (← Prog.ofExcept (← Prog.ask (.complete true request))))
    else Prog.raise e

def isStreamUnsupportedError (e : Exn) : Bool :=
  if e.kind = .notImplemented then true
  else
    let message := Text.lower (e.typeName ++ ": " ++ e.text)
    Text.contains message "stream" &&
      ["unsupported", "not support", "not supported", "not implemented", "cannot stream"].any
        (Text.contains message)

def emitToken (ctx : RunContext) (workerName : String) (token : String × String) : Prog Unit :=
  ctx.config.emit "stream.token" workerName [("token", .str token.1), ("type", .str token.2)]

/-- What `_astream_completion` does with the outcome of its call. Assembling the chunks
of a stream is part of the answer. -/
def finishStream (ctx : RunContext) (workerName : String) (messages : List Message)
    (tools : List Tool) (job : Job) : Except Exn CompletionAnswer → Prog ModelResponse
  | .ok (.response r) => pure r
  | .ok (.stream tokens result) => do
    tokens.forM (emitToken ctx workerName)
    Prog.ofExcept result
  | .ok .raw => completion ctx messages tools job
  | .error e =>
    if e.isException && isStreamUnsupportedError e then completion ctx messages tools job
    else Prog.raise e

/-- `_astream_completion`. -/
def streamCompletion (ctx : RunContext) (workerName : String) (messages : List Message)
    (tools : List Tool) (job : Job) (responseSchema : Option Schema) : Prog ModelResponse := do
  let request := completionRequest ctx messages tools job true responseSchema
  match ← Prog.ask (.complete false request) with
  | .error e =>
    if e.kind = .notImplemented then
      finishStream ctx workerName messages tools job (← Prog.ask (.complete true request))
    else finishStream ctx workerName messages tools job (.error e)
  | .ok answer => finishStream ctx workerName messages tools job (.ok answer)

def structuredRequest (ctx : RunContext) (messages : List Message) (job : Job) (schema : Schema) :
    StructuredCompletion where
  model := ctx.modelName
  messages := messagesToPayload messages
  responseSchema := schema
  retries := ctx.config.structuredOutputRetries
  temperature := ctx.config.temperature
  maxTokens := ctx.config.maxTokens
  thinking := job.thinking
  dropParams := job.dropParams
  extraBody := job.extraBody
  numRetries := ctx.config.numRetries

/-- The structured call, synchronous when the adapter has no asynchronous one. -/
def structuredAnswer (request : StructuredCompletion) : Prog StructuredAnswer := do
  match ← Prog.ask (.structured false request) with
  | .ok answer => pure answer
  | .error e =>
    if e.kind = .notImplemented then Prog.ofExcept (← Prog.ask (.structured true request))
    else Prog.raise e

/-- `_astructured_completion`. -/
def structuredCompletion (ctx : RunContext) (state : LoopState) (job : Job) (schema : Schema) :
    Prog (Value × LoopState) := do
  let answer ← structuredAnswer (structuredRequest ctx state.messages job schema)
  match answer.usage with
  | none => pure (answer.data, state)
  | some usage => pure (answer.data, ← recordUsage ctx state usage)

/-- `_retry_context_or_report`: a summary of the whole history before the next try, or
the report of the failure. -/
def retryContextOrReport (ctx : RunContext) (state : LoopState) :
    Prog (Option Report × LoopState) := do
  if !ctx.config.respectContextWindow then
    pure (some (← failReport ctx state (contextErrorMessage state.modelRegistered false)), state)
  else if summaryAttemptLimit ≤ state.contextSummaries then
    pure (some (← failReport ctx state (contextErrorMessage state.modelRegistered true)), state)
  else
    let (applied, state) ← applyContextSummary ctx.config ctx.modelName state false none
    if applied then pure (none, { state with contextSummaries := state.contextSummaries + 1 })
    else pure (some (← failReport ctx state (contextErrorMessage state.modelRegistered true)), state)

/-! ### The response of a turn -/

/-- What a turn goes on with: the response to process, or nothing, or the report that
ends the run. -/
inductive Acquired where
  | response (r : ModelResponse)
  | again
  | report (r : Report)

/-- The handler of a failed completion: a context limit is retried, all else raised. -/
def retryOrRaise (ctx : RunContext) (state : LoopState) (e : Exn) :
    Prog (Acquired × LoopState) := do
  if isContextLimitError e then
    match ← retryContextOrReport ctx state with
    | (some report, state) => pure (.report report, state)
    | (none, state) => pure (.again, state)
  else Prog.raise e

/-- A structured completion whose failure ends the run with a report. -/
def structuredOrReport (ctx : RunContext) (state : LoopState) (job : Job) (schema : Schema) :
    Prog (Acquired × LoopState) := do
  match ← (structuredCompletion ctx state job schema).attempt with
  | .ok (data, state) => pure (.report (← finalizeStructured ctx state data), state)
  | .error e =>
    if !e.isException then Prog.raise e
    else if isContextLimitError e then
      match ← retryContextOrReport ctx state with
      | (some report, state) => pure (.report report, state)
      | (none, state) => pure (.again, state)
    else pure (.report (← failReport ctx state e.text), state)

/-- The preview stream of a structured response: its text is parsed, and a structured
call is made when that fails. -/
def previewOrReport (ctx : RunContext) (state : LoopState) (job : Job) (schema : Schema) :
    Prog (Acquired × LoopState) := do
  match ← (streamCompletion ctx state.workerName state.messages [] job (some schema)).attempt with
  | .error e => if e.isException then retryOrRaise ctx state e else Prog.raise e
  | .ok streamed =>
    let state ← recordUsage ctx state streamed.usage
    match ← Prog.ask (.validateJson schema (streamed.content.getD "")) with
    | .ok data => pure (.report (← finalizeStructured ctx state data), state)
    | .error e =>
      if e.isException then structuredOrReport ctx state job schema else Prog.raise e

/-- `_acquire_turn_response`. -/
def acquireTurnResponse (ctx : RunContext) (state : LoopState) (job : Job) (tools : List Tool) :
    Prog (Acquired × LoopState) := do
  match job.responseSchema with
  | some schema =>
    if tools.isEmpty then
      if ctx.config.stream && job.structuredStreamMode = some .preview then
        previewOrReport ctx state job schema
      else structuredOrReport ctx state job schema
    else
      match ← (completion ctx state.messages tools job).attempt with
      | .ok response => pure (.response response, state)
      | .error e => if e.isException then retryOrRaise ctx state e else Prog.raise e
  | none =>
    let request :=
      if ctx.config.stream then
        streamCompletion ctx state.workerName state.messages tools job none
      else completion ctx state.messages tools job
    match ← request.attempt with
    | .ok response => pure (.response response, state)
    | .error e => if e.isException then retryOrRaise ctx state e else Prog.raise e

/-! ### Planning the tool calls -/

structure ToolPlan where
  orderedCalls : List ToolCall := []
  executableCalls : List (ToolCall × Tool) := []
  immediateResults : String → Option ToolResult := fun _ => none
  pending : Option PendingAction := none
  maxToolCallsExceeded : Bool := false

def ToolPlan.immediate (plan : ToolPlan) (call : ToolCall) (error : String) : ToolPlan :=
  { plan with
    orderedCalls := plan.orderedCalls ++ [call]
    immediateResults := Function.update plan.immediateResults call.id
      (some { error := some error }) }

/-- The calls behind a pending one are answered without being executed. -/
def skipRemaining (maxToolCalls : ℕ) :
    List ToolCall → List ToolCall → ToolPlan → ToolPlan × List ToolCall
  | [], toolCalls, plan => (plan, toolCalls)
  | call :: calls, toolCalls, plan =>
    if maxToolCalls ≤ toolCalls.length then ({ plan with maxToolCallsExceeded := true }, toolCalls)
    else
      skipRemaining maxToolCalls calls (toolCalls ++ [call])
        (plan.immediate call "Skipped: another tool requires confirmation first")

def pendingActionFor (actionId : String) (type : PendingActionType) (tool : Tool)
    (call : ToolCall) : PendingAction where
  actionId := actionId
  type := type
  toolCall := call
  prompt := toolPrompt tool type call
  options := pendingOptions type
  metadata := ("tool", .str tool.name) ::
    ((tool.inputKey.filter (· ≠ "")).map fun key => ("input_key", Value.str key)).toList

/-- `plan_tool_calls`, call by call; `toolCalls` is the run's list of recorded calls. -/
def planToolCalls (allowedTools : String → Option Tool) (maxToolCalls : ℕ) :
    List ToolCall → List ToolCall → ToolPlan → Prog (ToolPlan × List ToolCall)
  | [], toolCalls, plan => pure (plan, toolCalls)
  | call :: calls, toolCalls, plan =>
    if maxToolCalls ≤ toolCalls.length then
      pure ({ plan with maxToolCallsExceeded := true }, toolCalls)
    else
      match call.error.filter (· ≠ ""), allowedTools call.name with
      | some error, _ =>
        planToolCalls allowedTools maxToolCalls calls (toolCalls ++ [call])
          (plan.immediate call error)
      | none, none =>
        planToolCalls allowedTools maxToolCalls calls (toolCalls ++ [call])
          (plan.immediate call ("Tool not found: " ++ call.name))
      | none, some tool =>
        match toolActionType tool with
        | some type => do
          let actionId ← Prog.newId
          pure (skipRemaining maxToolCalls calls (toolCalls ++ [call])
            { plan with pending := some (pendingActionFor actionId type tool call) })
        | none =>
          planToolCalls allowedTools maxToolCalls calls (toolCalls ++ [call])
            { plan with
              orderedCalls := plan.orderedCalls ++ [call]
              executableCalls := plan.executableCalls ++ [(call, tool)] }

/-! ### Executing them -/

/-- `aexecute_tool`, with the pending action the execution was approved for. -/
def executeTool (tool : Tool) (call : ToolCall) (approved : Option String) : Prog ToolResult := do
  Prog.ofExcept (← Prog.ask (.runTool tool call approved))

/-- The results of the executed calls by call id; a later call overwrites an earlier one. -/
def collectResults : List (ToolCall × Tool) → List ToolResult →
    (String → Option ToolResult) → String → Option ToolResult
  | (call, _) :: calls, result :: results, known =>
    collectResults calls results (Function.update known call.id (some result))
  | _, _, known => known

/-- Append the tool messages in call order and fill the results in. -/
def appendResults (config : RunConfig) (results : String → Option ToolResult) :
    List ToolCall → List Message → List ToolCall → Prog (List Message × List ToolCall)
  | [], messages, toolCalls => pure (messages, toolCalls)
  | call :: calls, messages, toolCalls => do
    let result := (results call.id).getD { error := some "Tool execution failed" }
    emitToolResult config call.name call result
    let toolCalls ← Prog.ofExcept (replaceToolCall (toolCallWithResult call result) toolCalls)
    appendResults config results calls (messages ++ [toolMessage result call]) toolCalls

def executeToolCalls (config : RunConfig) (plan : ToolPlan) (messages : List Message)
    (toolCalls : List ToolCall) : Prog (List Message × List ToolCall) := do
  plan.executableCalls.forM fun (call, tool) =>
    config.emit "tool.started" tool.name [("tool_call_id", .str call.id)]
  let results ← Prog.gather (plan.executableCalls.map fun (call, tool) => executeTool tool call none)
  appendResults config (collectResults plan.executableCalls results plan.immediateResults)
    plan.orderedCalls messages toolCalls

/-! ### Ending the turn -/

/-- How a turn ends: the next one follows, or the run ends with a report, or it pauses. -/
inductive TurnEnd where
  | next (state : LoopState)
  | report (r : Report)
  | paused (r : Report) (state : WorkerState)

def PendingActionType.text : PendingActionType → String
  | .confirmation => "confirmation"
  | .userInput => "user_input"
  | .handoff => "handoff"

/-- The event that asks for the decision a pending action needs. -/
def emitRequest (config : RunConfig) (pending : PendingAction) : Prog Unit :=
  match pending.type with
  | .confirmation =>
    config.emit "tool.confirmation_requested" pending.toolCall.name
      [("tool_call_id", .str pending.toolCall.id)]
  | .userInput =>
    config.emit "tool.user_input_requested" pending.toolCall.name
      [("tool_call_id", .str pending.toolCall.id)]
  | .handoff => pure ()

def emitPause (config : RunConfig) (workerName : String) (pending : PendingAction) : Prog Unit := do
  emitRequest config pending
  config.emit "worker.paused" workerName
    [("pending_action_type", .str (PendingActionType.text pending.type))]

/-- The assistant message of a response with tool calls. -/
def callMessage (response : ModelResponse) : Message where
  role := .assistant
  content := .text (response.content.getD "")
  reasoningContent := response.reasoningContent
  thinkingBlocks := response.thinkingBlocks
  toolCalls := response.toolCalls

/-- The part of `_process_turn_response` for a response with tool calls. -/
def processToolCalls (ctx : RunContext) (state : LoopState) (job : Job) (response : ModelResponse)
    (allowedTools : String → Option Tool) : Prog TurnEnd := do
  emitAssistantMessage ctx.config state.workerName (callMessage response)
  let (plan, toolCalls) ←
    planToolCalls allowedTools ctx.config.maxToolCalls response.toolCalls state.toolCalls {}
  let (messages, toolCalls) ←
    executeToolCalls ctx.config plan (state.messages ++ [callMessage response]) toolCalls
  let state := { state with messages := messages, toolCalls := toolCalls }
  if plan.maxToolCallsExceeded then
    pure (.report (← failReport ctx state "Max tool calls exceeded"))
  else
    match plan.pending with
    | some pending =>
      emitPause ctx.config state.workerName pending
      pure (.paused (pauseReport state pending) (pauseState state job pending))
    | none => pure (.next state)

/-- `_process_turn_response`. -/
def processTurnResponse (ctx : RunContext) (state : LoopState) (job : Job)
    (response : ModelResponse) (allowedTools : String → Option Tool) : Prog TurnEnd := do
  let state ← recordUsage ctx state response.usage
  if response.toolCalls.isEmpty then
    match job.responseSchema with
    | some schema =>
      match ← structuredOrReport ctx state job schema with
      | (.report report, _) => pure (.report report)
      | (_, state) => pure (.next state)
    | none => pure (.report (← finalizePlain ctx state response))
  else processToolCalls ctx state job response allowedTools

end Blackgeorge.WorkerRunner
