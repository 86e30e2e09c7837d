import Blackgeorge.WorkerRunner.Turn

/-! A worker's run from its job and its resume from a paused state. Both end in the
same loop of turns. -/

namespace Blackgeorge.WorkerRunner

open Data Program

/-! ### Tools -/

def resolveRef (belt : Toolbelt) : ToolRef → Option Tool
  | .tool t => some t
  | .name s => belt.resolve s
  | .other _ => none

/-- `_resolve_tools`: the override's tools and resolvable names, or the toolbelt. -/
def resolveTools (belt : Toolbelt) (job : Job) : List Tool :=
  match job.toolsOverride with
  | some refs => refs.filterMap (resolveRef belt)
  | none => belt.tools

/-- `{t.name: t for t in tools}`: of equal names the last one counts. -/
def allowedTools (tools : List Tool) (name : String) : Option Tool :=
  tools.reverse.find? (·.name = name)

/-- The first entry of an override with the name. -/
def resumeToolFrom (belt : Toolbelt) (name : String) : List ToolRef → Option Tool
  | [] => none
  | .tool t :: refs => if t.name = name then some t else resumeToolFrom belt name refs
  | .name s :: refs => if s = name then belt.resolve s else resumeToolFrom belt name refs
  | .other _ :: refs => resumeToolFrom belt name refs

/-- `_resolve_resume_tool`. -/
def resolveResumeTool (belt : Toolbelt) (job : Job) (name : String) : Option Tool :=
  match job.toolsOverride with
  | some refs => resumeToolFrom belt name refs
  | none => belt.resolve name

/-! ### The loop -/

/-- The message of a run over its cost budget. -/
def budgetMessage (spent budget : ℚ) : String :=
  "Cost budget exceeded: $" ++ Text.formatG6 spent ++ " spent, budget is $" ++
    Text.formatG6 budget

/-- Compaction ahead of a call when the history is longer than the configured limit. -/
def compactToLimit (ctx : RunContext) (state : LoopState) : Prog LoopState := do
  match ctx.config.maxContextMessages with
  | some limit =>
    if limit < state.messages.length then
      pure (← applyContextSummary ctx.config ctx.modelName state true (some limit)).2
    else pure state
  | none => pure state

/-- The turns of `_arun_loop`; the first argument counts the iterations that are left. -/
def runLoop (ctx : RunContext) (job : Job) (tools : List Tool) :
    ℕ → LoopState → Prog (Report × Option WorkerState)
  | 0, state => do pure (← failReport ctx state "Max iterations exceeded", none)
  | left + 1, state => do
    let state := { state with iteration := state.iteration + 1 }
    let spent := (← getTotals ctx.config.usageTotals).costUsd.getD 0
    match ctx.config.maxCostUsd.filter (· < spent) with
    | some budget => pure (← failReport ctx state (budgetMessage spent budget), none)
    | none =>
      let state ← compactToLimit ctx state
      match ← acquireTurnResponse ctx state job tools with
      | (.report report, _) => pure (report, none)
      | (.again, state) => runLoop ctx job tools left state
      | (.response response, state) =>
        match ← processTurnResponse ctx state job response (allowedTools tools) with
        | .report report => pure (report, none)
        | .paused report paused => pure (report, some paused)
        | .next state => runLoop ctx job tools left state

def enterLoop (worker : Worker) (config : RunConfig) (modelName : String) (state : LoopState)
    (job : Job) : Prog (Report × Option WorkerState) := do
  config.emit "worker.started" worker.name []
  runLoop ⟨config, modelName⟩ job (resolveTools worker.toolbelt job)
    (config.maxIterations - state.iteration) state

/-! ### Run and resume -/

def modelNotSet (worker : Worker) (config : RunConfig) (runId : RunId) (messages : List Message) :
    Prog (Report × Option WorkerState) := do
  config.emit "worker.failed" worker.name [("error", .str "Worker model not set")]
  pure (buildErrorReport runId messages ["Worker model not set"], none)

/-- The loop state a run begins with. -/
def startState (worker : Worker) (config : RunConfig) (job : Job) (modelRegistered : Bool) :
    LoopState where
  runId := config.runId
  workerName := worker.name
  messages := buildMessages worker.instructions job
  modelRegistered := modelRegistered

/-- `Worker.arun`. -/
def arun (worker : Worker) (config : RunConfig) (job : Job) :
    Prog (Report × Option WorkerState) := do
  let modelName := config.modelName worker.model
  if modelName = "" then
    modelNotSet worker config config.runId (buildMessages worker.instructions job)
  else
    let modelRegistered ← Prog.ask (.modelRegistered modelName)
    enterLoop worker config modelName (startState worker config job modelRegistered) job

/-- The result of the pending call: an unknown tool and a declined confirmation give an
error, all else executes the tool, a user input under the argument it was asked for. -/
def resolvePending (worker : Worker) (config : RunConfig) (job : Job) (pending : PendingAction)
    (decision : Value) : Prog (ToolCall × ToolResult) := do
  Prog.decide pending decision
  let refuse (error : String) : Prog (ToolCall × ToolResult) := do
    config.emit "tool.failed" pending.toolCall.name
      [("tool_call_id", .str pending.toolCall.id), ("error", .str error)]
    pure (pending.toolCall, { error := some error })
  match resolveResumeTool worker.toolbelt job pending.toolCall.name with
  | none => refuse ("Tool not found: " ++ pending.toolCall.name)
  | some tool =>
    if pending.type = .confirmation && !confirmationApproved decision then
      refuse "Tool execution declined"
    else
      let call :=
        if pending.type = .userInput then
          updateArguments pending.toolCall (resumeArgumentKey pending) decision
        else pending.toolCall
      config.emit "tool.started" tool.name [("tool_call_id", .str call.id)]
      let result ← executeTool tool call (some pending.actionId)
      emitToolResult config tool.name call result
      pure (call, result)

/-- The loop state a resume goes on with, its pending call answered. -/
def resumedState (worker : Worker) (config : RunConfig) (state : WorkerState) (call : ToolCall)
    (result : ToolResult) (toolCalls : List ToolCall) (modelRegistered : Bool) : LoopState where
  runId := config.runId
  workerName := worker.name
  messages := state.messages ++ [toolMessage result call]
  toolCalls := toolCalls
  metrics := state.metrics
  iteration := state.iteration
  modelRegistered := modelRegistered

/-- The resume of a state that waits for `pending`. -/
def resumePending (worker : Worker) (config : RunConfig) (state : WorkerState)
    (pending : PendingAction) (decision : Value) : Prog (Report × Option WorkerState) := do
  let (call, result) ← resolvePending worker config state.job pending decision
  let toolCalls ← Prog.ofExcept (replaceToolCall (toolCallWithResult call result) state.toolCalls)
  let modelName := config.modelName worker.model
  if modelName = "" then
    modelNotSet worker config state.runId (state.messages ++ [toolMessage result call])
  else
    let modelRegistered ← Prog.ask (.modelRegistered modelName)
    enterLoop worker config modelName
      (resumedState worker config state call result toolCalls modelRegistered) state.job

def noPendingAction (config : RunConfig) (state : WorkerState) : Report where
  runId := config.runId
  status := .failed
  messages := state.messages
  toolCalls := state.toolCalls
  metrics := state.metrics
  errors := ["No pending action"]

/-- The configuration of a resume has the run id of the state. -/
def resumeConfig (config : RunConfig) (runId : RunId) : RunConfig :=
  if config.runId = runId then config else config.withRunId runId

/-- `Worker.aresume`. -/
def aresume (worker : Worker) (config : RunConfig) (state : WorkerState) (decision : Value) :
    Prog (Report × Option WorkerState) := do
  modifyTotals config.usageTotals fun totals =>
    restoreTotals totals (totalsFromMetrics state.metrics)
  match state.pendingAction with
  | none => pure (noPendingAction (resumeConfig config state.runId) state, none)
  | some pending =>
    resumePending worker (resumeConfig config state.runId) state pending decision

end Blackgeorge.WorkerRunner
