import Blackgeorge.Data.Text
import Blackgeorge.Data.Value

/-! The records the program passes around: exceptions, tools, messages, jobs, pending
actions, reports and the counters of a run. Each has the fields the program reads or
carries on; what only a reader of a finished report looks at is left out. -/

namespace Blackgeorge.Data

abbrev RunId := String

/-- A dictionary with string keys in insertion order. -/
abbrev Dict := List (String × Value)

def Dict.get (d : Dict) (key : String) : Option Value := List.lookup key d

/-- `d[key] = value`: an old key keeps its place. -/
def Dict.set (d : Dict) (key : String) (value : Value) : Dict :=
  match d with
  | [] => [(key, value)]
  | (k, v) :: rest => if k = key then (k, value) :: rest else (k, v) :: Dict.set rest key value

/-! ### Exceptions -/

/-- The exception classes some handler tells apart. `CancelledError` is no `Exception`. -/
inductive ExnKind where
  | contextLimit
  | notImplemented
  | valueError
  | typeError
  | cancelled
  | other
  deriving DecidableEq

/-- An exception: its class, the name of its class and its text. -/
structure Exn where
  kind : ExnKind
  typeName : String
  text : String
  deriving DecidableEq

def valueError (text : String) : Exn := ⟨.valueError, "ValueError", text⟩

def typeError (text : String) : Exn := ⟨.typeError, "TypeError", text⟩

def runtimeError (text : String) : Exn := ⟨.other, "RuntimeError", text⟩

def cancelledError : Exn := ⟨.cancelled, "CancelledError", ""⟩

/-- Caught by `except Exception`. -/
def Exn.isException (e : Exn) : Bool := e.kind ≠ .cancelled

/-! ### Tools and their calls -/

/-- What executing a tool gives back. -/
structure ToolResult where
  content : Option String := none
  data : Value := .none
  error : Option String := none
  timedOut : Bool := false
  cancelled : Bool := false
  exceptionType : Option String := none

/-- The dictionary `asdict` makes of a tool result. -/
def ToolResult.asdict (r : ToolResult) : Value :=
  let text (s : Option String) : Value := s.elim .none .str
  .dict [("content", text r.content), ("data", r.data), ("error", text r.error),
    ("timed_out", .bool r.timedOut), ("cancelled", .bool r.cancelled),
    ("exception_type", text r.exceptionType)]

/-- The result field of a call: the object itself, or what a dump made of it. -/
inductive CallResult where
  | live (r : ToolResult)
  | dumped (v : Value)

/-- A model's request to call a tool. -/
structure ToolCall where
  id : String
  name : String
  arguments : Dict
  result : Option CallResult := none
  error : Option String := none

/-- What a paused run waits for. -/
inductive PendingActionType where
  | confirmation
  | userInput
  | handoff
  deriving DecidableEq

/-- A tool. `callable` identifies the function behind it with its hooks and limits. -/
structure Tool where
  name : String
  description : String
  schema : Dict := []
  callable : ℕ
  requiresConfirmation : Bool := false
  requiresUserInput : Bool := false
  requiresHandoff : Bool := false
  confirmationPrompt : Option String := none
  userInputPrompt : Option String := none
  inputKey : Option String := none
  name_ne : Text.strip name ≠ "" := by decide
  one_action : requiresConfirmation.toNat + requiresUserInput.toNat + requiresHandoff.toNat ≤ 1 :=
    by decide

/-- Tools by name, in the order they were added. -/
structure Toolbelt where
  tools : List Tool := []
  nodup : (tools.map Tool.name).Nodup := by decide

def Toolbelt.resolve (belt : Toolbelt) (name : String) : Option Tool :=
  belt.tools.find? (·.name = name)

theorem Toolbelt.resolve_name {belt : Toolbelt} {name : String} {tool : Tool}
    (h : belt.resolve name = some tool) : tool.name = name := by
  simpa using List.find?_some h

/-- The action a run pauses on for, with the call it holds back. -/
structure PendingAction where
  actionId : String
  type : PendingActionType
  toolCall : ToolCall
  prompt : String
  options : List String := []
  metadata : Dict := []

/-! ### Messages -/

inductive MessageRole where
  | system
  | user
  | assistant
  | tool
  deriving DecidableEq

def MessageRole.text : MessageRole → String
  | system => "system"
  | user => "user"
  | assistant => "assistant"
  | tool => "tool"

/-- Message content: a text or content blocks. -/
inductive Content where
  | text (s : String)
  | blocks (items : List Value)

/-- The content in an f-string. -/
def Content.pyStr : Content → String
  | text s => s
  | blocks items => (Value.list items).pyStr

def Content.truthy : Content → Bool
  | text s => s ≠ ""
  | blocks items => !items.isEmpty

structure Message where
  role : MessageRole
  content : Content
  reasoningContent : Option String := none
  thinkingBlocks : Option (List Value) := none
  toolCalls : List ToolCall := []
  toolCallId : Option String := none
  metadata : Dict := []

/-! ### Jobs -/

/-- A response schema: a model class, a type adapter over one, or a type adapter over
another type. `importable` says that the class is found again under its module path. -/
inductive Schema where
  | model (path : String) (importable : Bool)
  | adapterModel (path : String) (importable : Bool)
  | adapter (text : String)
  deriving DecidableEq

/-- An entry of `tools_override`: a tool, a name, or some other object with its text. -/
inductive ToolRef where
  | tool (t : Tool)
  | name (s : String)
  | other (text : String)

/-- `getattr(tool, "name", str(tool))`. -/
def ToolRef.text : ToolRef → String
  | tool t => t.name
  | name s => s
  | other text => text

def ToolRef.tool? : ToolRef → Option Tool
  | tool t => some t
  | _ => none

inductive StreamMode where
  | off
  | preview
  deriving DecidableEq

structure Job where
  id : String
  input : Value
  expectedOutput : Option String := none
  toolsOverride : Option (List ToolRef) := none
  responseSchema : Option Schema := none
  constraints : Dict := []
  initialMessages : Option (List Message) := none
  thinking : Option Dict := none
  structuredStreamMode : Option StreamMode := none
  dropParams : Option Bool := none
  extraBody : Option Dict := none

/-! ### Usage and metrics -/

/-- Token sums under `USAGE_KEYS`. -/
structure TokenUsage where
  promptTokens : Option ℚ := none
  completionTokens : Option ℚ := none
  totalTokens : Option ℚ := none
  deriving DecidableEq

/-- A run's `usage_totals`. -/
structure UsageTotals where
  costUsd : Option ℚ := none
  tokens : TokenUsage := {}
  deriving DecidableEq

/-- One entry of the metrics' `context_summaries`. -/
structure SummaryInfo where
  model : String
  summarizedMessages : ℕ
  keptMessages : ℕ
  unregisteredModel : Bool

/-- The metrics of a report. -/
structure Metrics where
  costUsd : Option ℚ := none
  usage : Option TokenUsage := none
  warnings : Option (List String) := none
  contextSummaries : Option (List SummaryInfo) := none

/-- `target[key] = target.get(key, 0) + value` when the value is a number. -/
def addCount (target : Option ℚ) (value : Option Value) : Option ℚ :=
  match value.bind Value.number? with
  | some q => some (target.getD 0 + q)
  | none => target

def addTokenUsage (target : TokenUsage) (usage : Dict) : TokenUsage where
  promptTokens := addCount target.promptTokens (usage.get "prompt_tokens")
  completionTokens := addCount target.completionTokens (usage.get "completion_tokens")
  totalTokens := addCount target.totalTokens (usage.get "total_tokens")

/-- The metrics' part of `record_turn`. -/
def Metrics.recordTurn (metrics : Metrics) (usage : Dict) (cost : ℚ) : Metrics :=
  { metrics with
    costUsd := some (metrics.costUsd.getD 0 + cost)
    usage := some (addTokenUsage (metrics.usage.getD {}) usage) }

/-- The totals' part of `record_turn`. -/
def UsageTotals.recordTurn (totals : UsageTotals) (usage : Dict) (cost : ℚ) : UsageTotals where
  costUsd := some (totals.costUsd.getD 0 + cost)
  tokens := addTokenUsage totals.tokens usage

def totalsFromMetrics (metrics : Metrics) : UsageTotals :=
  ⟨metrics.costUsd, metrics.usage.getD {}⟩

/-- `restore_totals`: only empty totals take the stored ones over. -/
def restoreTotals (totals stored : UsageTotals) : UsageTotals :=
  if totals = {} then stored else totals

def runMetrics (totals : UsageTotals) : Metrics where
  costUsd := some (totals.costUsd.getD 0)
  usage := if totals.tokens = {} then none else some totals.tokens

/-- `a.update(b)`. -/
def Metrics.update (a b : Metrics) : Metrics where
  costUsd := b.costUsd <|> a.costUsd
  usage := b.usage <|> a.usage
  warnings := b.warnings <|> a.warnings
  contextSummaries := b.contextSummaries <|> a.contextSummaries

/-! ### Reports -/

inductive RunStatus where
  | completed
  | paused
  | failed
  | running
  deriving DecidableEq

structure Report where
  runId : RunId
  status : RunStatus
  pendingAction : Option PendingAction := none
  content : Option String := none
  reasoningContent : Option String := none
  data : Value := .none
  messages : List Message := []
  toolCalls : List ToolCall := []
  metrics : Metrics := {}
  errors : List String := []

def withRunMetrics (report : Report) (totals : UsageTotals) : Report :=
  { report with metrics := report.metrics.update (runMetrics totals) }

/-! ### Adapter answers and events -/

/-- What a completion call returns. -/
structure ModelResponse where
  content : Option String
  reasoningContent : Option String := none
  thinkingBlocks : Option (List Value) := none
  toolCalls : List ToolCall := []
  usage : Dict := []

/-- An event without the id and the time that nothing reads. -/
structure Event where
  type : String
  source : String
  payload : Dict

end Blackgeorge.Data
