import Blackgeorge.Program.World

/-! Messages and tool calls: what a job's input becomes, what a request carries of the
history, and what a call's result becomes. -/

namespace Blackgeorge.WorkerRunner

open Data Program

/-! ### Input -/

/-- The fields a content block of a known type needs one of. -/
def knownTypeFields : String → Option (List String)
  | "text" => some ["text"]
  | "image_url" => some ["image_url"]
  | "video_url" => some ["video_url"]
  | "file" => some ["file"]
  | "audio_url" => some ["audio_url"]
  | "input_text" => some ["text"]
  | "input_image" => some ["image_url", "file_id"]
  | "input_audio" => some ["input_audio"]
  | _ => none

def isContentBlock : Value → Bool
  | .dict fields =>
    match (Dict.get fields "type").bind Value.str? |>.bind knownTypeFields with
    | some required => required.any fun field => (Dict.get fields field).isSome
    | none => false
  | _ => false

def isMultimodalContentBlocks : Value → Bool
  | .list items => !items.isEmpty && items.all isContentBlock
  | _ => false

def renderInput (value : Value) : Content :=
  match value with
  | .str s => .text s
  | v =>
    if isMultimodalContentBlocks v then
      match v.toJsonValue with
      | .list items => .blocks items
      | payload => .text payload.dumps
    else .text v.toJsonValue.dumps

/-! ### Requests -/

def toolCallPayload (call : ToolCall) : ToolCallPayload where
  id := call.id
  name := call.name
  arguments := (Value.dict call.arguments).toJsonValue.dumps

/-- One item of `messages_to_payload`; an empty tool call id is left out. -/
def messageToPayload (message : Message) : PayloadMessage where
  role := message.role
  content := message.content
  reasoningContent := if message.role = .assistant then message.reasoningContent else none
  thinkingBlocks := if message.role = .assistant then message.thinkingBlocks else none
  toolCalls := if message.role = .assistant then message.toolCalls.map toolCallPayload else []
  toolCallId := if message.role = .tool then message.toolCallId.filter (· ≠ "") else none

def messagesToPayload (messages : List Message) : List PayloadMessage :=
  messages.map messageToPayload

def toolSchema (tool : Tool) : Value :=
  .dict [("type", .str "function"), ("function", .dict [("name", .str tool.name),
    ("description", .str tool.description), ("parameters", .dict tool.schema)])]

def toolSchemas (tools : List Tool) : List Value := tools.map toolSchema

def systemMessage (instructions : Option String) (job : Job) : Option String :=
  let parts :=
    (instructions.filter (· ≠ "")).toList ++
    ((job.expectedOutput.filter (· ≠ "")).map ("Expected output: " ++ ·)).toList ++
    (if job.constraints = [] then [] else
      ["Constraints: " ++ (Value.dict job.constraints).toJsonValue.dumps])
  if parts = [] then none else some ("\n\n".intercalate parts)

/-- `_build_messages`: history, system text in front, the rendered input last. -/
def buildMessages (instructions : Option String) (job : Job) : List Message :=
  let messages := job.initialMessages.getD []
  let user : Message := { role := .user, content := renderInput job.input }
  match systemMessage instructions job with
  | none => messages ++ [user]
  | some text =>
    match messages with
    | [] => [{ role := .system, content := .text text }, user]
    | first :: rest =>
      if first.role = .system then
        { first with content := .text (first.content.pyStr ++ "\n\n" ++ text) } :: rest ++ [user]
      else { role := .system, content := .text text } :: first :: rest ++ [user]

/-! ### Results -/

def structuredContent : Value → String
  | .model cls text fields => (Value.model cls text fields).dumped.write .compact
  | v => v.toJsonValue.dumps

def toolContent (result : ToolResult) : String :=
  match result.content, result.data, result.error with
  | some content, _, _ => content
  | none, .none, some error => error
  | none, .none, none => ""
  | none, data, _ => data.dumps

def toolMessage (result : ToolResult) (call : ToolCall) : Message where
  role := .tool
  content := .text (toolContent result)
  toolCallId := some call.id

def toolCallWithResult (call : ToolCall) (result : ToolResult) : ToolCall :=
  { call with result := some (.live result), error := result.error }

/-- `replace_tool_call`: the first call with the id. -/
def replaceToolCall (updated : ToolCall) : List ToolCall → Except Exn (List ToolCall)
  | [] => .error (valueError ("Tool call " ++ updated.id ++ " not found"))
  | call :: calls =>
    if call.id = updated.id then .ok (updated :: calls)
    else (call :: ·) <$> replaceToolCall updated calls

def toolCallSummary (call : ToolCall) : Value :=
  .dict [("id", .str call.id), ("name", .str call.name), ("arguments", .dict call.arguments)]

def Content.toValue : Content → Value
  | .text s => .str s
  | .blocks items => .list items

def emitAssistantMessage (config : RunConfig) (workerName : String) (message : Message) :
    Prog Unit :=
  config.emit "assistant.message" workerName
    (("content", Content.toValue message.content) ::
      (if message.toolCalls = [] then [] else
        [("tool_calls", .list (message.toolCalls.map toolCallSummary))]))

/-- `if result.error`. -/
def failed (result : ToolResult) : Bool := (result.error.filter (· ≠ "")).isSome

def previewText (result : ToolResult) : Option String :=
  match result.content, result.data, result.error with
  | some content, _, _ => some content
  | none, .none, error => error
  | none, data, _ => some (data.dumpsStrict.getD data.pyStr)

def toolEventPayload (call : ToolCall) (result : ToolResult) (limit : ℕ) : Dict :=
  let preview : Dict :=
    match previewText result with
    | none => []
    | some text =>
      if limit < text.length then
        [("result_preview", .str (String.ofList (text.toList.take limit) ++ "...")),
          ("result_truncated", .bool true)]
      else [("result_preview", .str text), ("result_truncated", .bool false)]
  ("tool_call_id", .str call.id) :: preview ++
    (if result.timedOut then [("timed_out", .bool true)] else []) ++
    (if result.cancelled then [("cancelled", .bool true)] else [])

/-- The event of a finished call. -/
def emitToolResult (config : RunConfig) (source : String) (call : ToolCall) (result : ToolResult) :
    Prog Unit :=
  if failed result then
    config.emit "tool.failed" source
      [("tool_call_id", .str call.id), ("error", .str (result.error.getD ""))]
  else config.emit "tool.completed" source (toolEventPayload call result 200)

/-! ### Pending actions -/

/-- A text argument that is not blank. -/
def textArgument (call : ToolCall) (key : String) : Option String :=
  ((call.arguments.get key).bind Value.str?).filter fun s => Text.strip s ≠ ""

/-- `a or b or c`. -/
def firstNonEmpty (a : Option String) (b c : String) : String :=
  match a.filter (· ≠ "") with
  | some text => text
  | none => if b ≠ "" then b else c

def toolPrompt (tool : Tool) (actionType : PendingActionType) (call : ToolCall) : String :=
  match actionType with
  | .handoff =>
    "Handoff requested to agent: " ++ ((call.arguments.get "agent_name").getD (.str "unknown")).pyStr
  | .userInput =>
    match textArgument call "question" with
    | some question => question
    | none => firstNonEmpty tool.userInputPrompt tool.description ("Provide input for " ++ tool.name)
  | .confirmation =>
    let base := firstNonEmpty tool.confirmationPrompt tool.description ("Confirm " ++ tool.name)
    match textArgument call "path" with
    | some path => base ++ " (" ++ path ++ ")"
    | none => base

def toolActionType (tool : Tool) : Option PendingActionType :=
  if tool.requiresHandoff then some .handoff
  else if tool.requiresConfirmation then some .confirmation
  else if tool.requiresUserInput then some .userInput
  else none

def pendingOptions : PendingActionType → List String
  | .confirmation => ["yes", "no"]
  | _ => []

def resumeArgumentKey (pending : PendingAction) : String :=
  ((pending.metadata.get "input_key").bind Value.str?).getD "user_input"

def updateArguments (call : ToolCall) (key : String) (value : Value) : ToolCall :=
  { call with arguments := call.arguments.set key value }

/-! ### Decisions -/

def confirmationApprovals : List String :=
  ["1", "approve", "approved", "confirm", "confirmed", "ok", "okay", "y", "yes"]

def confirmationDeclines : List String :=
  ["", "0", "cancel", "cancelled", "decline", "declined", "deny", "denied", "false", "n", "no",
    "reject", "rejected"]

def confirmationApproved : Value → Bool
  | .bool b => b
  | .none => false
  | .str s =>
    let normalized := Text.lower (Text.strip s)
    if confirmationApprovals.contains normalized then true
    else if confirmationDeclines.contains normalized then false
    else normalized ≠ ""
  | v => v.truthy

end Blackgeorge.WorkerRunner
