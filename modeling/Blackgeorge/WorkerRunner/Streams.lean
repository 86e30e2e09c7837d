import Blackgeorge.Data.Records

/-! Tool calls as a model sends them: whole in a message, or in the deltas of a stream that
are put together again. What `json.loads` makes of a text is a parameter, as are the ids
that `new_id` makes for the calls that come without one. -/

namespace Blackgeorge.WorkerRunner

open Data

/-! ### Tool calls of a message -/

/-- The `arguments` of a raw call. -/
inductive RawArguments where
  | none
  | text (s : String)
  | dict (d : Dict)
  | other (typeName : String)

/-- A tool call of a message or of a delta. A field that is missing or of another type than
the program reads is `none`. -/
structure RawToolCall where
  index : Option ℤ := none
  id : Option String := none
  name : Option String := none
  arguments : RawArguments := .none

section

variable (loads : String → Except Exn Value) (newId : ℕ → String)

/-- `parse_tool_arguments`. -/
def parseToolArguments : RawArguments → Except Exn (Dict × Option String)
  | .none => .ok ([], none)
  | .dict d => .ok (d, none)
  | .other typeName => .ok ([], some ("Unsupported tool arguments type: " ++ typeName))
  | .text s =>
    if s = "" then .ok ([], none)
    else
      match loads s with
      | .ok (.dict d) => .ok (d, none)
      | .ok _ => .ok ([], some "Tool arguments JSON must decode to an object")
      | .error e =>
        if e.typeName = "JSONDecodeError" then
          .ok ([], some ("Invalid JSON in tool arguments: " ++ e.text ++ ". Raw: " ++ Text.take 100 s))
        else .error e

/-- `call_id_raw if isinstance(call_id_raw, str) and call_id_raw else new_id()` of the `n`-th
call. -/
def callId (n : ℕ) (id : Option String) : String := (id.filter (· ≠ "")).getD (newId n)

def parseToolCall (n : ℕ) (call : RawToolCall) : Except Exn ToolCall := do
  let name := Text.strip (call.name.getD "")
  let (arguments, error) ← parseToolArguments loads call.arguments
  let error :=
    if name = "" then some (error.elim "Missing tool name" ("Missing tool name; " ++ ·)) else error
  pure { id := callId newId n call.id, name := name, arguments := arguments, error := error }

/-- `_parse_tool_calls`. -/
def parseToolCalls (calls : List RawToolCall) : Except Exn (List ToolCall) :=
  calls.zipIdx.mapM fun call => parseToolCall loads newId call.2 call.1

end

/-! ### Tool calls of a stream -/

/-- A key under which a call of a stream is found again. -/
inductive Key where
  | index (i : ℤ)
  | id (s : String)
  | position (p : ℕ)
  deriving DecidableEq

/-- Two keys of one kind that differ. -/
def Key.conflicts : Key → Key → Bool
  | index i, index j => i ≠ j
  | id s, id t => s ≠ t
  | position p, position q => p ≠ q
  | _, _ => false

/-- An entry of `tool_states`. -/
structure ToolState where
  id : Option String := none
  name : String := ""
  argumentsParts : List String := []
  argumentsObj : Option Dict := none
  error : Option String := none
  stableKeys : List Key := []

def ToolState.argumentText (state : ToolState) : String := String.join state.argumentsParts

/-- What a stream has been put together to. `keyed` leads to entries of `states`. -/
structure StreamState where
  contentParts : List String := []
  reasoningParts : List String := []
  thinkingBlocks : List Value := []
  states : List ToolState := []
  keyed : Key → Option ℕ := fun _ => none
  usage : Dict := []
  tokens : List (String × String) := []

/-- A chunk of a stream: what the program reads of its first choice. -/
structure Chunk where
  content : Option String := none
  deltaCalls : List RawToolCall := []
  messageCalls : List RawToolCall := []
  reasoningContent : Option String := none
  thinkingBlocks : List Value := []
  usage : Dict := []

/-- `append_tool_error`. -/
def appendToolError (current : Option String) (message : String) : String :=
  current.elim message (· ++ "; " ++ message)

/-- `chunk_tool_call_deltas`: the calls and whether they come from a message. -/
def chunkToolCallDeltas (chunk : Chunk) : List RawToolCall × Bool :=
  if chunk.deltaCalls.isEmpty then (chunk.messageCalls, true) else (chunk.deltaCalls, false)

/-- `stable_keys` of a delta. -/
def stableKeys (delta : RawToolCall) : List Key :=
  (delta.index.map Key.index).toList ++ ((delta.id.filter (· ≠ "")).map Key.id).toList

section

variable (loads : String → Except Exn Value) (knownToolNames : List String)

/-- Whether the arguments so far are a whole object. -/
def argumentsComplete (state : ToolState) : Except Exn Bool :=
  if state.argumentsObj.isSome then .ok true
  else if Text.strip state.argumentText = "" then .ok false
  else
    match loads state.argumentText with
    | .ok (.dict _) => .ok true
    | .ok _ => .ok false
    | .error e => if e.kind = .typeError || e.kind = .valueError then .ok false else .error e

/-- Neither name begins with the other, and together they name no tool. -/
def namesDiffer (existing name : String) : Bool :=
  existing ≠ "" && name ≠ "" && !Text.startsWith name existing && !Text.startsWith existing name &&
    !knownToolNames.contains (existing ++ name)

/-- `can_reuse_position`. -/
def canReusePosition (state : ToolState) (keys : List Key) (position : ℕ) (name : String)
    (arguments : RawArguments) (fromMessage : Bool) : Except Exn Bool := do
  if state.stableKeys.any fun existing => keys.any existing.conflicts then pure false
  else if keys.any fun key => key matches .index _ && key ≠ .index position then pure false
  else if namesDiffer knownToolNames state.name name then pure false
  else
    let complete ← argumentsComplete loads state
    if keys.isEmpty || !complete then pure true
    else if !fromMessage then pure false
    else
      match arguments with
      | .text s => pure (s = state.argumentText)
      | .dict d => pure (state.argumentsObj.any fun obj => (Value.dict d).pyEq (.dict obj))
      | _ => pure false

/-- The entry a delta belongs to, if there is one. -/
def findState (s : StreamState) (position : ℕ) (delta : RawToolCall) (fromMessage : Bool) :
    Except Exn (Option ℕ) :=
  match (stableKeys delta).findSome? s.keyed with
  | some j => pure (some j)
  | none =>
    match s.keyed (.position position) with
    | none => pure none
    | some j => do
      let reuse ← canReusePosition loads knownToolNames (s.states.getD j {}) (stableKeys delta)
        position (Text.strip (delta.name.getD "")) delta.arguments fromMessage
      pure (if reuse then some j else none)

/-- The name of an entry with another part of it. -/
def mergeName (existing name : String) : String :=
  if name = "" then existing
  else if existing = "" || Text.startsWith name existing then name
  else if Text.startsWith existing name then existing
  else existing ++ name

/-- What a delta adds to the entry's arguments, with the token it emits. -/
def mergeArguments (state : ToolState) (fromMessage : Bool) :
    RawArguments → Except Exn (ToolState × List (String × String))
  | .none => .ok (state, [])
  | .text s =>
    let token := if s = "" then [] else [(s, "tool_argument")]
    if fromMessage then
      if state.argumentText = s then .ok (state, [])
      else .ok ({ state with argumentsParts := [s] }, token)
    else .ok ({ state with argumentsParts := state.argumentsParts ++ [s] }, token)
  | .dict d =>
    match (Value.dict d).dumpsStrict with
    | some text =>
      .ok ({ state with
        argumentsObj := some (d.foldl (fun obj f => Dict.set obj f.1 f.2) (state.argumentsObj.getD [])) },
        [(text, "tool_argument")])
    | none => .error (typeError "Object is not JSON serializable")
  | .other typeName =>
    .ok ({ state with
      error := some (appendToolError state.error
        ("Unsupported tool arguments type: " ++ typeName)) }, [])

/-- What a delta leaves in its entry. -/
def absorb (delta : RawToolCall) (fromMessage : Bool) (state : ToolState) :
    Except Exn (ToolState × List (String × String)) :=
  mergeArguments
    { state with
      stableKeys := state.stableKeys ++ stableKeys delta
      id := delta.id.filter (· ≠ "") <|> state.id
      name := mergeName state.name (Text.strip (delta.name.getD "")) }
    fromMessage delta.arguments

/-- The keys lead to the entry `j`. A delta with keys of its own does not claim a position
that another entry has. -/
def claimKeys (keyed : Key → Option ℕ) (keys : List Key) (position j : ℕ) : Key → Option ℕ :=
  let keyed := keys.foldl (fun keyed key => Function.update keyed key (some j)) keyed
  if (keyed (.position position)).all (· = j) || keys.isEmpty then
    Function.update keyed (.position position) (some j)
  else keyed

/-- One tool delta of `process_chunk`. -/
def processDelta (fromMessage : Bool) (position : ℕ) (delta : RawToolCall) (s : StreamState) :
    Except Exn StreamState := do
  let found ← findState loads knownToolNames s position delta fromMessage
  let j := found.getD s.states.length
  let states := if found.isSome then s.states else s.states ++ [{}]
  let (state, tokens) ← absorb delta fromMessage (states.getD j {})
  pure { s with
    states := states.set j state
    keyed := claimKeys s.keyed (stableKeys delta) position j
    tokens := s.tokens ++ tokens }

def processDeltas (fromMessage : Bool) : ℕ → List RawToolCall → StreamState → Except Exn StreamState
  | _, [], s => pure s
  | position, delta :: deltas, s => do
    processDeltas fromMessage (position + 1) deltas
      (← processDelta loads knownToolNames fromMessage position delta s)

/-- `process_chunk`. -/
def processChunk (chunk : Chunk) (s : StreamState) : Except Exn StreamState := do
  let content := (chunk.content.filter (· ≠ "")).toList
  let s := { s with
    contentParts := s.contentParts ++ content
    tokens := s.tokens ++ content.map fun token => (token, "content") }
  let (deltas, fromMessage) := chunkToolCallDeltas chunk
  let s ← processDeltas loads knownToolNames fromMessage 0 deltas s
  pure { s with
    reasoningParts := s.reasoningParts ++ (chunk.reasoningContent.filter (· ≠ "")).toList
    thinkingBlocks := s.thinkingBlocks ++ chunk.thinkingBlocks
    usage := if chunk.usage.isEmpty then s.usage else chunk.usage }

def processChunks : List Chunk → StreamState → Except Exn StreamState
  | [], s => pure s
  | chunk :: chunks, s => do
    processChunks chunks (← processChunk loads knownToolNames chunk s)

end

section

variable (loads : String → Except Exn Value) (newId : ℕ → String)

def streamedToolCall (n : ℕ) (state : ToolState) : Except Exn ToolCall := do
  let name := Text.strip state.name
  let error :=
    if name = "" then some (appendToolError state.error "Missing tool name") else state.error
  match state.argumentsObj with
  | some arguments =>
    pure { id := callId newId n state.id, name := name, arguments := arguments, error := error }
  | none =>
    let (arguments, argumentError) ← parseToolArguments loads (.text state.argumentText)
    let error := argumentError.elim error fun message => some (appendToolError error message)
    pure { id := callId newId n state.id, name := name, arguments := arguments, error := error }

/-- `streamed_tool_calls`. -/
def streamedToolCalls (states : List ToolState) : Except Exn (List ToolCall) :=
  states.zipIdx.mapM fun state => streamedToolCall loads newId state.2 state.1

/-- The response that a stream is put together to. -/
def streamedResponse (knownToolNames : List String) (chunks : List Chunk) :
    Except Exn ModelResponse := do
  let s ← processChunks loads knownToolNames chunks {}
  let toolCalls ← streamedToolCalls loads newId s.states
  pure
    { content := some (String.join s.contentParts)
      reasoningContent := some (String.join s.reasoningParts) |>.filter (· ≠ "")
      thinkingBlocks := if s.thinkingBlocks.isEmpty then none else some s.thinkingBlocks
      toolCalls := toolCalls
      usage := s.usage }

end

end Blackgeorge.WorkerRunner
