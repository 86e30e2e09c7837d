import Blackgeorge.WorkerRunner.Run

/-! Reports of several workers in one, and the handoff that turns one worker's paused
report into the next worker's job. -/

namespace Blackgeorge.WorkforceRun

open Data Program WorkerRunner

/-! ### Combining reports -/

def optionText (s : Option String) : Value := s.elim .none .str

def aggregateReports (reports : List (Worker × Report)) (runId : RunId) (status : RunStatus) :
    Report where
  runId := runId
  status := status
  content := some ("\n\n".intercalate
    (reports.map fun r => "[" ++ r.1.name ++ "] " ++ r.2.content.getD ""))
  data :=
    if reports.any fun r => !r.2.data.isNone then
      .list (reports.map fun r => .dict [("worker", .str r.1.name), ("data", r.2.data),
        ("content", optionText r.2.content)])
    else .none
  messages := reports.flatMap fun r => r.2.messages
  toolCalls := reports.flatMap fun r => r.2.toolCalls
  errors := reports.flatMap fun r => r.2.errors

def defaultReducer (reports : List (Worker × Report)) (runId : RunId) : Report :=
  aggregateReports reports runId
    (if reports.any fun r => r.2.status = .failed then .failed else .completed)

/-- Of the messages with one tool call id the first is kept. -/
def uniqueMessages : List String → List Message → List Message
  | _, [] => []
  | seen, m :: ms =>
    match m.toolCallId.filter (· ≠ "") with
    | none => m :: uniqueMessages seen ms
    | some id =>
      if seen.contains id then uniqueMessages seen ms else m :: uniqueMessages (id :: seen) ms

def mergeSwarmReports (reports : List Report) (final : Report) : Report :=
  if reports.isEmpty then final
  else
    { final with
      toolCalls := reports.flatMap Report.toolCalls ++ final.toolCalls
      errors := reports.flatMap Report.errors ++ final.errors
      messages := uniqueMessages [] (reports.flatMap Report.messages)
      metrics :=
        (reports.foldl (fun (m : Metrics) r => m.update r.metrics) {}).update final.metrics }

/-! ### Choosing a worker -/

/-- `report.data.worker` of a pydantic model. -/
def decidedWorker : Value → Option String
  | .model _ _ fields => (Dict.get fields "worker").bind Value.str?
  | _ => none

def selectWorkerName (report : Report) (force : Workforce) : String :=
  match (decidedWorker report.data).filter fun name => force.workers.any (·.name = name) with
  | some name => name
  | none =>
    match report.content.bind fun text => force.workers.find? fun w => Text.contains text w.name with
    | some w => w.name
    | none => force.first.name

def findWorker (force : Workforce) (name : Option String) : Worker :=
  match name with
  | none => force.first
  | some name => (force.workers.find? (·.name = name)).getD force.first

/-- `root_job`. -/
def rootJob (state : WorkforceState) : Job := state.rootJob.getD state.job

/-! ### Handoff -/

/-- `_swarm_worker`. -/
def swarmWorker (force : Workforce) (name : String) : Except Exn Worker :=
  if name = "" then .error (valueError "Swarm current worker is missing.")
  else
    match force.workerByName name with
    | some w => .ok w
    | none => .error (valueError ("Swarm current worker '" ++ name ++ "' is not registered."))

/-- `_handoff_tool`: the last entry of the override with the name that resolves to a
tool of that name. -/
def handoffTool (worker : Worker) (job : Job) (toolName : String) : Option Tool :=
  match job.toolsOverride with
  | some refs =>
    (refs.filterMap (resolveRef worker.toolbelt)).reverse.find? (·.name = toolName)
  | none => worker.toolbelt.resolve toolName

def dict? : Value → Option Dict
  | .dict fields => some fields
  | _ => none

def list? : Value → Option (List Value)
  | .list items => some items
  | _ => none

/-- `_handoff_allowed_agents`: the enum of the tool's `agent_name`, if it has one. -/
def handoffAllowedAgents (worker : Worker) (job : Job) (toolName : String) :
    Option (List String) := do
  let tool ← handoffTool worker job toolName
  if !tool.requiresHandoff then none
  else
    let properties ← (tool.schema.get "properties").bind dict?
    let agentName ← (properties.get "agent_name").bind dict?
    let rawEnum ← (agentName.get "enum").bind list?
    pure ((rawEnum.filterMap Value.str?).filter (· ≠ ""))

/-- `_handoff_messages`: the conversation without system messages, its open call
answered. -/
def handoffMessages (report : Report) (targetName toolCallId : String) : List Message :=
  report.messages.filter (·.role ≠ .system) ++
    [{ role := .tool
       content := .text ("Transferred to " ++ targetName ++ ".")
       toolCallId := some toolCallId }]

/-- The job of the next worker: the conversation goes on, with the call's context as
input if it has one. -/
def handoffJob (report : Report) (job : Job) (call : ToolCall) (target : String) : Job :=
  let context := (call.arguments.get "context").getD (.str "")
  { job with
    initialMessages := some (handoffMessages report target call.id)
    input := if context.truthy then context else job.input }

/-- `_handoff_transition`: the next worker and its job, or nothing when the report waits
for something else. -/
def handoffTransition (force : Workforce) (report : Report) (job : Job) (worker : Worker) :
    Except Exn (Option (Worker × Job)) :=
  match report.pendingAction.filter (·.type = .handoff) with
  | none => .ok none
  | some pending =>
    match ((pending.toolCall.arguments.get "agent_name").bind Value.str?).filter (· ≠ "") with
    | none => .error (valueError "Handoff target is missing or invalid.")
    | some target =>
      if (handoffAllowedAgents worker job pending.toolCall.name).any fun agents =>
          !agents.contains target then
        .error (valueError
          ("Handoff target '" ++ target ++ "' is not allowed for worker '" ++ worker.name ++ "'."))
      else
        match swarmWorker force target with
        | .error _ =>
          .error (valueError ("Handoff target '" ++ target ++ "' is not in the workforce."))
        | .ok next =>
          .ok (some (next, handoffJob report job pending.toolCall target))

def handoffFailedReport (report : Report) (message : String) : Report :=
  { report with status := .failed, pendingAction := none, errors := report.errors ++ [message] }

end Blackgeorge.WorkforceRun
