import Blackgeorge.Desk.Calls

/-! The turns of a session: each runs on the stored history and, once it has completed,
puts the conversation of its report in the history's place. -/

namespace Blackgeorge.Session

open Data Program

/-- `WorkerSession`: an id, a worker and the desk's settings. Sessions with one id share
their stored history. -/
structure WorkerSession where
  id : String
  worker : Worker

variable (desk : DeskSettings) (api : Desk.RunnerApi) (session : WorkerSession)

/-- `_build_job`. The job given has the input and the other arguments of the turn. -/
def buildJob (job : Job) : Prog Job := do
  Prog.store (.getMessages session.id)
  let messages ← Prog.get fun w => w.histories session.id
  pure { job with initialMessages := if messages.isEmpty then none else some messages }

def isSummary (m : Message) : Bool :=
  m.role = .system && (match m.metadata.get "summary" with
    | some (.bool b) => b
    | _ => false)

/-- The messages a history keeps. -/
def isConversation (m : Message) : Bool :=
  isSummary m || m.role = .user || m.role = .assistant ||
    (m.role = .tool && (m.toolCallId.filter (· ≠ "")).isSome)

/-- A message as the history keeps it: a final answer without its reasoning. -/
def conversationMessage (m : Message) : Message :=
  if m.role = .assistant && m.toolCalls.isEmpty then
    { m with reasoningContent := none, thinkingBlocks := none }
  else m

/-- `_extract_conversation_messages`. -/
def extractConversationMessages (report : Report) : List Message :=
  (report.messages.filter isConversation).map conversationMessage

/-- `replace_messages`: messages are stored as JSON. -/
def replaceMessages (messages : List Message) : Prog Unit := do
  let stored ← Prog.ofExcept (orSerializationError (messages.mapM Message.persisted))
  Prog.store (.replaceMessages session.id messages)
  Prog.modify fun w => { w with histories := Function.update w.histories session.id stored }

/-- `_persist_report`. -/
def persistReport (report : Report) : Prog Report := do
  if report.status = .completed then
    replaceMessages session (extractConversationMessages report)
    Prog.store (.updateSession session.id)
    pure report
  else pure report

/-- `WorkerSession.arun`. -/
def arun (job : Job) (stream : Bool) : Prog Report := do
  let job ← buildJob session job
  let report ← Desk.arun desk api (.worker session.worker) job (some stream) none
  persistReport session report

/-- `WorkerSession.aresume`. -/
def aresume (report : Report) (decision : Value) (stream : Option Bool) : Prog Report := do
  let report ← Desk.aresume desk api report decision stream
  persistReport session report

end Blackgeorge.Session
