import Blackgeorge.Data.Dumps
import Blackgeorge.Program.Environment
import Blackgeorge.WorkerRunner.Sent

/-! The calls that a worker's conversation goes through: a first run, resumes of the
states it pauses in, live or restored from a store, and the runs that a handoff starts
on the conversation of a paused report. -/

namespace Blackgeorge.WorkforceRun

open Data Program Coroutine Coro WorkerRunner

/-- A call of a worker. -/
inductive Call where
  | run (job : Job)
  | resume (state : WorkerState) (decision : Value)

def Call.prog (worker : Worker) (config : RunConfig) : Call → Prog (Report × Option WorkerState)
  | run job => arun worker config job
  | resume state decision => aresume worker config state decision

/-- What a store and the desk may make of a paused state before it is resumed: dump and
restore it, any number of times, and put another job with tools in. -/
inductive Stored (state : WorkerState) : WorkerState → Prop
  | same : Stored state state
  | dumped {s s'} : Stored state s → s.persisted = some s' → Stored state s'
  | job {s} (job : Job) : Stored state s → Stored state { s with job := job }

/-- The calls that follow from a first job, by any workers under any configuration, any
model responses with distinct calls, any tool outcomes and any decisions. -/
inductive Reachable (start : Job) : Call → Prop
  | start : Reachable start (.run start)
  | resume {call worker config w t report state w' state'} (decision : Value) :
    Reachable start call →
    Runs distinctResponses (call.prog worker config) w t (.ok (report, some state)) w' →
    Stored state state' → Reachable start (.resume state' decision)
  | handoff {call worker config w t report state w' force job current next job'} :
    Reachable start call →
    Runs distinctResponses (call.prog worker config) w t (.ok (report, some state)) w' →
    handoffTransition force report job current = .ok (some (next, job')) →
    Reachable start (.run job')

/-! ### Restored states -/

/-- A map that a dump does not change element by element. -/
theorem map_eq_of_mapM {α γ : Type} {f : α → Option α} {g : α → γ}
    (hf : ∀ a b, f a = some b → g b = g a) {l l' : List α} (h : l.mapM f = some l') :
    l'.map g = l.map g := by
  have hall := forall₂_of_mapM h
  clear h
  induction hall with
  | nil => rfl
  | cons hab _ ih => rw [List.map_cons, List.map_cons, hf _ _ hab, ih]

theorem persisted_id {c c' : ToolCall} (h : c.persisted = some c') : c'.id = c.id := by
  simp only [ToolCall.persisted, Option.bind_eq_bind, Option.bind_eq_some_iff] at h
  obtain ⟨_, _, _, _, h⟩ := h
  obtain rfl := Option.some.inj h
  rfl

theorem messageItem_congr {m m' : Message} (hrole : m'.role = m.role)
    (hid : m'.toolCallId = m.toolCallId)
    (hcalls : m'.toolCalls.map ToolCall.id = m.toolCalls.map ToolCall.id) :
    messageItem m' = messageItem m := by
  cases h : m.role with
  | system => rw [messageItem_system h, messageItem_system (hrole.trans h)]
  | user => rw [messageItem_user h, messageItem_user (hrole.trans h)]
  | tool => rw [messageItem_tool h, messageItem_tool (hrole.trans h), hid]
  | assistant =>
    have hsome := congrArg (List.map some) hcalls
    rw [List.map_map, List.map_map] at hsome
    have hempty : m'.toolCalls.isEmpty = m.toolCalls.isEmpty := by
      simpa using congrArg List.isEmpty hcalls
    rw [messageItem_assistant h, messageItem_assistant (hrole.trans h), hempty]
    exact congrArg (if m.toolCalls.isEmpty then Transcript.Item.text else Transcript.Item.calls ·)
      hsome

theorem messageItem_persisted {m m' : Message} (h : m.persisted = some m') :
    messageItem m' = messageItem m := by
  simp only [Message.persisted, Option.bind_eq_bind, Option.bind_eq_some_iff] at h
  obtain ⟨_, _, _, _, toolCalls, htc, _, _, h⟩ := h
  obtain rfl := Option.some.inj h
  exact messageItem_congr rfl rfl (map_eq_of_mapM (fun _ _ => persisted_id) htc)

theorem awaitsAnswer_persisted {s s' : WorkerState} (hs : s.persisted = some s')
    (h : AwaitsAnswer s.messages s.pendingAction) : AwaitsAnswer s'.messages s'.pendingAction := by
  simp only [WorkerState.persisted, StateCore.persisted, Option.bind_eq_bind,
    Option.bind_eq_some_iff] at hs
  obtain ⟨core, ⟨job, _, messages, hmessages, _, _, pending, hpending, hcore⟩, hs⟩ := hs
  obtain rfl := Option.some.inj hcore
  obtain rfl := Option.some.inj hs
  rintro p' hp' m hm
  dsimp only at hp' ⊢
  cases hp : s.pendingAction with
  | none =>
    rw [hp] at hpending
    obtain rfl : none = pending := by simpa using hpending
    cases hp'
  | some p =>
    obtain ⟨p'', hdump, rfl⟩ : ∃ p'', p.persisted = some p'' ∧ some p'' = pending := by
      simpa [hp] using hpending
    obtain rfl := Option.some.inj hp'
    simp only [PendingAction.persisted, Option.bind_eq_bind, Option.bind_eq_some_iff] at hdump
    obtain ⟨call, hcall, _, _, hdump⟩ := hdump
    obtain rfl := Option.some.inj hdump
    have hm' : Answers m p.toolCall.id := persisted_id hcall ▸ hm
    have := h p hp m hm'
    rw [conversation_iff, List.map_append] at this ⊢
    rwa [map_eq_of_mapM (fun _ _ => messageItem_persisted) hmessages]

theorem awaitsAnswer_stored {s s' : WorkerState} (hs : Stored s s')
    (h : AwaitsAnswer s.messages s.pendingAction) : AwaitsAnswer s'.messages s'.pendingAction := by
  induction hs with
  | same => exact h
  | dumped _ hdump ih => exact awaitsAnswer_persisted hdump ih
  | job _ _ ih => exact ih

/-! ### Handoff -/

/-- The next worker's history answers the call that handed over. -/
theorem conversation_handoffMessages {report : Report} {pending : PendingAction}
    (h : AwaitsAnswer report.messages report.pendingAction) (hp : report.pendingAction = some pending)
    (target : String) : Conversation (handoffMessages report target pending.toolCall.id) := by
  have hanswer : Answers
      { role := .tool
        content := .text ("Transferred to " ++ target ++ ".")
        toolCallId := some pending.toolCall.id } pending.toolCall.id := ⟨rfl, rfl⟩
  simpa [handoffMessages, List.filter_append] using (h pending hp _ hanswer).filter_system

theorem conversation_handoffTransition {force : Workforce} {report : Report} {job : Job}
    {worker next : Worker} {job' : Job} (h : AwaitsAnswer report.messages report.pendingAction)
    (ht : handoffTransition force report job worker = .ok (some (next, job'))) :
    ∀ ms ∈ job'.initialMessages, Conversation ms := by
  unfold handoffTransition at ht
  split at ht
  · cases ht
  · next pending hpending =>
    split at ht
    · cases ht
    · split_ifs at ht
      split at ht
      · cases ht
      · obtain ⟨rfl, rfl⟩ := Prod.mk.inj (Option.some.inj (Except.ok.inj ht))
        rintro _ ⟨⟩
        exact conversation_handoffMessages h (Option.filter_eq_some_iff.mp hpending).1 _

/-! ### The calls of a conversation -/

def Call.Ok : Call → Prop
  | .run job => ∀ ms ∈ job.initialMessages, Conversation ms
  | .resume state _ => AwaitsAnswer state.messages state.pendingAction

theorem each_call (worker : Worker) (config : RunConfig) {call : Call} (h : call.Ok) :
    Each sendLaw (call.prog worker config) OutcomeOk := by
  cases call with
  | run job => exact each_arun worker config h
  | resume state decision => exact each_aresume worker config h decision

/-- Every call that follows from a job with a well-formed history finds one again. -/
theorem Reachable.ok {start : Job} (h : ∀ ms ∈ start.initialMessages, Conversation ms) {call : Call}
    (hcall : Reachable start call) : call.Ok := by
  induction hcall with
  | start => exact h
  | @resume call worker config _ _ _ state _ _ _ _ hrun hstored ih =>
    have hout := ((each_call worker config ih).runs hrun).2 _ rfl
    exact awaitsAnswer_stored hstored (hout state rfl).2
  | @handoff call worker config _ _ _ state _ _ _ _ _ _ _ hrun htransition ih =>
    have hout := ((each_call worker config ih).runs hrun).2 _ rfl
    exact conversation_handoffTransition (hout state rfl).1 htransition

/-- In every call that follows from a job with a well-formed history, each model call
sends a well-formed message list. -/
theorem reachable_sends_conversations {start : Job}
    (hstart : ∀ ms ∈ start.initialMessages, Conversation ms) {call : Call}
    (hcall : Reachable start call) {worker : Worker} {config : RunConfig} {w w' : World}
    {t : Trace sig} {r : Except Exn (Report × Option WorkerState)}
    (hrun : Runs distinctResponses (call.prog worker config) w t r w') :
    ∀ e ∈ t, SendsConversation e :=
  ((each_call worker config (hcall.ok hstart)).runs hrun).1

theorem plainAnswers_distinct {model : ℕ → ModelResponse} (h : ∀ n, DistinctCalls (model n)) (n : ℕ)
    (q : Query) : distinctResponses q (plainAnswers model n q) := by
  cases q with
  | complete sync call =>
    rintro a ha
    obtain rfl := Except.ok.inj ha
    exact h n
  | _ => trivial

theorem guardedModel_distinct (n : ℕ) : DistinctCalls (guardedModel n) := by
  unfold guardedModel
  split_ifs <;> simp [DistinctCalls]

/-- A job with a history. -/
def talkedJob : Job :=
  { plainJob with
    initialMessages := some [{ role := .user, content := .text "hello" },
      { role := .assistant, content := .text "hi" }] }

theorem conversation_talked : ∀ ms ∈ talkedJob.initialMessages, Conversation ms := by
  rintro _ ⟨⟩
  exact (conversation_iff _).mpr (by decide)

/-- The run of the job, which waits for its tool. -/
@[irreducible] def waitingTalk : Trace sig × Except Exn (Report × Option WorkerState) × World :=
  runIn (plainAnswers guardedModel) ((Call.run talkedJob).prog plainWorker plainConfig) {}

def talkOut : Report × Option WorkerState := waitingTalk.2.1.toOption.get (by decide +kernel)

def talkState : WorkerState := talkOut.2.get (by decide +kernel)

theorem reachable_talk : Reachable talkedJob (.resume talkState (.bool true)) := by
  have hrun : Runs distinctResponses ((Call.run talkedJob).prog plainWorker plainConfig) {}
      waitingTalk.1 waitingTalk.2.1 waitingTalk.2.2 := by
    unfold waitingTalk
    exact runIn_runs (plainAnswers_distinct guardedModel_distinct) _ _
  have hwaits : waitingTalk.2.1 = .ok (talkOut.1, some talkState) := by
    rw [talkState, Option.some_get]
    exact eq_ok_get _
  exact .resume _ .start (hwaits ▸ hrun) .same

/-- The resume of a run with a history, in which the model is called behind the tool's answer. -/
theorem reachable_sends_conversations_talk :
    let d := runIn (plainAnswers fun _ => { content := some "done" })
      ((Call.resume talkState (.bool true)).prog plainWorker plainConfig) {}
    sentRoles d.1 = [[.user, .assistant, .user, .assistant, .tool]] ∧
      ∀ e ∈ d.1, SendsConversation e := by
  refine ⟨by decide +kernel, ?_⟩
  exact reachable_sends_conversations conversation_talked reachable_talk
    (runIn_runs (plainAnswers_distinct fun _ => by simp [DistinctCalls]) _ _)

end Blackgeorge.WorkforceRun
