import Blackgeorge.WorkerRunner.Turns

/-! How a worker's run and its resume end: with a report that answers behind the history
it began with, or in a pause on a call of one of its tools. -/

namespace Blackgeorge.WorkerRunner

open Data Program Coroutine Coro

variable {L : Law sig} {tools : List Tool}

/-! ### Tool calls -/

theorem mem_of_allowedTools {name : String} {tool : Tool}
    (h : allowedTools tools name = some tool) : tool ∈ tools :=
  List.mem_reverse.mp (List.mem_of_find?_eq_some h)

theorem unguarded_of_toolActionType {tool : Tool} (h : toolActionType tool = none) : Unguarded tool := by
  unfold toolActionType at h
  split_ifs at h with hhandoff hconfirmation hinput
  exact ⟨by simpa using hhandoff, by simpa using hconfirmation, by simpa using hinput⟩

/-- A plan executes and holds back calls of allowed tools only, and executes no call that is to be
held back. -/
structure ToolPlan.Sound (allowed : String → Option Tool) (plan : ToolPlan) : Prop where
  executable : ∀ p ∈ plan.executableCalls, allowed p.1.name = some p.2 ∧ Unguarded p.2
  pending : ∀ p ∈ plan.pending, ∃ tool, allowed p.toolCall.name = some tool ∧
    toolActionType tool = some p.type

theorem ToolPlan.Sound.immediate {allowed : String → Option Tool} {plan : ToolPlan}
    (h : plan.Sound allowed) (call : ToolCall) (error : String) :
    (plan.immediate call error).Sound allowed :=
  ⟨h.executable, h.pending⟩

theorem skipRemaining_pending (maxToolCalls : ℕ) (calls toolCalls : List ToolCall)
    (plan : ToolPlan) :
    (skipRemaining maxToolCalls calls toolCalls plan).1.pending = plan.pending := by
  induction calls generalizing toolCalls plan with
  | nil => rfl
  | cons call calls ih =>
    unfold skipRemaining
    split_ifs
    · rfl
    · rw [ih]
      rfl

theorem sound_skipRemaining {allowed : String → Option Tool} (maxToolCalls : ℕ)
    (calls toolCalls : List ToolCall) {plan : ToolPlan} (h : plan.Sound allowed) :
    (skipRemaining maxToolCalls calls toolCalls plan).1.Sound allowed := by
  induction calls generalizing toolCalls plan with
  | nil => exact h
  | cons call calls ih =>
    unfold skipRemaining
    split_ifs
    · exact ⟨h.executable, h.pending⟩
    · exact ih _ (h.immediate call _)

theorem serves_planToolCalls (hL : Performs L tools) (allowed : String → Option Tool)
    (maxToolCalls : ℕ) (calls toolCalls : List ToolCall) {plan : ToolPlan}
    (h : plan.Sound allowed) :
    Each L (planToolCalls allowed maxToolCalls calls toolCalls plan) fun r => r.1.Sound allowed := by
  induction calls generalizing toolCalls plan with
  | nil => exact each_pure h
  | cons call calls ih =>
    unfold planToolCalls
    split_ifs
    · exact each_pure ⟨h.executable, h.pending⟩
    · split
      · exact ih _ (h.immediate call _)
      · exact ih _ (h.immediate call _)
      · next tool _ htool =>
        split
        · next type htype =>
          have hid : Each L (Prog.ask .newId) fun _ => True :=
            each_query fun id _ => ⟨hL.newId id, trivial⟩
          apply each_bind hid
          intro actionId _
          apply each_pure
          apply sound_skipRemaining
          refine ⟨h.executable, ?_⟩
          rintro _ ⟨⟩
          exact ⟨tool, htool, htype⟩
        · next hnone =>
          apply ih
          refine ⟨?_, h.pending⟩
          intro p hp
          rcases List.mem_append.mp hp with hp | hp
          · exact h.executable p hp
          · obtain rfl := List.mem_singleton.mp hp
            exact ⟨htool, unguarded_of_toolActionType hnone⟩

theorem serves_executeTool (hL : Performs L tools) {tool : Tool} (h : tool ∈ tools) (hfree : Unguarded tool)
    (call : ToolCall) : Each L (executeTool tool call none) fun _ => True :=
  each_bind (P := fun _ => True) (each_query fun a _ => ⟨hL.runTool tool h hfree call a, trivial⟩)
    fun r _ => each_outcome r

/-- The results are appended to the history. -/
theorem serves_appendResults (hL : Permits L) (config : RunConfig)
    (results : String → Option ToolResult) (calls : List ToolCall) (messages : List Message)
    (toolCalls : List ToolCall) :
    Each L (appendResults config results calls messages toolCalls) fun r => messages <+: r.1 := by
  induction calls generalizing messages toolCalls with
  | nil => exact each_pure List.prefix_rfl
  | cons call calls ih =>
    apply each_bind (each_emitToolResult hL _ _ _ _)
    intro _ _
    apply each_bind (each_outcome _)
    intro toolCalls' _
    exact (ih _ _).mono fun r hr => (List.prefix_append _ _).trans hr

theorem serves_executeToolCalls (hL : Performs L tools) (config : RunConfig) {plan : ToolPlan}
    (h : plan.Sound (allowedTools tools)) (messages : List Message) (toolCalls : List ToolCall) :
    Each L (executeToolCalls config plan messages toolCalls) fun r => messages <+: r.1 := by
  apply each_bind (each_forM fun _ _ => each_emit hL.toPermits _ _ _ _)
  intro _ _
  refine each_bind (each_gather (P := fun _ => True) ?_) fun _ _ =>
    serves_appendResults hL.toPermits _ _ _ _ _
  intro c hc
  obtain ⟨⟨call, tool⟩, hmem, rfl⟩ := List.mem_map.mp hc
  obtain ⟨hallowed, hfree⟩ := h.executable _ hmem
  exact serves_executeTool hL (mem_of_allowedTools hallowed) hfree call

/-! ### A turn -/

/-- A run that pauses from a state: it waits for a call of one of its tools. -/
structure PausedFrom (tools : List Tool) (job : Job) (state : LoopState) (report : Report)
    (paused : WorkerState) : Prop where
  status : report.status = .paused
  job_eq : paused.job = job
  runId_eq : paused.runId = state.runId
  runnerName_eq : paused.runnerName = state.workerName
  grown : Grown state.messages state.metrics paused.messages paused.metrics
  pending : ∃ p, paused.pendingAction = some p ∧ report.pendingAction = some p ∧
    ∃ tool, allowedTools tools p.toolCall.name = some tool ∧ toolActionType tool = some p.type

/-- How a turn ends, from the state it began in. -/
def TurnEnd.From (tools : List Tool) (job : Job) (state : LoopState) : TurnEnd → Prop
  | .next s => Grows state s
  | .report r => Ended state r
  | .paused r s => PausedFrom tools job state r s

theorem PausedFrom.of_grows {job : Job} {s s' : LoopState} {report : Report} {paused : WorkerState}
    (h : Grows s s') (h' : PausedFrom tools job s' report paused) :
    PausedFrom tools job s report paused where
  status := h'.status
  job_eq := h'.job_eq
  runId_eq := h'.runId_eq.trans h.runId_eq
  runnerName_eq := h'.runnerName_eq.trans h.workerName_eq
  grown := by
    intro hnone
    obtain ⟨hnone', hmessages'⟩ := h'.grown hnone
    obtain ⟨hnone'', hmessages⟩ := h.grown hnone'
    exact ⟨hnone'', hmessages.trans hmessages'⟩
  pending := h'.pending

theorem TurnEnd.From.of_grows {job : Job} {s s' : LoopState} {turn : TurnEnd} (h : Grows s s')
    (h' : turn.From tools job s') : turn.From tools job s := by
  cases turn with
  | next state => exact h.trans h'
  | report report => exact Ended.of_grows h h'
  | paused report paused => exact PausedFrom.of_grows h h'

theorem pausedFrom_pauseState {job : Job} {s : LoopState} {pending : PendingAction} {tool : Tool}
    (htool : allowedTools tools pending.toolCall.name = some tool)
    (htype : toolActionType tool = some pending.type) :
    PausedFrom tools job s (pauseReport s pending) (pauseState s job pending) where
  status := rfl
  job_eq := rfl
  runId_eq := rfl
  runnerName_eq := rfl
  grown := fun hnone => ⟨hnone, List.prefix_rfl⟩
  pending := ⟨pending, rfl, rfl, tool, htool, htype⟩

theorem serves_processToolCalls (hL : Performs L tools) (ctx : RunContext) (state : LoopState)
    (job : Job) (response : ModelResponse) :
    Each L (processToolCalls ctx state job response (allowedTools tools))
      (TurnEnd.From tools job state) := by
  apply each_bind (each_emitAssistantMessage hL.toPermits _ _ _)
  intro _ _
  have hempty : ToolPlan.Sound (allowedTools tools) {} :=
    ⟨by simp, by simp⟩
  apply each_bind (serves_planToolCalls hL _ _ _ _ hempty)
  rintro ⟨plan, toolCalls⟩ hplan
  apply each_bind (serves_executeToolCalls hL _ hplan _ _)
  rintro ⟨messages, toolCalls'⟩ hmessages
  have hgrows : Grows state { state with messages := messages, toolCalls := toolCalls' } :=
    Grows.of_messages ((List.prefix_append _ _).trans hmessages)
  dsimp only
  split_ifs
  · apply each_bind (ends_failReport hL.toPermits _ _ _)
    intro report hreport
    exact each_pure (hreport state)
  · split
    · next pending hpending =>
      apply each_bind (each_emitPause hL.toPermits _ _ _)
      intro _ _
      obtain ⟨tool, htool, htype⟩ := hplan.pending pending hpending
      exact each_pure (PausedFrom.of_grows hgrows (pausedFrom_pauseState htool htype))
    · exact each_pure hgrows

theorem serves_processTurnResponse (hL : Serves L tools) (ctx : RunContext) (state : LoopState)
    (job : Job) (response : ModelResponse) :
    Each L (processTurnResponse ctx state job response (allowedTools tools))
      (TurnEnd.From tools job state) := by
  refine each_bind (each_recordUsage hL.toBills _ _ _) ?_
  rintro _ ⟨metrics, hmetrics, rfl⟩
  have hgrows := Grows.of_metrics hmetrics
  split_ifs
  · split
    · apply each_bind (serves_structuredOrReport hL.requests hL.toBills ctx _ job _)
      rintro ⟨_ | _ | report, state'⟩ ⟨hstate, hreport⟩
      · exact each_pure (hgrows.trans hstate.toGrows)
      · exact each_pure (hgrows.trans hstate.toGrows)
      · exact each_pure ((hreport report rfl).toEnded.of_grows hgrows)
    · apply each_bind (reports_finalizePlain hL.toPermits _ _ _)
      intro report hreport
      exact each_pure (hreport.toEnded.of_grows hgrows)
  · exact (serves_processToolCalls hL.toPerforms ctx _ job response).mono fun _ h => h.of_grows hgrows

/-! ### The run -/

/-- How a run ends, from the state its loop began in. -/
structure OutcomeFrom (tools : List Tool) (job : Job) (state : LoopState)
    (outcome : Report × Option WorkerState) : Prop where
  ended : outcome.2 = none → Ended state outcome.1
  paused : ∀ paused, outcome.2 = some paused → PausedFrom tools job state outcome.1 paused

theorem OutcomeFrom.of_ended {job : Job} {s : LoopState} {report : Report} (h : Ended s report) :
    OutcomeFrom tools job s (report, none) :=
  ⟨fun _ => h, by simp⟩

theorem OutcomeFrom.of_paused {job : Job} {s : LoopState} {report : Report} {paused : WorkerState}
    (h : PausedFrom tools job s report paused) : OutcomeFrom tools job s (report, some paused) := by
  refine ⟨by simp, ?_⟩
  rintro _ ⟨⟩
  exact h

theorem OutcomeFrom.of_grows {job : Job} {s s' : LoopState} {outcome : Report × Option WorkerState}
    (h : Grows s s') (h' : OutcomeFrom tools job s' outcome) : OutcomeFrom tools job s outcome :=
  ⟨fun hnone => (h'.ended hnone).of_grows h, fun paused hp => (h'.paused paused hp).of_grows h⟩

/-- The loop hands its history on from turn to turn. -/
theorem serves_runLoop (hL : Serves L tools) (ctx : RunContext) (job : Job) (left : ℕ)
    (state : LoopState) :
    Each L (runLoop ctx job tools left state) (OutcomeFrom tools job state) := by
  induction left generalizing state with
  | zero =>
    apply each_bind (ends_failReport hL.toPermits _ _ _)
    intro report hreport
    exact each_pure (OutcomeFrom.of_ended (hreport state))
  | succ left ih =>
    apply each_bind (each_getTotals hL.toPermits _)
    intro totals _
    have hgrows : Grows state { state with iteration := state.iteration + 1 } := Grows.of_iteration
    dsimp only
    split
    · apply each_bind (ends_failReport hL.toPermits _ _ _)
      intro report hreport
      exact each_pure (OutcomeFrom.of_ended (hreport state))
    · apply each_bind (compacts_compactToLimit hL.requests.summarizes ctx _)
      intro compacted hcompacted
      replace hgrows := hgrows.trans hcompacted.grows
      apply each_bind (serves_acquireTurnResponse hL.requests hL.toBills ctx compacted job)
      rintro ⟨response | _ | report, acquired⟩ ⟨hacquired, hreport⟩
      · replace hgrows := hgrows.trans hacquired.toGrows
        apply each_bind (serves_processTurnResponse hL ctx acquired job response)
        rintro (next | report | ⟨report, paused⟩) hturn
        · exact (ih next).mono fun _ h => h.of_grows (hgrows.trans hturn)
        · exact each_pure (OutcomeFrom.of_ended (Ended.of_grows hgrows hturn))
        · exact each_pure (OutcomeFrom.of_paused (PausedFrom.of_grows hgrows hturn))
      · exact (ih acquired).mono fun _ h => h.of_grows (hgrows.trans hacquired.toGrows)
      · exact each_pure (OutcomeFrom.of_ended ((hreport report rfl).of_grows hgrows))

theorem serves_enterLoop {worker : Worker} {job : Job}
    (hL : Serves L (resolveTools worker.toolbelt job)) (config : RunConfig) (modelName : String)
    (state : LoopState) :
    Each L (enterLoop worker config modelName state job)
      (OutcomeFrom (resolveTools worker.toolbelt job) job state) := by
  apply each_bind (each_emit hL.toPermits _ _ _ _)
  intro _ _
  exact serves_runLoop hL _ _ _ _

theorem serves_modelNotSet (hL : Permits L) (worker : Worker) (config : RunConfig) (runId : RunId)
    (messages : List Message) (job : Job) :
    Each L (modelNotSet worker config runId messages) fun o => ∀ s, OutcomeFrom tools job s o := by
  apply each_bind (each_emit hL _ _ _ _)
  intro _ _
  exact each_pure fun s => OutcomeFrom.of_ended (Ended.of_failed rfl)

/-- A run from its job. -/
theorem serves_arun {worker : Worker} {job : Job}
    (hL : Serves L (resolveTools worker.toolbelt job)) (config : RunConfig) :
    Each L (arun worker config job) fun o =>
      ∃ registered, OutcomeFrom (resolveTools worker.toolbelt job) job
        (startState worker config job registered) o := by
  unfold arun
  dsimp only
  split_ifs
  · exact (serves_modelNotSet hL.toPermits _ _ _ _ job).mono fun o h => ⟨true, h _⟩
  · refine each_bind (each_free hL.requests trivial) fun registered _ => ?_
    exact (serves_enterLoop hL _ _ _).mono fun o h => ⟨registered, h⟩

/-! ### The resume -/

theorem serves_quietLaw {event : Event sig → Prop} (h : ∀ e, Undecided e → event e)
    (tools : List Tool) : Serves (quietLaw event) tools where
  toBills := quietLaw_bills h
  free q a hq := by
    apply h
    cases q <;> first | exact trivial | exact False.elim hq
  complete _ _ _ _ := h _ trivial
  newId _ := h _ trivial
  runTool _ _ hfree _ _ := h _ hfree

/-- What a pending action keeps on its way through JSON. -/
structure Awaited where
  actionId : String
  type : PendingActionType
  toolName : String
  callId : String
  deriving DecidableEq

def awaited (p : PendingAction) : Awaited := ⟨p.actionId, p.type, p.toolCall.name, p.toolCall.id⟩

/-- What may run for an action that is awaited: the tool it names, on the call it holds back, and
nothing where a confirmation is declined. -/
structure Awaited.Fulfils (x : Awaited) (decision : Value) (tool : Tool) (call : ToolCall) : Prop where
  tool_name : tool.name = x.toolName
  call_name : call.name = x.toolName
  call_id : call.id = x.callId
  confirmed : x.type = .confirmation → confirmationApproved decision = true

theorem resumeToolFrom_name {belt : Toolbelt} {name : String} {refs : List ToolRef} {tool : Tool}
    (h : resumeToolFrom belt name refs = some tool) : tool.name = name := by
  induction refs with
  | nil => cases h
  | cons ref refs ih =>
    cases ref with
    | tool t =>
      rw [resumeToolFrom] at h
      split_ifs at h with hname
      · exact Option.some.inj h ▸ hname
      · exact ih h
    | name s =>
      rw [resumeToolFrom] at h
      split_ifs at h with hname
      · exact (Toolbelt.resolve_name h).trans hname
      · exact ih h
    | other _ => exact ih h

theorem resolveResumeTool_name {belt : Toolbelt} {job : Job} {name : String} {tool : Tool}
    (h : resolveResumeTool belt job name = some tool) : tool.name = name := by
  unfold resolveResumeTool at h
  split at h
  · exact resumeToolFrom_name h
  · exact Toolbelt.resolve_name h

/-- The law lets a decision meet the pending action, and its tool run for it. -/
structure Decides (L : Law sig) (worker : Worker) (job : Job) (pending : PendingAction)
    (decision : Value) : Prop where
  decide : L.event ⟨.decide pending decision, ()⟩
  runTool : ∀ tool call a, resolveResumeTool worker.toolbelt job pending.toolCall.name = some tool →
    (awaited pending).Fulfils decision tool call → L.event ⟨.runTool tool call (some pending.actionId), a⟩

theorem decides_resolvePending {worker : Worker} {job : Job} {pending : PendingAction}
    {decision : Value} (hL : Permits L) (hd : Decides L worker job pending decision)
    (config : RunConfig) :
    Each L (resolvePending worker config job pending decision) fun _ => True := by
  have hrefuse (error : String) : Each L (do
      config.emit "tool.failed" pending.toolCall.name
        [("tool_call_id", .str pending.toolCall.id), ("error", .str error)]
      pure (pending.toolCall, ({ error := some error } : ToolResult))) fun _ => True :=
    each_bind (each_emit hL _ _ _ _) fun _ _ => each_pure trivial
  unfold resolvePending
  refine each_bind (P := fun _ => True) (each_query fun _ _ => ⟨hd.decide, trivial⟩) fun _ _ => ?_
  dsimp only
  split
  · exact hrefuse _
  · next tool htool =>
    have hconfirmed : ¬ (pending.type = .confirmation && !confirmationApproved decision) = true →
        pending.type = .confirmation → confirmationApproved decision = true := by
      intro h htype
      simpa [htype] using h
    have hrun (call : ToolCall) (h : (awaited pending).Fulfils decision tool call) :
        Each L (executeTool tool call (some pending.actionId)) fun _ => True :=
      each_bind (P := fun _ => True)
        (each_query fun a _ => ⟨hd.runTool tool call a htool h, trivial⟩) fun r _ => each_outcome r
    have hname := resolveResumeTool_name htool
    split_ifs with hdeclined hinput
    · exact hrefuse _
    all_goals
      apply each_bind (each_emit hL _ _ _ _)
      intro _ _
      refine each_bind (hrun _ ?_) fun result _ => ?_
      · exact ⟨hname, rfl, rfl, hconfirmed hdeclined⟩
      apply each_bind (each_emitToolResult hL _ _ _ _)
      intro _ _
      exact each_pure trivial

/-- The history and the identity that a resume goes on with. -/
structure ResumedFrom (config : RunConfig) (state : WorkerState) (s : LoopState) : Prop where
  grown : Grown state.messages state.metrics s.messages s.metrics
  runId_eq : s.runId = config.runId

theorem decides_resumePending {worker : Worker} {state : WorkerState} {pending : PendingAction}
    {decision : Value} (hL : Serves L (resolveTools worker.toolbelt state.job))
    (hd : Decides L worker state.job pending decision) (config : RunConfig) :
    Each L (resumePending worker config state pending decision) fun o =>
      ∃ s, ResumedFrom config state s ∧
        OutcomeFrom (resolveTools worker.toolbelt state.job) state.job s o := by
  apply each_bind (decides_resolvePending hL.toPermits hd _)
  rintro ⟨call, result⟩ _
  apply each_bind (each_outcome _)
  intro toolCalls _
  have hresumed (registered : Bool) :
      ResumedFrom config state (resumedState worker config state call result toolCalls registered) :=
    ⟨fun hnone => ⟨hnone, List.prefix_append _ _⟩, rfl⟩
  dsimp only
  split_ifs
  · exact (serves_modelNotSet hL.toPermits _ _ _ _ state.job).mono
      fun o h => ⟨_, hresumed true, h _⟩
  · refine each_bind (each_free hL.requests trivial) fun registered _ => ?_
    exact (serves_enterLoop hL _ _ _).mono fun o h => ⟨_, hresumed registered, h⟩

theorem resumeConfig_runId (config : RunConfig) (runId : RunId) :
    (resumeConfig config runId).runId = runId := by
  unfold resumeConfig
  split_ifs with h
  · exact h
  · rfl

/-- A resume from a paused state. -/
theorem decides_aresume {worker : Worker} {state : WorkerState} {decision : Value}
    (hL : Serves L (resolveTools worker.toolbelt state.job))
    (hd : ∀ p ∈ state.pendingAction, Decides L worker state.job p decision) (config : RunConfig) :
    Each L (aresume worker config state decision) fun o =>
      ∃ s, s.runId = state.runId ∧ Grown state.messages state.metrics s.messages s.metrics ∧
        OutcomeFrom (resolveTools worker.toolbelt state.job) state.job s o := by
  apply each_bind (each_modifyTotals hL.toBills _ _)
  intro _ _
  split
  · apply each_pure
    refine ⟨{ runId := state.runId, workerName := "", messages := state.messages,
              metrics := state.metrics, modelRegistered := true }, rfl, ?_, ?_⟩
    · exact fun hnone => ⟨hnone, List.prefix_rfl⟩
    · exact OutcomeFrom.of_ended (Ended.of_failed rfl)
  · next pending hpending =>
    refine (decides_resumePending hL (hd pending hpending) _).mono ?_
    rintro o ⟨s, hs, ho⟩
    exact ⟨s, hs.runId_eq.trans (resumeConfig_runId config state.runId), hs.grown, ho⟩

end Blackgeorge.WorkerRunner
