import Blackgeorge.WorkerRunner.Outcome

/-! Which call a paused worker waits on is read off its conversation: the first waiting one
among the calls of the last assistant message. -/

namespace Blackgeorge.WorkerRunner

open Data Program Coroutine Coro

/-- The first call that waits for a decision, with what it waits for. -/
def firstWaiting (allowed : String → Option Tool) : List ToolCall → Option (ToolCall × PendingActionType)
  | [] => none
  | call :: calls =>
    match call.error.filter (· ≠ ""), (allowed call.name).bind toolActionType with
    | none, some type => some (call, type)
    | _, _ => firstWaiting allowed calls

/-- The calls of the last assistant message. -/
def lastCalls (messages : List Message) : List ToolCall :=
  (((messages.filter (·.role = .assistant)).getLast?).map Message.toolCalls).getD []

theorem lastCalls_append {messages more : List Message} (h : ∀ m ∈ more, m.role ≠ .assistant) :
    lastCalls (messages ++ more) = lastCalls messages := by
  have hnone : more.filter (·.role = .assistant) = [] := by simpa using h
  rw [lastCalls, List.filter_append, hnone, List.append_nil]
  rfl

theorem lastCalls_concat {messages : List Message} {m : Message} (h : m.role = .assistant) :
    lastCalls (messages ++ [m]) = m.toolCalls := by
  simp [lastCalls, List.filter_append, h]

/-- System messages call no tools. -/
theorem lastCalls_nonSystem (messages : List Message) :
    lastCalls (messages.filter (·.role ≠ .system)) = lastCalls messages := by
  unfold lastCalls
  rw [List.filter_filter]
  congr 4
  funext m
  cases m.role <;> rfl

/-- The pending action of a paused outcome is the one its conversation tells of. -/
def PausesOn (tools : List Tool) (outcome : Report × Option WorkerState) : Prop :=
  outcome.2.isSome → ∃ p, outcome.1.pendingAction = some p ∧
    firstWaiting (allowedTools tools) (lastCalls outcome.1.messages) = some (p.toolCall, p.type)

theorem each_any {α : Type} (c : Prog α) : Each anyLaw c fun _ => True := by
  intro w
  refine wp_post (P := fun _ _ _ => True) (fun t r w _ => ⟨fun _ _ => trivial, fun _ _ => trivial⟩) ?_
  induction c generalizing w with
  | ret r => exact fun _ _ => trivial
  | act f k ih => exact fun w' _ => ⟨trivial, ih w' (f w')⟩
  | ask q k ih => exact fun a _ => ih a w
  | pick k ih => exact fun b => ih b w

theorem serves_any (tools : List Tool) : Serves anyLaw tools where
  refl := fun _ => trivial
  eventLists := fun _ _ => trivial
  storedEvents := fun _ _ => trivial
  routine := fun _ _ _ => trivial
  free := fun _ _ _ => trivial
  complete := fun _ _ _ _ => trivial
  newId := fun _ => trivial
  runTool := fun _ _ _ _ _ => trivial
  totals := fun _ _ => trivial
  usageCost := fun _ _ _ => trivial

/-- A plan holds the first waiting call back. -/
theorem waiting_planToolCalls (allowed : String → Option Tool) (maxToolCalls : ℕ)
    (calls : List ToolCall) : ∀ (toolCalls : List ToolCall) (plan : ToolPlan), plan.pending = none →
    Each anyLaw (planToolCalls allowed maxToolCalls calls toolCalls plan) fun r =>
      ∀ p, r.1.pending = some p → firstWaiting allowed calls = some (p.toolCall, p.type) := by
  induction calls with
  | nil =>
    intro toolCalls plan hplan
    apply each_pure
    intro p hp
    rw [hplan] at hp
    cases hp
  | cons call calls ih =>
    intro toolCalls plan hplan
    have hlater {toolCalls' : List ToolCall} {plan' : ToolPlan} (hplan' : plan'.pending = none)
        (hfirst : firstWaiting allowed (call :: calls) = firstWaiting allowed calls) :
        Each anyLaw (planToolCalls allowed maxToolCalls calls toolCalls' plan') fun r =>
          ∀ p, r.1.pending = some p →
            firstWaiting allowed (call :: calls) = some (p.toolCall, p.type) := by
      rw [hfirst]
      exact ih _ _ hplan'
    unfold planToolCalls
    split_ifs
    · apply each_pure
      intro p hp
      rw [hplan] at hp
      cases hp
    · split
      · next error herror =>
        refine hlater hplan ?_
        rw [firstWaiting, herror]
      · next herror htool =>
        refine hlater hplan ?_
        rw [firstWaiting, herror, htool]
        rfl
      · next tool herror htool =>
        split
        · next type htype =>
          apply each_bind (each_any _)
          intro actionId _
          apply each_pure
          intro p hp
          rw [skipRemaining_pending] at hp
          obtain rfl := Option.some.inj hp
          rw [firstWaiting, herror, htool, Option.bind_some, htype]
          rfl
        · next htype =>
          refine hlater hplan ?_
          rw [firstWaiting, herror, htool, Option.bind_some, htype]

/-- The results of calls are tool messages. -/
theorem waiting_appendResults (config : RunConfig) (results : String → Option ToolResult)
    (calls : List ToolCall) : ∀ (messages : List Message) (toolCalls : List ToolCall),
    Each anyLaw (appendResults config results calls messages toolCalls) fun r =>
      lastCalls r.1 = lastCalls messages := by
  induction calls with
  | nil => exact fun _ _ => each_pure rfl
  | cons call calls ih =>
    intro messages toolCalls
    apply each_bind (each_any _)
    intro _ _
    apply each_bind (each_any _)
    intro toolCalls' _
    refine (ih _ _).mono fun r hr => ?_
    rw [hr]
    apply lastCalls_append
    intro m hm
    obtain rfl := List.mem_singleton.mp hm
    exact fun h => nomatch h

theorem waiting_processToolCalls (ctx : RunContext) (state : LoopState) (job : Job)
    (response : ModelResponse) (tools : List Tool) :
    Each anyLaw (processToolCalls ctx state job response (allowedTools tools)) fun turn =>
      ∀ report paused, turn = .paused report paused → PausesOn tools (report, some paused) := by
  apply each_bind (each_any _)
  intro _ _
  apply each_bind (waiting_planToolCalls _ _ _ _ _ rfl)
  rintro ⟨plan, toolCalls⟩ hplan
  have hexecute : Each anyLaw (executeToolCalls ctx.config plan (state.messages ++ [callMessage response])
      toolCalls) fun r => lastCalls r.1 = response.toolCalls := by
    apply each_bind (each_any _)
    intro _ _
    apply each_bind (each_any _)
    intro _ _
    refine (waiting_appendResults _ _ _ _ _).mono fun r hr => ?_
    rw [hr]
    exact lastCalls_concat rfl
  apply each_bind hexecute
  rintro ⟨messages, toolCalls'⟩ hmessages
  dsimp only at hplan hmessages ⊢
  split_ifs
  · exact each_bind (each_any _) fun _ _ => each_pure (by simp)
  · split
    · next pending hpending =>
      apply each_bind (each_any _)
      intro _ _
      apply each_pure
      rintro report paused ⟨⟩ -
      refine ⟨pending, rfl, ?_⟩
      show firstWaiting _ (lastCalls messages) = _
      rw [hmessages]
      exact hplan pending hpending
    · exact each_pure (by simp)

theorem waiting_processTurnResponse (ctx : RunContext) (state : LoopState) (job : Job)
    (response : ModelResponse) (tools : List Tool) :
    Each anyLaw (processTurnResponse ctx state job response (allowedTools tools)) fun turn =>
      ∀ report paused, turn = .paused report paused → PausesOn tools (report, some paused) := by
  apply each_bind (each_any _)
  intro state _
  split_ifs
  · split
    · apply each_bind (each_any _)
      rintro ⟨_ | _ | report, state⟩ -
      all_goals exact each_pure (by simp)
    · exact each_bind (each_any _) fun _ _ => each_pure (by simp)
  · exact waiting_processToolCalls _ _ _ _ _

theorem pausesOn_none (tools : List Tool) (report : Report) : PausesOn tools (report, none) := by
  intro h
  cases h

theorem waiting_runLoop (ctx : RunContext) (job : Job) (tools : List Tool) (left : ℕ) :
    ∀ state, Each anyLaw (runLoop ctx job tools left state) (PausesOn tools) := by
  induction left with
  | zero =>
    intro state
    exact each_bind (each_any _) fun _ _ => each_pure (pausesOn_none _ _)
  | succ left ih =>
    intro state
    apply each_bind (each_any _)
    intro totals _
    dsimp only
    split
    · exact each_bind (each_any _) fun _ _ => each_pure (pausesOn_none _ _)
    · apply each_bind (each_any _)
      intro compacted _
      apply each_bind (each_any _)
      rintro ⟨response | _ | report, acquired⟩ -
      · apply each_bind (waiting_processTurnResponse _ _ _ _ _)
        rintro (next | report | ⟨report, paused⟩) hturn
        · exact ih next
        · exact each_pure (pausesOn_none _ _)
        · exact each_pure (hturn report paused rfl)
      · exact ih acquired
      · exact each_pure (pausesOn_none _ _)

theorem waiting_enterLoop (worker : Worker) (config : RunConfig) (modelName : String)
    (state : LoopState) (job : Job) :
    Each anyLaw (enterLoop worker config modelName state job)
      (PausesOn (resolveTools worker.toolbelt job)) := by
  apply each_bind (each_any _)
  intro _ _
  exact waiting_runLoop _ _ _ _ _

theorem waiting_modelNotSet (tools : List Tool) (worker : Worker) (config : RunConfig) (runId : RunId)
    (messages : List Message) :
    Each anyLaw (modelNotSet worker config runId messages) (PausesOn tools) :=
  each_bind (each_any _) fun _ _ => each_pure (pausesOn_none _ _)

theorem waiting_arun (worker : Worker) (config : RunConfig) (job : Job) :
    Each anyLaw (arun worker config job) (PausesOn (resolveTools worker.toolbelt job)) := by
  unfold arun
  dsimp only
  split_ifs
  · exact waiting_modelNotSet _ _ _ _ _
  · apply each_bind (each_any _)
    intro registered _
    exact waiting_enterLoop _ _ _ _ _

theorem waiting_aresume (worker : Worker) (config : RunConfig) (state : WorkerState) (decision : Value) :
    Each anyLaw (aresume worker config state decision)
      (PausesOn (resolveTools worker.toolbelt state.job)) := by
  apply each_bind (each_any _)
  intro _ _
  split
  · exact each_pure (pausesOn_none _ _)
  · apply each_bind (each_any _)
    rintro ⟨call, result⟩ -
    apply each_bind (each_any _)
    intro toolCalls _
    dsimp only
    split_ifs
    · exact waiting_modelNotSet _ _ _ _ _
    · apply each_bind (each_any _)
      intro registered _
      exact waiting_enterLoop _ _ _ _ _

end Blackgeorge.WorkerRunner
