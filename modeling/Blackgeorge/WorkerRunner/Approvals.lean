import Blackgeorge.Coroutine.Credits
import Blackgeorge.WorkerRunner.Outcome

/-! Each pending action is a credit for one execution of its tool: its new id earns the
credit, the state that waits for it holds it, and the approved execution costs it. -/

namespace Blackgeorge.WorkerRunner

open Data Program Coroutine Coro

/-- What executions approved by the action `a` cost, and what a new id `a` earns. -/
def approvals (a : String) : Tariff sig where
  cost
    | ⟨.runTool _ _ approved, _⟩ => if approved = some a then 1 else 0
    | _ => 0
  gain
    | ⟨.newId, id⟩ => if id = a then 1 else 0
    | _ => 0

theorem approvals_cost {a : String} {e : Event sig} (h : Undecided e) : (approvals a).cost e = 0 := by
  obtain ⟨q, answer⟩ := e
  cases q with
  | runTool tool call approved =>
    cases approved with
    | none => rfl
    | some _ => exact False.elim h
  | _ => rfl

/-- The credits of a pending action. -/
def actionCredits (a : String) (pending : Option PendingAction) : ℕ :=
  pending.elim 0 fun p => if p.actionId = a then 1 else 0

def workerCredits (a : String) (state : WorkerState) : ℕ := actionCredits a state.pendingAction

/-- The credits of the state that an outcome leaves. -/
def outcomeCredits (a : String) (o : Report × Option WorkerState) : ℕ :=
  o.2.elim 0 (workerCredits a)

variable {event : Event sig → Prop} (hev : ∀ e, Undecided e → event e) (a : String)

include hev

theorem pays_free {α : Type} {c : Prog α} {Φ : α → Prop} (h : Each (quietLaw Undecided) c Φ) :
    Pays (quietLaw event) (approvals a) 0 c (fun _ => 0) Φ := by
  intro w
  refine wp_post ?_ (h.pays (T := approvals a) (fun _ => approvals_cost) w)
  rintro t r _ ⟨ht, he, hΦ⟩
  exact ⟨ht, fun e hmem => hev e (he e hmem), hΦ⟩

omit hev in
theorem serves_undecided (tools : List Tool) : Serves (quietLaw Undecided) tools :=
  serves_quietLaw (fun _ h => h) tools

theorem pays_planToolCalls (allowed : String → Option Tool) (maxToolCalls : ℕ)
    (calls toolCalls : List ToolCall) (plan : ToolPlan) :
    Pays (quietLaw event) (approvals a) (actionCredits a plan.pending)
      (planToolCalls allowed maxToolCalls calls toolCalls plan)
      (fun r => actionCredits a r.1.pending) fun _ => True := by
  induction calls generalizing toolCalls plan with
  | nil => exact pays_pure le_rfl trivial
  | cons call calls ih =>
    have hnext (next : ToolPlan) (h : next.pending = plan.pending) :
        Pays (quietLaw event) (approvals a) (actionCredits a plan.pending)
          (planToolCalls allowed maxToolCalls calls (toolCalls ++ [call]) next)
          (fun r => actionCredits a r.1.pending) fun _ => True :=
      h ▸ ih _ next
    unfold planToolCalls
    split_ifs
    · exact pays_pure le_rfl trivial
    · split
      · exact hnext _ rfl
      · exact hnext _ rfl
      · next tool _ _ =>
        split
        · next type _ =>
          have hid : Pays (quietLaw event) (approvals a) 0 (Prog.ask .newId)
              (fun id => if id = a then 1 else 0) fun _ => True := by
            apply pays_query
            intro id _
            exact ⟨by simp [approvals], hev _ trivial, trivial⟩
          refine pays_bind (hid.mono (Nat.zero_le _) fun id h => ⟨le_rfl, h⟩) fun id _ => ?_
          apply pays_pure _ trivial
          rw [skipRemaining_pending]
          rfl
        · exact hnext _ rfl

/-- The credits that a turn leaves. -/
def turnCredits (a : String) : TurnEnd → ℕ
  | .paused _ state => workerCredits a state
  | _ => 0

theorem pays_processToolCalls (ctx : RunContext) (state : LoopState) (job : Job)
    (response : ModelResponse) (tools : List Tool) :
    Pays (quietLaw event) (approvals a) 0
      (processToolCalls ctx state job response (allowedTools tools)) (turnCredits a)
      fun _ => True := by
  have hfree := serves_undecided tools
  apply pays_bind_free (pays_free hev a (each_emitAssistantMessage hfree.toPermits _ _ _))
  intro _ _
  have hempty : ToolPlan.Sound (allowedTools tools) {} := ⟨by simp, by simp⟩
  have hplan := (pays_planToolCalls hev a (allowedTools tools) ctx.config.maxToolCalls
    response.toolCalls state.toolCalls {}).and_each
      (serves_planToolCalls (serves_quietLaw hev tools).toPerforms _ _ _ _ hempty) rfl
  apply pays_bind hplan
  rintro ⟨plan, toolCalls⟩ hsound
  apply pays_bind_free (pays_free hev a (serves_executeToolCalls hfree.toPerforms _ hsound _ _))
  rintro ⟨messages, toolCalls'⟩ _
  dsimp only
  split_ifs
  · apply pays_bind_free (pays_free hev a (ends_failReport hfree.toPermits _ _ _))
    intro report _
    exact pays_pure (Nat.zero_le _) trivial
  · split
    · next pending hpending =>
      apply pays_bind_free (pays_free hev a (each_emitPause hfree.toPermits _ _ _))
      intro _ _
      apply pays_pure _ trivial
      rw [hpending]
      exact le_rfl
    · exact pays_pure (Nat.zero_le _) trivial

theorem pays_processTurnResponse (ctx : RunContext) (state : LoopState) (job : Job)
    (response : ModelResponse) (tools : List Tool) :
    Pays (quietLaw event) (approvals a) 0
      (processTurnResponse ctx state job response (allowedTools tools)) (turnCredits a)
      fun _ => True := by
  have hfree := serves_undecided tools
  apply pays_bind_free (pays_free hev a (each_recordUsage hfree.toBills _ _ _))
  intro state' _
  split_ifs
  · split
    · apply pays_bind_free (pays_free hev a (serves_structuredOrReport hfree.requests hfree.toBills ctx _ job _))
      rintro ⟨_ | _ | report, state''⟩ _ <;> exact pays_pure (Nat.zero_le _) trivial
    · apply pays_bind_free (pays_free hev a (reports_finalizePlain hfree.toPermits _ _ _))
      intro report _
      exact pays_pure (Nat.zero_le _) trivial
  · exact pays_processToolCalls hev a ctx _ job response tools

/-- A run leaves the credit of the action it pauses on. -/
theorem pays_runLoop (ctx : RunContext) (job : Job) (tools : List Tool) (left : ℕ)
    (state : LoopState) :
    Pays (quietLaw event) (approvals a) 0 (runLoop ctx job tools left state) (outcomeCredits a)
      fun _ => True := by
  have hfree := serves_undecided tools
  induction left generalizing state with
  | zero =>
    apply pays_bind_free (pays_free hev a (ends_failReport hfree.toPermits _ _ _))
    intro report _
    exact pays_pure (Nat.zero_le _) trivial
  | succ left ih =>
    apply pays_bind_free (pays_free hev a (each_getTotals hfree.toPermits _))
    intro totals _
    dsimp only
    split
    · apply pays_bind_free (pays_free hev a (ends_failReport hfree.toPermits _ _ _))
      intro report _
      exact pays_pure (Nat.zero_le _) trivial
    · apply pays_bind_free (pays_free hev a (compacts_compactToLimit hfree.requests.summarizes ctx _))
      intro compacted _
      apply pays_bind_free (pays_free hev a (serves_acquireTurnResponse hfree.requests hfree.toBills ctx compacted job))
      rintro ⟨response | _ | report, acquired⟩ _
      · apply pays_bind (pays_processTurnResponse hev a ctx acquired job response tools)
        rintro (next | report | ⟨report, paused⟩) _
        · exact ih next
        · exact pays_pure (Nat.zero_le _) trivial
        · exact pays_pure le_rfl trivial
      · exact ih acquired
      · exact pays_pure (Nat.zero_le _) trivial

theorem pays_enterLoop (worker : Worker) (config : RunConfig) (modelName : String)
    (state : LoopState) (job : Job) :
    Pays (quietLaw event) (approvals a) 0 (enterLoop worker config modelName state job)
      (outcomeCredits a) fun _ => True := by
  apply pays_bind_free (pays_free hev a (each_emit (serves_undecided []).toPermits _ _ _ _))
  intro _ _
  exact pays_runLoop hev a _ _ _ _ _

theorem pays_modelNotSet (worker : Worker) (config : RunConfig) (runId : RunId)
    (messages : List Message) :
    Pays (quietLaw event) (approvals a) 0 (modelNotSet worker config runId messages)
      (outcomeCredits a) fun _ => True := by
  apply pays_bind_free (pays_free hev a (each_emit (serves_undecided []).toPermits _ _ _ _))
  intro _ _
  exact pays_pure (Nat.zero_le _) trivial

theorem pays_arun (worker : Worker) (config : RunConfig) (job : Job) :
    Pays (quietLaw event) (approvals a) 0 (arun worker config job) (outcomeCredits a)
      fun _ => True := by
  unfold arun
  dsimp only
  split_ifs
  · exact pays_modelNotSet hev a _ _ _ _
  · refine pays_bind_free (pays_free hev a (each_free (serves_undecided []).requests trivial)) ?_
    intro registered _
    exact pays_enterLoop hev a _ _ _ _ _

omit hev

/-! ### The resume -/

theorem pays_executeTool (tool : Tool) (call : ToolCall) (pending : PendingAction) :
    Pays (quietLaw fun _ => True) (approvals a) (actionCredits a (some pending))
      (executeTool tool call (some pending.actionId)) (fun _ => 0) fun _ => True := by
  have hask : Pays (quietLaw fun _ => True) (approvals a) (actionCredits a (some pending))
      (Prog.ask (.runTool tool call (some pending.actionId))) (fun _ => 0) fun _ => True := by
    apply pays_query
    intro r _
    refine ⟨?_, trivial, trivial⟩
    by_cases h : pending.actionId = a <;> simp [approvals, actionCredits, h]
  apply pays_bind hask
  intro r _
  exact pays_ofExcept fun _ _ => ⟨le_rfl, trivial⟩

/-- The credit of a pending action pays for the one execution of its tool. -/
theorem pays_resolvePending (worker : Worker) (config : RunConfig) (job : Job)
    (pending : PendingAction) (decision : Value) :
    Pays (quietLaw fun _ => True) (approvals a) (actionCredits a (some pending))
      (resolvePending worker config job pending decision) (fun _ => 0) fun _ => True := by
  have hev : ∀ e, Undecided e → (fun _ : Event sig => True) e := fun _ _ => trivial
  have hpermits := (serves_undecided []).toPermits
  have hrefuse (error : String) :
      Pays (quietLaw fun _ => True) (approvals a) (actionCredits a (some pending)) (do
        config.emit "tool.failed" pending.toolCall.name
          [("tool_call_id", .str pending.toolCall.id), ("error", .str error)]
        pure (pending.toolCall, ({ error := some error } : ToolResult))) (fun _ => 0)
        fun _ => True := by
    apply pays_bind_free (pays_free hev a (each_emit hpermits _ _ _ _))
    intro _ _
    exact pays_pure (Nat.zero_le _) trivial
  have hdecide : Pays (quietLaw fun _ => True) (approvals a) 0 (Prog.decide pending decision)
      (fun _ => 0) fun _ => True :=
    pays_query fun _ _ => ⟨le_rfl, trivial, trivial⟩
  unfold resolvePending
  apply pays_bind_free hdecide
  intro _ _
  dsimp only
  split
  · exact hrefuse _
  · split_ifs
    · exact hrefuse _
    all_goals
      apply pays_bind_free (pays_free hev a (each_emit hpermits _ _ _ _))
      intro _ _
      apply pays_bind (pays_executeTool a _ _ pending)
      intro result _
      apply pays_bind_free (pays_free hev a (each_emitToolResult hpermits _ _ _ _))
      intro _ _
      exact pays_pure (Nat.zero_le _) trivial

theorem pays_resumePending (worker : Worker) (config : RunConfig) (state : WorkerState)
    (pending : PendingAction) (decision : Value) :
    Pays (quietLaw fun _ => True) (approvals a) (actionCredits a (some pending))
      (resumePending worker config state pending decision) (outcomeCredits a) fun _ => True := by
  have hev : ∀ e, Undecided e → (fun _ : Event sig => True) e := fun _ _ => trivial
  apply pays_bind (pays_resolvePending a _ _ _ _ _)
  rintro ⟨call, result⟩ _
  apply pays_bind_free (pays_free hev a (each_outcome _))
  intro toolCalls _
  dsimp only
  split_ifs
  · exact pays_modelNotSet hev a _ _ _ _
  · refine pays_bind_free (pays_free hev a (each_free (serves_undecided []).requests trivial)) ?_
    intro registered _
    exact pays_enterLoop hev a _ _ _ _ _

theorem pays_aresume (worker : Worker) (config : RunConfig) (state : WorkerState)
    (decision : Value) :
    Pays (quietLaw fun _ => True) (approvals a) (workerCredits a state)
      (aresume worker config state decision) (outcomeCredits a) fun _ => True := by
  have hev : ∀ e, Undecided e → (fun _ : Event sig => True) e := fun _ _ => trivial
  apply pays_bind_free
    (pays_free hev a (each_modifyTotals (serves_undecided []).toBills _ _))
  intro _ _
  split
  · exact pays_pure (Nat.zero_le _) trivial
  · next pending hpending =>
    rw [workerCredits, hpending]
    exact pays_resumePending a _ _ _ _ _

end Blackgeorge.WorkerRunner
