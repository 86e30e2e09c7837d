import Blackgeorge.WorkerRunner.Accounts

/-! A worker's call as a sequence of passes. Before the loop it answers a pending action,
if there is one; each pass of the loop starts one iteration, asks the model, and processes
the response. -/

namespace Blackgeorge.WorkerRunner

open Data Program Coroutine Coro

/-! ### One iteration -/

/-- An iteration up to the response of the model. -/
def beginPass (ctx : RunContext) (job : Job) (tools : List Tool) (state : LoopState) :
    Prog (Acquired × LoopState) := do
  let state := { state with iteration := state.iteration + 1 }
  let spent := (← getTotals ctx.config.usageTotals).costUsd.getD 0
  match ctx.config.maxCostUsd.filter (· < spent) with
  | some budget => pure (.report (← failReport ctx state (budgetMessage spent budget)), state)
  | none =>
    let state ← compactToLimit ctx state
    acquireTurnResponse ctx state job tools

/-- The rest of the iteration. -/
def endPass (ctx : RunContext) (job : Job) (tools : List Tool) :
    Acquired × LoopState → Prog TurnEnd
  | (.report report, _) => pure (.report report)
  | (.again, state) => pure (.next state)
  | (.response response, state) =>
    processTurnResponse ctx state job response (allowedTools tools)

/-- What a turn makes of the run. -/
def TurnEnd.goOn (next : LoopState → Prog (Report × Option WorkerState)) :
    TurnEnd → Prog (Report × Option WorkerState)
  | .report r => pure (r, none)
  | .paused r s => pure (r, some s)
  | .next s => next s

theorem runLoop_succ (ctx : RunContext) (job : Job) (tools : List Tool) (left : ℕ)
    (state : LoopState) :
    runLoop ctx job tools (left + 1) state =
      beginPass ctx job tools state >>= fun acquired =>
        endPass ctx job tools acquired >>= TurnEnd.goOn (runLoop ctx job tools left) := by
  rw [runLoop, beginPass, LawfulMonad.bind_assoc]
  refine bind_congr fun totals => ?_
  dsimp only
  cases ctx.config.maxCostUsd.filter (· < totals.costUsd.getD 0) with
  | some budget => simp only [LawfulMonad.bind_assoc, pure_bind, endPass, TurnEnd.goOn]
  | none =>
    dsimp only
    rw [LawfulMonad.bind_assoc]
    refine bind_congr fun compacted => bind_congr ?_
    rintro ⟨response | _ | report, acquired⟩
    · refine bind_congr ?_
      rintro (next | report | ⟨report, paused⟩) <;> rfl
    · rfl
    · rfl

/-! ### Runs of the loop -/

/-- One iteration of a run: what it asked, the tools it offered, the recorded calls it began
with, the calls that the model asked for in it, and the limit on the recorded ones. -/
structure Pass where
  trace : Trace sig
  tools : List Tool
  recorded : List ToolCall
  asked : List ToolCall
  limit : ℕ

/-- The calls that the limit lets through. -/
def Pass.taken (pass : Pass) : List ToolCall :=
  pass.asked.take (pass.limit - pass.recorded.length)

def Acquired.asked : Acquired → List ToolCall
  | response r => r.toolCalls
  | _ => []

/-- The runs of an iteration. -/
inductive PassRuns (ok : ∀ q, Answer q → Prop) (ctx : RunContext) (job : Job) (tools : List Tool)
    (state : LoopState) : World → Pass → Except Exn TurnEnd → World → Prop
  | unanswered {w t e w'} : Runs (S := sig) ok (beginPass ctx job tools state) w t (.error e) w' →
    PassRuns ok ctx job tools state w ⟨t, tools, state.toolCalls, [], ctx.config.maxToolCalls⟩
      (.error e) w'
  | answered {w t acquired w₁ t' r w'} :
    Runs (S := sig) ok (beginPass ctx job tools state) w t (.ok acquired) w₁ →
    Runs (S := sig) ok (endPass ctx job tools acquired) w₁ t' r w' →
    PassRuns ok ctx job tools state w
      ⟨t ++ t', tools, state.toolCalls, acquired.1.asked, ctx.config.maxToolCalls⟩ r w'

/-- How the run ends, if it does. -/
def TurnEnd.outcome : TurnEnd → Option (Report × Option WorkerState)
  | next _ => none
  | report r => some (r, none)
  | paused r s => some (r, some s)

/-- The runs of a loop with so many iterations left, iteration by iteration. -/
inductive LoopRuns (ok : ∀ q, Answer q → Prop) (ctx : RunContext) (job : Job) (tools : List Tool) :
    ℕ → LoopState → World → List Pass → Trace sig → Except Exn (Report × Option WorkerState) →
      World → Prop
  | exhausted {state w t r w'} :
    Runs (S := sig) ok (failReport ctx state "Max iterations exceeded") w t r w' →
    LoopRuns ok ctx job tools 0 state w [] t (r.map fun report => (report, none)) w'
  | raised {left state w pass e w'} : PassRuns ok ctx job tools state w pass (.error e) w' →
    LoopRuns ok ctx job tools (left + 1) state w [pass] pass.trace (.error e) w'
  | ended {left state w pass turn out w'} : PassRuns ok ctx job tools state w pass (.ok turn) w' →
    turn.outcome = some out →
    LoopRuns ok ctx job tools (left + 1) state w [pass] pass.trace (.ok out) w'
  | next {left state w pass state' w₁ passes t r w'} :
    PassRuns ok ctx job tools state w pass (.ok (.next state')) w₁ →
    LoopRuns ok ctx job tools left state' w₁ passes t r w' →
    LoopRuns ok ctx job tools (left + 1) state w (pass :: passes) (pass.trace ++ t) r w'

variable {ok : ∀ q, Answer q → Prop} {ctx : RunContext} {job : Job} {tools : List Tool}

theorem PassRuns.runs {state : LoopState} {w w' : World} {pass : Pass} {r : Except Exn TurnEnd}
    (h : PassRuns ok ctx job tools state w pass r w') :
    Runs (S := sig) ok (beginPass ctx job tools state >>= endPass ctx job tools) w pass.trace r w' := by
  cases h with
  | unanswered hb => exact hb.bind_error _
  | answered hb he => exact hb.bind he

/-- A run that does not go on ends with the outcome of the turn. -/
theorem goOn_of_outcome {turn : TurnEnd} {out : Report × Option WorkerState}
    (h : turn.outcome = some out) (next : LoopState → Prog (Report × Option WorkerState)) :
    turn.goOn next = pure out := by
  cases turn <;> simp_all [TurnEnd.outcome, TurnEnd.goOn]

theorem LoopRuns.of_pass {left : ℕ} {state : LoopState} {w w₁ w' : World} {pass : Pass}
    {turn : TurnEnd} {t : Trace sig} {r : Except Exn (Report × Option WorkerState)}
    (hpass : PassRuns ok ctx job tools state w pass (.ok turn) w₁)
    (hnext : Runs (S := sig) ok (turn.goOn (runLoop ctx job tools left)) w₁ t r w')
    (ih : ∀ {state w t}, Runs (S := sig) ok (runLoop ctx job tools left state) w t r w' →
      ∃ passes, LoopRuns ok ctx job tools left state w passes t r w') :
    ∃ passes, LoopRuns ok ctx job tools (left + 1) state w passes (pass.trace ++ t) r w' := by
  cases turn with
  | next state' =>
    obtain ⟨passes, hpasses⟩ := ih hnext
    exact ⟨pass :: passes, .next hpass hpasses⟩
  | report report =>
    cases hnext
    rw [List.append_nil]
    exact ⟨[pass], .ended hpass rfl⟩
  | paused report paused =>
    cases hnext
    rw [List.append_nil]
    exact ⟨[pass], .ended hpass rfl⟩

theorem exists_loopRuns {left : ℕ} {state : LoopState} {w w' : World} {t : Trace sig}
    {r : Except Exn (Report × Option WorkerState)}
    (h : Runs (S := sig) ok (runLoop ctx job tools left state) w t r w') :
    ∃ passes, LoopRuns ok ctx job tools left state w passes t r w' := by
  induction left generalizing state w t with
  | zero =>
    rcases runs_bind h with ⟨e, hfail, rfl⟩ | ⟨report, t₁, t₂, w₁, hfail, hrest, rfl⟩
    · exact ⟨[], .exhausted hfail⟩
    · cases hrest
      rw [List.append_nil]
      exact ⟨[], .exhausted hfail⟩
  | succ left ih =>
    rw [runLoop_succ] at h
    rcases runs_bind h with ⟨e, hbegin, rfl⟩ | ⟨acquired, t₁, t₂, w₁, hbegin, hend, rfl⟩
    · exact ⟨_, .raised (.unanswered hbegin)⟩
    · rcases runs_bind hend with ⟨e, hturn, rfl⟩ | ⟨turn, t₃, t₄, w₂, hturn, hnext, rfl⟩
      · exact ⟨_, .raised (.answered hbegin hturn)⟩
      · rw [← List.append_assoc]
        exact LoopRuns.of_pass (.answered hbegin hturn) hnext ih

theorem LoopRuns.runs {left : ℕ} {state : LoopState} {w w' : World} {passes : List Pass}
    {t : Trace sig} {r : Except Exn (Report × Option WorkerState)}
    (h : LoopRuns ok ctx job tools left state w passes t r w') :
    Runs (S := sig) ok (runLoop ctx job tools left state) w t r w' := by
  induction h with
  | @exhausted state w t r w' h =>
    cases r with
    | error e => exact h.bind_error _
    | ok report =>
      rw [← List.append_nil t]
      exact h.bind (.ret _ _)
  | @raised left state w pass e w' h =>
    rw [runLoop_succ, ← LawfulMonad.bind_assoc]
    exact h.runs.bind_error _
  | @ended left state w pass turn out w' h hout =>
    rw [runLoop_succ, ← LawfulMonad.bind_assoc]
    have hend : Runs (S := sig) ok (turn.goOn (runLoop ctx job tools left)) w' [] (.ok out) w' := by
      rw [goOn_of_outcome hout]
      exact .ret _ _
    simpa using h.runs.bind hend
  | next h _ ih =>
    rw [runLoop_succ, ← LawfulMonad.bind_assoc]
    exact h.runs.bind ih

/-! ### What iterations do -/

theorem begins_beginPass {L : Law sig} (hL : Requests L tools) (hB : Bills L) (ctx : RunContext)
    (state : LoopState) (job : Job) :
    Each L (beginPass ctx job tools state)
      (AcquiredFrom { state with iteration := state.iteration + 1 }) := by
  apply each_bind (each_getTotals hL.toPermits _)
  intro totals _
  dsimp only
  split
  · apply each_bind (reports_failReport hL.toPermits _ _ _)
    intro report hreport
    exact each_pure (AcquiredFrom.of_report (Keeps.refl _) hreport)
  · apply each_bind (compacts_compactToLimit hL.summarizes ctx _)
    intro compacted hcompacted
    exact (serves_acquireTurnResponse hL hB ctx compacted job).mono
      fun _ h => h.of_keeps hcompacted.keeps

theorem executes_endPass (ctx : RunContext) (job : Job) (tools : List Tool)
    {state : LoopState} {acquired : Acquired × LoopState} (h : AcquiredFrom state acquired) :
    Executes (endPass ctx job tools acquired)
      (TurnWithin (allowedTools tools) ctx.config.maxToolCalls state acquired.1.asked) := by
  obtain ⟨acquired, s⟩ := acquired
  obtain ⟨hkeeps, hreport⟩ := h
  cases acquired with
  | report report =>
    apply executes_pure
    refine .nil ?_
    rintro _ ⟨⟩
    exact ⟨(hreport report rfl).toolCalls, trivial⟩
  | again =>
    apply executes_pure
    refine .nil ?_
    rintro _ ⟨⟩
    exact ⟨hkeeps.toolCalls, hkeeps.iteration, rfl⟩
  | response response =>
    exact (executes_processTurnResponse ctx s job response _).mono fun _ _ h => h.of_keeps hkeeps

/-- An iteration does what its turn does. -/
theorem PassRuns.within {state : LoopState} {w w' : World} {pass : Pass} {r : Except Exn TurnEnd}
    (h : PassRuns ok ctx job tools state w pass r w') :
    pass.tools = tools ∧ pass.recorded = state.toolCalls ∧ pass.limit = ctx.config.maxToolCalls ∧
      TurnWithin (allowedTools tools) ctx.config.maxToolCalls
        { state with iteration := state.iteration + 1 } pass.asked r (executions pass.trace) := by
  have hbegin := executes_free (begins_beginPass (toolFreeLaw_requests tools) toolFreeLaw_bills ctx state job)
  cases h with
  | unanswered hb =>
    obtain ⟨hnil, -⟩ := hbegin.runs (hb.mono fun _ _ _ => trivial)
    rw [hnil]
    exact ⟨rfl, rfl, rfl, .nil fun _ h => nomatch h⟩
  | answered hb he =>
    obtain ⟨hnil, hacquired⟩ := hbegin.runs (hb.mono fun _ _ _ => trivial)
    have hend := (executes_endPass ctx job tools (hacquired _ rfl)).runs (he.mono fun _ _ _ => trivial)
    rw [executions_append, hnil, List.nil_append]
    exact ⟨rfl, rfl, rfl, hend⟩

/-! ### Runs of a call -/

/-- What comes before the loop: the call is over already, or it enters a loop. -/
inductive Entered where
  | finished (out : Report × Option WorkerState)
  | loop (ctx : RunContext) (job : Job) (tools : List Tool) (left : ℕ) (state : LoopState)

def Entered.prog : Entered → Prog (Report × Option WorkerState)
  | finished out => pure out
  | loop ctx job tools left state => runLoop ctx job tools left state

/-- `enterLoop` up to the loop. -/
def openLoop (worker : Worker) (config : RunConfig) (modelName : String) (state : LoopState)
    (job : Job) : Prog Entered := do
  config.emit "worker.started" worker.name []
  pure (.loop ⟨config, modelName⟩ job (resolveTools worker.toolbelt job)
    (config.maxIterations - state.iteration) state)

/-- `arun` up to the loop. -/
def openRun (worker : Worker) (config : RunConfig) (job : Job) : Prog Entered := do
  let modelName := config.modelName worker.model
  if modelName = "" then
    let out ← modelNotSet worker config config.runId (buildMessages worker.instructions job)
    pure (.finished out)
  else
    let modelRegistered ← Prog.ask (.modelRegistered modelName)
    openLoop worker config modelName (startState worker config job modelRegistered) job

/-- `resumePending` up to the loop. -/
def openPending (worker : Worker) (config : RunConfig) (state : WorkerState)
    (pending : PendingAction) (decision : Value) : Prog Entered := do
  let (call, result) ← resolvePending worker config state.job pending decision
  let toolCalls ← Prog.ofExcept (replaceToolCall (toolCallWithResult call result) state.toolCalls)
  let modelName := config.modelName worker.model
  if modelName = "" then
    let out ← modelNotSet worker config state.runId (state.messages ++ [toolMessage result call])
    pure (.finished out)
  else
    let modelRegistered ← Prog.ask (.modelRegistered modelName)
    openLoop worker config modelName
      (resumedState worker config state call result toolCalls modelRegistered) state.job

/-- `aresume` up to the loop. -/
def openResume (worker : Worker) (config : RunConfig) (state : WorkerState) (decision : Value) :
    Prog Entered := do
  modifyTotals config.usageTotals fun totals =>
    restoreTotals totals (totalsFromMetrics state.metrics)
  match state.pendingAction with
  | none => pure (.finished (noPendingAction (resumeConfig config state.runId) state, none))
  | some pending =>
    openPending worker (resumeConfig config state.runId) state pending decision

theorem enterLoop_eq (worker : Worker) (config : RunConfig) (modelName : String)
    (state : LoopState) (job : Job) :
    enterLoop worker config modelName state job =
      openLoop worker config modelName state job >>= Entered.prog := by
  unfold enterLoop openLoop
  simp only [LawfulMonad.bind_assoc, pure_bind, Entered.prog]

theorem arun_eq (worker : Worker) (config : RunConfig) (job : Job) :
    arun worker config job = openRun worker config job >>= Entered.prog := by
  unfold arun openRun
  dsimp only
  split_ifs
  · simp only [LawfulMonad.bind_assoc, pure_bind, Entered.prog, bind_pure]
  · simp only [LawfulMonad.bind_assoc, enterLoop_eq]

theorem resumePending_eq (worker : Worker) (config : RunConfig) (state : WorkerState)
    (pending : PendingAction) (decision : Value) :
    resumePending worker config state pending decision =
      openPending worker config state pending decision >>= Entered.prog := by
  unfold resumePending openPending
  rw [LawfulMonad.bind_assoc]
  refine bind_congr fun answered => ?_
  dsimp only
  rw [LawfulMonad.bind_assoc]
  refine bind_congr fun toolCalls => ?_
  split_ifs
  · simp only [LawfulMonad.bind_assoc, pure_bind, Entered.prog, bind_pure]
  · simp only [LawfulMonad.bind_assoc, enterLoop_eq]

theorem aresume_eq (worker : Worker) (config : RunConfig) (state : WorkerState) (decision : Value) :
    aresume worker config state decision =
      openResume worker config state decision >>= Entered.prog := by
  unfold aresume openResume
  rw [LawfulMonad.bind_assoc]
  refine bind_congr fun _ => ?_
  cases state.pendingAction with
  | none => rfl
  | some pending => exact resumePending_eq _ _ _ _ _

/-! ### What comes before the loop -/

/-- What a call enters its loop with, for the calls recorded before it. -/
structure Opened (config : RunConfig) (iteration : ℕ) (recorded : List ToolCall)
    (entered : Entered) : Prop where
  finished : ∀ out, entered = .finished out → out.2 = none ∧ out.1.toolCalls.length ≤ recorded.length
  loop : ∀ ctx job tools left state, entered = .loop ctx job tools left state →
    ctx.config.maxToolCalls = config.maxToolCalls ∧ left = config.maxIterations - iteration ∧
      state.iteration = iteration ∧ state.toolCalls.length = recorded.length

theorem opens_openLoop {L : Law sig} (hL : Permits L) (worker : Worker) (config : RunConfig)
    (modelName : String) (state : LoopState) (job : Job) :
    Each L (openLoop worker config modelName state job) fun entered =>
      entered = .loop ⟨config, modelName⟩ job (resolveTools worker.toolbelt job)
        (config.maxIterations - state.iteration) state :=
  each_bind (each_emit hL _ _ _ _) fun _ _ => each_pure rfl

theorem finished_modelNotSet {L : Law sig} (hL : Permits L) (worker : Worker) (config : RunConfig)
    (runId : RunId) (messages : List Message) :
    Each L (modelNotSet worker config runId messages) fun out =>
      out.2 = none ∧ out.1.toolCalls = [] :=
  each_bind (each_emit hL _ _ _ _) fun _ _ => each_pure ⟨rfl, rfl⟩

theorem Opened.of_finished {config : RunConfig} {iteration : ℕ} {recorded : List ToolCall}
    {out : Report × Option WorkerState} (hnone : out.2 = none)
    (hlen : out.1.toolCalls.length ≤ recorded.length) :
    Opened config iteration recorded (.finished out) := by
  constructor
  · rintro _ ⟨⟩
    exact ⟨hnone, hlen⟩
  · rintro _ _ _ _ _ ⟨⟩

theorem Opened.of_loop {ctx : RunContext} {job : Job} {tools : List Tool} {state : LoopState}
    {config : RunConfig} {iteration : ℕ} {recorded : List ToolCall}
    (hlimits : ctx.config.toLimits = config.toLimits) (hiteration : state.iteration = iteration)
    (hrecorded : state.toolCalls.length = recorded.length) :
    Opened config iteration recorded
      (.loop ctx job tools (ctx.config.maxIterations - state.iteration) state) := by
  constructor
  · rintro _ ⟨⟩
  · rintro _ _ _ _ _ ⟨⟩
    exact ⟨congrArg Limits.maxToolCalls hlimits, by rw [hlimits, hiteration], hiteration, hrecorded⟩

theorem opened_openRun (worker : Worker) (config : RunConfig) (job : Job) :
    Each toolFreeLaw (openRun worker config job) (Opened config 0 []) := by
  have hfree := toolFreeLaw_requests []
  unfold openRun
  dsimp only
  split_ifs
  · refine each_bind (finished_modelNotSet hfree.toPermits _ _ _ _) ?_
    rintro out ⟨hnone, hcalls⟩
    exact each_pure (.of_finished hnone (by rw [hcalls]))
  · refine each_bind (each_free hfree trivial) fun registered _ => ?_
    refine (opens_openLoop hfree.toPermits _ _ _ _ _).mono ?_
    rintro _ rfl
    exact .of_loop rfl rfl rfl

/-- How a loop's recorded calls come from the ones of a paused state. -/
def AnsweredFrom (worker : Worker) (state : WorkerState) (decision : Value)
    (toolCalls : List ToolCall) (l : List (ToolCall × Except Exn ToolResult)) : Prop :=
  ∃ (pending : PendingAction) (account : Account) (result : ToolResult),
    state.pendingAction = some pending ∧ AnswerSettles worker state.job pending decision account ∧
      account.2.result = some result ∧ l = account.execution.toList ∧
        replaceToolCall (toolCallWithResult account.1 result) state.toolCalls = .ok toolCalls

/-- What a resume does before its loop. -/
structure OpenedFrom (worker : Worker) (config : RunConfig) (state : WorkerState) (decision : Value)
    (r : Except Exn Entered) (l : List (ToolCall × Except Exn ToolResult)) : Prop where
  executed : l.length ≤ state.pendingAction.toList.length
  opened : ∀ entered, r = .ok entered → Opened config state.iteration state.toolCalls entered
  answered : ∀ ctx job tools left s, r = .ok (.loop ctx job tools left s) →
    AnsweredFrom worker state decision s.toolCalls l
  finished : ∀ out, r = .ok (.finished out) → out.2 = none ∧
    (state.pendingAction.isSome → out.1.toolCalls = [])

theorem OpenedFrom.of_error {worker : Worker} {config : RunConfig} {state : WorkerState}
    {decision : Value} {e : Exn} {l : List (ToolCall × Except Exn ToolResult)}
    (h : l.length ≤ state.pendingAction.toList.length) :
    OpenedFrom worker config state decision (.error e) l where
  executed := h
  opened _ h := nomatch h
  answered _ _ _ _ _ h := nomatch h
  finished _ h := nomatch h

theorem resumeConfig_limits (config : RunConfig) (runId : RunId) :
    (resumeConfig config runId).toLimits = config.toLimits := by
  unfold resumeConfig
  split_ifs <;> rfl

theorem executes_openPending (worker : Worker) (config : RunConfig) {state : WorkerState}
    {pending : PendingAction} (hpending : state.pendingAction = some pending) (decision : Value) :
    Executes (openPending worker (resumeConfig config state.runId) state pending decision)
      (OpenedFrom worker config state decision) := by
  have hfree := toolFreeLaw_requests []
  have hraise (e : Exn) (l : List (ToolCall × Except Exn ToolResult)) (hl : l.length ≤ 1) :
      OpenedFrom worker config state decision (.error e) l :=
    .of_error (by rw [hpending]; exact hl)
  unfold openPending
  refine executes_bind (executes_resolvePending worker _ state.job pending decision) ?_ ?_
  · rintro e l ⟨hl, -⟩
    exact hraise e l hl
  rintro ⟨call, result⟩ l ⟨hl, hout⟩
  obtain ⟨settlement, hresult, hexec, hsettled⟩ := hout _ rfl
  have hreplace : Each toolFreeLaw
      (Prog.ofExcept (replaceToolCall (toolCallWithResult call result) state.toolCalls))
      fun toolCalls => replaceToolCall (toolCallWithResult call result) state.toolCalls =
        .ok toolCalls := each_ofExcept fun _ h => h
  refine executes_free_bind hreplace (fun e => ?_) fun toolCalls htoolCalls => ?_
  · rw [List.append_nil]
    exact hraise e l hl
  dsimp only
  split_ifs
  · refine executes_free_bind (finished_modelNotSet hfree.toPermits _ _ _ _) (fun e => ?_) ?_
    · rw [List.append_nil]
      exact hraise e l hl
    · rintro out ⟨hnone, hcalls⟩
      apply executes_pure
      rw [List.append_nil]
      refine ⟨by rw [hpending]; exact hl, ?_, (fun _ _ _ _ _ h => nomatch h), ?_⟩
      · rintro _ ⟨⟩
        exact .of_finished hnone (by rw [hcalls]; exact Nat.zero_le _)
      · rintro _ ⟨⟩
        exact ⟨hnone, fun _ => hcalls⟩
  · refine executes_free_bind (each_free hfree trivial) (fun e => ?_) fun registered _ => ?_
    · rw [List.append_nil]
      exact hraise e l hl
    · refine (executes_free (opens_openLoop hfree.toPermits _ _ _ _ _)).mono ?_
      rintro r l' ⟨rfl, hr⟩
      rw [List.append_nil]
      have hlimits := resumeConfig_limits config state.runId
      refine ⟨by rw [hpending]; exact hl, fun entered h => ?_, fun ctx job tools left s h => ?_,
        fun out h => ?_⟩
      · obtain rfl := hr entered h
        exact .of_loop hlimits rfl (replaceToolCall_length htoolCalls)
      · obtain ⟨rfl, rfl, rfl, rfl, rfl⟩ := hr _ h
        exact ⟨pending, (call, settlement), result, hpending, hsettled, hresult, hexec, htoolCalls⟩
      · cases hr _ h

theorem executes_openResume (worker : Worker) (config : RunConfig) (state : WorkerState)
    (decision : Value) :
    Executes (openResume worker config state decision)
      (OpenedFrom worker config state decision) := by
  unfold openResume
  refine executes_free_bind (each_modifyTotals toolFreeLaw_bills _ _) (fun e => ?_) fun _ _ => ?_
  · exact .of_error (Nat.zero_le _)
  cases hpending : state.pendingAction with
  | none =>
    apply executes_pure
    refine ⟨Nat.zero_le _, ?_, (fun _ _ _ _ _ h => nomatch h), ?_⟩
    · rintro _ ⟨⟩
      exact .of_finished rfl (Nat.le_refl _)
    · rintro _ ⟨⟩
      exact ⟨rfl, fun h => by rw [hpending] at h; cases h⟩
  | some pending => exact executes_openPending worker config hpending decision

end Blackgeorge.WorkerRunner
