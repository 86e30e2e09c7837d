import Blackgeorge.WorkerRunner.Settlements

/-! What a turn adds to the recorded calls of a run: one row for each call it records, the
executions of its tools, and the call it is held up by. -/

namespace Blackgeorge.WorkerRunner

open Data Program Coroutine Coro

/-- The rows that are held back. -/
def heldCalls (rows : List Row) : List ToolCall :=
  rows.filterMap fun row => if row.2.isNone then some row.1 else none

theorem heldCalls_planRows (decided : List (ToolCall × Verdict)) (held : Option PendingAction)
    (skipped : List ToolCall) :
    heldCalls (planRows decided held skipped) = (held.map PendingAction.toolCall).toList := by
  cases held <;> simp [heldCalls, planRows, List.filterMap_append]

/-! ### Judged rows -/

/-- The rows of one response: each call has its own verdict up to the first that is held
back, and the calls behind that one are skipped. -/
inductive Judged (allowed : String → Option Tool) : List Row → Prop
  | nil : Judged allowed []
  | decided {call verdict rows} : verdictOn allowed call = some verdict → Judged allowed rows →
    Judged allowed ((call, some verdict) :: rows)
  | held {call} {skipped : List ToolCall} : verdictOn allowed call = none →
    Judged allowed ((call, none) :: skipped.map fun c => (c, some (.refuse skippedError)))

/-- The accounts of one response: each call is executed or refused by its own verdict up to
the first that is held back, and the calls behind that one are skipped. -/
inductive Accounted (allowed : String → Option Tool) : List Account → Prop
  | nil : Accounted allowed []
  | executed {call tool result accounts} : verdictOn allowed call = some (.execute tool) →
    Accounted allowed accounts → Accounted allowed ((call, .executed result) :: accounts)
  | refused {call error accounts} : verdictOn allowed call = some (.refuse error) →
    Accounted allowed accounts → Accounted allowed ((call, .refused error) :: accounts)
  | held {call} {skipped : List ToolCall} : verdictOn allowed call = none →
    Accounted allowed ((call, .held) :: skipped.map fun c => (c, .refused skippedError))

section

variable {allowed : String → Option Tool}

theorem Planned.judged {maxToolCalls : ℕ} {calls toolCalls : List ToolCall} {plan : ToolPlan}
    {r : ToolPlan × List ToolCall} {decided : List (ToolCall × Verdict)}
    {held : Option PendingAction} {skipped rest : List ToolCall}
    (h : Planned allowed maxToolCalls calls toolCalls plan r decided held skipped rest) :
    Judged allowed (planRows decided held skipped) := by
  have hdecided (rows : List Row) (hrows : Judged allowed rows) (verdicts : List (ToolCall × Verdict))
      (hverdicts : ∀ v ∈ verdicts, verdictOn allowed v.1 = some v.2) :
      Judged allowed (verdicts.map (fun v => (v.1, some v.2)) ++ rows) := by
    induction verdicts with
    | nil => exact hrows
    | cons v verdicts ih =>
      exact .decided (hverdicts v List.mem_cons_self)
        (ih fun v' hmem => hverdicts v' (List.mem_cons_of_mem _ hmem))
  apply hdecided _ _ _ h.verdicts
  cases held with
  | none =>
    rw [h.skips rfl]
    exact .nil
  | some pending => exact .held (h.holds pending rfl)

theorem settle_skipped (skipped : List ToolCall) (results : List ToolResult) :
    settle (skipped.map fun c => (c, some (.refuse skippedError))) results =
      skipped.map fun c => (c, .refused skippedError) := by
  induction skipped with
  | nil => rfl
  | cons c skipped ih => exact congrArg _ ih

theorem Judged.accounted {rows : List Row} {results : List ToolResult} (h : Judged allowed rows)
    (hlen : results.length = (executablesOf (verdictsOf rows)).length) :
    Accounted allowed (settle rows results) := by
  induction h generalizing results with
  | nil => exact .nil
  | @decided call verdict rows hverdict _ ih =>
    cases verdict with
    | refuse error => exact .refused hverdict (ih hlen)
    | execute tool =>
      cases results with
      | nil => simp [verdictsOf, executablesOf] at hlen
      | cons result results => exact .executed hverdict (ih (Nat.succ.inj hlen))
  | @held call skipped hverdict =>
    have hsettle : settle ((call, none) ::
        skipped.map fun c => (c, some (.refuse skippedError))) results =
          (call, .held) :: skipped.map fun c => (c, .refused skippedError) :=
      congrArg ((call, Settlement.held) :: ·) (settle_skipped skipped results)
    rw [hsettle]
    exact .held hverdict

/-- A response that holds nothing back has settled all its accounts. -/
theorem settle_isSome {rows : List Row} {results : List ToolResult} (hheld : heldCalls rows = [])
    (hlen : results.length = (executablesOf (verdictsOf rows)).length) :
    ∀ account ∈ settle rows results, account.2.result.isSome := by
  induction rows generalizing results with
  | nil => simp [settle]
  | cons row rows ih =>
    obtain ⟨call, _ | tool | error⟩ := row
    · cases hheld
    · cases results with
      | nil => simp [verdictsOf, executablesOf] at hlen
      | cons result results =>
        rintro account (_ | ⟨_, hmem⟩)
        · rfl
        · exact ih hheld (Nat.succ.inj hlen) account hmem
    · rintro account (_ | ⟨_, hmem⟩)
      · rfl
      · exact ih hheld hlen account hmem

end

/-- A row is executed, refused or held back. -/
theorem executablesOf_length_le (rows : List Row) :
    (executablesOf (verdictsOf rows)).length + (heldCalls rows).length ≤ rows.length := by
  induction rows with
  | nil => exact Nat.le_refl _
  | cons row rows ih =>
    obtain ⟨call, _ | tool | error⟩ := row
    · exact Nat.succ_le_succ ih
    · simpa [verdictsOf, executablesOf, heldCalls, Nat.succ_add] using Nat.succ_le_succ ih
    · exact Nat.le_succ_of_le ih

/-! ### Turns -/

/-- The recorded calls that a turn leaves. -/
def TurnEnd.toolCalls : TurnEnd → List ToolCall
  | next s => s.toolCalls
  | report r => r.toolCalls
  | paused _ s => s.toolCalls

/-- What a turn leaves to the next one, given the calls it holds back. -/
def TurnEnd.Leaves (state : LoopState) (held : List ToolCall) : TurnEnd → Prop
  | next s => s.iteration = state.iteration ∧ held = []
  | report _ => True
  | paused r s => s.iteration = state.iteration ∧ r.toolCalls = s.toolCalls ∧
      ∃ p, s.pendingAction = some p ∧ r.pendingAction = some p ∧ held = [p.toolCall]

/-- The rows of a turn that ended, for the calls that the model asked for. -/
structure TurnRows (allowed : String → Option Tool) (limit : ℕ) (state : LoopState)
    (asked : List ToolCall) (turn : TurnEnd) (l : List (ToolCall × Except Exn ToolResult))
    (rows : List Row) : Prop where
  calls : rows.map Prod.fst <+: asked
  judged : Judged allowed rows
  within : state.toolCalls.length + rows.length ≤ max limit state.toolCalls.length
  executed : l.length ≤ (executablesOf (verdictsOf rows)).length
  recorded : turn.toolCalls.length = state.toolCalls.length + rows.length
  filled : FreshIds state.toolCalls (rows.map Prod.fst) →
    Filled rows state.toolCalls l turn.toolCalls
  leaves : turn.Leaves state (heldCalls rows)

/-- What a turn may do: it stays within the limit, and ends the run as failed where the
calls do not fit. -/
def TurnWithin (allowed : String → Option Tool) (limit : ℕ) (state : LoopState)
    (asked : List ToolCall) (r : Except Exn TurnEnd) (l : List (ToolCall × Except Exn ToolResult)) :
    Prop :=
  l.length + state.toolCalls.length ≤ max limit state.toolCalls.length ∧ ∀ turn, r = .ok turn →
    (∃ rows, TurnRows allowed limit state asked turn l rows) ∧
      (state.toolCalls.length ≤ limit → limit < state.toolCalls.length + asked.length →
          ∃ report, turn = .report report ∧ report.status = .failed)

theorem failedReport_failReport {L : Law sig} (hL : Permits L) (ctx : RunContext)
    (state : LoopState) (message : String) :
    Each L (failReport ctx state message) fun report =>
      report.status = .failed ∧ report.toolCalls = state.toolCalls := by
  apply each_bind (each_emit hL _ _ _ _)
  intro _ _
  exact each_pure ⟨rfl, rfl⟩

theorem executes_processToolCalls (ctx : RunContext) (state : LoopState) (job : Job)
    (response : ModelResponse) (allowed : String → Option Tool) :
    Executes (processToolCalls ctx state job response allowed)
      (TurnWithin allowed ctx.config.maxToolCalls state response.toolCalls) := by
  have hfree := toolFreeLaw_permits
  have hraise (e : Exn) (l : List (ToolCall × Except Exn ToolResult))
      (h : l.length + state.toolCalls.length ≤
        max ctx.config.maxToolCalls state.toolCalls.length) :
      TurnWithin allowed ctx.config.maxToolCalls state response.toolCalls (.error e) l :=
    ⟨h, fun _ h => nomatch h⟩
  unfold processToolCalls
  refine executes_free_bind (each_emitAssistantMessage hfree _ _ _)
    (fun e => hraise e [] (by simp)) fun _ _ => ?_
  refine executes_free_bind (planned_planToolCalls (fun _ => rfl) allowed response.toolCalls
    state.toolCalls rfl) (fun e => hraise e [] (by simp)) ?_
  rintro ⟨plan, toolCalls⟩ ⟨decided, held, skipped, rest, hplan⟩
  have hrecorded : toolCalls = state.toolCalls ++ (planRows decided held skipped).map Prod.fst := by
    rw [planRows_calls]
    exact hplan.recorded
  have hwithin : state.toolCalls.length + (planRows decided held skipped).length ≤
      max ctx.config.maxToolCalls state.toolCalls.length := by
    have := hplan.within
    rw [hrecorded, List.length_append, List.length_map] at this
    exact this
  have hlength := executablesOf_length_le (planRows decided held skipped)
  dsimp only at hplan ⊢
  rw [hrecorded]
  refine executes_bind (executes_executeToolCalls ctx.config hplan.of_rows _ _) ?_ ?_
  · rintro e l ⟨hl, -⟩
    exact hraise e l (by omega)
  rintro ⟨messages, entries⟩ l ⟨hl, hout⟩
  obtain ⟨-, hentries, hfilled⟩ := hout _ rfl
  have hcalls : response.toolCalls = (planRows decided held skipped).map Prod.fst ++ rest := by
    rw [hplan.calls_eq, planRows_calls]
    simp
  have hrows (turn : TurnEnd) (hturn : turn.toolCalls = entries)
      (hleaves : turn.Leaves state (heldCalls (planRows decided held skipped))) :
      TurnRows allowed ctx.config.maxToolCalls state response.toolCalls turn l
        (planRows decided held skipped) :=
    { calls := by rw [hcalls]; exact List.prefix_append _ _
      judged := hplan.judged
      within := hwithin
      executed := hl
      recorded := by rw [hturn]; exact hentries
      filled := by rw [hturn]; exact hfilled
      leaves := hleaves }
  have hbound : l.length + state.toolCalls.length ≤
      max ctx.config.maxToolCalls state.toolCalls.length := by omega
  split_ifs with hexceeded
  · refine executes_free_bind (failedReport_failReport hfree _ _ _) (fun e => ?_) ?_
    · rw [List.append_nil]
      exact hraise e l hbound
    · rintro report ⟨hstatus, hreport⟩
      apply executes_pure
      rw [List.append_nil]
      refine ⟨hbound, ?_⟩
      rintro _ ⟨⟩
      exact ⟨⟨_, hrows _ hreport trivial⟩, fun _ _ => ⟨report, rfl, hstatus⟩⟩
  · have hrest : rest = [] := by
      have := hplan.exceeded
      rw [Bool.eq_false_iff.mpr hexceeded] at this
      simpa using this.symm
    have hfits (hle : state.toolCalls.length ≤ ctx.config.maxToolCalls) :
        ¬ ctx.config.maxToolCalls < state.toolCalls.length + response.toolCalls.length := by
      rw [hcalls, hrest, List.append_nil, List.length_map]
      omega
    rw [hplan.pending]
    cases held with
    | none =>
      apply executes_pure
      rw [List.append_nil]
      refine ⟨hbound, ?_⟩
      rintro _ ⟨⟩
      refine ⟨⟨_, hrows _ rfl ⟨rfl, heldCalls_planRows _ _ _⟩⟩, fun hle h => absurd h (hfits hle)⟩
    | some pending =>
      refine executes_free_bind (each_emitPause hfree _ _ _) (fun e => ?_) fun _ _ => ?_
      · rw [List.append_nil]
        exact hraise e l hbound
      · apply executes_pure
        rw [List.append_nil]
        refine ⟨hbound, ?_⟩
        rintro _ ⟨⟩
        refine ⟨⟨_, hrows _ rfl ⟨rfl, rfl, pending, rfl, rfl, heldCalls_planRows _ _ _⟩⟩, ?_⟩
        exact fun hle h => absurd h (hfits hle)

/-- A turn that records no call. -/
theorem TurnRows.nil {allowed : String → Option Tool} {limit : ℕ} {state : LoopState} {asked : List ToolCall} {turn : TurnEnd}
    (hcalls : turn.toolCalls = state.toolCalls) (hleaves : turn.Leaves state []) :
    TurnRows allowed limit state asked turn [] [] where
  calls := List.nil_prefix
  judged := .nil
  within := by simp
  executed := Nat.zero_le _
  recorded := by rw [hcalls]; rfl
  filled := fun _ => ⟨[], rfl, .nil, by rw [hcalls]; simp [settle]⟩
  leaves := hleaves

theorem TurnWithin.nil {allowed : String → Option Tool} {limit : ℕ} {state : LoopState} {r : Except Exn TurnEnd}
    (h : ∀ turn, r = .ok turn → turn.toolCalls = state.toolCalls ∧ turn.Leaves state []) :
    TurnWithin allowed limit state [] r [] := by
  refine ⟨by simp, fun turn hturn => ⟨⟨[], .nil (h turn hturn).1 (h turn hturn).2⟩, ?_⟩⟩
  exact fun hle hlt => absurd hlt (by simpa using hle)

theorem TurnWithin.of_keeps {allowed : String → Option Tool} {limit : ℕ} {s s' : LoopState}
    {asked : List ToolCall} {r : Except Exn TurnEnd} {l : List (ToolCall × Except Exn ToolResult)} (hkeeps : Keeps s s')
    (h : TurnWithin allowed limit s' asked r l) : TurnWithin allowed limit s asked r l := by
  obtain ⟨hbound, hturn⟩ := h
  rw [hkeeps.toolCalls] at hbound
  refine ⟨hbound, fun turn hr => ?_⟩
  obtain ⟨⟨rows, hrows⟩, hexceeded⟩ := hturn turn hr
  rw [hkeeps.toolCalls] at hexceeded
  refine ⟨⟨rows, ?_⟩, hexceeded⟩
  exact
    { calls := hrows.calls
      judged := hrows.judged
      within := hkeeps.toolCalls ▸ hrows.within
      executed := hrows.executed
      recorded := hkeeps.toolCalls ▸ hrows.recorded
      filled := hkeeps.toolCalls ▸ hrows.filled
      leaves := by
        cases turn with
        | next s'' => exact ⟨hrows.leaves.1.trans hkeeps.iteration, hrows.leaves.2⟩
        | report report => trivial
        | paused report s'' => exact ⟨hrows.leaves.1.trans hkeeps.iteration, hrows.leaves.2⟩ }

theorem executes_processTurnResponse (ctx : RunContext) (state : LoopState) (job : Job)
    (response : ModelResponse) (allowed : String → Option Tool) :
    Executes (processTurnResponse ctx state job response allowed)
      (TurnWithin allowed ctx.config.maxToolCalls state response.toolCalls) := by
  have hfree := toolFreeLaw_permits
  unfold processTurnResponse
  refine executes_free_bind (each_recordUsage toolFreeLaw_bills ctx state response.usage) (fun e => ?_) ?_
  · exact ⟨by simp, fun _ h => nomatch h⟩
  rintro _ ⟨metrics, hmetrics, rfl⟩
  split_ifs with hempty
  · rw [List.isEmpty_iff.mp hempty]
    have hraise (e : Exn) : TurnWithin allowed ctx.config.maxToolCalls state [] (.error e) [] :=
      .nil fun _ h => nomatch h
    split
    · next schema _ =>
      refine executes_free_bind (serves_structuredOrReport (toolFreeLaw_requests []) toolFreeLaw_bills ctx _ job schema)
        hraise ?_
      rintro ⟨acquired, s⟩ ⟨hkeeps, hreport⟩
      cases acquired with
      | report report =>
        apply executes_pure
        refine .nil ?_
        rintro _ ⟨⟩
        exact ⟨(hreport report rfl).toolCalls, trivial⟩
      | response _ =>
        apply executes_pure
        refine .nil ?_
        rintro _ ⟨⟩
        exact ⟨hkeeps.toolCalls, hkeeps.iteration, rfl⟩
      | again =>
        apply executes_pure
        refine .nil ?_
        rintro _ ⟨⟩
        exact ⟨hkeeps.toolCalls, hkeeps.iteration, rfl⟩
    · refine executes_free_bind (reports_finalizePlain hfree ctx _ response) hraise ?_
      intro report hreport
      apply executes_pure
      refine .nil ?_
      rintro _ ⟨⟩
      exact ⟨hreport.toolCalls, trivial⟩
  · have hkeeps : Keeps state { state with metrics := metrics } := Keeps.of_metrics hmetrics
    exact (executes_processToolCalls ctx _ job response allowed).mono fun _ _ h => h.of_keeps hkeeps

/-! ### Answers to a pending action -/

/-- The verdict on a pending call, given the answer to it. -/
def answerVerdict (worker : Worker) (job : Job) (pending : PendingAction) (decision : Value) :
    Verdict :=
  match resolveResumeTool worker.toolbelt job pending.toolCall.name with
  | none => .refuse ("Tool not found: " ++ pending.toolCall.name)
  | some tool =>
    if pending.type = .confirmation && !confirmationApproved decision then
      .refuse "Tool execution declined"
    else .execute tool

/-- The pending call with the answer in it. -/
def answeredCall (pending : PendingAction) (decision : Value) : ToolCall :=
  if pending.type = .userInput then
    updateArguments pending.toolCall (resumeArgumentKey pending) decision
  else pending.toolCall

/-- The account that the answer to a pending action settles. -/
inductive AnswerSettles (worker : Worker) (job : Job) (pending : PendingAction) (decision : Value) :
    Account → Prop
  | refused {error} : answerVerdict worker job pending decision = .refuse error →
    AnswerSettles worker job pending decision (pending.toolCall, .refused error)
  | executed {tool result} : answerVerdict worker job pending decision = .execute tool →
    AnswerSettles worker job pending decision (answeredCall pending decision, .executed result)

theorem answeredCall_id (pending : PendingAction) (decision : Value) :
    (answeredCall pending decision).id = pending.toolCall.id := by
  unfold answeredCall
  split_ifs <;> rfl

theorem AnswerSettles.id_eq {worker : Worker} {job : Job} {pending : PendingAction} {decision : Value}
    {account : Account} (h : AnswerSettles worker job pending decision account) :
    account.1.id = pending.toolCall.id := by
  cases h with
  | refused _ => rfl
  | executed _ => exact answeredCall_id pending decision

/-- The call and the result that answer a pending action. -/
def Resolves (worker : Worker) (job : Job) (pending : PendingAction) (decision : Value)
    (r : Except Exn (ToolCall × ToolResult)) (l : List (ToolCall × Except Exn ToolResult)) : Prop :=
  l.length ≤ 1 ∧ ∀ out, r = .ok out → ∃ settlement : Settlement,
    settlement.result = some out.2 ∧ l = (Account.execution (out.1, settlement)).toList ∧
      AnswerSettles worker job pending decision (out.1, settlement)

theorem executes_resolvePending (worker : Worker) (config : RunConfig) (job : Job)
    (pending : PendingAction) (decision : Value) :
    Executes (resolvePending worker config job pending decision)
      (Resolves worker job pending decision) := by
  have hfree := toolFreeLaw_permits
  have hraise (e : Exn) : Resolves worker job pending decision (.error e) [] :=
    ⟨Nat.zero_le _, fun _ h => nomatch h⟩
  have hrefuse (error : String) (h : answerVerdict worker job pending decision = .refuse error) :
      Executes (do
        config.emit "tool.failed" pending.toolCall.name
          [("tool_call_id", .str pending.toolCall.id), ("error", .str error)]
        pure (pending.toolCall, ({ error := some error } : ToolResult)))
        (Resolves worker job pending decision) := by
    refine executes_free_bind (each_emit hfree _ _ _ _) hraise fun _ _ => ?_
    apply executes_pure
    refine ⟨Nat.zero_le _, ?_⟩
    rintro _ ⟨⟩
    exact ⟨.refused error, rfl, rfl, .refused h⟩
  have hexecute (tool : Tool) (call : ToolCall) (hcall : answeredCall pending decision = call)
      (h : answerVerdict worker job pending decision = .execute tool) :
      Executes (do
        config.emit "tool.started" tool.name [("tool_call_id", .str call.id)]
        let result ← executeTool tool call (some pending.actionId)
        emitToolResult config tool.name call result
        pure (call, result)) (Resolves worker job pending decision) := by
    subst hcall
    refine executes_free_bind (each_emit hfree _ _ _ _) hraise fun _ _ => ?_
    refine executes_bind (executes_executeTool tool _ _) ?_ ?_
    · rintro e _ rfl
      exact ⟨Nat.le_refl _, fun _ h => nomatch h⟩
    rintro result _ rfl
    refine executes_free_bind (each_emitToolResult hfree _ _ _ _) (fun e => ?_) fun _ _ => ?_
    · exact ⟨Nat.le_refl _, fun _ h => nomatch h⟩
    apply executes_pure
    refine ⟨Nat.le_refl _, ?_⟩
    rintro _ ⟨⟩
    exact ⟨.executed result, rfl, rfl, .executed h⟩
  unfold resolvePending
  have hdecide : Each toolFreeLaw (Prog.decide pending decision) fun _ => True :=
    each_query fun _ _ => ⟨rfl, trivial⟩
  refine executes_free_bind hdecide hraise fun _ _ => ?_
  dsimp only
  split
  · next hnone => exact hrefuse _ (by simp only [answerVerdict, hnone])
  · next tool htool =>
    split_ifs with hdeclined hinput
    · exact hrefuse _ (by simp only [answerVerdict, htool, hdeclined, if_true])
    · refine hexecute tool _ (by simp only [answeredCall, hinput, if_true]) ?_
      simp only [answerVerdict, htool, hdeclined, Bool.false_eq_true, if_false]
    · refine hexecute tool _ (by simp only [answeredCall, hinput, if_false]) ?_
      simp only [answerVerdict, htool, hdeclined, Bool.false_eq_true, if_false]

end Blackgeorge.WorkerRunner
