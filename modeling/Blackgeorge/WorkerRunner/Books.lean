import Blackgeorge.Coroutine.Gains
import Blackgeorge.WorkerRunner.Outcome
import Mathlib.Algebra.BigOperators.Group.List.Basic
import Mathlib.Algebra.Group.Prod
import Mathlib.Algebra.Order.Ring.Rat

/-! The books a worker keeps. Each turn with a usage is priced once; what it is priced at
goes into the totals of the run and into the metrics of the worker. -/

namespace Blackgeorge.WorkerRunner

open Data Program Coroutine Coro

/-! ### Amounts -/

/-- A cost with the tokens under each of the usage keys. -/
abbrev Amount := ℚ × ℚ × ℚ × ℚ

def reportedTokens (usage : Dict) (key : String) : ℚ := ((usage.get key).bind Value.number?).getD 0

/-- What a usage amounts to at its cost. -/
def pricedAmount (cost : ℚ) (usage : Dict) : Amount :=
  (cost, reportedTokens usage "prompt_tokens", reportedTokens usage "completion_tokens",
    reportedTokens usage "total_tokens")

def totalsAmount (totals : UsageTotals) : Amount :=
  (totals.costUsd.getD 0, totals.tokens.promptTokens.getD 0, totals.tokens.completionTokens.getD 0,
    totals.tokens.totalTokens.getD 0)

def metricsAmount (metrics : Metrics) : Amount := totalsAmount (totalsFromMetrics metrics)

theorem addCount_getD (target : Option ℚ) (value : Option Value) :
    (addCount target value).getD 0 = target.getD 0 + (value.bind Value.number?).getD 0 := by
  unfold addCount
  cases value.bind Value.number? <;> simp

theorem totalsAmount_recordTurn (totals : UsageTotals) (usage : Dict) (cost : ℚ) :
    totalsAmount (totals.recordTurn usage cost) = totalsAmount totals + pricedAmount cost usage := by
  simp [totalsAmount, UsageTotals.recordTurn, addTokenUsage, pricedAmount, reportedTokens,
    addCount_getD]

theorem metricsAmount_recordTurn (metrics : Metrics) (usage : Dict) (cost : ℚ) :
    metricsAmount (metrics.recordTurn usage cost) =
      metricsAmount metrics + pricedAmount cost usage :=
  totalsAmount_recordTurn (totalsFromMetrics metrics) usage cost

/-- The totals behind a reference. -/
def totalsAt (ref : Ref) (w : World) : Amount := totalsAmount (w.totals ref)

/-- What a price found is recorded as. -/
def recordedEvent : Event sig → Amount
  | ⟨.usageCost _ usage, cost⟩ => pricedAmount cost usage
  | _ => 0

/-- What the turns of a trace recorded. -/
def recordedAmount (t : Trace sig) : Amount := (t.map recordedEvent).sum

@[simp] theorem recordedAmount_nil : recordedAmount [] = 0 := rfl

@[simp] theorem recordedAmount_cons (e : Event sig) (t : Trace sig) :
    recordedAmount (e :: t) = recordedEvent e + recordedAmount t := by
  simp [recordedAmount]

@[simp] theorem recordedAmount_append (t t' : Trace sig) :
    recordedAmount (t ++ t') = recordedAmount t + recordedAmount t' := by
  simp [recordedAmount]

theorem recordedAmount_eq_zero {t : Trace sig} (h : ∀ e ∈ t, recordedEvent e = 0) :
    recordedAmount t = 0 := by
  apply List.sum_eq_zero
  intro m hm
  obtain ⟨e, he, rfl⟩ := List.mem_map.mp hm
  exact h e he

/-! ### Programs that keep books -/

/-- What the program adds to the totals behind `ref` is what its turns recorded, and its
outcome goes with that amount. -/
def Books {α : Type} (ref : Ref) (c : Prog α) (Q : Except Exn α → Amount → Prop) : Prop :=
  Gains (S := sig) (fun _ _ => True) (totalsAt ref) c fun t m r => m = recordedAmount t ∧ Q r m

/-- A postcondition on what is returned. -/
def Returns {α : Type} (P : α → Amount → Prop) : Except Exn α → Amount → Prop
  | .ok a, m => P a m
  | .error _, _ => True

/-- The law of programs that price nothing and leave the totals alone. -/
def unbilledLaw : Law sig where
  step w w' := w'.totals = w.totals
  admits _ _ := True
  event e := recordedEvent e = 0

theorem unbilledLaw_permits : Permits unbilledLaw where
  refl _ := rfl
  eventLists _ _ := rfl
  storedEvents _ _ := rfl
  routine q a hq := by
    cases q <;> first | exact rfl | exact False.elim hq

theorem unbilledLaw_requests (tools : List Tool) : Requests unbilledLaw tools where
  toPermits := unbilledLaw_permits
  free q a hq := by
    cases q <;> first | exact rfl | exact False.elim hq
  complete _ _ _ _ := rfl

theorem unbilledLaw_performs (tools : List Tool) : Performs unbilledLaw tools where
  toPermits := unbilledLaw_permits
  newId _ := rfl
  runTool _ _ _ _ _ := rfl

theorem unbilledLaw_summarizes : Summarizes unbilledLaw := (unbilledLaw_requests []).summarizes

section

variable {α β : Type} {ref : Ref} {P : α → Amount → Prop} {Q : Except Exn α → Amount → Prop}
  {Q' : Except Exn β → Amount → Prop} {P' : β → Amount → Prop}

theorem Books.mono {c : Prog α} {Q' : Except Exn α → Amount → Prop} (h : Books ref c Q)
    (hQ : ∀ r m, Q r m → Q' r m) : Books ref c Q' :=
  Gains.mono h fun _ m r hr => ⟨hr.1, hQ r m hr.2⟩

theorem Books.returns {c : Prog α} {P' : α → Amount → Prop} (h : Books ref c (Returns P))
    (hP : ∀ a m, P a m → P' a m) : Books ref c (Returns P') := by
  apply h.mono
  rintro (e | a) m hr
  · trivial
  · exact hP a m hr

theorem books_pure {a : α} (h : Q (.ok a) 0) : Books ref (pure a) Q := gains_pure ⟨rfl, h⟩

theorem books_raise {e : Exn} (h : Q (.error e) 0) : Books ref (Prog.raise e) Q :=
  gains_raise ⟨rfl, h⟩

theorem books_bind {c : Prog α} {g : α → Prog β} (hc : Books ref c Q)
    (hraise : ∀ e m, Q (.error e) m → Q' (.error e) m)
    (hg : ∀ a m, Q (.ok a) m → Books ref (g a) fun r m' => Q' r (m + m')) :
    Books ref (c >>= g) Q' := by
  refine gains_bind hc ?_ ?_
  · rintro t m e ⟨hm, h⟩
    exact ⟨hm, hraise e m h⟩
  · rintro t m a ⟨rfl, h⟩
    refine Gains.mono (hg a _ h) ?_
    rintro t' m' r ⟨rfl, hr⟩
    rw [recordedAmount_append]
    exact ⟨rfl, hr⟩

theorem books_then {c : Prog α} {g : α → Prog β} (hc : Books ref c (Returns P))
    (hg : ∀ a m, P a m → Books ref (g a) (Returns fun b m' => P' b (m + m'))) :
    Books ref (c >>= g) (Returns P') := by
  refine books_bind hc (fun _ _ _ => trivial) fun a m h => (hg a m h).mono ?_
  rintro (e | b) m' hr
  · trivial
  · exact hr

theorem books_attempt {c : Prog α} {Q : Except Exn (Except Exn α) → Amount → Prop}
    (h : Books ref c fun r m => Q (.ok r) m) : Books ref c.attempt Q :=
  gains_attempt h

/-- A program that prices nothing. -/
theorem books_unbilled {c : Prog α} {P : α → Prop} (h : Each unbilledLaw c P) :
    Books ref c fun r m => m = 0 ∧ ∀ a, r = .ok a → P a := by
  have hval : ∀ w w', unbilledLaw.step w w' → totalsAt ref w' = totalsAt ref w := by
    intro w w' hw
    simp only [totalsAt, show w'.totals = w.totals from hw]
  have hne : Nonempty World := ⟨{}⟩
  refine Gains.mono (Each.gains hval h) ?_
  rintro t m r ⟨rfl, ht, hr⟩
  exact ⟨(recordedAmount_eq_zero ht).symm, rfl, hr⟩

/-- A program that prices nothing, in front. -/
theorem books_unbilled_bind {c : Prog α} {g : α → Prog β} {P : α → Prop}
    (hc : Each unbilledLaw c P) (hraise : ∀ e, Q' (.error e) 0)
    (hg : ∀ a, P a → Books ref (g a) Q') : Books ref (c >>= g) Q' := by
  refine books_bind (books_unbilled hc) ?_ ?_
  · rintro e m ⟨rfl, -⟩
    exact hraise e
  · rintro a m ⟨rfl, ha⟩
    simpa using hg a (ha a rfl)

theorem books_unbilled_then {c : Prog α} {g : α → Prog β} {R : α → Prop}
    (hc : Each unbilledLaw c R) (hg : ∀ a, R a → Books ref (g a) (Returns P')) :
    Books ref (c >>= g) (Returns P') :=
  books_unbilled_bind hc (fun _ => trivial) hg

end

/-! ### What a turn records -/

/-- What metrics have recorded beyond others. -/
def Records (metrics metrics' : Metrics) (m : Amount) : Prop :=
  metricsAmount metrics' = metricsAmount metrics + m

theorem Records.refl (metrics : Metrics) : Records metrics metrics 0 := by simp [Records]

theorem Records.trans {metrics₁ metrics₂ metrics₃ : Metrics} {m m' : Amount}
    (h : Records metrics₁ metrics₂ m) (h' : Records metrics₂ metrics₃ m') :
    Records metrics₁ metrics₃ (m + m') := by
  unfold Records at *
  rw [h', h, add_assoc]

theorem Records.of_eq {metrics metrics' : Metrics} (h : metrics' = metrics) :
    Records metrics metrics' 0 :=
  h ▸ Records.refl metrics

theorem Compacted.records {s s' : LoopState} (h : Compacted s s') :
    Records s.metrics s'.metrics 0 := by
  simp [Records, metricsAmount, totalsAmount, totalsFromMetrics, h.costUsd, h.usage]

variable {ctx : RunContext} {s : LoopState}

theorem gains_recordTurn (ref : Ref) (usage : Dict) (cost : ℚ) :
    Gains (S := sig) (fun _ _ => True) (totalsAt ref)
      (modifyTotals ref fun totals => totals.recordTurn usage cost)
      fun t m r => t = [] ∧ m = pricedAmount cost usage ∧ r = .ok () := by
  refine gains_update (fun w => ?_) ⟨rfl, rfl, rfl⟩
  simp only [totalsAt, Function.update_self]
  exact totalsAmount_recordTurn _ _ _

theorem books_recordUsage (ctx : RunContext) (s : LoopState) (usage : Dict) :
    Books ctx.config.usageTotals (recordUsage ctx s usage) fun r m =>
      ∃ s', r = .ok s' ∧ Records s.metrics s'.metrics m := by
  unfold recordUsage
  split_ifs
  · exact books_pure ⟨s, rfl, Records.refl s.metrics⟩
  · -- the price found is what the next step adds to the totals
    have hcost : Gains (S := sig) (fun _ _ => True) (totalsAt ctx.config.usageTotals)
        (Prog.ask (.usageCost ctx.modelName usage)) fun t m r => ∃ cost : ℚ,
          t = [⟨Query.usageCost ctx.modelName usage, cost⟩] ∧ m = 0 ∧ r = .ok cost :=
      gains_query fun cost _ => ⟨cost, rfl, rfl, rfl⟩
    refine gains_bind hcost ?_ ?_
    · rintro t m e ⟨_, -, -, ⟨⟩⟩
    · rintro _ _ cost ⟨_, rfl, rfl, ⟨⟩⟩
      refine gains_bind (gains_recordTurn _ usage cost) ?_ ?_
      · rintro t m e ⟨-, -, ⟨⟩⟩
      · rintro _ _ _ ⟨rfl, rfl, -⟩
        have hrecords := metricsAmount_recordTurn s.metrics usage cost
        exact gains_pure ⟨by simp [recordedEvent], _, rfl, by simpa [Records] using hrecords⟩

/-! ### Reports and states keep what was recorded -/

section

variable {L : Law sig}

theorem keepsMetrics_failReport (hL : Permits L) (ctx : RunContext) (s : LoopState)
    (message : String) :
    Each L (failReport ctx s message) fun report => report.metrics = s.metrics := by
  apply each_bind (each_emit hL _ _ _ _)
  intro _ _
  exact each_pure rfl

theorem keepsMetrics_finalizeStructured (hL : Permits L) (ctx : RunContext) (s : LoopState)
    (data : Value) :
    Each L (finalizeStructured ctx s data) fun report => report.metrics = s.metrics := by
  apply each_bind (each_emitAssistantMessage hL _ _ _)
  intro _ _
  apply each_bind (each_emit hL _ _ _ _)
  intro _ _
  exact each_pure rfl

theorem keepsMetrics_finalizePlain (hL : Permits L) (ctx : RunContext) (s : LoopState)
    (response : ModelResponse) :
    Each L (finalizePlain ctx s response) fun report => report.metrics = s.metrics := by
  apply each_bind (each_emitAssistantMessage hL _ _ _)
  intro _ _
  apply each_bind (each_emit hL _ _ _ _)
  intro _ _
  exact each_pure rfl

/-- The metrics of the report, or of the state to go on with. -/
def retriedMetrics (r : Option Report × LoopState) : Metrics :=
  r.1.elim r.2.metrics Report.metrics

theorem records_retryContextOrReport (hL : Summarizes L) (ctx : RunContext) (s : LoopState) :
    Each L (retryContextOrReport ctx s) fun r => Records s.metrics (retriedMetrics r) 0 := by
  have hfail (message : String) (s' : LoopState) (h : Records s.metrics s'.metrics 0) :
      Each L (do pure (some (← failReport ctx s' message), s')) fun r =>
        Records s.metrics (retriedMetrics r) 0 := by
    apply each_bind (keepsMetrics_failReport hL.toPermits _ _ _)
    intro report hreport
    refine each_pure ?_
    rwa [← hreport] at h
  unfold retryContextOrReport
  split_ifs
  · exact hfail _ _ (Records.refl _)
  · exact hfail _ _ (Records.refl _)
  · apply each_bind (compacts_applyContextSummary hL _ _ _ _ _)
    rintro ⟨applied, s'⟩ hcompacted
    dsimp only
    split_ifs
    · exact each_pure hcompacted.records
    · exact hfail _ _ hcompacted.records

/-- The metrics a turn ends with. -/
def TurnEnd.metrics : TurnEnd → Metrics
  | next s => s.metrics
  | report r => r.metrics
  | paused r _ => r.metrics

/-- A paused state has the metrics of its report. -/
def TurnEnd.Agrees : TurnEnd → Prop
  | paused r s => s.metrics = r.metrics
  | _ => True

theorem keepsMetrics_processToolCalls {tools : List Tool} (hL : Performs L tools)
    (ctx : RunContext) (s : LoopState) (job : Job) (response : ModelResponse) :
    Each L (processToolCalls ctx s job response (allowedTools tools))
      fun turn => turn.metrics = s.metrics ∧ turn.Agrees := by
  apply each_bind (each_emitAssistantMessage hL.toPermits _ _ _)
  intro _ _
  have hempty : ToolPlan.Sound (allowedTools tools) {} := ⟨by simp, by simp⟩
  apply each_bind (serves_planToolCalls hL _ _ _ _ hempty)
  rintro ⟨plan, toolCalls⟩ hplan
  apply each_bind (serves_executeToolCalls hL _ hplan _ _)
  rintro ⟨messages, toolCalls'⟩ _
  dsimp only
  split_ifs
  · apply each_bind (keepsMetrics_failReport hL.toPermits _ _ _)
    intro report hreport
    exact each_pure ⟨hreport, trivial⟩
  · split
    · apply each_bind (each_emitPause hL.toPermits _ _ _)
      intro _ _
      exact each_pure ⟨rfl, rfl⟩
    · exact each_pure ⟨rfl, trivial⟩

end

/-! ### A turn -/

/-- The metrics of the report that ends a turn early, or of the state it goes on with. -/
def acquiredMetrics : Acquired × LoopState → Metrics
  | (.report report, _) => report.metrics
  | (_, s) => s.metrics

/-- A structured call that fails has recorded nothing. -/
theorem books_structuredCompletion (ctx : RunContext) (s : LoopState) (job : Job)
    (schema : Schema) :
    Books ctx.config.usageTotals (structuredCompletion ctx s job schema) fun r m =>
      match r with
      | .ok (_, s') => Records s.metrics s'.metrics m
      | .error _ => m = 0 := by
  have hanswer := serves_structuredAnswer (unbilledLaw_requests [])
    (structuredRequest ctx s.messages job schema)
  refine books_unbilled_bind hanswer (fun _ => rfl) fun answer _ => ?_
  cases answer.usage with
  | none => exact books_pure (Records.refl s.metrics)
  | some usage =>
    refine books_bind (books_recordUsage ctx s usage) ?_ ?_
    · rintro e m ⟨_, ⟨⟩, -⟩
    · rintro s' m ⟨_, ⟨⟩, hrecords⟩
      exact books_pure (by simpa using hrecords)

/-- What a part of a turn records. -/
abbrev RecordsTurn (s : LoopState) : Except Exn (Acquired × LoopState) → Amount → Prop :=
  Returns fun r m => Records s.metrics (acquiredMetrics r) m

theorem Books.of_records {ref : Ref} {s s' : LoopState} {m : Amount}
    {c : Prog (Acquired × LoopState)} (h : Records s.metrics s'.metrics m)
    (hc : Books ref c (RecordsTurn s')) : Books ref c fun r m' => RecordsTurn s r (m + m') := by
  apply hc.mono
  rintro (e | r) m' hr
  · trivial
  · exact h.trans hr

/-- The answer to a retry. -/
theorem books_retry (ctx : RunContext) (s : LoopState) :
    Books ctx.config.usageTotals (do
      match ← retryContextOrReport ctx s with
      | (some report, s) => pure (.report report, s)
      | (none, s) => pure (.again, s)) (RecordsTurn s) := by
  apply books_unbilled_then (records_retryContextOrReport unbilledLaw_summarizes ctx s)
  rintro ⟨_ | report, s'⟩ h
  · exact books_pure h
  · exact books_pure h

theorem books_retryOrRaise (ctx : RunContext) (s : LoopState) (e : Exn) :
    Books ctx.config.usageTotals (retryOrRaise ctx s e) (RecordsTurn s) := by
  unfold retryOrRaise
  split_ifs
  · exact books_retry ctx s
  · exact books_raise trivial

/-- A report that is made without pricing anything. -/
theorem books_acquiredReport {c : Prog Report} {ref : Ref} (s' : LoopState)
    (hc : Each unbilledLaw c fun report => report.metrics = s.metrics) :
    Books ref (do pure (Acquired.report (← c), s')) (RecordsTurn s) := by
  apply books_unbilled_then hc
  intro report h
  exact books_pure (Records.of_eq h)

theorem books_structuredOrReport (ctx : RunContext) (s : LoopState) (job : Job)
    (schema : Schema) :
    Books ctx.config.usageTotals (structuredOrReport ctx s job schema) (RecordsTurn s) := by
  refine books_bind (books_attempt (Q := fun r m => ∃ r', r = .ok r' ∧ match r' with
    | .ok (_, s') => Records s.metrics s'.metrics m
    | .error _ => m = 0)
    ((books_structuredCompletion ctx s job schema).mono fun r m h => ⟨r, rfl, h⟩))
    (fun _ _ _ => trivial) ?_
  rintro _ m ⟨e | ⟨data, s'⟩, ⟨⟩, hm⟩
  · obtain rfl : m = 0 := hm
    simp only [zero_add]
    split_ifs
    · exact books_raise trivial
    · exact books_retry ctx s
    · exact books_acquiredReport s (keepsMetrics_failReport unbilledLaw_permits ctx s _)
  · have hrecords : Records s.metrics s'.metrics m := hm
    have hreport := keepsMetrics_finalizeStructured unbilledLaw_permits ctx s' data
    exact (books_acquiredReport s' hreport).of_records hrecords

theorem books_previewOrReport (ctx : RunContext) (s : LoopState) (job : Job) (schema : Schema) :
    Books ctx.config.usageTotals (previewOrReport ctx s job schema) (RecordsTurn s) := by
  have hstream := serves_streamCompletion (unbilledLaw_requests []) (.inr rfl) ctx
    s.workerName s.messages job (some schema)
  refine books_unbilled_bind (each_attempt hstream) (fun _ => trivial) ?_
  rintro (e | streamed) _
  · dsimp only
    split_ifs
    · exact books_retryOrRaise ctx s e
    · exact books_raise trivial
  · refine books_bind (books_recordUsage ctx s streamed.usage) (fun _ _ _ => trivial) ?_
    rintro s' m ⟨_, ⟨⟩, hrecords⟩
    refine Books.of_records hrecords ?_
    refine books_unbilled_then (each_routine unbilledLaw_permits trivial) ?_
    rintro (e | data) _
    · dsimp only
      split_ifs
      · exact books_structuredOrReport ctx s' job schema
      · exact books_raise trivial
    · exact books_acquiredReport s'
        (keepsMetrics_finalizeStructured unbilledLaw_permits ctx s' data)

/-- The response of a completion call, or the retry of a failed one. -/
theorem books_responseOrRetry (ctx : RunContext) (s : LoopState) {request : Prog ModelResponse}
    (hrequest : Each unbilledLaw request fun _ => True) :
    Books ctx.config.usageTotals (do
      match ← request.attempt with
      | .ok response => pure (.response response, s)
      | .error e => if e.isException then retryOrRaise ctx s e else Prog.raise e)
      (RecordsTurn s) := by
  refine books_unbilled_bind (each_attempt hrequest) (fun _ => trivial) ?_
  rintro (e | response) _
  · dsimp only
    split_ifs
    · exact books_retryOrRaise ctx s e
    · exact books_raise trivial
  · exact books_pure (Records.refl s.metrics)

theorem books_acquireTurnResponse (ctx : RunContext) (s : LoopState) (job : Job)
    (tools : List Tool) :
    Books ctx.config.usageTotals (acquireTurnResponse ctx s job tools) (RecordsTurn s) := by
  have hlaw := unbilledLaw_requests tools
  have hcompletion := serves_completion hlaw (.inl rfl) ctx s.messages job
  unfold acquireTurnResponse
  split
  · split_ifs
    · exact books_previewOrReport ctx s job _
    · exact books_structuredOrReport ctx s job _
    · exact books_responseOrRetry ctx s hcompletion
  · apply books_responseOrRetry ctx s
    split_ifs
    · exact serves_streamCompletion hlaw (.inl rfl) ctx _ _ job none
    · exact hcompletion

theorem books_processTurnResponse (ctx : RunContext) (s : LoopState) (job : Job)
    (response : ModelResponse) (tools : List Tool) :
    Books ctx.config.usageTotals
      (processTurnResponse ctx s job response (allowedTools tools))
      (Returns fun turn m => Records s.metrics turn.metrics m ∧ turn.Agrees) := by
  refine books_bind (books_recordUsage ctx s response.usage) (fun _ _ _ => trivial) ?_
  rintro s' m ⟨_, ⟨⟩, hrecords⟩
  have hof {c : Prog TurnEnd} (hc : Books ctx.config.usageTotals c
      (Returns fun turn m => Records s'.metrics turn.metrics m ∧ turn.Agrees)) :
      Books ctx.config.usageTotals c fun r m' =>
        Returns (fun turn m => Records s.metrics turn.metrics m ∧ turn.Agrees) r (m + m') := by
    apply hc.mono
    rintro (e | turn) m' hr
    · trivial
    · exact ⟨hrecords.trans hr.1, hr.2⟩
  apply hof
  split_ifs
  · split
    · apply books_then (books_structuredOrReport ctx s' job _)
      rintro ⟨_ | _ | report, s''⟩ m' h
      · exact books_pure ⟨by rwa [add_zero], trivial⟩
      · exact books_pure ⟨by rwa [add_zero], trivial⟩
      · exact books_pure ⟨by rwa [add_zero], trivial⟩
    · apply books_unbilled_then (keepsMetrics_finalizePlain unbilledLaw_permits ctx s' response)
      intro report h
      exact books_pure ⟨Records.of_eq h, trivial⟩
  · refine (books_unbilled (keepsMetrics_processToolCalls (unbilledLaw_performs tools) ctx s' job
      response)).mono ?_
    rintro (e | turn) m' ⟨rfl, h⟩
    · trivial
    · obtain ⟨hmetrics, hagrees⟩ := h turn rfl
      exact ⟨Records.of_eq hmetrics, hagrees⟩

/-! ### The run -/

/-- What a call records beyond the metrics it began with. A paused state has the metrics
of its report. -/
def RecordsCall (metrics : Metrics) (out : Report × Option WorkerState) (m : Amount) : Prop :=
  Records metrics out.1.metrics m ∧ ∀ state ∈ out.2, state.metrics = out.1.metrics

theorem RecordsCall.of_records {metrics metrics' : Metrics} {ref : Ref} {m : Amount}
    {c : Prog (Report × Option WorkerState)} (h : Records metrics metrics' m)
    (hc : Books ref c (Returns (RecordsCall metrics'))) :
    Books ref c (Returns fun out m' => RecordsCall metrics out (m + m')) :=
  hc.returns fun _ _ hout => ⟨h.trans hout.1, hout.2⟩

theorem recordsCall_none {metrics : Metrics} {report : Report} (h : report.metrics = metrics) :
    RecordsCall metrics (report, none) 0 :=
  ⟨Records.of_eq h, by simp⟩

theorem books_runLoop (ctx : RunContext) (job : Job) (tools : List Tool) (left : ℕ)
    (s : LoopState) :
    Books ctx.config.usageTotals (runLoop ctx job tools left s)
      (Returns (RecordsCall s.metrics)) := by
  induction left generalizing s with
  | zero =>
    apply books_unbilled_then (keepsMetrics_failReport unbilledLaw_permits ctx s _)
    intro report h
    exact books_pure (recordsCall_none h)
  | succ left ih =>
    apply books_unbilled_then (each_getTotals unbilledLaw_permits _)
    intro totals _
    dsimp only
    split
    · apply books_unbilled_then (keepsMetrics_failReport unbilledLaw_permits ctx _ _)
      intro report h
      exact books_pure (recordsCall_none h)
    · apply books_unbilled_then (compacts_compactToLimit unbilledLaw_summarizes ctx _)
      intro compacted hcompacted
      have hrecords : Records s.metrics compacted.metrics 0 := hcompacted.records
      have hacquire := books_acquireTurnResponse ctx compacted job tools
      apply books_then hacquire
      rintro ⟨response | _ | report, acquired⟩ m hacquired
      · have h := hrecords.trans hacquired
        rw [zero_add] at h
        apply books_then (books_processTurnResponse ctx acquired job response tools)
        rintro (next | report | ⟨report, paused⟩) m' ⟨hturn, hagrees⟩
        · have hnext := RecordsCall.of_records (h.trans hturn) (ih next)
          exact hnext.returns fun out m'' hout => by rwa [add_assoc] at hout
        · exact books_pure ⟨by rw [add_zero]; exact h.trans hturn, by simp⟩
        · refine books_pure ⟨by rw [add_zero]; exact h.trans hturn, ?_⟩
          rintro _ ⟨⟩
          exact hagrees
      · have h := hrecords.trans hacquired
        rw [zero_add] at h
        exact RecordsCall.of_records h (ih acquired)
      · have h := hrecords.trans hacquired
        rw [zero_add] at h
        exact books_pure ⟨by rwa [add_zero], by simp⟩

theorem books_enterLoop (worker : Worker) (config : RunConfig) (modelName : String)
    (s : LoopState) (job : Job) :
    Books config.usageTotals (enterLoop worker config modelName s job)
      (Returns (RecordsCall s.metrics)) := by
  apply books_unbilled_then (each_emit unbilledLaw_permits _ _ _ _)
  intro _ _
  exact books_runLoop ⟨config, modelName⟩ job _ _ s

theorem keepsMetrics_modelNotSet {L : Law sig} (hL : Permits L) (worker : Worker)
    (config : RunConfig) (runId : RunId) (messages : List Message) :
    Each L (modelNotSet worker config runId messages) fun out =>
      out.1.metrics = {} ∧ out.2 = none := by
  apply each_bind (each_emit hL _ _ _ _)
  intro _ _
  exact each_pure ⟨rfl, rfl⟩

theorem books_arun (worker : Worker) (config : RunConfig) (job : Job) :
    Books config.usageTotals (arun worker config job) (Returns (RecordsCall {})) := by
  unfold arun
  dsimp only
  split_ifs
  · have hnot := @books_unbilled _ config.usageTotals _ _
      (keepsMetrics_modelNotSet unbilledLaw_permits worker config config.runId
        (buildMessages worker.instructions job))
    apply hnot.mono
    rintro (e | ⟨report, state⟩) m ⟨rfl, h⟩
    · trivial
    · obtain ⟨hmetrics, rfl⟩ := h _ rfl
      exact recordsCall_none hmetrics
  · refine books_unbilled_then (each_routine unbilledLaw_permits trivial) fun registered _ => ?_
    exact books_enterLoop worker config _ (startState worker config job registered) job

/-- The part of `aresume` behind the restored totals. -/
def resumeRest (worker : Worker) (config : RunConfig) (state : WorkerState) (decision : Value) :
    Prog (Report × Option WorkerState) :=
  match state.pendingAction with
  | none => pure (noPendingAction (resumeConfig config state.runId) state, none)
  | some pending => resumePending worker (resumeConfig config state.runId) state pending decision

@[simp] theorem resumeConfig_usageTotals (config : RunConfig) (runId : RunId) :
    (resumeConfig config runId).usageTotals = config.usageTotals := by
  unfold resumeConfig
  split_ifs <;> rfl

@[simp] theorem resumeConfig_modelName (config : RunConfig) (runId : RunId)
    (workerModel : Option String) :
    (resumeConfig config runId).modelName workerModel = config.modelName workerModel := by
  unfold resumeConfig
  split_ifs <;> rfl

/-- A resume under a configuration without a model loses the metrics; the desk always sets
a model. -/
theorem books_resumeRest (worker : Worker) {config : RunConfig} (state : WorkerState)
    (decision : Value) (hmodel : config.modelName worker.model ≠ "") :
    Books config.usageTotals (resumeRest worker config state decision)
      (Returns (RecordsCall state.metrics)) := by
  unfold resumeRest
  split
  · exact books_pure (recordsCall_none rfl)
  · next pending _ =>
    have hdecides : Decides unbilledLaw worker state.job pending decision :=
      ⟨rfl, fun _ _ _ _ _ => rfl⟩
    apply books_unbilled_then (decides_resolvePending unbilledLaw_permits hdecides _)
    rintro ⟨call, result⟩ _
    apply books_unbilled_then (each_outcome _)
    intro toolCalls _
    dsimp only
    rw [resumeConfig_modelName, if_neg hmodel]
    refine books_unbilled_then (each_routine unbilledLaw_permits trivial) fun registered _ => ?_
    rw [← resumeConfig_usageTotals config state.runId]
    exact books_enterLoop worker _ _
      (resumedState worker (resumeConfig config state.runId) state call result toolCalls
        registered) state.job

end Blackgeorge.WorkerRunner
