import Blackgeorge.Coroutine.Gates
import Blackgeorge.WorkerRunner.Books
import Blackgeorge.WorkerRunner.Passes

/-! The cost budget of a run. A worker looks at the recorded total before each turn, and within
a turn it gets at most one response and one structured answer and records at most two turns. -/

namespace Blackgeorge.WorkerRunner

open Data Program Coroutine Coro

/-! ### What is counted -/

/-- What a response, a structured answer and a recorded turn count for. -/
structure Weights where
  response : ℕ
  structured : ℕ
  recorded : ℕ

/-- What one turn may count for. -/
def Weights.turn (k : Weights) : ℕ := k.response + k.structured + 2 * k.recorded

/-- The call was answered by a response or a stream. -/
def responded : Except Exn CompletionAnswer → Bool
  | .ok (.response _) => true
  | .ok (.stream ..) => true
  | _ => false

/-- Calls that summarize a history do not count; they are made without retries. -/
def Weights.cost (k : Weights) : Event sig → ℕ
  | ⟨.complete _ call, answer⟩ => if call.numRetries.isSome && responded answer then k.response else 0
  | ⟨.structured .., .ok _⟩ => k.structured
  | ⟨.usageCost .., _⟩ => k.recorded
  | _ => 0

/-- Prices are not negative. -/
def Nonnegative : ∀ q, Answer q → Prop
  | .usageCost .., cost => 0 ≤ cost
  | _, _ => True

/-- The recorded total exceeds the budget. -/
def OverBudget (ref : Ref) (budget : ℚ) (w : World) : Prop := budget < (w.totals ref).costUsd.getD 0

/-- A flow object that runs has its run's totals. -/
def HasTotals (flow : Option ℕ) (ref : Ref) (w : World) : Prop :=
  ∀ id ∈ flow, (w.flows id).usageTotals = ref

/-- What others may do: anything that leaves a flow its totals and a total above the budget there. -/
def KeepsTotals (flow : Option ℕ) (ref : Ref) (budget : ℚ) (w w' : World) : Prop :=
  HasTotals flow ref w → HasTotals flow ref w' ∧ (OverBudget ref budget w → OverBudget ref budget w')

def budgetGate (k : Weights) (flow : Option ℕ) (ref : Ref) (budget : ℚ) : Gate sig where
  holds := HasTotals flow ref
  shut := OverBudget ref budget
  admits := Nonnegative
  cost := k.cost

variable {k : Weights} {flow : Option ℕ} {ref : Ref} {budget : ℚ}

theorem budgetGate_live : (budgetGate k flow ref budget).Live := by
  intro q
  cases q with
  | newId => exact ⟨"", trivial⟩
  | complete sync call => exact ⟨.ok .raw, trivial⟩
  | structured sync call => exact ⟨.ok ⟨.none, none⟩, trivial⟩
  | validateJson schema content => exact ⟨.ok .none, trivial⟩
  | runTool tool call approved => exact ⟨.error cancelledError, trivial⟩
  | tokenCount model text => exact ⟨(0 : ℕ), trivial⟩
  | modelRegistered model => exact ⟨false, trivial⟩
  | usageCost model usage => exact ⟨(0 : ℚ), le_refl (0 : ℚ)⟩
  | store op => exact ⟨.ok (), trivial⟩
  | readMemory scope => exact ⟨.ok none, trivial⟩
  | reduce reducer reports => exact ⟨.error cancelledError, trivial⟩
  | predicate fn pos context => exact ⟨.ok (true, []), trivial⟩
  | selector fn pos context => exact ⟨.ok ("", []), trivial⟩
  | stop fn pos context => exact ⟨.ok (true, []), trivial⟩
  | jobBuilder fn pos context => exact ⟨.error cancelledError, trivial⟩
  | rounds => exact ⟨(0 : ℕ), trivial⟩
  | runner call => exact ⟨.error cancelledError, trivial⟩
  | decide pending decision => exact ⟨(), trivial⟩

/-! ### Steps that keep the gate -/

theorem budgetGate_step {w w' : World} (hflows : w'.flows = w.flows)
    (htotals : (w'.totals ref) = w.totals ref) : (budgetGate k flow ref budget).step w w' := by
  intro hw
  refine ⟨fun id hid => ?_, fun hshut => ?_⟩
  · rw [hflows]
    exact hw id hid
  · change budget < (w'.totals ref).costUsd.getD 0
    rw [htotals]
    exact hshut

theorem budgetIdle_permits : Permits (budgetGate k flow ref budget).idle where
  refl _ := budgetGate_step rfl rfl
  eventLists _ _ := budgetGate_step rfl rfl
  storedEvents _ _ := budgetGate_step rfl rfl
  routine q a hq := by
    cases q <;> first | exact rfl | exact False.elim hq

theorem budgetIdle_summarizes : Summarizes (budgetGate k flow ref budget).idle where
  toPermits := budgetIdle_permits
  summary _ _ _ _ _ := rfl

theorem budgetIdle_performs (tools : List Tool) : Performs (budgetGate k flow ref budget).idle tools where
  toPermits := budgetIdle_permits
  newId _ := rfl
  runTool _ _ _ _ _ := rfl

/-- Totals that only grow keep the gate. -/
theorem spends_modifyTotals {r : Ref} {f : UsageTotals → UsageTotals}
    (hf : ∀ totals : UsageTotals, budget < totals.costUsd.getD 0 → budget < (f totals).costUsd.getD 0) :
    Spends (budgetGate k flow ref budget) 0 (modifyTotals r f) fun _ => True := by
  refine Each.spends (each_update (fun w hw => ⟨hw, fun hshut => ?_⟩) trivial)
  change budget < (Function.update w.totals r (f (w.totals r)) ref).costUsd.getD 0
  by_cases href : ref = r
  · subst href
    rw [Function.update_self]
    exact hf _ hshut
  · rw [Function.update_of_ne href]
    exact hshut

/-! ### A turn -/

section

variable (ctx : RunContext) (s : LoopState) (job : Job)

theorem spends_idle {α : Type} {c : Prog α} {P : α → Prop} (n : ℕ)
    (h : Each (budgetGate k flow ref budget).idle c P) : Spends (budgetGate k flow ref budget) n c P :=
  h.spends.mono (Nat.zero_le n) fun _ h => h

theorem spends_recordUsage (usage : Dict) :
    Spends (budgetGate k flow ref budget) k.recorded (recordUsage ctx s usage) fun _ => True := by
  unfold recordUsage
  split_ifs
  · exact spends_idle _ (each_pure trivial)
  · have hcost : Spends (budgetGate k flow ref budget) k.recorded
        (Prog.ask (.usageCost ctx.modelName usage)) fun cost => (0 : ℚ) ≤ cost :=
      spends_query fun cost hcost => ⟨Nat.le_refl _, hcost⟩
    refine spends_bind (m := 0) hcost fun cost hcost => ?_
    refine spends_bind (m := 0) (spends_modifyTotals fun totals hlt => ?_) fun _ _ => ?_
    · change budget < totals.costUsd.getD 0 + cost
      linarith
    · exact (each_pure trivial).spends

/-- What is left to spend on a response once a call was answered. -/
def responseLeft (k : Weights) (answer : Except Exn CompletionAnswer) : ℕ :=
  if responded answer then 0 else k.response

theorem pays_complete (sync : Bool) (call : Completion) :
    Pays (budgetGate k flow ref budget).steps (budgetGate k flow ref budget).tariff k.response
      (Prog.ask (.complete sync call)) (responseLeft k) fun _ => True := by
  refine pays_query fun answer _ => ⟨?_, trivial, trivial⟩
  change (if call.numRetries.isSome && responded answer then k.response else 0) +
    responseLeft k answer ≤ k.response + 0
  unfold responseLeft
  cases responded answer <;> cases call.numRetries.isSome <;> simp

theorem spends_completion (messages : List Message) (tools : List Tool) :
    Spends (budgetGate k flow ref budget) k.response (completion ctx messages tools job)
      fun _ => True := by
  refine pays_bind (pays_complete false _) ?_
  rintro (e | answer) _
  · dsimp only
    split_ifs
    · refine pays_bind (pays_complete true _) fun answer _ => ?_
      exact spends_idle _ (each_bind (each_outcome answer) fun _ _ => each_pure trivial)
    · exact pays_raise
  · exact spends_idle _ (each_pure trivial)

theorem spends_finishStream (workerName : String) (messages : List Message) (tools : List Tool)
    (answer : Except Exn CompletionAnswer) :
    Spends (budgetGate k flow ref budget) (responseLeft k answer)
      (finishStream ctx workerName messages tools job answer) fun _ => True := by
  match answer with
  | .ok (.response r) => exact spends_idle _ (each_pure trivial)
  | .ok (.stream tokens result) =>
    refine spends_idle _ ?_
    apply each_bind (each_forM fun token _ => each_emit budgetIdle_permits _ _ _ _)
    intro _ _
    exact each_outcome _
  | .ok .raw => exact spends_completion ctx job messages tools
  | .error e =>
    rw [finishStream]
    split_ifs
    · exact spends_completion ctx job messages tools
    · exact pays_raise

theorem spends_streamCompletion (workerName : String) (messages : List Message) (tools : List Tool)
    (schema : Option Schema) :
    Spends (budgetGate k flow ref budget) k.response
      (streamCompletion ctx workerName messages tools job schema) fun _ => True := by
  refine pays_bind (pays_complete false _) ?_
  rintro (e | answer) _
  · dsimp only
    split_ifs
    · refine pays_bind (pays_complete true _) fun answer _ => ?_
      exact spends_finishStream ctx job _ _ _ _
    · exact spends_finishStream ctx job _ _ _ _
  · exact spends_finishStream ctx job _ _ _ _

/-- What is left to spend on a structured answer once a call was answered. -/
def structuredLeft (k : Weights) : Except Exn StructuredAnswer → ℕ
  | .ok _ => 0
  | .error _ => k.structured

theorem pays_structured (sync : Bool) (request : StructuredCompletion) :
    Pays (budgetGate k flow ref budget).steps (budgetGate k flow ref budget).tariff k.structured
      (Prog.ask (.structured sync request)) (structuredLeft k) fun _ => True := by
  refine pays_query fun answer _ => ⟨?_, trivial, trivial⟩
  cases answer with
  | ok answer => exact Nat.le_refl k.structured
  | error e => exact (Nat.zero_add k.structured).le

theorem spends_structuredCompletion (schema : Schema) :
    Spends (budgetGate k flow ref budget) (k.structured + k.recorded)
      (structuredCompletion ctx s job schema) fun _ => True := by
  have hanswer : Spends (budgetGate k flow ref budget) k.structured
      (structuredAnswer (structuredRequest ctx s.messages job schema)) fun _ => True := by
    refine pays_bind (pays_structured false _) ?_
    rintro (e | answer) _
    · dsimp only
      split_ifs
      · exact pays_bind (pays_structured true _) fun r _ => spends_idle _ (each_outcome r)
      · exact pays_raise
    · exact spends_idle _ (each_pure trivial)
  refine spends_bind hanswer fun answer _ => ?_
  cases answer.usage with
  | none => exact spends_idle _ (each_pure trivial)
  | some usage =>
    refine (spends_bind (m := 0) (spends_recordUsage ctx s usage) fun _ _ => ?_)
    exact (each_pure trivial).spends

/-- A turn that goes on without a response or not at all. -/
def Unanswerable : Acquired × LoopState → Prop
  | (.response _, _) => False
  | _ => True

theorem idle_retry :
    Each (budgetGate k flow ref budget).idle (do
      match ← retryContextOrReport ctx s with
      | (some report, s) => pure (.report report, s)
      | (none, s) => pure (.again, s)) Unanswerable := by
  apply each_bind (records_retryContextOrReport budgetIdle_summarizes ctx s)
  rintro ⟨_ | report, s'⟩ _ <;> exact each_pure trivial

theorem idle_retryOrRaise (e : Exn) :
    Each (budgetGate k flow ref budget).idle (retryOrRaise ctx s e) Unanswerable := by
  unfold retryOrRaise
  split_ifs
  · exact idle_retry ctx s
  · exact each_raise

theorem idle_acquiredReport {c : Prog Report} (hc : Each (budgetGate k flow ref budget).idle c fun _ => True) :
    Each (budgetGate k flow ref budget).idle (do pure (Acquired.report (← c), s)) Unanswerable :=
  each_bind hc fun _ _ => each_pure trivial

theorem spends_structuredOrReport (schema : Schema) :
    Spends (budgetGate k flow ref budget) (k.structured + k.recorded)
      (structuredOrReport ctx s job schema) Unanswerable := by
  refine spends_bind (m := 0) (spends_attempt (spends_structuredCompletion ctx s job schema)) ?_
  rintro (e | ⟨data, s'⟩) _
  · dsimp only
    split_ifs
    · exact pays_raise
    · exact (idle_retry ctx s).spends
    · exact (idle_acquiredReport s (each_failReport budgetIdle_permits ctx s _)).spends
  · exact (idle_acquiredReport s' (each_finalizeStructured budgetIdle_permits ctx s' data)).spends

theorem spends_previewOrReport (schema : Schema) :
    Spends (budgetGate k flow ref budget) (k.response + (k.recorded + (k.structured + k.recorded)))
      (previewOrReport ctx s job schema) Unanswerable := by
  refine spends_bind (spends_attempt
    (spends_streamCompletion ctx job s.workerName s.messages [] (some schema))) ?_
  rintro (e | streamed) _
  · dsimp only
    split_ifs
    · exact spends_idle _ (idle_retryOrRaise ctx s e)
    · exact pays_raise
  · refine spends_bind (spends_recordUsage ctx s streamed.usage) fun s' _ => ?_
    have hvalidate : Each (budgetGate k flow ref budget).idle
        (Prog.ask (.validateJson schema (streamed.content.getD ""))) fun _ => True :=
      each_routine budgetIdle_permits trivial
    refine pays_bind_free hvalidate.spends ?_
    rintro (e | data) _
    · dsimp only
      split_ifs
      · exact spends_structuredOrReport ctx s' job schema
      · exact pays_raise
    · exact spends_idle _ (idle_acquiredReport s'
        (each_finalizeStructured budgetIdle_permits ctx s' data))

/-- What a turn may still spend once it has its response or goes without one. -/
def acquiredLeft (k : Weights) : Acquired × LoopState → ℕ
  | (.response _, _) => k.structured + 2 * k.recorded
  | _ => 0

theorem acquiredLeft_unanswerable {r : Acquired × LoopState} (h : Unanswerable r) :
    acquiredLeft k r = 0 := by
  obtain ⟨acquired, s'⟩ := r
  cases acquired <;> first | rfl | exact False.elim h

/-- The response of a completion call, or the retry of a failed one. -/
theorem pays_responseOrRetry {request : Prog ModelResponse}
    (hrequest : Spends (budgetGate k flow ref budget) k.response request fun _ => True) :
    Pays (budgetGate k flow ref budget).steps (budgetGate k flow ref budget).tariff k.turn (do
      match ← request.attempt with
      | .ok response => pure (Acquired.response response, s)
      | .error e => if e.isException then retryOrRaise ctx s e else Prog.raise e)
      (acquiredLeft k) fun _ => True := by
  have hframe := (spends_attempt hrequest).frame (k.structured + 2 * k.recorded)
  rw [Nat.zero_add, ← Nat.add_assoc] at hframe
  refine pays_bind hframe ?_
  rintro (e | response) _
  · dsimp only
    split_ifs
    · exact Pays.mono (spends_idle _ (idle_retryOrRaise ctx s e)) (Nat.le_refl _) fun r hr =>
        ⟨(acquiredLeft_unanswerable hr).le, trivial⟩
    · exact pays_raise
  · exact pays_pure (Nat.le_refl _) trivial

theorem pays_acquireTurnResponse (tools : List Tool) :
    Pays (budgetGate k flow ref budget).steps (budgetGate k flow ref budget).tariff k.turn
      (acquireTurnResponse ctx s job tools) (acquiredLeft k) fun _ => True := by
  have hleft {n : ℕ} {c : Prog (Acquired × LoopState)} (hn : n ≤ k.turn)
      (h : Spends (budgetGate k flow ref budget) n c Unanswerable) :
      Pays (budgetGate k flow ref budget).steps (budgetGate k flow ref budget).tariff k.turn c
        (acquiredLeft k) fun _ => True :=
    Pays.mono h hn fun r hr => ⟨(acquiredLeft_unanswerable hr).le, trivial⟩
  unfold acquireTurnResponse
  split
  · split_ifs
    · refine hleft ?_ (spends_previewOrReport ctx s job _)
      unfold Weights.turn
      omega
    · refine hleft ?_ (spends_structuredOrReport ctx s job _)
      unfold Weights.turn
      omega
    · exact pays_responseOrRetry ctx s (spends_completion ctx job s.messages tools)
  · apply pays_responseOrRetry ctx s
    split_ifs
    · exact spends_streamCompletion ctx job s.workerName s.messages tools none
    · exact spends_completion ctx job s.messages tools

theorem spends_processTurnResponse (response : ModelResponse) (tools : List Tool) :
    Spends (budgetGate k flow ref budget) (k.structured + 2 * k.recorded)
      (processTurnResponse ctx s job response (allowedTools tools)) fun _ => True := by
  have hrest : Spends (budgetGate k flow ref budget) (k.recorded + (k.structured + k.recorded))
      (processTurnResponse ctx s job response (allowedTools tools)) fun _ => True := by
    refine spends_bind (spends_recordUsage ctx s response.usage) fun s' _ => ?_
    split_ifs
    · split
      · refine spends_bind (m := 0) (spends_structuredOrReport ctx s' job _) ?_
        rintro ⟨acquired, s''⟩ _
        cases acquired <;> exact (each_pure trivial).spends
      · exact spends_idle _
          (each_bind (each_finalizePlain budgetIdle_permits _ _ _) fun _ _ => each_pure trivial)
    · exact Spends.mono (spends_idle _ (keepsMetrics_processToolCalls (budgetIdle_performs tools) ctx s' job
        response)) (Nat.le_refl _) fun _ _ => trivial
  exact hrest.mono (by omega) fun _ h => h

end

/-! ### The loop -/

/-- The configuration of a run with the budget of the gate and its totals. -/
structure Capped (config : RunConfig) (ref : Ref) (budget : ℚ) : Prop where
  maxCostUsd : config.maxCostUsd = some budget
  usageTotals : config.usageTotals = ref

theorem gated_idle {α : Type} {c : Prog α} {P : α → Prop} {cap n : ℕ}
    (h : Each (budgetGate k flow ref budget).idle c P) : Gated (budgetGate k flow ref budget) cap n c := by
  have : Nonempty sig.World := ⟨({} : World)⟩
  exact (gated_of_spends budgetGate_live (Nat.zero_le cap) h.spends).mono (Nat.zero_le n)

theorem gated_spends {α : Type} {c : Prog α} {P : α → Prop} {n : ℕ}
    (h : Spends (budgetGate k flow ref budget) n c P) : Gated (budgetGate k flow ref budget) n n c := by
  have : Nonempty sig.World := ⟨({} : World)⟩
  exact gated_of_spends budgetGate_live (Nat.le_refl n) h

theorem spends_endPass (ctx : RunContext) (job : Job) (tools : List Tool) (r : Acquired × LoopState) :
    Spends (budgetGate k flow ref budget) (acquiredLeft k r) (endPass ctx job tools r)
      fun _ => True := by
  obtain ⟨response | _ | report, s⟩ := r
  · exact spends_processTurnResponse ctx s job response tools
  · exact (each_pure trivial).spends
  · exact (each_pure trivial).spends

/-- A pass of the loop looks at the gate and spends one turn behind it. -/
theorem looks_pass {ctx : RunContext} (hctx : Capped ctx.config ref budget) (job : Job)
    (tools : List Tool) (s : LoopState) :
    Looks (budgetGate k flow ref budget) k.turn
      (beginPass ctx job tools s >>= endPass ctx job tools) := by
  rw [beginPass, LawfulMonad.bind_assoc]
  refine gated_look (fun w _ hshut => ?_) fun w _ hopen => ?_
  · have hover : (some budget).filter (· < (w.totals ref).costUsd.getD 0) = some budget := by
      simpa using (show budget < (w.totals ref).costUsd.getD 0 from hshut)
    rw [hctx.maxCostUsd, hctx.usageTotals]
    dsimp only
    rw [hover]
    refine gated_idle (P := fun _ => True) ?_
    refine each_bind (P := fun r => ∃ report, r.1 = .report report) ?_ ?_
    · exact each_bind (each_failReport budgetIdle_permits _ _ _) fun report _ => each_pure ⟨report, rfl⟩
    · rintro ⟨_, s'⟩ ⟨report, rfl⟩
      exact each_pure trivial
  · have hunder : (some budget).filter (· < (w.totals ref).costUsd.getD 0) = none := by
      simpa using (show ¬budget < (w.totals ref).costUsd.getD 0 from hopen)
    rw [hctx.maxCostUsd, hctx.usageTotals]
    dsimp only
    rw [hunder]
    refine gated_spends (P := fun _ => True) (pays_bind (P := acquiredLeft k) ?_
      fun r (_ : True) => spends_endPass ctx job tools r)
    refine pays_bind_free (compacts_compactToLimit budgetIdle_summarizes _ _).spends fun s' _ => ?_
    exact pays_acquireTurnResponse ctx s' job tools

/-- However often the loop turns, it looks at the gate before each turn. -/
theorem looks_runLoop {ctx : RunContext} (hctx : Capped ctx.config ref budget) (job : Job)
    (tools : List Tool) (left : ℕ) (s : LoopState) :
    Looks (budgetGate k flow ref budget) k.turn (runLoop ctx job tools left s) := by
  induction left generalizing s with
  | zero =>
    exact gated_idle (P := fun _ => True)
      (each_bind (each_failReport budgetIdle_permits _ _ _) fun _ _ => each_pure trivial)
  | succ left ih =>
    rw [runLoop_succ, ← LawfulMonad.bind_assoc]
    refine gated_bind (looks_pass hctx job tools s) ?_
    rintro (next | report | ⟨report, paused⟩)
    · exact ih next
    · exact gated_pure
    · exact gated_pure

/-! ### Run and resume -/

section

variable (worker : Worker) {config : RunConfig} (hconfig : Capped config ref budget)

include hconfig

theorem looks_enterLoop (modelName : String) (s : LoopState) (job : Job) :
    Looks (budgetGate k flow ref budget) k.turn (enterLoop worker config modelName s job) :=
  gated_bind (gated_idle (each_emit budgetIdle_permits _ _ _ _)) fun _ =>
    looks_runLoop (show Capped (RunContext.mk config modelName).config ref budget from hconfig) _ _ _ _

omit hconfig in
theorem looks_modelNotSet (runId : RunId) (messages : List Message) :
    Looks (budgetGate k flow ref budget) k.turn (modelNotSet worker config runId messages) :=
  gated_idle (keepsMetrics_modelNotSet budgetIdle_permits worker config runId messages)

theorem looks_arun (job : Job) :
    Looks (budgetGate k flow ref budget) k.turn (arun worker config job) := by
  unfold arun
  dsimp only
  split_ifs
  · exact looks_modelNotSet worker _ _
  · refine gated_bind (gated_idle (P := fun _ => True) (each_routine budgetIdle_permits trivial)) ?_
    exact fun registered => looks_enterLoop worker hconfig _ _ _

omit hconfig in
theorem Capped.resume (h : Capped config ref budget) (runId : RunId) :
    Capped (resumeConfig config runId) ref budget := by
  unfold resumeConfig
  split_ifs
  · exact h
  · exact ⟨h.maxCostUsd, h.usageTotals⟩

theorem looks_resumePending (state : WorkerState) (pending : PendingAction) (decision : Value) :
    Looks (budgetGate k flow ref budget) k.turn
      (resumePending worker config state pending decision) := by
  have hdecides : Decides (budgetGate k flow ref budget).idle worker state.job pending decision :=
    ⟨rfl, fun _ _ _ _ _ => rfl⟩
  refine gated_bind (gated_idle (decides_resolvePending budgetIdle_permits hdecides config)) ?_
  rintro ⟨call, result⟩
  refine gated_bind (gated_idle (P := fun _ => True) (each_outcome _)) fun toolCalls => ?_
  dsimp only
  split_ifs
  · exact looks_modelNotSet worker _ _
  · refine gated_bind (gated_idle (P := fun _ => True) (each_routine budgetIdle_permits trivial)) ?_
    exact fun registered => looks_enterLoop worker hconfig _ _ _

omit hconfig in
/-- Restored totals only take the place of empty ones. -/
theorem looks_restoreTotals (hbudget : 0 ≤ budget) (r : Ref) (stored : UsageTotals) (cap : ℕ) :
    Looks (budgetGate k flow ref budget) cap
      (modifyTotals r fun totals => restoreTotals totals stored) := by
  have : Nonempty sig.World := ⟨({} : World)⟩
  refine gated_of_spends budgetGate_live (Nat.zero_le cap) (spends_modifyTotals fun totals hlt => ?_)
  rw [restoreTotals]
  split_ifs with hempty
  · rw [hempty] at hlt
    exact absurd hlt (not_lt.mpr hbudget)
  · exact hlt

theorem looks_resumeRest (state : WorkerState) (decision : Value) :
    Looks (budgetGate k flow ref budget) k.turn (resumeRest worker config state decision) := by
  unfold resumeRest
  split
  · exact gated_pure
  · exact looks_resumePending worker (hconfig.resume state.runId) state _ decision

theorem looks_aresume (hbudget : 0 ≤ budget) (state : WorkerState) (decision : Value) :
    Looks (budgetGate k flow ref budget) k.turn (aresume worker config state decision) :=
  gated_bind (looks_restoreTotals hbudget _ _ _) fun _ => looks_resumeRest worker hconfig state decision

end

/-- What a program that looks at the budget still spends over it. -/
theorem spent_le_of_looks {α : Type} {c c' c'' : Prog α} {w w' w'' : World} {t t' : Trace sig} {cap : ℕ}
    (h : Looks (budgetGate k flow ref budget) cap c) (hw : HasTotals flow ref w)
    (hr : Reaches (S := sig) (KeepsTotals flow ref budget) Nonnegative c w t c' w')
    (hover : OverBudget ref budget w')
    (hr' : Reaches (S := sig) (KeepsTotals flow ref budget) Nonnegative c' w' t' c'' w'') :
    (t'.map k.cost).sum ≤ cap ∧ (OverBudget ref budget w → (t'.map k.cost).sum = 0) :=
  Looks.spent_le (G := budgetGate k flow ref budget) h hw hr hover hr'

end Blackgeorge.WorkerRunner
