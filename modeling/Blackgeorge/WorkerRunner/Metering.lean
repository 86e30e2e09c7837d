import Blackgeorge.WorkerRunner.Books

/-! What a worker's model calls report. Every call of a turn is recorded before the next
one begins; the calls that summarize a history are not recorded. -/

namespace Blackgeorge.WorkerRunner

open Data Program Coroutine Coro

/-! ### What a trace reports -/

/-- What a reported usage amounts to. An empty one is not priced. -/
def usageAmount (price : String → Dict → ℚ) (modelName : String) (usage : Dict) : Amount :=
  if usage = [] then 0 else pricedAmount (price modelName usage) usage

/-- The usage an answer reports. A stream reports it at its end, if the request asked for
a stream at all. -/
def answerUsage (call : Completion) : Except Exn CompletionAnswer → Dict
  | .ok (.response r) => r.usage
  | .ok (.stream _ (.ok r)) => if call.stream then r.usage else []
  | _ => []

/-- The requests of `summarize_chunk`; the others pass the number of retries. -/
def asksSummary : Event sig → Bool
  | ⟨.complete _ call, _⟩ => call.numRetries.isNone
  | _ => false

/-- What an adapter call reports to its caller. One that raises reports nothing. -/
def reportedAmount (price : String → Dict → ℚ) : Event sig → Amount
  | ⟨.complete _ call, answer⟩ => usageAmount price call.model (answerUsage call answer)
  | ⟨.structured _ call, .ok answer⟩ => usageAmount price call.model (answer.usage.getD [])
  | _ => 0

variable (price : String → Dict → ℚ)

/-- What is reported for a turn and not yet recorded. -/
def outstandingEvent (e : Event sig) : Amount :=
  (if asksSummary e then 0 else reportedAmount price e) - recordedEvent e

def outstanding (t : Trace sig) : Amount := (t.map (outstandingEvent price)).sum

@[simp] theorem outstanding_nil : outstanding price [] = 0 := rfl

@[simp] theorem outstanding_cons (e : Event sig) (t : Trace sig) :
    outstanding price (e :: t) = outstandingEvent price e + outstanding price t := by
  simp [outstanding]

@[simp] theorem outstanding_append (t t' : Trace sig) :
    outstanding price (t ++ t') = outstanding price t + outstanding price t' := by
  simp [outstanding]

/-- The pricing is given, and no failure of the event store reads like a context limit. -/
def Admitted : ∀ q, Answer q → Prop
  | .usageCost modelName usage, cost => cost = price modelName usage
  | .store (.addEvent ..), .error e => isContextLimitError e = false
  | _, _ => True

/-- The law of programs that neither make a call of a turn nor record one. -/
def idleLaw : Law sig where
  step _ _ := True
  admits := Admitted price
  event e := outstandingEvent price e = 0

theorem idleLaw_summarizes : Summarizes (idleLaw price) where
  refl _ := trivial
  eventLists _ _ := trivial
  storedEvents _ _ := trivial
  routine q a hq := by
    cases q <;> first | exact sub_self 0 | exact False.elim hq
  summary _ _ _ _ _ := sub_self 0

theorem idleLaw_performs (tools : List Tool) : Performs (idleLaw price) tools where
  toPermits := (idleLaw_summarizes price).toPermits
  newId _ := sub_self 0
  runTool _ _ _ _ _ := sub_self 0

/-- A program whose outcome goes with what is outstanding after it. -/
def Meters {α : Type} (c : Prog α) (Q : Except Exn α → Amount → Prop) : Prop :=
  Tells (S := sig) (Admitted price) c fun t r => Q r (outstanding price t)

variable {price}

section

variable {α β : Type} {Q Q' : Except Exn α → Amount → Prop}

theorem Meters.mono {c : Prog α} (h : Meters price c Q) (hQ : ∀ r m, Q r m → Q' r m) :
    Meters price c Q' :=
  Tells.mono h fun _ r ht => hQ r _ ht

theorem meters_pure {a : α} (h : Q (.ok a) 0) : Meters price (pure a) Q := tells_pure h

theorem meters_raise {e : Exn} (h : Q (.error e) 0) : Meters price (Prog.raise e) Q := tells_raise h

theorem meters_ofExcept {r : Except Exn α} (h : Q r 0) : Meters price (Prog.ofExcept r) Q :=
  tells_ofExcept h

theorem meters_bind {c : Prog α} {g : α → Prog β} {Q' : Except Exn β → Amount → Prop}
    (hc : Meters price c Q) (hraise : ∀ e m, Q (.error e) m → Q' (.error e) m)
    (hg : ∀ a m, Q (.ok a) m → Meters price (g a) fun r m' => Q' r (m + m')) :
    Meters price (c >>= g) Q' := by
  refine tells_bind hc (fun t e h => hraise e _ h) fun t a h => ?_
  refine Tells.mono (hg a _ h) fun t' r hQ => ?_
  rw [outstanding_append]
  exact hQ

theorem meters_attempt {c : Prog α} {Q : Except Exn (Except Exn α) → Amount → Prop}
    (h : Meters price c fun r m => Q (.ok r) m) : Meters price c.attempt Q :=
  tells_attempt h

/-- A program under the idle law. -/
theorem meters_idle {c : Prog α} {P : α → Prop} (h : Each (idleLaw price) c P) :
    Meters price c fun r m => m = 0 ∧ ∀ a, r = .ok a → P a := by
  refine (Each.tells h).mono ?_
  rintro t r ⟨ht, hr⟩
  refine ⟨List.sum_eq_zero fun m hm => ?_, hr⟩
  obtain ⟨e, he, rfl⟩ := List.mem_map.mp hm
  exact ht e he

/-- An idle program in front. -/
theorem meters_idle_bind {c : Prog α} {g : α → Prog β} {P : α → Prop}
    {Q : Except Exn β → Amount → Prop} (hc : Each (idleLaw price) c P)
    (hraise : ∀ e, Q (.error e) 0) (hg : ∀ a, P a → Meters price (g a) Q) :
    Meters price (c >>= g) Q := by
  refine meters_bind (meters_idle hc) ?_ ?_
  · rintro e m ⟨rfl, -⟩
    exact hraise e
  · rintro a m ⟨rfl, ha⟩
    simpa using hg a (ha a rfl)

end

theorem idle : Permits (idleLaw price) := (idleLaw_summarizes price).toPermits

/-! ### Model calls -/

variable (price) in
/-- A response is worth what the calls for it reported. What fails was not reported,
unless it failed by another reason than the context limit. -/
def Priced (modelName : String) (r : Except Exn ModelResponse) (m : Amount) : Prop :=
  match r with
  | .ok response => m = usageAmount price modelName response.usage
  | .error e => m = 0 ∨ isContextLimitError e = false

@[simp] theorem usageAmount_nil (modelName : String) : usageAmount price modelName [] = 0 := rfl

@[simp] theorem answerUsage_error (call : Completion) (e : Exn) :
    answerUsage call (.error e) = [] := rfl

@[simp] theorem answerUsage_raw (call : Completion) : answerUsage call (.ok .raw) = [] := rfl

/-- A request of a turn. -/
theorem meters_complete {β : Type} {sync : Bool} {call : Completion} (hcall : call.numRetries.isSome)
    {g : Except Exn CompletionAnswer → Prog β} {Q : Except Exn β → Amount → Prop}
    (hg : ∀ answer, Meters price (g answer) fun r m =>
      Q r (usageAmount price call.model (answerUsage call answer) + m)) :
    Meters price (Prog.ask (.complete sync call) >>= g) Q := by
  have hturn : call.numRetries.isNone = false := by
    cases h : call.numRetries <;> simp_all
  refine tells_bind (Q := fun t r => ∃ answer : Except Exn CompletionAnswer,
    t = [⟨Query.complete sync call, answer⟩] ∧ r = .ok answer) (tells_query fun a _ => ⟨a, rfl, rfl⟩) ?_ ?_
  · rintro t e ⟨_, -, ⟨⟩⟩
  · rintro t answer ⟨_, rfl, ⟨⟩⟩
    refine Tells.mono (hg answer) ?_
    intro t r hQ
    simpa [outstandingEvent, recordedEvent, asksSummary, hturn, reportedAmount] using hQ

theorem answerUsage_responseOf {call : Completion} (h : call.stream = false)
    (answer : CompletionAnswer) : answerUsage call (.ok answer) = (responseOf answer).usage := by
  cases answer with
  | response r => rfl
  | stream tokens result => cases result <;> simp [answerUsage, responseOf, h]
  | raw => rfl

theorem meters_completion (ctx : RunContext) (messages : List Message) (tools : List Tool)
    (job : Job) :
    Meters price (completion ctx messages tools job) (Priced price ctx.modelName) := by
  apply meters_complete rfl
  rintro (e | answer)
  · dsimp only
    split_ifs
    · apply meters_complete rfl
      rintro (e' | answer)
      · exact meters_raise (.inl (by simp))
      · apply meters_pure
        rw [answerUsage_responseOf rfl]
        simp [Priced, completionRequest]
    · exact meters_raise (.inl (by simp))
  · apply meters_pure
    rw [answerUsage_responseOf rfl, add_zero]
    rfl

/-- What raises in the emission of an event is the event store, and not for the context. -/
def StoreFailure {α : Type} (r : Except Exn α) : Prop :=
  ∀ e, r = .error e → isContextLimitError e = false

theorem tells_deskEmit (events : Ref) (runId : RunId) (type source : String) (payload : Dict) :
    Tells (S := sig) (Admitted price) (deskEmit events runId type source payload)
      fun _ r => StoreFailure r := by
  refine tells_bind (Q := fun _ r => StoreFailure r) (tells_update fun _ h => nomatch h)
    (fun _ _ h => h) fun _ _ _ => ?_
  refine tells_bind (Q := fun _ r => StoreFailure r) ?_ (fun _ _ h => h)
    fun _ _ _ => tells_update fun _ h => nomatch h
  refine tells_bind (Q := fun _ r => ∃ answer, r = .ok answer ∧ StoreFailure answer) ?_ ?_ ?_
  · refine tells_query fun answer hanswer => ⟨answer, rfl, ?_⟩
    rintro e rfl
    exact hanswer
  · rintro t e ⟨_, ⟨⟩, -⟩
  · rintro t _ ⟨answer, ⟨⟩, hanswer⟩
    exact tells_ofExcept hanswer

theorem tells_emit (config : RunConfig) (type source : String) (payload : Dict) :
    Tells (S := sig) (Admitted price) (config.emit type source payload)
      fun _ r => StoreFailure r := by
  unfold RunConfig.emit
  split
  · exact tells_deskEmit _ _ _ _ _
  · refine tells_bind (Q := fun _ r => StoreFailure r) (tells_look fun _ _ h => nomatch h)
      (fun _ e h e' he => h e' (congrArg _ (Except.error.inj he))) fun _ fields _ => ?_
    split_ifs
    · exact tells_pure fun _ h => nomatch h
    · exact tells_deskEmit _ _ _ _ _

theorem meters_emitTokens (ctx : RunContext) (workerName : String) (tokens : List (String × String)) :
    Meters price (tokens.forM (emitToken ctx workerName)) fun r m => m = 0 ∧ StoreFailure r := by
  induction tokens with
  | nil => exact meters_pure ⟨rfl, fun _ h => nomatch h⟩
  | cons token tokens ih =>
    rw [List.forM_eq_forM, List.forM_cons]
    have htoken : Meters price (emitToken ctx workerName token) fun r m => m = 0 ∧ StoreFailure r := by
      refine (Tells.and (meters_idle (each_emit idle ctx.config _ _ _)) (tells_emit ctx.config _ _ _)).mono ?_
      rintro t r ⟨⟨hm, -⟩, hstore⟩
      exact ⟨hm, hstore⟩
    refine meters_bind htoken (fun _ _ h => h) ?_
    rintro _ m ⟨rfl, -⟩
    refine ih.mono ?_
    rintro r m ⟨rfl, hr⟩
    exact ⟨by simp, hr⟩

theorem meters_finishStream (ctx : RunContext) (workerName : String) (messages : List Message)
    (tools : List Tool) (job : Job) {call : Completion} (hstream : call.stream = true)
    (answer : Except Exn CompletionAnswer) :
    Meters price (finishStream ctx workerName messages tools job answer) fun r m =>
      Priced price ctx.modelName r
        (usageAmount price ctx.modelName (answerUsage call answer) + m) := by
  match answer with
  | .ok (.response r) =>
    apply meters_pure
    rw [add_zero]
    rfl
  | .ok (.stream tokens result) =>
    refine meters_bind (meters_emitTokens ctx workerName tokens) ?_ ?_
    · rintro e m ⟨-, hstore⟩
      exact .inr (hstore e rfl)
    · rintro _ m ⟨rfl, -⟩
      apply meters_ofExcept
      cases result with
      | error e => exact .inl (by simp [answerUsage])
      | ok r => simp [Priced, answerUsage, hstream]
  | .ok .raw =>
    rw [finishStream]
    simpa using meters_completion ctx messages tools job
  | .error e =>
    rw [finishStream]
    simp only [answerUsage_error, usageAmount_nil, zero_add]
    split_ifs
    · exact meters_completion ctx messages tools job
    · exact meters_raise (.inl rfl)

theorem meters_streamCompletion (ctx : RunContext) (workerName : String) (messages : List Message)
    (tools : List Tool) (job : Job) (schema : Option Schema) :
    Meters price (streamCompletion ctx workerName messages tools job schema)
      (Priced price ctx.modelName) := by
  apply meters_complete rfl
  have hstream : (completionRequest ctx messages tools job true schema).stream = true := rfl
  rintro (e | answer)
  · dsimp only
    split_ifs
    · apply meters_complete rfl
      intro answer
      refine (meters_finishStream ctx workerName messages tools job hstream answer).mono ?_
      intro r m h
      rw [answerUsage_error, usageAmount_nil, zero_add]
      exact h
    · exact meters_finishStream ctx workerName messages tools job hstream (.error e)
  · exact meters_finishStream ctx workerName messages tools job hstream (.ok answer)


/-! ### Acquiring a response -/

/-- A recorded usage is no longer outstanding. -/
theorem meters_recordUsage (ctx : RunContext) (s : LoopState) (usage : Dict) :
    Meters price (recordUsage ctx s usage) fun r m =>
      (∃ s', r = .ok s') ∧ m = -usageAmount price ctx.modelName usage := by
  unfold recordUsage usageAmount
  split_ifs with husage
  · exact meters_pure ⟨⟨s, rfl⟩, by simp⟩
  · have hcost : Meters price (Prog.ask (.usageCost ctx.modelName usage)) fun r m =>
        r = .ok (price ctx.modelName usage) ∧ m = -pricedAmount (price ctx.modelName usage) usage := by
      refine tells_query fun cost hcost => ?_
      obtain rfl : cost = price ctx.modelName usage := hcost
      exact ⟨rfl, by simp [outstandingEvent, recordedEvent, asksSummary, reportedAmount]⟩
    refine meters_bind hcost (fun _ _ h => by cases h.1) ?_
    rintro _ m ⟨⟨⟩, rfl⟩
    have hmodify : Meters price (modifyTotals ctx.config.usageTotals fun totals =>
        totals.recordTurn usage (price ctx.modelName usage)) fun r m => m = 0 ∧ r = .ok () :=
      tells_update ⟨rfl, rfl⟩
    refine meters_bind hmodify (fun _ _ h => by cases h.2) ?_
    rintro _ m ⟨rfl, -⟩
    exact meters_pure ⟨⟨_, rfl⟩, by simp⟩

variable (price) in
/-- The usage of a response is outstanding; all else is recorded. -/
def AcquiredAmount (modelName : String) : Except Exn (Acquired × LoopState) → Amount → Prop
  | .ok (.response response, _), m => m = usageAmount price modelName response.usage
  | .ok _, m => m = 0
  | .error _, _ => True

variable (price) in
/-- What the trace of a part of a turn leaves outstanding. -/
abbrev Acquires (ctx : RunContext) (c : Prog (Acquired × LoopState)) : Prop :=
  Meters price c (AcquiredAmount price ctx.modelName)

/-- Nothing is outstanding and no response is left to process. -/
def Unanswered : Except Exn (Acquired × LoopState) → Amount → Prop
  | .ok (.response _, _), _ => False
  | .ok _, m => m = 0
  | .error _, _ => True

theorem Unanswered.acquired {modelName : String} {r : Except Exn (Acquired × LoopState)} {m : Amount}
    (h : Unanswered r m) : AcquiredAmount price modelName r m := by
  match r with
  | .ok (.response _, _) => exact False.elim h
  | .ok (.again, _) => exact h
  | .ok (.report _, _) => exact h
  | .error _ => trivial

/-- A report that is made without a call. -/
theorem unanswered_report {c : Prog Report} (s : LoopState)
    (hc : Each (idleLaw price) c fun _ => True) :
    Meters price (do pure (Acquired.report (← c), s)) Unanswered :=
  meters_idle_bind hc (fun _ => trivial) fun _ _ => meters_pure rfl

/-- The answer to a retry. -/
theorem unanswered_retry (ctx : RunContext) (s : LoopState) :
    Meters price (do
      match ← retryContextOrReport ctx s with
      | (some report, s) => pure (Acquired.report report, s)
      | (none, s) => pure (.again, s)) Unanswered := by
  refine meters_idle_bind (records_retryContextOrReport (idleLaw_summarizes price) ctx s)
    (fun _ => trivial) ?_
  rintro ⟨_ | report, s'⟩ _
  · exact meters_pure rfl
  · exact meters_pure rfl

theorem acquires_retryOrRaise (ctx : RunContext) (s : LoopState) (e : Exn) :
    Acquires price ctx (retryOrRaise ctx s e) := by
  unfold retryOrRaise
  split_ifs
  · exact (unanswered_retry ctx s).mono fun _ _ h => h.acquired
  · exact meters_raise trivial

variable (price) in
/-- What a structured call returns is worth what it reports. -/
def AnswerPriced (modelName : String) (r : Except Exn StructuredAnswer) (m : Amount) : Prop :=
  match r with
  | .ok answer => m = usageAmount price modelName (answer.usage.getD [])
  | .error _ => m = 0

theorem meters_structured {β : Type} {sync : Bool} {request : StructuredCompletion}
    {g : Except Exn StructuredAnswer → Prog β} {Q : Except Exn β → Amount → Prop}
    (hg : ∀ answer m, AnswerPriced price request.model answer m →
      Meters price (g answer) fun r m' => Q r (m + m')) :
    Meters price (Prog.ask (.structured sync request) >>= g) Q := by
  have hask : Meters price (Prog.ask (.structured sync request)) fun r m =>
      ∃ answer, r = .ok answer ∧ AnswerPriced price request.model answer m := by
    apply tells_query
    intro answer _
    refine ⟨answer, rfl, ?_⟩
    cases answer <;>
      simp [AnswerPriced, outstandingEvent, recordedEvent, reportedAmount, asksSummary]
  refine meters_bind hask ?_ ?_
  · rintro e m ⟨_, ⟨⟩, -⟩
  · rintro answer m ⟨_, ⟨⟩, hanswer⟩
    exact hg answer m hanswer

theorem meters_structuredAnswer (request : StructuredCompletion) :
    Meters price (structuredAnswer request) (AnswerPriced price request.model) := by
  apply meters_structured
  rintro (e | answer) m hm
  · obtain rfl : m = 0 := hm
    simp only [zero_add]
    split_ifs
    · apply meters_structured
      intro answer m hm
      exact meters_ofExcept (by simpa using hm)
    · exact meters_raise rfl
  · exact meters_pure (by simpa using hm)

/-- A structured call leaves nothing outstanding. -/
theorem meters_structuredCompletion (ctx : RunContext) (s : LoopState) (job : Job)
    (schema : Schema) :
    Meters price (structuredCompletion ctx s job schema) fun _ m => m = 0 := by
  refine meters_bind (meters_structuredAnswer _) (fun _ _ h => h) ?_
  intro answer m hm
  obtain rfl : m = usageAmount price ctx.modelName (answer.usage.getD []) := hm
  cases answer.usage with
  | none => exact meters_pure (by simp)
  | some usage =>
    refine meters_bind (meters_recordUsage ctx s usage) ?_ ?_
    · rintro e m ⟨⟨_, ⟨⟩⟩, -⟩
    · rintro s' m ⟨-, rfl⟩
      exact meters_pure (by simp)

theorem unanswered_structuredOrReport (ctx : RunContext) (s : LoopState) (job : Job)
    (schema : Schema) : Meters price (structuredOrReport ctx s job schema) Unanswered := by
  have hattempt : Meters price (structuredCompletion ctx s job schema).attempt fun _ m => m = 0 :=
    meters_attempt (meters_structuredCompletion ctx s job schema)
  refine meters_bind hattempt (fun _ _ _ => trivial) ?_
  rintro (e | ⟨data, s'⟩) m rfl
  · simp only [zero_add]
    split_ifs
    · exact meters_raise trivial
    · exact unanswered_retry ctx s
    · exact unanswered_report s (each_failReport idle ctx s _)
  · simp only [zero_add]
    exact unanswered_report s' (each_finalizeStructured idle ctx s' data)

theorem acquires_structuredOrReport (ctx : RunContext) (s : LoopState) (job : Job)
    (schema : Schema) : Acquires price ctx (structuredOrReport ctx s job schema) :=
  (unanswered_structuredOrReport ctx s job schema).mono fun _ _ h => h.acquired

/-- The outcome of a completion call as a value. -/
theorem meters_attemptPriced {modelName : String} {request : Prog ModelResponse}
    (h : Meters price request (Priced price modelName)) :
    Meters price request.attempt fun r m => ∃ r', r = .ok r' ∧ Priced price modelName r' m :=
  meters_attempt (h.mono fun r _ h => ⟨r, rfl, h⟩)

/-- The handler of a failed completion. -/
theorem acquires_failed (ctx : RunContext) (s : LoopState) {e : Exn} {m : Amount}
    (h : Priced price ctx.modelName (.error e) m) :
    Meters price (if e.isException then retryOrRaise ctx s e else Prog.raise e) fun r m' =>
      AcquiredAmount price ctx.modelName r (m + m') := by
  split_ifs
  · rcases h with rfl | hlimit
    · simpa using @acquires_retryOrRaise price ctx s e
    · unfold retryOrRaise
      rw [hlimit]
      exact meters_raise trivial
  · exact meters_raise trivial

/-- The response of a completion call, or the retry of a failed one. -/
theorem acquires_responseOrRetry (ctx : RunContext) (s : LoopState) {request : Prog ModelResponse}
    (hrequest : Meters price request (Priced price ctx.modelName)) :
    Acquires price ctx (do
      match ← request.attempt with
      | .ok response => pure (.response response, s)
      | .error e => if e.isException then retryOrRaise ctx s e else Prog.raise e) := by
  refine meters_bind (meters_attemptPriced hrequest) (fun _ _ _ => trivial) ?_
  rintro _ m ⟨e | response, ⟨⟩, hm⟩
  · exact acquires_failed ctx s hm
  · apply meters_pure
    rw [add_zero]
    exact hm

theorem acquires_previewOrReport (ctx : RunContext) (s : LoopState) (job : Job) (schema : Schema) :
    Acquires price ctx (previewOrReport ctx s job schema) := by
  have hstream := @meters_streamCompletion price ctx s.workerName s.messages [] job (some schema)
  refine meters_bind (meters_attemptPriced hstream) (fun _ _ _ => trivial) ?_
  rintro _ m ⟨e | streamed, ⟨⟩, hm⟩
  · exact acquires_failed ctx s hm
  · obtain rfl : m = usageAmount price ctx.modelName streamed.usage := hm
    refine meters_bind (meters_recordUsage ctx s streamed.usage) (fun _ _ _ => trivial) ?_
    rintro s' m ⟨-, rfl⟩
    simp only [← add_assoc, add_neg_cancel, zero_add]
    refine meters_idle_bind (each_routine idle trivial) (fun _ => trivial) ?_
    rintro (e | data) _
    · dsimp only
      split_ifs
      · exact acquires_structuredOrReport ctx s' job schema
      · exact meters_raise trivial
    · refine (unanswered_report s' (each_finalizeStructured idle ctx s' data)).mono ?_
      exact fun _ _ h => h.acquired

theorem acquires_acquireTurnResponse (ctx : RunContext) (s : LoopState) (job : Job)
    (tools : List Tool) : Acquires price ctx (acquireTurnResponse ctx s job tools) := by
  have hcompletion := @meters_completion price ctx s.messages tools job
  unfold acquireTurnResponse
  split
  · split_ifs
    · exact acquires_previewOrReport ctx s job _
    · exact acquires_structuredOrReport ctx s job _
    · exact acquires_responseOrRetry ctx s hcompletion
  · apply acquires_responseOrRetry ctx s
    split_ifs
    · exact meters_streamCompletion ctx _ _ tools job none
    · exact hcompletion

/-! ### The run -/

/-- A turn or a run that does not raise leaves nothing outstanding. -/
abbrev Settled {α : Type} : Except Exn α → Amount → Prop
  | .ok _, m => m = 0
  | .error _, _ => True

section

variable {α β : Type}

theorem settled_idle {c : Prog α} {P : α → Prop} (hc : Each (idleLaw price) c P) :
    Meters price c Settled := by
  refine (meters_idle hc).mono ?_
  rintro (e | a) m ⟨rfl, -⟩
  · trivial
  · rfl

theorem settled_bind {c : Prog α} {g : α → Prog β} (hc : Meters price c Settled)
    (hg : ∀ a, Meters price (g a) Settled) : Meters price (c >>= g) Settled := by
  refine meters_bind hc (fun _ _ _ => trivial) fun a m hm => ?_
  obtain rfl : m = 0 := hm
  simpa using hg a

theorem settled_idle_bind {c : Prog α} {g : α → Prog β} {P : α → Prop}
    (hc : Each (idleLaw price) c P) (hg : ∀ a, Meters price (g a) Settled) :
    Meters price (c >>= g) Settled :=
  settled_bind (settled_idle hc) hg

end

/-- Processing a response records its usage. -/
theorem meters_processTurnResponse (ctx : RunContext) (s : LoopState) (job : Job)
    (response : ModelResponse) (tools : List Tool) :
    Meters price (processTurnResponse ctx s job response (allowedTools tools)) fun r m =>
      Settled r (usageAmount price ctx.modelName response.usage + m) := by
  refine meters_bind (meters_recordUsage ctx s response.usage) (fun _ _ _ => trivial) ?_
  rintro s' m ⟨-, rfl⟩
  simp only [← add_assoc, add_neg_cancel, zero_add]
  split_ifs
  · split
    · refine meters_bind (unanswered_structuredOrReport ctx s' job _) (fun _ _ _ => trivial) ?_
      rintro ⟨response' | _ | report, s''⟩ m hm
      · exact False.elim hm
      · obtain rfl : m = 0 := hm
        exact meters_pure (zero_add 0)
      · obtain rfl : m = 0 := hm
        exact meters_pure (zero_add 0)
    · apply settled_idle_bind (each_finalizePlain idle ctx s' response)
      exact fun report => meters_pure rfl
  · exact settled_idle
      (keepsMetrics_processToolCalls (idleLaw_performs price tools) ctx s' job response)

theorem meters_runLoop (ctx : RunContext) (job : Job) (tools : List Tool) (left : ℕ)
    (s : LoopState) : Meters price (runLoop ctx job tools left s) Settled := by
  induction left generalizing s with
  | zero => exact settled_idle_bind (each_failReport idle ctx s _) fun _ => meters_pure rfl
  | succ left ih =>
    apply settled_idle_bind (each_getTotals idle _)
    intro totals
    dsimp only
    split
    · exact settled_idle_bind (each_failReport idle ctx _ _) fun _ => meters_pure rfl
    · apply settled_idle_bind (compacts_compactToLimit (idleLaw_summarizes price) ctx _)
      intro compacted
      refine meters_bind (acquires_acquireTurnResponse ctx compacted job tools)
        (fun _ _ _ => trivial) ?_
      rintro ⟨response | _ | report, acquired⟩ m hm
      · obtain rfl : m = usageAmount price ctx.modelName response.usage := hm
        refine meters_bind (meters_processTurnResponse ctx acquired job response tools)
          (fun _ _ _ => trivial) ?_
        intro turn m' hm'
        replace hm' : usageAmount price ctx.modelName response.usage + m' = 0 := hm'
        simp only [← add_assoc, hm', zero_add]
        rcases turn with next | report | ⟨report, paused⟩
        · exact ih next
        · exact meters_pure rfl
        · exact meters_pure rfl
      · obtain rfl : m = 0 := hm
        simpa using ih acquired
      · obtain rfl : m = 0 := hm
        exact meters_pure (zero_add 0)

theorem meters_enterLoop (worker : Worker) (config : RunConfig) (modelName : String)
    (s : LoopState) (job : Job) :
    Meters price (enterLoop worker config modelName s job) Settled :=
  settled_idle_bind (each_emit idle _ _ _ _) fun _ => meters_runLoop ⟨config, modelName⟩ job _ _ s

/-- Every call of a turn has been recorded once. -/
theorem meters_arun (worker : Worker) (config : RunConfig) (job : Job) :
    Meters price (arun worker config job) Settled := by
  unfold arun
  dsimp only
  split_ifs
  · exact settled_idle (keepsMetrics_modelNotSet idle _ _ _ _)
  · refine settled_idle_bind (each_routine idle trivial) fun registered => ?_
    exact meters_enterLoop worker config _ (startState worker config job registered) job

theorem meters_aresume (worker : Worker) (config : RunConfig) (state : WorkerState)
    (decision : Value) : Meters price (aresume worker config state decision) Settled := by
  have hrestore : Meters price (modifyTotals config.usageTotals fun totals =>
      restoreTotals totals (totalsFromMetrics state.metrics)) Settled := tells_update rfl
  refine settled_bind hrestore fun _ => ?_
  split
  · exact meters_pure rfl
  · next pending _ =>
    have hdecides : Decides (idleLaw price) worker state.job pending decision :=
      ⟨sub_self 0, fun _ _ _ _ _ => sub_self 0⟩
    apply settled_idle_bind (decides_resolvePending idle hdecides _)
    rintro ⟨call, result⟩
    apply settled_idle_bind (each_outcome _)
    intro toolCalls
    dsimp only
    split_ifs
    · exact settled_idle (keepsMetrics_modelNotSet idle _ _ _ _)
    · refine settled_idle_bind (each_routine idle trivial) fun registered => ?_
      exact meters_enterLoop worker _ _ _ state.job

end Blackgeorge.WorkerRunner
