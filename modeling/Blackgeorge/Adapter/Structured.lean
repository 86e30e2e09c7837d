import Blackgeorge.Data.Records

/-! The structured-output pipeline of the adapter: one attempt with a JSON schema, one with
a JSON object, then attempts with retries. The pipeline yields calls of the model and is sent
their outcomes; the request that drives it sums the usage. -/

namespace Blackgeorge.Adapter

open Data

/-! ### Calls and schemas -/

/-- What a call of the model returned. A call through Instructor also gives the object that
Instructor made of the response. -/
structure CallResponse where
  content : Option String
  result : Value := .none
  usage : Dict := []

/-- How a call of the model ended. -/
abbrev CallOutcome := Except Exn CallResponse

/-- `_StructuredCall`. The flag says that the call goes through Instructor. -/
structure StructuredCall where
  messages : List Dict
  responseFormat : Option Value := none
  instructor : Bool := false

/-- A response schema: its name, its JSON schema if there is one with the text of it, and
what it makes of a JSON text. -/
structure ResponseSchema where
  name : String
  jsonSchema : Option (Value × String)
  baseModel : Bool
  validate : String → Except Exn Value

/-- `_structured_pipeline` as a generator: it ends, or yields a call and goes on with the
outcome. -/
inductive Pipeline where
  | ends (result : Except Exn Value)
  | yields (call : StructuredCall) (next : CallOutcome → Pipeline)

/-! ### Errors -/

/-- `_is_json_schema_unavailable_error`. -/
def isJsonSchemaUnavailableError (e : Exn) : Bool :=
  ["response_format type is unavailable", "json_schema is not supported",
    "json schema is not supported", "does not support json_schema"].any
    (Text.contains (Text.lower e.text))

/-- `_is_response_format_unsupported_error`. -/
def isResponseFormatUnsupportedError (e : Exn) : Bool :=
  isJsonSchemaUnavailableError e ||
    ["response_format unsupported", "unsupported response_format",
      "does not support response_format"].any (Text.contains (Text.lower e.text))

/-! ### Responses -/

/-- A content that is not empty. -/
def CallResponse.text (r : CallResponse) : Option String := r.content.filter (· ≠ "")

/-- `_parse_completion_response`. -/
def parseCompletionResponse (schema : ResponseSchema) (r : CallResponse) : Except Exn Value :=
  match r.text with
  | none => .error (valueError "Empty response content")
  | some content => schema.validate content

/-- `_json_schema_attempt`: whether the attempt failed, and the value or `None`. -/
def jsonSchemaAttempt (schema : ResponseSchema) : CallOutcome → Except Exn (Bool × Value)
  | .ok r =>
    match r.text with
    | none => .ok (false, .none)
    | some content =>
      match schema.validate content with
      | .ok value => .ok (false, value)
      | .error _ => .ok (true, .none)
  | .error e =>
    if isJsonSchemaUnavailableError e then .ok (true, .none)
    else if isResponseFormatUnsupportedError e then .ok (false, .none)
    else .error e

/-- `_json_object_attempt`: the value or `None`. -/
def jsonObjectAttempt (schema : ResponseSchema) : CallOutcome → Except Exn Value
  | .ok r =>
    match r.text with
    | none => .ok .none
    | some content =>
      match schema.validate content with
      | .ok value => .ok value
      | .error _ => .ok .none
  | .error e => if isResponseFormatUnsupportedError e then .ok .none else .error e

/-! ### The pipeline -/

/-- `_response_format`. -/
def responseFormat (schema : ResponseSchema) : Option Value :=
  schema.jsonSchema.map fun (json, _) =>
    .dict [("type", .str "json_schema"), ("json_schema", .dict [("name", .str schema.name),
      ("schema", json), ("strict", .bool true)])]

/-- `_build_json_object_prompt`. -/
def buildJsonObjectPrompt (schema : ResponseSchema) : String :=
  match schema.jsonSchema with
  | none => ""
  | some (_, text) => "Respond with valid JSON matching this schema: " ++ text

/-- `_structured_retry_prompt`. -/
def structuredRetryPrompt (e : Exn) : String :=
  "Fix validation errors and return only JSON that matches the schema. " ++
  "Do not output YAML. Do not wrap objects as strings. " ++
  "If a field is a list, each item must be a JSON object, not a string. " ++
  "Validation errors: " ++ e.text

def userMessage (content : String) : Dict := [("role", .str "user"), ("content", .str content)]

/-- What a call's outcome amounts to: the validated value, or the error of the call or of
its response. What Instructor returns is valid. -/
def verdict (schema : ResponseSchema) (instructor : Bool) : CallOutcome → Except Exn Value
  | .ok r => if instructor then .ok r.result else parseCompletionResponse schema r
  | .error e => .error e

/-- The loop of final attempts, with `left` retries to come. -/
def finalAttempts (schema : ResponseSchema) : (left : ℕ) → List Dict → Pipeline
  | 0, payload =>
    .yields { messages := payload, instructor := schema.baseModel } fun outcome =>
      .ends (verdict schema schema.baseModel outcome)
  | left + 1, payload =>
    .yields { messages := payload, instructor := schema.baseModel } fun outcome =>
      match verdict schema schema.baseModel outcome with
      | .ok value => .ends (.ok value)
      | .error e => finalAttempts schema left (payload ++ [userMessage (structuredRetryPrompt e)])

/-- The attempt with a JSON object, made if the one with a JSON schema failed. -/
def jsonObjectPhase (schema : ResponseSchema) (payload : List Dict) (retries : ℕ)
    (jsonSchemaFailed : Bool) : Pipeline :=
  let schemaPrompt := if jsonSchemaFailed then buildJsonObjectPrompt schema else ""
  if schemaPrompt = "" then finalAttempts schema retries payload
  else
    .yields
      { messages := payload ++ [userMessage schemaPrompt]
        responseFormat := some (.dict [("type", .str "json_object")]) } fun outcome =>
      match jsonObjectAttempt schema outcome with
      | .error e => .ends (.error e)
      | .ok value =>
        if value.isNone then finalAttempts schema retries payload else .ends (.ok value)

/-- `_structured_pipeline`. -/
def structuredPipeline (schema : ResponseSchema) (payload : List Dict) (retries : ℕ) : Pipeline :=
  match responseFormat schema with
  | none => jsonObjectPhase schema payload retries false
  | some format =>
    .yields { messages := payload, responseFormat := some format } fun outcome =>
      match jsonSchemaAttempt schema outcome with
      | .error e => .ends (.error e)
      | .ok (jsonSchemaFailed, value) =>
        if value.isNone then jsonObjectPhase schema payload retries jsonSchemaFailed
        else .ends (.ok value)

/-! ### The request -/

/-- What a request did: the calls it made, how it ended and the usage it summed. -/
structure RequestRun where
  calls : List StructuredCall
  result : Except Exn Value
  usage : TokenUsage

/-- The usage with that of a call that returned. -/
def recordOutcome (usage : TokenUsage) : CallOutcome → TokenUsage
  | .ok r => addTokenUsage usage r.usage
  | .error _ => usage

/-- `_StructuredRequest.run`, where `outcomes` ends the calls from `index` on. What is no
`Exception` passes through. -/
def runPipeline (outcomes : ℕ → CallOutcome) : Pipeline → (index : ℕ) → TokenUsage → RequestRun
  | .ends result, _, usage => ⟨[], result, usage⟩
  | .yields call next, index, usage =>
    let later := runPipeline outcomes (next (outcomes index)) (index + 1)
      (recordOutcome usage (outcomes index))
    match outcomes index with
    | .error e =>
      if e.isException then { later with calls := call :: later.calls }
      else ⟨[call], .error e, usage⟩
    | .ok _ => { later with calls := call :: later.calls }

/-- `structured_complete`. -/
def structuredComplete (outcomes : ℕ → CallOutcome) (schema : ResponseSchema)
    (payload : List Dict) (retries : ℕ) : RequestRun :=
  runPipeline outcomes (structuredPipeline schema payload retries) 0 {}

/-! ### The final attempts -/

variable {outcomes : ℕ → CallOutcome} {schema : ResponseSchema}

/-- The outcome is sent back to the pipeline. -/
def handled : CallOutcome → Bool
  | .ok _ => true
  | .error e => e.isException

/-- A final attempt with this outcome is followed by the next, if there is one. -/
def retried (schema : ResponseSchema) (outcome : CallOutcome) : Bool :=
  handled outcome && !(verdict schema schema.baseModel outcome).isOk

/-- The usage of `n` calls from an index on. -/
def usageOf (outcomes : ℕ → CallOutcome) (index n : ℕ) (usage : TokenUsage) : TokenUsage :=
  (List.range' index n).foldl (fun usage i => recordOutcome usage (outcomes i)) usage

theorem runPipeline_handled {call : StructuredCall} {next : CallOutcome → Pipeline} {index : ℕ}
    (h : handled (outcomes index) = true) (usage : TokenUsage) :
    runPipeline outcomes (.yields call next) index usage =
      { runPipeline outcomes (next (outcomes index)) (index + 1)
          (recordOutcome usage (outcomes index)) with
        calls := call :: (runPipeline outcomes (next (outcomes index)) (index + 1)
          (recordOutcome usage (outcomes index))).calls } := by
  rw [runPipeline]
  cases houtcome : outcomes index with
  | ok r => rfl
  | error e =>
    rw [houtcome] at h
    have hexception : e.isException = true := h
    dsimp only
    rw [if_pos hexception]

theorem runPipeline_passed {call : StructuredCall} {next : CallOutcome → Pipeline} {index : ℕ}
    (h : handled (outcomes index) = false) (usage : TokenUsage) :
    ∃ e, outcomes index = .error e ∧
      runPipeline outcomes (.yields call next) index usage = ⟨[call], .error e, usage⟩ := by
  cases houtcome : outcomes index with
  | ok r =>
    rw [houtcome] at h
    cases h
  | error e =>
    rw [houtcome] at h
    refine ⟨e, rfl, ?_⟩
    rw [runPipeline]
    simp only [houtcome]
    exact if_neg (by simpa [handled] using h)

/-- `n` final attempts from `index` on, with `left` retries to come after the first. -/
structure FinalRun (outcomes : ℕ → CallOutcome) (schema : ResponseSchema) (left index n : ℕ)
    (usage : TokenUsage) (run : RequestRun) : Prop where
  length : run.calls.length = n
  instructor : ∀ call ∈ run.calls, call.instructor = schema.baseModel
  pos : 0 < n
  bound : n ≤ left + 1
  result : run.result = verdict schema schema.baseModel (outcomes (index + (n - 1)))
  earlier : ∀ j, j + 1 < n → retried schema (outcomes (index + j)) = true
  last : n ≤ left → retried schema (outcomes (index + (n - 1))) = false
  usage_eq : run.usage = usageOf outcomes index n usage

/-- An attempt that is not followed by another. -/
theorem FinalRun.single {left index : ℕ} {usage : TokenUsage} {call : StructuredCall}
    {next : CallOutcome → Pipeline} (hcall : call.instructor = schema.baseModel)
    (hlast : 0 < left → retried schema (outcomes index) = false)
    (hnext : handled (outcomes index) = true →
      next (outcomes index) = .ends (verdict schema schema.baseModel (outcomes index))) :
    FinalRun outcomes schema left index 1 usage
      (runPipeline outcomes (.yields call next) index usage) := by
  have hrun : runPipeline outcomes (.yields call next) index usage =
      ⟨[call], verdict schema schema.baseModel (outcomes index),
        recordOutcome usage (outcomes index)⟩ := by
    cases hhandled : handled (outcomes index) with
    | true =>
      rw [runPipeline_handled hhandled, hnext hhandled]
      rfl
    | false =>
      obtain ⟨e, he, hrun⟩ := @runPipeline_passed outcomes call next _ hhandled usage
      rw [hrun, he]
      rfl
  rw [hrun]
  exact ⟨rfl, by simpa using hcall, by omega, by omega, rfl, fun j hj => absurd hj (by omega),
    fun h => hlast (by omega), rfl⟩

theorem retried_iff {outcome : CallOutcome} :
    retried schema outcome = true ↔
      handled outcome = true ∧ ∃ e, verdict schema schema.baseModel outcome = .error e := by
  unfold retried
  cases verdict schema schema.baseModel outcome <;> simp [Except.isOk, Except.toBool]

theorem finalAttempts_run (left : ℕ) : ∀ (payload : List Dict) (index : ℕ) (usage : TokenUsage),
    ∃ n, FinalRun outcomes schema left index n usage
      (runPipeline outcomes (finalAttempts schema left payload) index usage) := by
  induction left with
  | zero => exact fun payload index usage => ⟨1, .single rfl (by omega) fun _ => rfl⟩
  | succ left ih =>
    intro payload index usage
    rw [finalAttempts]
    cases hretried : retried schema (outcomes index) with
    | false =>
      refine ⟨1, .single rfl (fun _ => hretried) fun hhandled => ?_⟩
      cases hverdict : verdict schema schema.baseModel (outcomes index) with
      | ok value => rfl
      | error e =>
        have hr := retried_iff.mpr ⟨hhandled, e, hverdict⟩
        rw [hretried] at hr
        cases hr
    | true =>
      obtain ⟨hhandled, e, he⟩ := retried_iff.mp hretried
      obtain ⟨n, h⟩ := ih (payload ++ [userMessage (structuredRetryPrompt e)]) (index + 1)
        (recordOutcome usage (outcomes index))
      refine ⟨n + 1, ?_⟩
      rw [runPipeline_handled hhandled]
      simp only [he]
      have hpos := h.pos
      have hbound := h.bound
      have hindex : index + (n + 1 - 1) = index + 1 + (n - 1) := by omega
      refine ⟨by simp [h.length], ?_, by omega, by omega, ?_, fun j hj => ?_, fun hn => ?_, ?_⟩
      · intro call hcall
        obtain rfl | hcall := List.mem_cons.mp hcall
        · rfl
        · exact h.instructor call hcall
      · rw [hindex]
        exact h.result
      · cases j with
        | zero => exact hretried
        | succ j =>
          have hj' := h.earlier j (by omega)
          rwa [Nat.add_right_comm] at hj'
      · rw [hindex]
        exact h.last (by omega)
      · exact h.usage_eq

/-! ### The attempts before -/

/-- What follows the attempt with a JSON schema: nothing, or whether it failed. -/
def afterJsonSchema (schema : ResponseSchema) (outcome : CallOutcome) : Option Bool :=
  match jsonSchemaAttempt schema outcome with
  | .ok (failed, value) => if handled outcome && value.isNone then some failed else none
  | .error _ => none

/-- The attempt with a JSON object is followed by the final ones. -/
def afterJsonObject (schema : ResponseSchema) (outcome : CallOutcome) : Bool :=
  match jsonObjectAttempt schema outcome with
  | .ok value => handled outcome && value.isNone
  | .error _ => false

/-- The index of the first final attempt, if there is one. -/
def finalStart (schema : ResponseSchema) (outcomes : ℕ → CallOutcome) : Option ℕ :=
  match schema.jsonSchema with
  | none => some 0
  | some _ =>
    match afterJsonSchema schema (outcomes 0) with
    | none => none
    | some false => some 1
    | some true => if afterJsonObject schema (outcomes 1) then some 2 else none

/-- A call that ends the pipeline. -/
def RequestRun.last (call : StructuredCall) (result : Except Exn Value) (usage : TokenUsage) :
    RequestRun := ⟨[call], result, usage⟩

/-- A call before the others. -/
def RequestRun.cons (call : StructuredCall) (run : RequestRun) : RequestRun :=
  { run with calls := call :: run.calls }

theorem jsonSchemaAttempt_error {outcome : CallOutcome} {e : Exn}
    (h : jsonSchemaAttempt schema outcome = .error e) :
    outcome = .error e ∧ isResponseFormatUnsupportedError e = false := by
  cases outcome with
  | ok r =>
    simp only [jsonSchemaAttempt] at h
    cases htext : r.text with
    | none =>
      rw [htext] at h
      cases h
    | some content =>
      rw [htext] at h
      dsimp only at h
      cases hvalidate : schema.validate content <;> rw [hvalidate] at h <;> cases h
  | error e' =>
    simp only [jsonSchemaAttempt] at h
    by_cases hjson : isJsonSchemaUnavailableError e' = true
    · rw [if_pos hjson] at h
      cases h
    · by_cases hformat : isResponseFormatUnsupportedError e' = true
      · rw [if_neg hjson, if_pos hformat] at h
        cases h
      · rw [if_neg hjson, if_neg hformat] at h
        cases h
        exact ⟨rfl, by simpa using hformat⟩

/-- The verdict on an attempt with a JSON schema that ends the pipeline or goes on. -/
theorem jsonSchemaAttempt_ok {outcome : CallOutcome} {failed : Bool} {value : Value}
    (h : jsonSchemaAttempt schema outcome = .ok (failed, value)) :
    (failed = false ∧ verdict schema false outcome = .ok value) ∨
      (value = .none ∧ ∃ e, verdict schema false outcome = .error e) := by
  cases outcome with
  | ok r =>
    simp only [jsonSchemaAttempt] at h
    simp only [verdict, parseCompletionResponse, Bool.false_eq_true, if_false]
    cases htext : r.text with
    | none =>
      rw [htext] at h
      cases h
      exact .inr ⟨rfl, _, rfl⟩
    | some content =>
      rw [htext] at h
      dsimp only at h ⊢
      cases hvalidate : schema.validate content with
      | ok v =>
        rw [hvalidate] at h
        cases h
        exact .inl ⟨rfl, rfl⟩
      | error e =>
        rw [hvalidate] at h
        cases h
        exact .inr ⟨rfl, e, rfl⟩
  | error e =>
    refine .inr ⟨?_, e, rfl⟩
    simp only [jsonSchemaAttempt] at h
    by_cases hjson : isJsonSchemaUnavailableError e = true
    · rw [if_pos hjson] at h
      cases h
      rfl
    · by_cases hformat : isResponseFormatUnsupportedError e = true
      · rw [if_neg hjson, if_pos hformat] at h
        cases h
        rfl
      · rw [if_neg hjson, if_neg hformat] at h
        cases h

/-- Either attempt makes the same of an outcome, but for whether it failed. -/
theorem jsonObjectAttempt_eq (outcome : CallOutcome) :
    jsonObjectAttempt schema outcome = (jsonSchemaAttempt schema outcome).map Prod.snd := by
  cases outcome with
  | ok r =>
    simp only [jsonObjectAttempt, jsonSchemaAttempt]
    cases r.text with
    | none => rfl
    | some content =>
      dsimp only
      cases schema.validate content <;> rfl
  | error e =>
    simp only [jsonObjectAttempt, jsonSchemaAttempt]
    by_cases hjson : isJsonSchemaUnavailableError e = true
    · have hformat : isResponseFormatUnsupportedError e = true := by
        simp [isResponseFormatUnsupportedError, hjson]
      rw [if_pos hformat, if_pos hjson]
      rfl
    · rw [if_neg hjson]
      by_cases hformat : isResponseFormatUnsupportedError e = true
      · rw [if_pos hformat, if_pos hformat]
        rfl
      · rw [if_neg hformat, if_neg hformat]
        rfl

theorem jsonObjectAttempt_error {outcome : CallOutcome} {e : Exn}
    (h : jsonObjectAttempt schema outcome = .error e) :
    outcome = .error e ∧ isResponseFormatUnsupportedError e = false := by
  rw [jsonObjectAttempt_eq] at h
  cases hattempt : jsonSchemaAttempt schema outcome with
  | ok p =>
    rw [hattempt] at h
    cases h
  | error e' =>
    rw [hattempt] at h
    cases h
    exact jsonSchemaAttempt_error hattempt

theorem jsonObjectAttempt_ok {outcome : CallOutcome} {value : Value}
    (h : jsonObjectAttempt schema outcome = .ok value) :
    verdict schema false outcome = .ok value ∨
      (value = .none ∧ ∃ e, verdict schema false outcome = .error e) := by
  rw [jsonObjectAttempt_eq] at h
  cases hattempt : jsonSchemaAttempt schema outcome with
  | error e =>
    rw [hattempt] at h
    cases h
  | ok p =>
    obtain ⟨failed, value'⟩ := p
    rw [hattempt] at h
    cases h
    obtain ⟨-, hverdict⟩ | hverdict := jsonSchemaAttempt_ok hattempt
    · exact .inl hverdict
    · exact .inr hverdict

theorem isNone_iff {value : Value} : value.isNone = true ↔ value = .none := by
  cases value <;> simp [Value.isNone]

/-- What an attempt before the final ones leads to: `follows` says whether the pipeline goes
on with what it makes of the outcome. -/
theorem attempt_run {call : StructuredCall} {next : CallOutcome → Pipeline} {index : ℕ}
    {usage : TokenUsage} {follows : Option Pipeline}
    (hnext : handled (outcomes index) = true → next (outcomes index) =
      follows.getD (.ends (verdict schema false (outcomes index))))
    (hpassed : handled (outcomes index) = false → follows = none) :
    runPipeline outcomes (.yields call next) index usage =
      follows.elim
        (.last call (verdict schema false (outcomes index))
          (recordOutcome usage (outcomes index)))
        fun pipeline => .cons call (runPipeline outcomes pipeline (index + 1)
          (recordOutcome usage (outcomes index))) := by
  cases hhandled : handled (outcomes index) with
  | true =>
    rw [runPipeline_handled hhandled, hnext hhandled]
    cases follows <;> rfl
  | false =>
    obtain ⟨e, he, hrun⟩ := @runPipeline_passed outcomes call next _ hhandled usage
    rw [hrun, hpassed hhandled, he]
    rfl

theorem jsonSchema_next (outcome : CallOutcome) (hhandled : handled outcome = true)
    (payload : List Dict) (retries : ℕ) :
    (match jsonSchemaAttempt schema outcome with
      | .error e => Pipeline.ends (.error e)
      | .ok (failed, value) =>
        if value.isNone then jsonObjectPhase schema payload retries failed
        else .ends (.ok value)) =
      ((afterJsonSchema schema outcome).map (jsonObjectPhase schema payload retries)).getD
        (.ends (verdict schema false outcome)) := by
  cases hattempt : jsonSchemaAttempt schema outcome with
  | error e =>
    obtain ⟨rfl, -⟩ := jsonSchemaAttempt_error hattempt
    simp [afterJsonSchema, hattempt, verdict]
  | ok p =>
    obtain ⟨failed, value⟩ := p
    cases hnone : value.isNone with
    | true => simp [afterJsonSchema, hattempt, hhandled, hnone]
    | false =>
      have hverdict : verdict schema false outcome = .ok value := by
        obtain ⟨-, hverdict⟩ | ⟨rfl, -⟩ := jsonSchemaAttempt_ok hattempt
        · exact hverdict
        · cases hnone
      simp [afterJsonSchema, hattempt, hnone, hverdict]

theorem jsonObject_next (outcome : CallOutcome) (hhandled : handled outcome = true)
    (payload : List Dict) (retries : ℕ) :
    (match jsonObjectAttempt schema outcome with
      | .error e => Pipeline.ends (.error e)
      | .ok value =>
        if value.isNone then finalAttempts schema retries payload else .ends (.ok value)) =
      (if afterJsonObject schema outcome then some (finalAttempts schema retries payload)
        else none).getD (.ends (verdict schema false outcome)) := by
  cases hattempt : jsonObjectAttempt schema outcome with
  | error e =>
    obtain ⟨rfl, -⟩ := jsonObjectAttempt_error hattempt
    simp [afterJsonObject, hattempt, verdict]
  | ok value =>
    cases hnone : value.isNone with
    | true => simp [afterJsonObject, hattempt, hhandled, hnone]
    | false =>
      have hverdict : verdict schema false outcome = .ok value := by
        obtain hverdict | ⟨rfl, -⟩ := jsonObjectAttempt_ok hattempt
        · exact hverdict
        · cases hnone
      simp [afterJsonObject, hattempt, hnone, hverdict]

/-! ### The whole pipeline -/

/-- The pipeline ends before the final attempts, after `n` calls. -/
structure EarlyRun (outcomes : ℕ → CallOutcome) (schema : ResponseSchema) (n : ℕ)
    (run : RequestRun) : Prop where
  length : run.calls.length = n
  plain : ∀ call ∈ run.calls, call.instructor = false
  pos : 0 < n
  bound : n ≤ 2
  result : run.result = verdict schema false (outcomes (n - 1))
  failed : n = 2 → afterJsonSchema schema (outcomes 0) = some true
  usage_eq : run.usage = usageOf outcomes 0 n {}

/-- The pipeline comes to its final attempts after `first` calls and makes `n` of them. -/
def FullRun (outcomes : ℕ → CallOutcome) (schema : ResponseSchema) (retries first n : ℕ)
    (run : RequestRun) : Prop :=
  ∃ early final, run = ⟨early ++ final.calls, final.result, final.usage⟩ ∧
    early.length = first ∧ (∀ call ∈ early, call.instructor = false) ∧
    FinalRun outcomes schema retries first n (usageOf outcomes 0 first {}) final

theorem RequestRun.cons_eq (call : StructuredCall) (run : RequestRun) :
    RequestRun.cons call run = ⟨[call] ++ run.calls, run.result, run.usage⟩ := rfl

theorem RequestRun.cons_cons_eq (call call' : StructuredCall) (run : RequestRun) :
    RequestRun.cons call (.cons call' run) = ⟨[call, call'] ++ run.calls, run.result, run.usage⟩ :=
  rfl

theorem jsonObjectPhase_false (schema : ResponseSchema) (payload : List Dict) (retries : ℕ) :
    jsonObjectPhase schema payload retries false = finalAttempts schema retries payload := by
  simp [jsonObjectPhase]

theorem buildJsonObjectPrompt_ne {json : Value × String} (h : schema.jsonSchema = some json) :
    buildJsonObjectPrompt schema ≠ "" := by
  rw [buildJsonObjectPrompt, h]
  intro heq
  have hlength := congrArg (fun s : String => s.toList.length) heq
  simp at hlength

theorem structuredComplete_run (outcomes : ℕ → CallOutcome) (schema : ResponseSchema)
    (payload : List Dict) (retries : ℕ) :
    match finalStart schema outcomes with
    | none => ∃ n, EarlyRun outcomes schema n (structuredComplete outcomes schema payload retries)
    | some first => ∃ n, FullRun outcomes schema retries first n
        (structuredComplete outcomes schema payload retries) := by
  unfold structuredComplete structuredPipeline responseFormat finalStart
  cases hschema : schema.jsonSchema with
  | none =>
    obtain ⟨n, h⟩ := @finalAttempts_run outcomes schema retries payload 0 {}
    dsimp only [Option.map_none]
    rw [jsonObjectPhase_false]
    exact ⟨n, [], _, rfl, rfl, by simp, h⟩
  | some json =>
    dsimp only [Option.map_some]
    have hpassed (h : handled (outcomes 0) = false) :
        (afterJsonSchema schema (outcomes 0)).map (jsonObjectPhase schema payload retries) = none := by
      have hnone : afterJsonSchema schema (outcomes 0) = none := by
        unfold afterJsonSchema
        rw [h]
        split <;> rfl
      rw [hnone]
      rfl
    rw [attempt_run (fun hhandled => jsonSchema_next _ hhandled payload retries) hpassed]
    cases hfirst : afterJsonSchema schema (outcomes 0) with
    | none =>
      exact ⟨1, rfl, by simp [RequestRun.last], by omega, by omega, rfl, by omega, rfl⟩
    | some failed =>
      cases failed with
      | false =>
        obtain ⟨n, h⟩ := @finalAttempts_run outcomes schema retries payload
          1 (recordOutcome {} (outcomes 0))
        rw [Option.map_some, Option.elim_some, jsonObjectPhase_false]
        exact ⟨n, _, _, RequestRun.cons_eq _ _, rfl, by simp, h⟩
      | true =>
        have hprompt := buildJsonObjectPrompt_ne hschema
        simp only [Option.map_some, Option.elim_some, jsonObjectPhase, if_true, if_neg hprompt]
        have hpassed (h : handled (outcomes 1) = false) : (if afterJsonObject schema (outcomes 1) then
            some (finalAttempts schema retries payload) else none) = none := by
          have hnone : afterJsonObject schema (outcomes 1) = false := by
            unfold afterJsonObject
            rw [h]
            split <;> rfl
          rw [hnone]
          rfl
        rw [attempt_run (fun hhandled => jsonObject_next _ hhandled payload retries) hpassed]
        cases hsecond : afterJsonObject schema (outcomes 1) with
        | false =>
          exact ⟨2, rfl, by simp [RequestRun.last, RequestRun.cons], by omega, by omega, rfl,
            fun _ => hfirst, rfl⟩
        | true =>
          obtain ⟨n, h⟩ := @finalAttempts_run outcomes schema retries
            payload 2 (usageOf outcomes 0 2 {})
          exact ⟨n, _, _, RequestRun.cons_cons_eq _ _ _, rfl, by simp, h⟩

theorem afterJsonSchema_some {outcome : CallOutcome} {failed : Bool}
    (h : afterJsonSchema schema outcome = some failed) :
    (∃ e, verdict schema false outcome = .error e) ∨
      (failed = false ∧ verdict schema false outcome = .ok .none) := by
  unfold afterJsonSchema at h
  cases hattempt : jsonSchemaAttempt schema outcome with
  | error e =>
    rw [hattempt] at h
    cases h
  | ok p =>
    obtain ⟨failed', value⟩ := p
    rw [hattempt] at h
    dsimp only at h
    by_cases hgoes : (handled outcome && value.isNone) = true
    · rw [if_pos hgoes] at h
      cases h
      obtain ⟨hfailed, hverdict⟩ | ⟨-, hverdict⟩ := jsonSchemaAttempt_ok hattempt
      · rw [Bool.and_eq_true] at hgoes
        rw [isNone_iff.mp hgoes.2] at hverdict
        exact .inr ⟨hfailed, hverdict⟩
      · exact .inl hverdict
    · rw [if_neg hgoes] at h
      cases h

theorem afterJsonObject_true {outcome : CallOutcome}
    (h : afterJsonObject schema outcome = true) :
    (∃ e, verdict schema false outcome = .error e) ∨ verdict schema false outcome = .ok .none := by
  unfold afterJsonObject at h
  cases hattempt : jsonObjectAttempt schema outcome with
  | error e =>
    rw [hattempt] at h
    cases h
  | ok value =>
    rw [hattempt] at h
    simp only [Bool.and_eq_true] at h
    obtain hverdict | ⟨-, hverdict⟩ := jsonObjectAttempt_ok hattempt
    · rw [isNone_iff.mp h.2] at hverdict
      exact .inr hverdict
    · exact .inl hverdict

/-- A content that stands for `None` does not end the attempts with a response format. -/
theorem null_goes_on {outcome : CallOutcome} (h : verdict schema false outcome = .ok .none) :
    afterJsonSchema schema outcome = some false ∧ afterJsonObject schema outcome = true := by
  cases outcome with
  | error e => cases h
  | ok r =>
    simp only [verdict, parseCompletionResponse, Bool.false_eq_true, if_false] at h
    cases htext : r.text with
    | none =>
      rw [htext] at h
      cases h
    | some content =>
      rw [htext] at h
      dsimp only at h
      constructor
      · simp [afterJsonSchema, jsonSchemaAttempt, htext, h, handled, Value.isNone]
      · simp [afterJsonObject, jsonObjectAttempt, htext, h, handled, Value.isNone]

/-- At most `retries + 3` calls; the last one decides how the pipeline ends, and none before
it has a valid response; the usage is that of the calls that returned. -/
structure StopsAtFirstValid (outcomes : ℕ → CallOutcome) (schema : ResponseSchema) (retries : ℕ)
    (run : RequestRun) : Prop where
  bound : run.calls.length ≤ retries + 3
  ends : ∃ call, run.calls.getLast? = some call ∧
    run.result = verdict schema call.instructor (outcomes (run.calls.length - 1))
  earlier : ∀ i call, run.calls[i]? = some call → i + 1 < run.calls.length →
    ∃ e, verdict schema call.instructor (outcomes i) = .error e
  usage_eq : run.usage = usageOf outcomes 0 run.calls.length {}

/-- No attempt with a response format gets a content that stands for `None`. -/
def NullFree (outcomes : ℕ → CallOutcome) (schema : ResponseSchema) : Prop :=
  schema.jsonSchema.isSome → verdict schema false (outcomes 0) ≠ .ok .none ∧
    (afterJsonSchema schema (outcomes 0) = some true →
      verdict schema false (outcomes 1) ≠ .ok .none)

theorem getLast?_instructor {calls : List StructuredCall} {flag : Bool} (hpos : 0 < calls.length)
    (h : ∀ call ∈ calls, call.instructor = flag) :
    ∃ call, calls.getLast? = some call ∧ call.instructor = flag := by
  have hne : calls ≠ [] := List.length_pos_iff.mp hpos
  exact ⟨_, List.getLast?_eq_some_getLast hne, h _ (List.getLast_mem hne)⟩

theorem EarlyRun.stops {n retries : ℕ} {run : RequestRun} (h : EarlyRun outcomes schema n run) :
    StopsAtFirstValid outcomes schema retries run := by
  have hpos := h.pos
  have hbound := h.bound
  have hlength := h.length
  obtain ⟨call, hcall, hplain⟩ := getLast?_instructor (by omega) h.plain
  refine ⟨by omega, ⟨call, hcall, ?_⟩, fun i call hi hlt => ?_, ?_⟩
  · rw [hplain, hlength]
    exact h.result
  · obtain rfl : i = 0 := by omega
    rw [h.plain call (List.mem_of_getElem? hi)]
    obtain herror | ⟨hfailed, -⟩ := afterJsonSchema_some (h.failed (by omega))
    · exact herror
    · cases hfailed
  · rw [hlength]
    exact h.usage_eq

theorem nullFree_of_none (h : finalStart schema outcomes = none) : NullFree outcomes schema := by
  intro hsome
  obtain ⟨json, hjson⟩ := Option.isSome_iff_exists.mp hsome
  unfold finalStart at h
  rw [hjson] at h
  dsimp only at h
  constructor
  · intro hnull
    rw [(null_goes_on hnull).1] at h
    cases h
  · intro hfailed hnull
    rw [hfailed] at h
    simp only [(null_goes_on hnull).2, if_true] at h
    cases h

theorem usageOf_append (first n : ℕ) (usage : TokenUsage) :
    usageOf outcomes first n (usageOf outcomes 0 first usage) =
      usageOf outcomes 0 (first + n) usage := by
  unfold usageOf
  rw [← List.foldl_append, ← List.range'_append_1, Nat.zero_add]

/-- How the final attempts are reached. -/
theorem finalStart_some {first : ℕ} (h : finalStart schema outcomes = some first) :
    (first = 0 ∧ schema.jsonSchema = none) ∨
      (schema.jsonSchema.isSome ∧
        ((first = 1 ∧ afterJsonSchema schema (outcomes 0) = some false) ∨
          (first = 2 ∧ afterJsonSchema schema (outcomes 0) = some true ∧
            afterJsonObject schema (outcomes 1) = true))) := by
  unfold finalStart at h
  cases hschema : schema.jsonSchema with
  | none =>
    rw [hschema] at h
    cases h
    exact .inl ⟨rfl, rfl⟩
  | some json =>
    refine .inr ⟨rfl, ?_⟩
    rw [hschema] at h
    dsimp only at h
    cases hfirst : afterJsonSchema schema (outcomes 0) with
    | none =>
      rw [hfirst] at h
      cases h
    | some failed =>
      rw [hfirst] at h
      cases failed with
      | false =>
        cases h
        exact .inl ⟨rfl, rfl⟩
      | true =>
        dsimp only at h
        by_cases hobject : afterJsonObject schema (outcomes 1) = true
        · rw [if_pos hobject] at h
          cases h
          exact .inr ⟨rfl, rfl, hobject⟩
        · rw [if_neg hobject] at h
          cases h

theorem FullRun.length {retries first n : ℕ} {run : RequestRun}
    (h : FullRun outcomes schema retries first n run) : run.calls.length = first + n := by
  obtain ⟨early, final, rfl, rfl, -, hfinal⟩ := h
  rw [List.length_append, hfinal.length]

/-- The calls before the final attempts are plain, the others go as the schema has it. -/
theorem FullRun.instructor {retries first n : ℕ} {run : RequestRun}
    (h : FullRun outcomes schema retries first n run) {i : ℕ} {call : StructuredCall}
    (hi : run.calls[i]? = some call) :
    call.instructor = if i < first then false else schema.baseModel := by
  obtain ⟨early, final, rfl, rfl, hplain, hfinal⟩ := h
  rw [List.getElem?_append] at hi
  by_cases hlt : i < early.length
  · rw [if_pos hlt] at hi
    rw [if_pos hlt]
    exact hplain call (List.mem_of_getElem? hi)
  · rw [if_neg hlt] at hi
    rw [if_neg hlt]
    exact hfinal.instructor call (List.mem_of_getElem? hi)

/-- The attempts with a response format that precede the final ones are plain failures, or
they got a content that stands for `None`. -/
theorem early_verdict {first i : ℕ} (hstart : finalStart schema outcomes = some first)
    (hi : i < first) (hnull : NullFree outcomes schema) :
    ∃ e, verdict schema false (outcomes i) = .error e := by
  obtain ⟨rfl, -⟩ | ⟨hsome, ⟨rfl, hschema⟩ | ⟨rfl, hschema, hobject⟩⟩ := finalStart_some hstart
  · omega
  · obtain rfl : i = 0 := by omega
    obtain herror | ⟨-, hnone⟩ := afterJsonSchema_some hschema
    · exact herror
    · exact absurd hnone (hnull hsome).1
  · obtain rfl | rfl : i = 0 ∨ i = 1 := by omega
    · obtain herror | ⟨hfailed, -⟩ := afterJsonSchema_some hschema
      · exact herror
      · cases hfailed
    · obtain herror | hnone := afterJsonObject_true hobject
      · exact herror
      · exact absurd hnone ((hnull hsome).2 hschema)

theorem FullRun.stops {retries first n : ℕ} {run : RequestRun}
    (h : FullRun outcomes schema retries first n run)
    (hstart : finalStart schema outcomes = some first) (hnull : NullFree outcomes schema) :
    StopsAtFirstValid outcomes schema retries run := by
  have hlength := h.length
  have hinstructor {i : ℕ} {call : StructuredCall} (hi : run.calls[i]? = some call) := h.instructor hi
  obtain ⟨early, final, rfl, rfl, hplain, hfinal⟩ := h
  have hpos := hfinal.pos
  have hbound := hfinal.bound
  have hfirst : early.length ≤ 2 := by
    obtain ⟨h0, -⟩ | ⟨-, ⟨h1, -⟩ | ⟨h2, -⟩⟩ := finalStart_some hstart <;> omega
  obtain ⟨call, hcall, hflag⟩ := getLast?_instructor (by rw [hfinal.length]; omega)
    hfinal.instructor
  refine ⟨by omega, ⟨call, ?_, ?_⟩, fun i call hi hlt => ?_, ?_⟩
  · rw [List.getLast?_append, hcall]
    rfl
  · rw [hlength, hflag, hfinal.result, Nat.add_sub_assoc hpos]
  · rw [hinstructor hi]
    by_cases hearly : i < early.length
    · rw [if_pos hearly]
      exact early_verdict hstart hearly hnull
    · rw [if_neg hearly]
      obtain ⟨j, rfl⟩ : ∃ j, i = early.length + j := ⟨i - early.length, by omega⟩
      exact (retried_iff.mp (hfinal.earlier j (by omega))).2
  · rw [hlength, ← usageOf_append]
    exact hfinal.usage_eq

/-- Where the final attempts come after a valid `None`, the pipeline did not stop at it. -/
theorem FullRun.nullFree {retries first n : ℕ} {run : RequestRun}
    (h : FullRun outcomes schema retries first n run)
    (hstart : finalStart schema outcomes = some first)
    (hstops : StopsAtFirstValid outcomes schema retries run) : NullFree outcomes schema := by
  have hlength := h.length
  have hpos : 0 < n := by
    obtain ⟨early, final, -, -, -, hfinal⟩ := h
    exact hfinal.pos
  have herror (i : ℕ) (hi : i < first) : verdict schema false (outcomes i) ≠ .ok .none := by
    intro hnone
    have hcall := List.getElem?_eq_getElem (l := run.calls) (i := i) (by omega)
    obtain ⟨e, he⟩ := hstops.earlier i _ hcall (by omega)
    rw [h.instructor hcall, if_pos hi, hnone] at he
    cases he
  intro hsome
  obtain ⟨-, hnone⟩ | ⟨-, ⟨rfl, hschema⟩ | ⟨rfl, -⟩⟩ := finalStart_some hstart
  · rw [hnone] at hsome
    cases hsome
  · refine ⟨herror 0 (by omega), fun hfailed => ?_⟩
    rw [hschema] at hfailed
    cases hfailed
  · exact ⟨herror 0 (by omega), fun _ => herror 1 (by omega)⟩

/-- The pipeline stops at the first valid response, within its calls, exactly when no attempt
with a response format gets a content that stands for `None`. -/
theorem structuredComplete_stops_iff (outcomes : ℕ → CallOutcome) (schema : ResponseSchema)
    (payload : List Dict) (retries : ℕ) :
    StopsAtFirstValid outcomes schema retries
        (structuredComplete outcomes schema payload retries) ↔ NullFree outcomes schema := by
  have hrun := structuredComplete_run outcomes schema payload retries
  cases hstart : finalStart schema outcomes with
  | none =>
    rw [hstart] at hrun
    obtain ⟨n, h⟩ := hrun
    exact iff_of_true h.stops (nullFree_of_none hstart)
  | some first =>
    rw [hstart] at hrun
    obtain ⟨n, h⟩ := hrun
    exact ⟨h.nullFree hstart, h.stops hstart⟩

/-- A schema that accepts `null` and the number one. -/
def optionalOne : ResponseSchema where
  name := "Optional"
  jsonSchema := some (.dict [], "\x7b\x7d")
  baseModel := false
  validate text :=
    if text = "null" then .ok .none
    else if text = "1" then .ok (.int 1)
    else .error (valueError "Invalid")

/-- The valid `null` of the first call is passed over for the second. -/
theorem not_structuredComplete_stops :
    ¬ StopsAtFirstValid
      (fun i => .ok { content := some (if i = 0 then "null" else "1"), usage := [] }) optionalOne 0
      (structuredComplete
        (fun i => .ok { content := some (if i = 0 then "null" else "1"), usage := [] })
        optionalOne [] 0) := by
  intro h
  obtain ⟨e, he⟩ := h.earlier 0 _ rfl (by decide)
  cases he

/-! ### Errors of the provider -/

/-- No error of an unsupported response format and, as far as `invalid` tells, no failed
validation of a returned response. -/
def providerError (invalid : Exn → Bool) (e : Exn) : Bool :=
  !isResponseFormatUnsupportedError e && !invalid e

/-- Every provider error that a call meets ends the pipeline and is raised. -/
def RaisesProviderErrors (invalid : Exn → Bool) (outcomes : ℕ → CallOutcome) (run : RequestRun) :
    Prop :=
  ∀ i e, i < run.calls.length → outcomes i = .error e → providerError invalid e = true →
    i + 1 = run.calls.length ∧ run.result = .error e

/-- No final attempt that another may follow meets a provider error. -/
def FinalErrorsInvalid (invalid : Exn → Bool) (outcomes : ℕ → CallOutcome)
    (schema : ResponseSchema) (retries : ℕ) : Prop :=
  ∀ first ∈ finalStart schema outcomes, ∀ a < retries,
    (∀ b < a, retried schema (outcomes (first + b)) = true) →
      ∀ e, outcomes (first + a) = .error e → e.isException = true → providerError invalid e = false

theorem unsupported_of_afterJsonSchema {e : Exn} {failed : Bool}
    (h : afterJsonSchema schema (.error e) = some failed) :
    isResponseFormatUnsupportedError e = true := by
  by_contra hformat
  have hjson : ¬ isJsonSchemaUnavailableError e = true := fun hjson => by
    simp [isResponseFormatUnsupportedError, hjson] at hformat
  simp [afterJsonSchema, jsonSchemaAttempt, hjson, hformat] at h

theorem unsupported_of_afterJsonObject {e : Exn}
    (h : afterJsonObject schema (.error e) = true) :
    isResponseFormatUnsupportedError e = true := by
  by_contra hformat
  simp [afterJsonObject, jsonObjectAttempt, hformat] at h

theorem retried_error {e : Exn} (h : e.isException = true) :
    retried schema (.error e) = true :=
  retried_iff.mpr ⟨h, e, rfl⟩

variable {invalid : Exn → Bool}

/-- A provider error at an attempt with a response format is raised. -/
theorem EarlyRun.raises {n : ℕ} {run : RequestRun} (h : EarlyRun outcomes schema n run) :
    RaisesProviderErrors invalid outcomes run := by
  intro i e hi he hprovider
  have hlength := h.length
  have hbound := h.bound
  by_cases hlast : i + 1 = n
  · have hindex : n - 1 = i := by omega
    refine ⟨by omega, ?_⟩
    rw [h.result, hindex, he]
    rfl
  · obtain rfl : i = 0 := by omega
    have hfailed := h.failed (by omega)
    rw [he] at hfailed
    simp [providerError, unsupported_of_afterJsonSchema hfailed] at hprovider

theorem FinalRun.reaches {retries first n a : ℕ} {usage : TokenUsage} {run : RequestRun}
    (h : FinalRun outcomes schema retries first n usage run) (ha : a ≤ retries)
    (hearlier : ∀ b < a, retried schema (outcomes (first + b)) = true) : a < n := by
  by_contra hle
  have hpos := h.pos
  have hlast := h.last (by omega)
  rw [hearlier (n - 1) (by omega)] at hlast
  cases hlast

theorem FullRun.raises_iff {retries first n : ℕ} {run : RequestRun}
    (h : FullRun outcomes schema retries first n run)
    (hstart : finalStart schema outcomes = some first) :
    RaisesProviderErrors invalid outcomes run ↔
      FinalErrorsInvalid invalid outcomes schema retries := by
  have hlength := h.length
  obtain ⟨early, final, rfl, rfl, -, hfinal⟩ := h
  constructor
  · intro hraises first hfirst a ha hearlier e he hexception
    obtain rfl : early.length = first := by
      rw [hstart] at hfirst
      exact Option.some.inj hfirst
    by_contra hprovider
    have hreached := hfinal.reaches (by omega) hearlier
    obtain ⟨hend, -⟩ := hraises (early.length + a) e (by omega) he (by simpa using hprovider)
    have hlast := hfinal.last (by omega)
    have hindex : early.length + (n - 1) = early.length + a := by omega
    rw [hindex, he, retried_error hexception] at hlast
    cases hlast
  · intro hfinals i e hi he hprovider
    by_cases hearly : i < early.length
    · have hunsupported : isResponseFormatUnsupportedError e = true := by
        obtain ⟨h0, -⟩ | ⟨-, ⟨h1, hschema⟩ | ⟨h2, hschema, hobject⟩⟩ := finalStart_some hstart
        · omega
        · obtain rfl : i = 0 := by omega
          rw [he] at hschema
          exact unsupported_of_afterJsonSchema hschema
        · obtain rfl | rfl : i = 0 ∨ i = 1 := by omega
          · rw [he] at hschema
            exact unsupported_of_afterJsonSchema hschema
          · rw [he] at hobject
            exact unsupported_of_afterJsonObject hobject
      simp [providerError, hunsupported] at hprovider
    · obtain ⟨j, rfl⟩ : ∃ j, i = early.length + j := ⟨i - early.length, by omega⟩
      have hbound := hfinal.bound
      by_cases hlast : j + 1 = n
      · have hindex : early.length + (n - 1) = early.length + j := by omega
        refine ⟨by omega, ?_⟩
        rw [hfinal.result, hindex, he]
        rfl
      · have hretried := hfinal.earlier j (by omega)
        rw [he] at hretried
        have hexception : e.isException = true := (retried_iff.mp hretried).1
        have hvalid := hfinals _ hstart j (by omega) (fun b hb => hfinal.earlier b (by omega)) e he
          hexception
        rw [hvalid] at hprovider
        cases hprovider

/-- Every provider error is raised at once exactly when none is met by a final attempt that
another may follow. -/
theorem structuredComplete_raises_iff (invalid : Exn → Bool) (outcomes : ℕ → CallOutcome)
    (schema : ResponseSchema) (payload : List Dict) (retries : ℕ) :
    RaisesProviderErrors invalid outcomes (structuredComplete outcomes schema payload retries) ↔
      FinalErrorsInvalid invalid outcomes schema retries := by
  have hrun := structuredComplete_run outcomes schema payload retries
  cases hstart : finalStart schema outcomes with
  | none =>
    rw [hstart] at hrun
    obtain ⟨n, h⟩ := hrun
    refine iff_of_true h.raises fun first hfirst => ?_
    rw [hstart] at hfirst
    cases hfirst
  | some first =>
    rw [hstart] at hrun
    obtain ⟨n, h⟩ := hrun
    exact h.raises_iff hstart

def rateLimited : Exn := runtimeError "rate limit exceeded"

/-- The first call meets a format that is not supported, the second a provider error. -/
def limitedOutcomes : ℕ → CallOutcome
  | 0 => .error (runtimeError "response_format unsupported")
  | 1 => .error rateLimited
  | _ => .ok { content := some "1" }

/-- The provider error is folded into the retries: a third call follows it. -/
theorem not_structuredComplete_raises :
    ¬ RaisesProviderErrors (fun _ => false) limitedOutcomes
      (structuredComplete limitedOutcomes optionalOne [] 1) := by
  intro h
  have hlength : (structuredComplete limitedOutcomes optionalOne [] 1).calls.length = 3 := by
    decide +kernel
  have hprovider : providerError (fun _ => false) rateLimited = true := by decide +kernel
  obtain ⟨hend, -⟩ := h 1 rateLimited (by omega) rfl hprovider
  omega

end Blackgeorge.Adapter
