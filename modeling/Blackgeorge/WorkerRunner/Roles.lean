import Blackgeorge.WorkerRunner.Compaction
import Blackgeorge.WorkerRunner.Waiting

/-! System messages come from the messages a run begins with: a worker itself writes only
for the user, the assistant and its tools. -/

namespace Blackgeorge.WorkerRunner

open Data Program Coroutine Coro

/-- Every system message among `messages` is one of `start`. -/
def Unled (start messages : List Message) : Prop := ∀ m ∈ messages, m.role = .system → m ∈ start

variable {start : List Message}

theorem Unled.append {messages more : List Message} (h : Unled start messages)
    (hmore : ∀ m ∈ more, m.role ≠ .system) : Unled start (messages ++ more) := by
  intro m hm hrole
  rcases List.mem_append.mp hm with hm | hm
  · exact h m hm hrole
  · exact absurd hrole (hmore m hm)

theorem Unled.concat {messages : List Message} {m : Message} (h : Unled start messages)
    (hm : m.role ≠ .system) : Unled start (messages ++ [m]) := by
  apply h.append
  intro m' hm'
  rwa [List.mem_singleton.mp hm']

/-- The report of a paused outcome shows the state's run and conversation. -/
def Shows (outcome : Report × Option WorkerState) : Prop :=
  ∀ paused, outcome.2 = some paused → outcome.1.messages = paused.messages ∧
    outcome.1.runId = paused.runId

/-- The outcome's conversation has no system message but those of `start`. -/
def UnledOutcome (start : List Message) (outcome : Report × Option WorkerState) : Prop :=
  Unled start outcome.1.messages ∧ Shows outcome

theorem unledOutcome_none {report : Report} (h : Unled start report.messages) :
    UnledOutcome start (report, none) :=
  ⟨h, fun _ h => nomatch h⟩

/-! ### The response of a turn -/

theorem unled_applyContextSummary (config : RunConfig) (modelName : String) {state : LoopState}
    (h : Unled start state.messages) (preserveRecent : Bool) (limit : Option ℕ) :
    Each anyLaw (applyContextSummary config modelName state preserveRecent limit) fun r =>
      Unled start r.2.messages := by
  have hsplit := summarySplit_split state.messages preserveRecent limit
  unfold applyContextSummary
  generalize summarySplit state.messages preserveRecent limit = parts at hsplit
  obtain ⟨system, head, tail⟩ := parts
  have hsystem : system = systemMessages state.messages := hsplit.system_eq
  have htail : head ++ tail = nonSystem state.messages := hsplit.rest_eq
  dsimp only
  split_ifs
  · exact each_pure h
  · apply each_bind (each_any _)
    intro summary _
    cases summary with
    | none => exact each_pure h
    | some summary =>
      apply each_bind (each_any _)
      intro _ _
      apply each_pure
      have hkept : Unled start system := by
        intro m hm
        rw [hsystem] at hm
        exact h m (List.mem_filter.mp hm).1
      have huser : (summaryMessage summary).role ≠ .system := by simp [summaryMessage]
      refine (hkept.concat huser).append ?_
      intro m hm
      have hm' : m ∈ nonSystem state.messages := htail ▸ List.mem_append_right head hm
      simpa using (List.mem_filter.mp hm').2

theorem unled_compactToLimit (ctx : RunContext) {state : LoopState} (h : Unled start state.messages) :
    Each anyLaw (compactToLimit ctx state) fun s => Unled start s.messages := by
  unfold compactToLimit
  split
  · split_ifs
    · exact each_bind (unled_applyContextSummary _ _ h _ _) fun _ hr => each_pure hr
    · exact each_pure h
  · exact each_pure h

theorem unled_failReport (ctx : RunContext) {state : LoopState} (h : Unled start state.messages)
    (message : String) :
    Each anyLaw (failReport ctx state message) fun report => Unled start report.messages :=
  each_bind (each_any _) fun _ _ => each_pure h

theorem unled_finalizeStructured (ctx : RunContext) {state : LoopState} (h : Unled start state.messages)
    (data : Value) :
    Each anyLaw (finalizeStructured ctx state data) fun report => Unled start report.messages := by
  apply each_bind (each_any _)
  intro _ _
  apply each_bind (each_any _)
  intro _ _
  exact each_pure (h.concat fun hrole => nomatch hrole)

theorem unled_recordUsage (ctx : RunContext) {state : LoopState} (h : Unled start state.messages)
    (usage : Dict) : Each anyLaw (recordUsage ctx state usage) fun s => Unled start s.messages := by
  refine (each_recordUsage (serves_any []).toBills ctx state usage).mono ?_
  rintro _ ⟨metrics, -, rfl⟩
  exact h

theorem unled_structuredCompletion (ctx : RunContext) {state : LoopState}
    (h : Unled start state.messages) (job : Job) (schema : Schema) :
    Each anyLaw (structuredCompletion ctx state job schema) fun r => Unled start r.2.messages := by
  apply each_bind (each_any _)
  intro answer _
  split
  · exact each_pure h
  · exact each_bind (unled_recordUsage ctx h _) fun _ hs => each_pure hs

/-- What a turn goes on with has no system message but those of `start`. -/
def UnledAcquired (start : List Message) (r : Acquired × LoopState) : Prop :=
  Unled start r.2.messages ∧ ∀ report, r.1 = .report report → Unled start report.messages

theorem unledAcquired_report {report : Report} {state : LoopState} (h : Unled start report.messages)
    (hs : Unled start state.messages) : UnledAcquired start (.report report, state) := by
  refine ⟨hs, ?_⟩
  rintro _ ⟨⟩
  exact h

theorem unled_retryContextOrReport (ctx : RunContext) {state : LoopState}
    (h : Unled start state.messages) :
    Each anyLaw (retryContextOrReport ctx state) fun r =>
      Unled start r.2.messages ∧ ∀ report, r.1 = some report → Unled start report.messages := by
  have hfail {state : LoopState} (h : Unled start state.messages) (message : String) :
      Each anyLaw (do pure (some (← failReport ctx state message), state)) fun r =>
        Unled start r.2.messages ∧ ∀ report, r.1 = some report → Unled start report.messages := by
    apply each_bind (unled_failReport ctx h message)
    intro report hreport
    refine each_pure ⟨h, ?_⟩
    rintro _ ⟨⟩
    exact hreport
  unfold retryContextOrReport
  split_ifs
  · exact hfail h _
  · exact hfail h _
  · apply each_bind (unled_applyContextSummary _ _ h _ _)
    rintro ⟨applied, state'⟩ h'
    dsimp only
    split_ifs
    · exact each_pure ⟨h', fun _ hr => nomatch hr⟩
    · exact hfail h' _

theorem unled_retry (ctx : RunContext) {state : LoopState} (h : Unled start state.messages) :
    Each anyLaw (do
      match ← retryContextOrReport ctx state with
      | (some report, state) => pure (.report report, state)
      | (none, state) => pure (.again, state)) (UnledAcquired start) := by
  apply each_bind (unled_retryContextOrReport ctx h)
  rintro ⟨_ | report, state'⟩ ⟨hstate, hreport⟩
  · exact each_pure ⟨hstate, fun _ hr => nomatch hr⟩
  · exact each_pure (unledAcquired_report (hreport report rfl) hstate)

theorem unled_retryOrRaise (ctx : RunContext) {state : LoopState} (h : Unled start state.messages)
    (e : Exn) : Each anyLaw (retryOrRaise ctx state e) (UnledAcquired start) := by
  unfold retryOrRaise
  split_ifs
  · exact unled_retry ctx h
  · exact each_raise

theorem unled_structuredOrReport (ctx : RunContext) {state : LoopState} (h : Unled start state.messages)
    (job : Job) (schema : Schema) :
    Each anyLaw (structuredOrReport ctx state job schema) (UnledAcquired start) := by
  apply each_bind (each_attempt (unled_structuredCompletion ctx h job schema))
  rintro (e | ⟨data, state'⟩) hr
  · dsimp only
    split_ifs
    · exact each_raise
    · exact unled_retry ctx h
    · exact each_bind (unled_failReport ctx h _) fun _ hreport => each_pure (unledAcquired_report hreport h)
  · have h' : Unled start state'.messages := hr _ rfl
    exact each_bind (unled_finalizeStructured ctx h' _) fun _ hreport =>
      each_pure (unledAcquired_report hreport h')

theorem unled_previewOrReport (ctx : RunContext) {state : LoopState} (h : Unled start state.messages)
    (job : Job) (schema : Schema) :
    Each anyLaw (previewOrReport ctx state job schema) (UnledAcquired start) := by
  apply each_bind (each_any _)
  rintro (e | streamed) _
  · dsimp only
    split_ifs
    · exact unled_retryOrRaise ctx h e
    · exact each_raise
  · apply each_bind (unled_recordUsage ctx h _)
    intro state' h'
    apply each_bind (each_any _)
    rintro (e | data) _
    · dsimp only
      split_ifs
      · exact unled_structuredOrReport ctx h' job schema
      · exact each_raise
    · exact each_bind (unled_finalizeStructured ctx h' _) fun _ hreport =>
        each_pure (unledAcquired_report hreport h')

theorem unled_requested (ctx : RunContext) {state : LoopState} (h : Unled start state.messages)
    (request : Prog ModelResponse) :
    Each anyLaw (do
      match ← request.attempt with
      | .ok response => pure (.response response, state)
      | .error e => if e.isException then retryOrRaise ctx state e else Prog.raise e)
      (UnledAcquired start) := by
  apply each_bind (each_any _)
  intro r _
  obtain e | response := r
  · dsimp only
    split_ifs
    · exact unled_retryOrRaise ctx h e
    · exact each_raise
  · apply each_pure
    exact ⟨h, fun _ hr => by cases hr⟩

theorem unled_acquireTurnResponse (ctx : RunContext) {state : LoopState}
    (h : Unled start state.messages) (job : Job) (tools : List Tool) :
    Each anyLaw (acquireTurnResponse ctx state job tools) (UnledAcquired start) := by
  have hrequest := unled_requested ctx h
  unfold acquireTurnResponse
  split
  · split_ifs
    · exact unled_previewOrReport ctx h job _
    · exact unled_structuredOrReport ctx h job _
    · exact hrequest _
  · exact hrequest _

/-! ### Tool calls -/

theorem unled_appendResults (config : RunConfig) (results : String → Option ToolResult)
    (calls : List ToolCall) : ∀ (messages : List Message) (toolCalls : List ToolCall),
    Unled start messages →
    Each anyLaw (appendResults config results calls messages toolCalls) fun r => Unled start r.1 := by
  induction calls with
  | nil => exact fun _ _ h => each_pure h
  | cons call calls ih =>
    intro messages toolCalls h
    apply each_bind (each_any _)
    intro _ _
    apply each_bind (each_any _)
    intro toolCalls' _
    exact ih _ _ (h.concat fun hrole => nomatch hrole)

/-- What a turn ends with has no system message but those of `start`. -/
def UnledEnd (start : List Message) : TurnEnd → Prop
  | .next state => Unled start state.messages
  | .report report => Unled start report.messages
  | .paused report paused => UnledOutcome start (report, some paused)

theorem unled_processToolCalls (ctx : RunContext) {state : LoopState} (h : Unled start state.messages)
    (job : Job) (response : ModelResponse) (allowed : String → Option Tool) :
    Each anyLaw (processToolCalls ctx state job response allowed) (UnledEnd start) := by
  have hcall : Unled start (state.messages ++ [callMessage response]) :=
    h.concat fun hrole => nomatch hrole
  apply each_bind (each_any _)
  intro _ _
  apply each_bind (each_any _)
  rintro ⟨plan, toolCalls⟩ -
  have hexecute : Each anyLaw (executeToolCalls ctx.config plan (state.messages ++ [callMessage response])
      toolCalls) fun r => Unled start r.1 := by
    apply each_bind (each_any _)
    intro _ _
    apply each_bind (each_any _)
    intro _ _
    exact unled_appendResults _ _ _ _ _ hcall
  apply each_bind hexecute
  rintro ⟨messages, toolCalls'⟩ hmessages
  dsimp only
  split_ifs
  · apply each_bind (@unled_failReport start ctx
      { state with messages := messages, toolCalls := toolCalls' } hmessages _)
    exact fun _ hreport => each_pure hreport
  · split
    · apply each_bind (each_any _)
      intro _ _
      apply each_pure
      refine ⟨hmessages, ?_⟩
      rintro _ ⟨⟩
      exact ⟨rfl, rfl⟩
    · exact each_pure hmessages

theorem unled_processTurnResponse (ctx : RunContext) {state : LoopState}
    (h : Unled start state.messages) (job : Job) (response : ModelResponse)
    (allowed : String → Option Tool) :
    Each anyLaw (processTurnResponse ctx state job response allowed) (UnledEnd start) := by
  apply each_bind (unled_recordUsage ctx h _)
  intro state' h'
  split_ifs
  · split
    · apply each_bind (unled_structuredOrReport ctx h' job _)
      rintro ⟨_ | _ | report, state''⟩ ⟨hstate, hreport⟩
      · exact each_pure hstate
      · exact each_pure hstate
      · exact each_pure (hreport report rfl)
    · have hplain : Each anyLaw (finalizePlain ctx state' response) fun report =>
          Unled start report.messages := by
        apply each_bind (each_any _)
        intro _ _
        apply each_bind (each_any _)
        intro _ _
        exact each_pure (h'.concat fun hrole => nomatch hrole)
      exact each_bind hplain fun _ hreport => each_pure hreport
  · exact unled_processToolCalls ctx h' job response allowed

/-! ### Runs -/

theorem unled_runLoop (ctx : RunContext) (job : Job) (tools : List Tool) (left : ℕ) :
    ∀ state : LoopState, Unled start state.messages →
      Each anyLaw (runLoop ctx job tools left state) (UnledOutcome start) := by
  induction left with
  | zero =>
    intro state h
    exact each_bind (unled_failReport ctx h _) fun _ hreport => each_pure (unledOutcome_none hreport)
  | succ left ih =>
    intro state h
    apply each_bind (each_any _)
    intro totals _
    have h : Unled start { state with iteration := state.iteration + 1 }.messages := h
    dsimp only
    split
    · exact each_bind (unled_failReport ctx h _) fun _ hreport => each_pure (unledOutcome_none hreport)
    · apply each_bind (unled_compactToLimit ctx h)
      intro compacted hcompacted
      apply each_bind (unled_acquireTurnResponse ctx hcompacted job tools)
      rintro ⟨response | _ | report, acquired⟩ ⟨hacquired, hreport⟩
      · apply each_bind (unled_processTurnResponse ctx hacquired job response _)
        rintro (next | report | ⟨report, paused⟩) hturn
        · exact ih next hturn
        · exact each_pure (unledOutcome_none hturn)
        · exact each_pure hturn
      · exact ih acquired hacquired
      · exact each_pure (unledOutcome_none (hreport report rfl))

theorem unled_modelNotSet (worker : Worker) (config : RunConfig) (runId : RunId)
    {messages : List Message} (h : Unled start messages) :
    Each anyLaw (modelNotSet worker config runId messages) (UnledOutcome start) :=
  each_bind (each_any _) fun _ _ => each_pure (unledOutcome_none h)

theorem unled_arun (worker : Worker) (config : RunConfig) (job : Job) :
    Each anyLaw (arun worker config job) (UnledOutcome (buildMessages worker.instructions job)) := by
  unfold arun
  dsimp only
  split_ifs
  · exact unled_modelNotSet _ _ _ fun _ hm _ => hm
  · apply each_bind (each_any _)
    intro registered _
    apply each_bind (each_any _)
    intro _ _
    exact unled_runLoop _ _ _ _ _ fun _ hm _ => hm

theorem unled_aresume (worker : Worker) (config : RunConfig) (state : WorkerState) (decision : Value) :
    Each anyLaw (aresume worker config state decision) (UnledOutcome state.messages) := by
  have hstart : Unled state.messages state.messages := fun _ hm _ => hm
  apply each_bind (each_any _)
  intro _ _
  split
  · exact each_pure (unledOutcome_none hstart)
  · apply each_bind (each_any _)
    rintro ⟨call, result⟩ -
    apply each_bind (each_any _)
    intro toolCalls _
    have hanswered : Unled state.messages (state.messages ++ [toolMessage result call]) :=
      hstart.concat fun hrole => nomatch hrole
    dsimp only
    split_ifs
    · exact unled_modelNotSet _ _ _ hanswered
    · apply each_bind (each_any _)
      intro registered _
      apply each_bind (each_any _)
      intro _ _
      exact unled_runLoop _ _ _ _ _ hanswered

end Blackgeorge.WorkerRunner
