import Blackgeorge.WorkerRunner.Run

/-! What a worker's turn sees of the world: the run ids of flow objects, under which it
emits, and nothing else. -/

namespace Blackgeorge.WorkerRunner

open Data Program Coroutine Coro

variable {α β : Type}

/-! ### Programs that see flow objects only -/

/-- A property of every program that sees no more of the world than its flow objects and
leaves those as they are. -/
structure Sightless (P : (α : Type) → Prog α → Prop) : Prop where
  ofExcept : ∀ {α : Type} (r : Except Exn α), P α (Prog.ofExcept r)
  ask : ∀ q, P _ (Prog.ask q)
  flow : ∀ id, P _ (Prog.get fun w => w.flows id)
  update : ∀ f : World → World, (∀ w, (f w).flows = w.flows) → P Unit (Prog.modify f)
  bind : ∀ {α β : Type} {c : Prog α} {g : α → Prog β}, P α c → (∀ a, P β (g a)) → P β (c >>= g)
  attempt : ∀ {α : Type} {c : Prog α}, P α c → P _ c.attempt

variable {P : (α : Type) → Prog α → Prop} (hP : Sightless P)

include hP

theorem Sightless.pure (a : α) : P α (Pure.pure a) := hP.ofExcept (.ok a)

theorem Sightless.raise (e : Exn) : P α (Prog.raise e) := hP.ofExcept (.error e)

theorem sightless_tryExcept {c : Prog α} {handler : Exn → Prog α} (hc : P _ c)
    (hh : ∀ e, P _ (handler e)) : P _ (Prog.tryExcept c handler) := by
  refine hP.bind (hP.attempt hc) fun r => ?_
  cases r with
  | ok a => exact hP.pure a
  | error e =>
    dsimp only
    split_ifs
    · exact hh e
    · exact hP.raise e

theorem sightless_forM {l : List β} {f : β → Prog Unit} (h : ∀ b, P _ (f b)) :
    P _ (l.forM f) := by
  induction l with
  | nil => exact hP.pure ()
  | cons b l ih =>
    rw [List.forM_eq_forM, List.forM_cons]
    exact hP.bind (h b) fun _ => ih

theorem sightless_deskEmit (events : Ref) (runId : RunId) (type source : String) (payload : Dict) :
    P _ (deskEmit events runId type source payload) := by
  have hstore : P _ (Prog.store (.addEvent runId ⟨type, source, payload⟩)) :=
    hP.bind (hP.ask _) fun r => hP.ofExcept r
  refine hP.bind (hP.update _ fun _ => rfl) fun _ => ?_
  exact hP.bind hstore fun _ => hP.update _ fun _ => rfl

theorem sightless_emit (config : RunConfig) (type source : String) (payload : Dict) :
    P _ (config.emit type source payload) := by
  unfold RunConfig.emit
  split
  · exact sightless_deskEmit hP _ _ _ _ _
  · refine hP.bind (hP.flow _) fun fields => ?_
    split_ifs
    · exact hP.pure ()
    · exact sightless_deskEmit hP _ _ _ _ _

theorem sightless_modifyTotals (r : Ref) (f : UsageTotals → UsageTotals) : P _ (modifyTotals r f) :=
  hP.update _ fun _ => rfl

/-! ### Compaction -/

theorem sightless_chunkText (modelName text : String) (targetTokens : ℕ) :
    P _ (chunkText modelName text targetTokens) := by
  have hcount : P _ (tokenCount modelName text) := by
    unfold tokenCount
    split_ifs
    · exact hP.pure 0
    · exact hP.ask (.tokenCount modelName text)
  unfold chunkText
  split_ifs
  · exact hP.pure [""]
  · refine hP.bind hcount fun count => ?_
    split_ifs
    · exact hP.pure [text]
    · exact hP.pure _

theorem sightless_summarizeChunk (modelName chunk : String) (temperature : Option ℚ) :
    P _ (summarizeChunk modelName chunk temperature) := by
  refine hP.bind (hP.ask _) fun r => ?_
  cases r with
  | ok answer => exact hP.pure _
  | error e =>
    dsimp only
    split_ifs
    · refine hP.bind (hP.ask _) fun r => ?_
      exact hP.bind (hP.ofExcept r) fun answer => hP.pure _
    · exact hP.raise e

theorem sightless_summarizeChunks (modelName : String) (temperature : Option ℚ) (chunks : List String) :
    P _ (summarizeChunks modelName temperature chunks) := by
  induction chunks with
  | nil => exact hP.pure []
  | cons chunk chunks ih =>
    refine hP.bind (sightless_summarizeChunk hP _ _ _) fun summary => ?_
    exact hP.bind ih fun summaries => hP.pure _

theorem sightless_summarizeText (modelName text : String) (temperature : Option ℚ) (targetTokens : ℕ) :
    P _ (summarizeText modelName text temperature targetTokens) := by
  refine hP.bind (sightless_chunkText hP _ _ _) fun chunks => ?_
  refine hP.bind (sightless_summarizeChunks hP _ _ _) fun summaries => ?_
  dsimp only
  split_ifs
  · exact hP.pure none
  · exact hP.bind (sightless_summarizeChunk hP _ _ _) fun combined => hP.pure _
  · exact hP.pure _

theorem sightless_summarizeAttempts (modelName text : String) (temperature : Option ℚ) (attempts : ℕ) :
    ∀ targetTokens, P _ (summarizeAttempts modelName text temperature attempts targetTokens) := by
  induction attempts with
  | zero => exact fun _ => hP.pure none
  | succ attempts ih =>
    intro targetTokens
    refine sightless_tryExcept hP (sightless_summarizeText hP _ _ _ _) fun e => ?_
    split_ifs
    · exact ih _
    · exact hP.raise e

theorem sightless_summarizeMessages (modelName : String) (messages : List Message)
    (temperature : Option ℚ) : P _ (summarizeMessages modelName messages temperature) := by
  refine hP.bind (hP.ofExcept _) fun lines => ?_
  dsimp only
  split_ifs
  · exact hP.pure _
  · exact sightless_summarizeAttempts hP _ _ _ _ _

theorem sightless_applyContextSummary (config : RunConfig) (modelName : String) (state : LoopState)
    (preserveRecent : Bool) (messageLimit : Option ℕ) :
    P _ (applyContextSummary config modelName state preserveRecent messageLimit) := by
  unfold applyContextSummary
  dsimp only
  split_ifs
  · exact hP.pure _
  · refine hP.bind (sightless_tryExcept hP (sightless_summarizeMessages hP _ _ _) fun _ => hP.pure none)
      fun summary => ?_
    cases summary with
    | none => exact hP.pure _
    | some summary => exact hP.bind (sightless_emit hP _ _ _ _) fun _ => hP.pure _

theorem sightless_compactToLimit (ctx : RunContext) (state : LoopState) :
    P _ (compactToLimit ctx state) := by
  unfold compactToLimit
  split
  · split_ifs
    · exact hP.bind (sightless_applyContextSummary hP _ _ _ _ _) fun r => hP.pure _
    · exact hP.pure state
  · exact hP.pure state

/-! ### A turn -/

theorem sightless_failReport (ctx : RunContext) (state : LoopState) (message : String) :
    P _ (failReport ctx state message) :=
  hP.bind (sightless_emit hP _ _ _ _) fun _ => hP.pure _

theorem sightless_finalizeStructured (ctx : RunContext) (state : LoopState) (data : Value) :
    P _ (finalizeStructured ctx state data) := by
  refine hP.bind (sightless_emit hP _ _ _ _) fun _ => ?_
  exact hP.bind (sightless_emit hP _ _ _ _) fun _ => hP.pure _

theorem sightless_finalizePlain (ctx : RunContext) (state : LoopState) (response : ModelResponse) :
    P _ (finalizePlain ctx state response) := by
  refine hP.bind (sightless_emit hP _ _ _ _) fun _ => ?_
  exact hP.bind (sightless_emit hP _ _ _ _) fun _ => hP.pure _

theorem sightless_recordUsage (ctx : RunContext) (state : LoopState) (usage : Dict) :
    P _ (recordUsage ctx state usage) := by
  unfold recordUsage
  split_ifs
  · exact hP.pure state
  · refine hP.bind (hP.ask _) fun cost => ?_
    exact hP.bind (sightless_modifyTotals hP _ _) fun _ => hP.pure _

theorem sightless_completion (ctx : RunContext) (messages : List Message) (tools : List Tool) (job : Job) :
    P _ (completion ctx messages tools job) := by
  refine hP.bind (hP.ask _) fun r => ?_
  cases r with
  | ok answer => exact hP.pure _
  | error e =>
    dsimp only
    split_ifs
    · refine hP.bind (hP.ask _) fun r => ?_
      exact hP.bind (hP.ofExcept r) fun answer => hP.pure _
    · exact hP.raise e

theorem sightless_finishStream (ctx : RunContext) (workerName : String) (messages : List Message)
    (tools : List Tool) (job : Job) (r : Except Exn CompletionAnswer) :
    P _ (finishStream ctx workerName messages tools job r) := by
  unfold finishStream
  split
  · exact hP.pure _
  · exact hP.bind (sightless_forM hP fun _ => sightless_emit hP _ _ _ _) fun _ => hP.ofExcept _
  · exact sightless_completion hP _ _ _ _
  · split_ifs
    · exact sightless_completion hP _ _ _ _
    · exact hP.raise _

theorem sightless_streamCompletion (ctx : RunContext) (workerName : String) (messages : List Message)
    (tools : List Tool) (job : Job) (schema : Option Schema) :
    P _ (streamCompletion ctx workerName messages tools job schema) := by
  refine hP.bind (hP.ask _) fun r => ?_
  cases r with
  | ok answer => exact sightless_finishStream hP _ _ _ _ _ _
  | error e =>
    dsimp only
    split_ifs
    · exact hP.bind (hP.ask _) fun r => sightless_finishStream hP _ _ _ _ _ _
    · exact sightless_finishStream hP _ _ _ _ _ _

theorem sightless_structuredCompletion (ctx : RunContext) (state : LoopState) (job : Job)
    (schema : Schema) : P _ (structuredCompletion ctx state job schema) := by
  have hanswer (request : StructuredCompletion) : P _ (structuredAnswer request) := by
    refine hP.bind (hP.ask _) fun r => ?_
    cases r with
    | ok answer => exact hP.pure _
    | error e =>
      dsimp only
      split_ifs
      · exact hP.bind (hP.ask _) fun r => hP.ofExcept r
      · exact hP.raise e
  refine hP.bind (hanswer _) fun answer => ?_
  split
  · exact hP.pure _
  · exact hP.bind (sightless_recordUsage hP _ _ _) fun _ => hP.pure _

theorem sightless_retryContextOrReport (ctx : RunContext) (state : LoopState) :
    P _ (retryContextOrReport ctx state) := by
  have hfail (message : String) :
      P _ (do pure (some (← failReport ctx state message), state)) :=
    hP.bind (sightless_failReport hP _ _ _) fun _ => hP.pure _
  unfold retryContextOrReport
  split_ifs
  · exact hfail _
  · exact hfail _
  · refine hP.bind (sightless_applyContextSummary hP _ _ _ _ _) fun r => ?_
    obtain ⟨applied, state⟩ := r
    cases applied with
    | true => exact hP.pure _
    | false => exact hP.bind (sightless_failReport hP _ _ _) fun _ => hP.pure _

theorem sightless_retryOrRaise (ctx : RunContext) (state : LoopState) (e : Exn) :
    P _ (retryOrRaise ctx state e) := by
  unfold retryOrRaise
  split_ifs
  · refine hP.bind (sightless_retryContextOrReport hP _ _) fun r => ?_
    obtain ⟨report | _, state⟩ := r
    · exact hP.pure _
    · exact hP.pure _
  · exact hP.raise e

theorem sightless_structuredOrReport (ctx : RunContext) (state : LoopState) (job : Job)
    (schema : Schema) : P _ (structuredOrReport ctx state job schema) := by
  refine hP.bind (hP.attempt (sightless_structuredCompletion hP _ _ _ _)) fun r => ?_
  obtain e | ⟨data, state⟩ := r
  · dsimp only
    split_ifs
    · exact hP.raise e
    · refine hP.bind (sightless_retryContextOrReport hP _ _) fun r => ?_
      obtain ⟨report | _, state⟩ := r
      · exact hP.pure _
      · exact hP.pure _
    · exact hP.bind (sightless_failReport hP _ _ _) fun _ => hP.pure _
  · exact hP.bind (sightless_finalizeStructured hP _ _ _) fun _ => hP.pure _

theorem sightless_previewOrReport (ctx : RunContext) (state : LoopState) (job : Job) (schema : Schema) :
    P _ (previewOrReport ctx state job schema) := by
  refine hP.bind (hP.attempt (sightless_streamCompletion hP _ _ _ _ _ _)) fun r => ?_
  obtain e | streamed := r
  · dsimp only
    split_ifs
    · exact sightless_retryOrRaise hP _ _ _
    · exact hP.raise e
  · refine hP.bind (sightless_recordUsage hP _ _ _) fun state => ?_
    refine hP.bind (hP.ask _) fun r => ?_
    obtain e | data := r
    · dsimp only
      split_ifs
      · exact sightless_structuredOrReport hP _ _ _ _
      · exact hP.raise e
    · exact hP.bind (sightless_finalizeStructured hP _ _ _) fun _ => hP.pure _

theorem sightless_requested (ctx : RunContext) (state : LoopState) {request : Prog ModelResponse}
    (h : P _ request) : P _ (do
      match ← request.attempt with
      | .ok response => pure (Acquired.response response, state)
      | .error e => if e.isException then retryOrRaise ctx state e else Prog.raise e) := by
  refine hP.bind (hP.attempt h) fun r => ?_
  obtain e | response := r
  · dsimp only
    split_ifs
    · exact sightless_retryOrRaise hP _ _ _
    · exact hP.raise e
  · exact hP.pure _

theorem sightless_acquireTurnResponse (ctx : RunContext) (state : LoopState) (job : Job)
    (tools : List Tool) : P _ (acquireTurnResponse ctx state job tools) := by
  have hrequest {request : Prog ModelResponse} (h : P _ request) :=
    sightless_requested hP ctx state h
  unfold acquireTurnResponse
  split
  · split_ifs
    · exact sightless_previewOrReport hP _ _ _ _
    · exact sightless_structuredOrReport hP _ _ _ _
    · exact hrequest (sightless_completion hP _ _ _ _)
  · apply hrequest
    split_ifs
    · exact sightless_streamCompletion hP _ _ _ _ _ _
    · exact sightless_completion hP _ _ _ _

/-! ### Tool calls -/

theorem sightless_planToolCalls (allowed : String → Option Tool) (maxToolCalls : ℕ)
    (calls : List ToolCall) : ∀ toolCalls plan,
    P _ (planToolCalls allowed maxToolCalls calls toolCalls plan) := by
  induction calls with
  | nil => exact fun _ _ => hP.pure _
  | cons call calls ih =>
    intro toolCalls plan
    unfold planToolCalls
    split_ifs
    · exact hP.pure _
    · split
      · exact ih _ _
      · exact ih _ _
      · split
        · exact hP.bind (hP.ask .newId) fun _ => hP.pure _
        · exact ih _ _

theorem sightless_executeTool (tool : Tool) (call : ToolCall) (approved : Option String) :
    P _ (executeTool tool call approved) :=
  hP.bind (hP.ask _) fun r => hP.ofExcept r

theorem sightless_emitToolResult (config : RunConfig) (source : String) (call : ToolCall)
    (result : ToolResult) : P _ (emitToolResult config source call result) := by
  unfold emitToolResult
  split_ifs <;> exact sightless_emit hP _ _ _ _

theorem sightless_appendResults (config : RunConfig) (results : String → Option ToolResult)
    (calls : List ToolCall) : ∀ messages toolCalls,
    P _ (appendResults config results calls messages toolCalls) := by
  induction calls with
  | nil => exact fun _ _ => hP.pure _
  | cons call calls ih =>
    intro messages toolCalls
    refine hP.bind (sightless_emitToolResult hP _ _ _ _) fun _ => ?_
    exact hP.bind (hP.ofExcept _) fun _ => ih _ _

/-- The tools of a plan run together. -/
def ToolPlan.gathered (plan : ToolPlan) : Prog (List ToolResult) :=
  Prog.gather (plan.executableCalls.map fun (call, tool) => executeTool tool call none)

theorem sightless_executeToolCalls (config : RunConfig) (plan : ToolPlan) (messages : List Message)
    (toolCalls : List ToolCall) (hgathered : P _ plan.gathered) :
    P _ (executeToolCalls config plan messages toolCalls) := by
  refine hP.bind (sightless_forM hP fun _ => sightless_emit hP _ _ _ _) fun _ => ?_
  exact hP.bind hgathered fun _ => sightless_appendResults hP _ _ _ _ _

/-- A property of plans and what follows them is one of a turn's tool calls. -/
theorem sightless_processToolCalls (ctx : RunContext) (state : LoopState) (job : Job)
    (response : ModelResponse) (allowed : String → Option Tool)
    (hplan : ∀ g : ToolPlan × List ToolCall → Prog TurnEnd,
      (∀ planned, P _ planned.1.gathered → P _ (g planned)) →
      P _ (planToolCalls allowed ctx.config.maxToolCalls response.toolCalls state.toolCalls {} >>= g)) :
    P _ (processToolCalls ctx state job response allowed) := by
  have hpause (config : RunConfig) (name : String) (pending : PendingAction) :
      P _ (emitPause config name pending) := by
    refine hP.bind ?_ fun _ => sightless_emit hP _ _ _ _
    unfold emitRequest
    split
    · exact sightless_emit hP _ _ _ _
    · exact sightless_emit hP _ _ _ _
    · exact hP.pure ()
  refine hP.bind (sightless_emit hP _ _ _ _) fun _ => ?_
  refine hplan _ fun planned hgathered => ?_
  refine hP.bind (sightless_executeToolCalls hP _ _ _ _ hgathered) fun executed => ?_
  dsimp only
  split_ifs
  · exact hP.bind (sightless_failReport hP _ _ _) fun _ => hP.pure _
  · split
    · exact hP.bind (hpause _ _ _) fun _ => hP.pure _
    · exact hP.pure _

theorem sightless_processTurnResponse (ctx : RunContext) (state : LoopState) (job : Job)
    (response : ModelResponse) (allowed : String → Option Tool)
    (hcalls : ∀ state, P _ (processToolCalls ctx state job response allowed)) :
    P _ (processTurnResponse ctx state job response allowed) := by
  refine hP.bind (sightless_recordUsage hP _ _ _) fun state => ?_
  split_ifs
  · split
    · refine hP.bind (sightless_structuredOrReport hP _ _ _ _) fun r => ?_
      obtain ⟨_ | _ | report, state⟩ := r
      · exact hP.pure _
      · exact hP.pure _
      · exact hP.pure _
    · exact hP.bind (sightless_finalizePlain hP _ _ _) fun _ => hP.pure _
  · exact hcalls state

theorem sightless_modelNotSet (worker : Worker) (config : RunConfig) (runId : RunId)
    (messages : List Message) : P _ (modelNotSet worker config runId messages) :=
  hP.bind (sightless_emit hP _ _ _ _) fun _ => hP.pure _

end Blackgeorge.WorkerRunner
