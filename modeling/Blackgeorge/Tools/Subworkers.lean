import Blackgeorge.Desk.Calls
import Blackgeorge.WorkerRunner.Waiting

/-! The tool that spawns subworkers under a budget. A call awaits nothing but the run of its
child: no block under the budget lock awaits anything, so the lock is free whenever a call
asks for it. Each call is therefore two stretches with no other call in between, one up to
the child's run and one from its end on. -/

namespace Blackgeorge.Tools

open Data Program Coroutine Coro WorkerRunner Desk

/-! ### The child -/

/-- What `create_subworker_tool` was given and lets through. -/
structure SubworkerSettings where
  desk : DeskSettings
  availableTools : Toolbelt := {}
  defaultModel : Option String := none
  allowedModels : Option (List String) := none
  maxSubworkers : ℕ := 5
  maxToolsPerSubworker : ℕ := 8
  maxIterations : ℕ := 10
  maxToolCalls : ℕ := 10
  structuredOutputRetries : ℕ := 1
  maxSubworkers_pos : 1 ≤ maxSubworkers := by decide
  maxIterations_pos : 1 ≤ maxIterations := by decide
  maxToolCalls_pos : 1 ≤ maxToolCalls := by decide

structure SpawnInput where
  name : String
  instructions : String
  task : String
  tools : Option (List String) := none
  model : Option String := none

/-- `Toolbelt.add`. -/
def addTool (belt : Toolbelt) (tool : Tool) : Except Exn Toolbelt :=
  if h : tool.name ∈ belt.tools.map Tool.name then
    .error (valueError ("Tool name already registered: " ++ tool.name))
  else
    .ok { tools := belt.tools ++ [tool]
          nodup := by
            rw [List.map_append, List.nodup_append]
            refine ⟨belt.nodup, by simp, ?_⟩
            intro name hname other hother
            obtain rfl : other = tool.name := by simpa using hother
            exact fun heq => h (heq ▸ hname) }

/-- The constructor of a worker. -/
def makeWorker (name : String) (tools : List Tool) (model : String) (instructions : String) :
    Except Exn Worker :=
  if hname : Text.strip name = "" then .error (valueError "Worker name must not be empty")
  else if hmodel : Text.strip model = "" then .error (valueError "Worker model must not be empty")
  else do
    let toolbelt ← tools.foldlM addTool {}
    pure { name := name, toolbelt := toolbelt, model := some model
           instructions := some instructions
           memoryScope := "worker:" ++ name
           name_ne := hname
           model_ne := by
             intro m hm
             obtain rfl : model = m := by simpa using hm
             exact hmodel }

/-- `_child_desk`: the parent's limits but those of the tool, and no cost budget. -/
def childDesk (settings : SubworkerSettings) (model : String) : Except Exn DeskSettings :=
  let desk := settings.desk
  if hmodel : Text.strip model = "" then .error (valueError "model must not be empty")
  else
    .ok { model := model
          temperature := desk.temperature
          maxTokens := desk.maxTokens
          structuredStreamMode := desk.structuredStreamMode
          structuredOutputRetries := settings.structuredOutputRetries
          maxIterations := settings.maxIterations
          maxToolCalls := settings.maxToolCalls
          numRetries := desk.numRetries
          respectContextWindow := desk.respectContextWindow
          maxContextMessages := desk.maxContextMessages
          inMemoryStore := desk.inMemoryStore
          maxTokens_pos := desk.maxTokens_pos
          maxIterations_pos := settings.maxIterations_pos
          maxContextMessages_pos := desk.maxContextMessages_pos
          maxCostUsd_nonneg := no_budget_nonneg
          model_ne := hmodel
          temperature_nonneg := desk.temperature_nonneg }

/-- What a call runs: the worker, the desk it runs on, its task and the run's id. -/
structure Child where
  worker : Worker
  desk : DeskSettings
  task : String
  runId : RunId

/-- How a call ends: with a result or with an exception. -/
abbrev SpawnEnd := Except Exn ToolResult

/-- `model or default_model or desk.model`. -/
def resolvedModel (settings : SubworkerSettings) (input : SpawnInput) : String :=
  ((input.model.filter (· ≠ "")).or (settings.defaultModel.filter (· ≠ ""))).getD
    settings.desk.model

/-- Everything before the first block under the lock; what ends the call is the error. -/
def prepareChild (settings : SubworkerSettings) (input : SpawnInput) (runId : RunId) :
    Except SpawnEnd Child :=
  let refuse (text : String) : Except SpawnEnd Child := .error (.ok { error := some text })
  let model := resolvedModel settings input
  let requested := input.tools.getD []
  let missing := requested.filter fun name => (settings.availableTools.resolve name).isNone
  if model = "" then refuse "Subworker model is not configured"
  else if settings.allowedModels.any (model ∉ ·) then
    refuse ("Model '" ++ model ++ "' is not allowed for subworkers")
  else if settings.maxToolsPerSubworker < requested.length then
    refuse ("Too many tools requested for subworker: " ++ toString requested.length ++ " > " ++
      toString settings.maxToolsPerSubworker)
  else if missing ≠ [] then
    refuse ("Requested tools are not available: " ++ ", ".intercalate missing)
  else
    let made : Except Exn Child := do
      let tools := requested.filterMap settings.availableTools.resolve
      let worker ← makeWorker input.name tools model input.instructions
      let desk ← childDesk settings model
      pure ⟨worker, desk, input.task, runId⟩
    made.mapError .error

/-- The run that a call awaits. -/
def Child.run (child : Child) (jobId : String) : Prog Report :=
  Desk.arun child.desk runners (.worker child.worker) { id := jobId, input := .str child.task }
    (some false) (some child.runId)

/-- The report of a child is of a run that has ended or waits. -/
theorem child_ended (child : Child) (jobId : String) :
    Each anyLaw (child.run jobId) fun report => report.status ≠ .running := by
  unfold Child.run Desk.arun
  refine each_bind (each_any _) fun _ _ => ?_
  refine each_bind (each_any _) fun runId _ => ?_
  refine each_bind (each_any _) fun events _ => ?_
  refine each_bind (each_any _) fun job _ => ?_
  refine each_bind (each_any _) fun _ _ => ?_
  refine each_bind (each_any _) fun _ _ => ?_
  refine each_bind (each_any _) fun totals _ => ?_
  have hrun (config : RunConfig) : Each anyLaw
      (registeredRun runners (.worker child.worker) config job) fun o => o.1.status ≠ .running := by
    refine each_bind (each_any _) fun _ _ => ?_
    have hworker := serves_arun (serves_any (resolveTools child.worker.toolbelt job)) config
    simp only [runners, map_eq_pure_bind]
    refine each_bind hworker fun outcome houtcome => each_pure ?_
    obtain ⟨registered, houtcome⟩ := houtcome
    obtain ⟨report, _ | paused⟩ := outcome
    · have hstatus : report.status = .completed ∨ report.status = .failed :=
        (houtcome.ended rfl).status
      obtain hstatus | hstatus := hstatus <;> simp [workerOutcome, hstatus]
    · have hstatus : report.status = .paused := (houtcome.paused paused rfl).status
      simp [workerOutcome, hstatus]
  refine each_bind (each_attempt (hrun _)) fun result hresult => ?_
  cases result with
  | error e => exact each_bind (each_any _) fun _ _ => each_raise
  | ok outcome => exact each_bind (each_any _) fun _ _ => each_pure (hresult outcome rfl)

/-! ### The budget -/

structure SpawnBudget where
  spawnCount : ℤ := 0
  activeCount : ℤ := 0

/-- The first block under the lock. -/
def SpawnBudget.reserve (budget : SpawnBudget) (maxSubworkers : ℕ) : Option SpawnBudget :=
  if budget.spawnCount + budget.activeCount ≥ maxSubworkers then none
  else some { budget with activeCount := budget.activeCount + 1 }

/-- The local variables of a call that awaits its child. -/
structure SpawnFrame where
  child : Child
  slotActive : Bool

/-- How the await of a child ends: with a report, which is no longer running, or with an
exception; an `Exception` is put on record, which may raise in turn. -/
inductive ChildOutcome where
  | report (report : Report) (ended : report.status ≠ .running)
  | raised (e : Exn) (marked : Except Exn Unit)

def ChildOutcome.completed : ChildOutcome → Bool
  | report r _ => r.status = .completed
  | raised .. => false

/-- `_join_errors`. -/
def joinErrors (errors : List String) (fallback : String) : String :=
  let text := "; ".intercalate (errors.filter (· ≠ ""))
  if errors = [] ∨ text = "" then fallback else text

/-- `result_data`. -/
def resultData (child : Child) (report : Report) : Value :=
  let errors :=
    if report.errors = [] then [] else [("errors", Value.list (report.errors.map .str))]
  let pending :=
    match report.pendingAction with
    | none => []
    | some pending => [("pending_action_type", Value.str (PendingActionType.text pending.type))]
  .dict ([("run_id", .str report.runId), ("status", .str (Workflow.RunStatus.text report.status)),
    ("worker", .str child.worker.name)] ++ errors ++ pending)

def failedResult (child : Child) (message : String) : ToolResult where
  error := some ("Subworker execution failed: " ++ message)
  data := .dict [("run_id", .str child.runId), ("status", .str "failed"),
    ("worker", .str child.worker.name), ("errors", .list [.str message])]

/-- The content of a completed child. -/
def childContent (report : Report) : String :=
  match report.content with
  | some content => content
  | none => if report.data.isNone then "" else report.data.dumps

/-- The body of the `try` from the end of the await on: the budget and the slot as it leaves
them, and what it returns or raises. -/
def spawnBody (budget : SpawnBudget) (frame : SpawnFrame) (outcome : ChildOutcome) :
    SpawnBudget × Bool × SpawnEnd :=
  match outcome with
  | .raised e marked =>
    if e.isException then
      (budget, frame.slotActive, marked.map fun _ => failedResult frame.child e.text)
    else (budget, frame.slotActive, .error e)
  | .report report _ =>
    let data := resultData frame.child report
    if report.status = .paused then
      let pendingType := report.pendingAction.elim "unknown" fun pending => PendingActionType.text pending.type
      (budget, frame.slotActive, .ok
        { error := some ("Subworker paused and requires " ++ pendingType ++ " follow-up")
          data := data })
    else if report.status = .failed then
      (budget, frame.slotActive, .ok
        { error := some (joinErrors report.errors "Subworker failed"), data := data })
    else
      (⟨budget.spawnCount + 1, budget.activeCount - 1⟩, false,
        .ok { content := some (childContent report), data := data })

/-- The `finally`: a slot that is still held is given back. -/
def releaseSlot (budget : SpawnBudget) (slotActive : Bool) : SpawnBudget :=
  if slotActive then { budget with activeCount := budget.activeCount - 1 } else budget

/-! ### Calls side by side -/

inductive SpawnCall where
  | awaiting (frame : SpawnFrame)
  | ended (outcome : Option ChildOutcome) (result : SpawnEnd)

structure SpawnState where
  budget : SpawnBudget := {}
  calls : List SpawnCall := []

/-- The first stretch of a new call. -/
def SpawnState.enter (settings : SubworkerSettings) (s : SpawnState) (input : SpawnInput)
    (runId : RunId) : SpawnState :=
  match prepareChild settings input runId with
  | .error result => { s with calls := s.calls ++ [.ended none result] }
  | .ok child =>
    match s.budget.reserve settings.maxSubworkers with
    | none =>
      let text := "Subworker budget exceeded: max_subworkers=" ++ toString settings.maxSubworkers
      { s with calls := s.calls ++ [.ended none (.ok { error := some text })] }
    | some budget => { budget := budget, calls := s.calls ++ [.awaiting ⟨child, true⟩] }

/-- The second stretch of the call at an index, if it awaits its child. -/
def SpawnState.leave (s : SpawnState) (index : ℕ) (outcome : ChildOutcome) : SpawnState :=
  match s.calls[index]? with
  | some (.awaiting frame) =>
    let (budget, slotActive, result) := spawnBody s.budget frame outcome
    { budget := releaseSlot budget slotActive
      calls := s.calls.set index (.ended (some outcome) result) }
  | _ => s

inductive SpawnStep where
  | enter (input : SpawnInput) (runId : RunId)
  | leave (index : ℕ) (outcome : ChildOutcome)

def SpawnState.step (settings : SubworkerSettings) (s : SpawnState) : SpawnStep → SpawnState
  | .enter input runId => s.enter settings input runId
  | .leave index outcome => s.leave index outcome

/-- The state after steps of any calls in any order. -/
def spawnRun (settings : SubworkerSettings) (steps : List SpawnStep) : SpawnState :=
  steps.foldl (SpawnState.step settings) {}

def SpawnCall.running : SpawnCall → Bool
  | awaiting _ => true
  | ended .. => false

def SpawnCall.holdsSlot : SpawnCall → Bool
  | awaiting frame => frame.slotActive
  | ended .. => false

/-- The call's child ran to completion. -/
def SpawnCall.completed : SpawnCall → Bool
  | awaiting _ => false
  | ended outcome _ => outcome.any ChildOutcome.completed

/-! ### What the budget counts -/

/-- Every call that awaits holds a slot, the budget counts the slots and the completed
children, and the two together are within the limit. -/
structure WithinBudget (settings : SubworkerSettings) (s : SpawnState) : Prop where
  holding : ∀ frame, SpawnCall.awaiting frame ∈ s.calls → frame.slotActive = true
  active : s.budget.activeCount = s.calls.countP SpawnCall.holdsSlot
  spawned : s.budget.spawnCount = s.calls.countP SpawnCall.completed
  bound : s.budget.spawnCount + s.budget.activeCount ≤ settings.maxSubworkers

theorem withinBudget_empty (settings : SubworkerSettings) : WithinBudget settings {} where
  holding := by simp
  active := rfl
  spawned := rfl
  bound := by simp

theorem reserve_some {budget budget' : SpawnBudget} {maxSubworkers : ℕ}
    (h : budget.reserve maxSubworkers = some budget') :
    budget.spawnCount + budget.activeCount < maxSubworkers ∧
      budget' = { budget with activeCount := budget.activeCount + 1 } := by
  unfold SpawnBudget.reserve at h
  by_cases hfull : budget.spawnCount + budget.activeCount ≥ maxSubworkers
  · rw [if_pos hfull] at h
    cases h
  · rw [if_neg hfull] at h
    exact ⟨not_le.mp hfull, (Option.some.inj h).symm⟩

/-- A call that ends before it awaits anything leaves the counts alone. -/
theorem WithinBudget.refused {settings : SubworkerSettings} {s : SpawnState}
    (h : WithinBudget settings s) (result : SpawnEnd) :
    WithinBudget settings { s with calls := s.calls ++ [.ended none result] } where
  holding frame hframe := h.holding frame (by simpa using hframe)
  active := by simp [h.active, SpawnCall.holdsSlot]
  spawned := by simp [h.spawned, SpawnCall.completed]
  bound := h.bound

theorem WithinBudget.enter {settings : SubworkerSettings} {s : SpawnState}
    (h : WithinBudget settings s) (input : SpawnInput) (runId : RunId) :
    WithinBudget settings (s.enter settings input runId) := by
  unfold SpawnState.enter
  cases prepareChild settings input runId with
  | error result => exact h.refused result
  | ok child =>
    dsimp only
    cases hreserve : s.budget.reserve settings.maxSubworkers with
    | none => exact h.refused _
    | some budget =>
      obtain ⟨hfree, rfl⟩ := reserve_some hreserve
      refine ⟨fun frame hframe => ?_, ?_, ?_, ?_⟩
      · rw [List.mem_append, List.mem_singleton] at hframe
        obtain hframe | hframe := hframe
        · exact h.holding frame hframe
        · cases hframe
          rfl
      · simp [h.active, SpawnCall.holdsSlot]
      · simp [h.spawned, SpawnCall.completed]
      · dsimp only
        omega

/-- On every path out of the `try` the slot is given back once, and the count of the spawned
goes up by one for a completed child. -/
theorem releaseSlot_spawnBody (budget : SpawnBudget) {frame : SpawnFrame}
    (hslot : frame.slotActive = true) (outcome : ChildOutcome) :
    let (after, slotActive, _) := spawnBody budget frame outcome
    releaseSlot after slotActive =
      ⟨budget.spawnCount + outcome.completed.toNat, budget.activeCount - 1⟩ := by
  cases outcome with
  | raised e marked =>
    by_cases he : e.isException = true <;>
      simp [spawnBody, he, hslot, releaseSlot, ChildOutcome.completed]
  | report report ended =>
    cases hstatus : report.status with
    | completed => simp [spawnBody, hstatus, releaseSlot, ChildOutcome.completed]
    | paused => simp [spawnBody, hstatus, hslot, releaseSlot, ChildOutcome.completed]
    | failed => simp [spawnBody, hstatus, hslot, releaseSlot, ChildOutcome.completed]
    | running => exact absurd hstatus ended

theorem WithinBudget.leave {settings : SubworkerSettings} {s : SpawnState}
    (h : WithinBudget settings s) (index : ℕ) (outcome : ChildOutcome) :
    WithinBudget settings (s.leave index outcome) ∧
      s.budget.spawnCount ≤ (s.leave index outcome).budget.spawnCount := by
  unfold SpawnState.leave
  split
  · next frame hcall =>
    have hslot := h.holding frame (List.mem_of_getElem? hcall)
    have hbudget := releaseSlot_spawnBody s.budget hslot outcome
    obtain ⟨hindex, hcall⟩ := List.getElem?_eq_some_iff.mp hcall
    dsimp only at hbudget ⊢
    rw [hbudget]
    have hholds : SpawnCall.holdsSlot s.calls[index] = true := by rw [hcall]; exact hslot
    have hrunning : SpawnCall.completed s.calls[index] = false := by rw [hcall]; rfl
    have hpositive : 0 < s.calls.countP SpawnCall.holdsSlot :=
      List.countP_pos_iff.mpr ⟨_, List.getElem_mem hindex, hholds⟩
    have hactive := h.active
    have hspawned := h.spawned
    have hbound := h.bound
    have hone : outcome.completed.toNat ≤ 1 := Bool.toNat_le _
    refine ⟨⟨fun frame' hframe' => ?_, ?_, ?_, ?_⟩, by dsimp only; omega⟩
    · obtain hframe' | hframe' := List.mem_or_eq_of_mem_set hframe'
      · exact h.holding frame' hframe'
      · cases hframe'
    · rw [List.countP_set hindex, if_pos hholds, if_neg (by simp [SpawnCall.holdsSlot])]
      dsimp only
      omega
    · rw [List.countP_set hindex, hrunning]
      cases hcompleted : outcome.completed <;>
        simp [SpawnCall.completed, hcompleted, hspawned]
    · dsimp only
      omega
  · exact ⟨h, le_rfl⟩

theorem WithinBudget.step {settings : SubworkerSettings} {s : SpawnState}
    (h : WithinBudget settings s) (step : SpawnStep) :
    WithinBudget settings (s.step settings step) ∧
      s.budget.spawnCount ≤ (s.step settings step).budget.spawnCount := by
  cases step with
  | enter input runId =>
    have hafter := h.enter input runId
    refine ⟨hafter, ?_⟩
    simp only [SpawnState.step, SpawnState.enter]
    cases prepareChild settings input runId with
    | error result => exact le_rfl
    | ok child =>
      dsimp only
      cases hreserve : s.budget.reserve settings.maxSubworkers with
      | none => exact le_rfl
      | some budget =>
        obtain ⟨-, rfl⟩ := reserve_some hreserve
        exact le_rfl
  | leave index outcome => exact h.leave index outcome

theorem WithinBudget.steps {settings : SubworkerSettings} (steps : List SpawnStep) :
    ∀ {s : SpawnState}, WithinBudget settings s →
      WithinBudget settings (steps.foldl (SpawnState.step settings) s) ∧
        s.budget.spawnCount ≤ (steps.foldl (SpawnState.step settings) s).budget.spawnCount := by
  induction steps with
  | nil => exact fun h => ⟨h, le_rfl⟩
  | cons step steps ih =>
    intro s h
    obtain ⟨hstep, hle⟩ := h.step step
    obtain ⟨hsteps, hle'⟩ := ih hstep
    exact ⟨hsteps, hle.trans hle'⟩

/-- In every state that calls of one tool reach: the completed children and the children that
run are within the limit, `active_count` is the number of calls that hold a slot, zero when
none runs, and what the budget has spent for good is the number of completed children. -/
theorem spawnRun_withinBudget (settings : SubworkerSettings) (steps later : List SpawnStep) :
    let s := spawnRun settings steps
    s.calls.countP SpawnCall.completed + s.calls.countP SpawnCall.running ≤
        settings.maxSubworkers ∧
      s.budget.activeCount = s.calls.countP SpawnCall.holdsSlot ∧
      (s.calls.countP SpawnCall.running = 0 → s.budget.activeCount = 0) ∧
      s.budget.spawnCount = s.calls.countP SpawnCall.completed ∧
      s.budget.spawnCount ≤ (spawnRun settings (steps ++ later)).budget.spawnCount := by
  intro s
  have h : WithinBudget settings s := (WithinBudget.steps steps (withinBudget_empty settings)).1
  have hholds : ∀ call ∈ s.calls, (SpawnCall.holdsSlot call = true ↔ SpawnCall.running call = true) := by
    intro call hcall
    cases call with
    | awaiting frame => simp [SpawnCall.holdsSlot, SpawnCall.running, h.holding frame hcall]
    | ended outcome result => rfl
  have hrunning : s.calls.countP SpawnCall.running = s.calls.countP SpawnCall.holdsSlot :=
    (List.countP_congr hholds).symm
  have hactive := h.active
  have hspawned := h.spawned
  have hbound := h.bound
  have hlater : spawnRun settings (steps ++ later) = later.foldl (SpawnState.step settings) s :=
    List.foldl_append
  refine ⟨by omega, hactive, fun hnone => by omega, hspawned, ?_⟩
  rw [hlater]
  exact (WithinBudget.steps later h).2

end Blackgeorge.Tools
