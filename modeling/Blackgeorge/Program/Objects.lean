import Blackgeorge.Data.Records

/-! The objects a run is started on: workers, workforces, workflow nodes and flows, and
the configuration a runner gets. -/

namespace Blackgeorge.Program

open Data

/-- The identity of a function given by the user. -/
abbrev FnId := ℕ

/-- The identity of a shared mutable object. -/
abbrev Ref := ℕ

structure Worker where
  name : String
  toolbelt : Toolbelt := {}
  model : Option String := none
  instructions : Option String := none
  memoryScope : String
  name_ne : Text.strip name ≠ "" := by decide
  model_ne : ∀ m ∈ model, Text.strip m ≠ "" := by decide

inductive WorkforceMode where
  | managed
  | collaborate
  | swarm
  deriving DecidableEq

structure Workforce where
  workers : List Worker
  mode : WorkforceMode := .managed
  name : String := "workforce"
  manager : Option Worker := none
  reducer : Option FnId := none
  workers_ne : workers ≠ []
  nodup : (workers.map Worker.name).Nodup
  manager_ok : ∀ m ∈ manager, m.name ∈ workers.map Worker.name → m ∈ workers

/-- `workers[0]`. -/
def Workforce.first (force : Workforce) : Worker := force.workers.head force.workers_ne

/-- The worker under a name, among the workers and the manager. -/
def Workforce.workerByName (force : Workforce) (name : String) : Option Worker :=
  match force.manager with
  | some m => if m.name = name then some m else force.workers.find? (·.name = name)
  | none => force.workers.find? (·.name = name)

inductive Runner where
  | worker (w : Worker)
  | workforce (f : Workforce)

def Runner.name : Runner → String
  | worker w => w.name
  | workforce f => f.name

/-- The nodes of a workflow. Each carries its object identity first. -/
inductive Node where
  | step (id : ℕ) (runner : Runner) (name : String) (jobBuilder : Option FnId)
  | parallel (id : ℕ) (steps : List Node)
  | condition (id : ℕ) (cls : String) (predicate : FnId) (ifTrue ifFalse : List Node)
  | router (id : ℕ) (selector : FnId) (routes : List (String × List Node))
  | loop (id : ℕ) (cls : String) (name : String) (explicitName : Bool) (maxIterations : ℕ)
      (stop : FnId) (steps : List Node)

def Node.id : Node → ℕ
  | step id .. => id
  | parallel id .. => id
  | condition id .. => id
  | router id .. => id
  | loop id .. => id

/-- What a loop's constructor was given. -/
structure Loop where
  id : ℕ
  cls : String
  name : String
  explicitName : Bool
  maxIterations : ℕ
  stop : FnId
  steps : List Node

/-- `isinstance(node, Loop)`. -/
def Node.loop? : Node → Option Loop
  | loop id cls name explicitName maxIterations stop steps =>
    some ⟨id, cls, name, explicitName, maxIterations, stop, steps⟩
  | _ => none

/-- A flow object: what its constructor was given. -/
structure Flow where
  id : ℕ
  steps : List Node
  name : String

/-! ### Configuration -/

/-- The limits `validate_execution_limits` lets through. -/
structure Limits where
  maxTokens : Option ℕ := none
  structuredOutputRetries : ℕ := 3
  maxIterations : ℕ := 10
  maxToolCalls : ℕ := 20
  numRetries : ℕ := 0
  maxContextMessages : Option ℕ := none
  maxCostUsd : Option ℚ := none
  maxTokens_pos : ∀ n ∈ maxTokens, 1 ≤ n := by decide
  maxIterations_pos : 1 ≤ maxIterations := by decide
  maxContextMessages_pos : ∀ n ∈ maxContextMessages, 1 ≤ n := by decide
  maxCostUsd_nonneg : ∀ q ∈ maxCostUsd, 0 ≤ q := by decide

theorem no_budget_nonneg : ∀ q ∈ (none : Option ℚ), 0 ≤ q := by simp

/-- Where the events of a runner go: to the desk under a run id, or to the flow object
that holds the run id itself. -/
inductive Sink where
  | desk (events : Ref) (runId : RunId)
  | flow (id : ℕ)

/-- `RunConfig` without the adapter, which every call of a model stands for. -/
structure RunConfig extends Limits where
  sink : Sink
  runId : RunId
  temperature : Option ℚ := none
  stream : Bool := false
  respectContextWindow : Bool := true
  defaultModel : Option String := none
  usageTotals : Ref

/-- `with_overrides(run_id=run_id)`. -/
def RunConfig.withRunId (config : RunConfig) (runId : RunId) : RunConfig :=
  { config with runId := runId }

/-- `worker_model or self.default_model or ""`. -/
def RunConfig.modelName (config : RunConfig) (workerModel : Option String) : String :=
  match workerModel.filter (· ≠ "") with
  | some m => m
  | none => config.defaultModel.getD ""

/-- What a desk was constructed with. -/
structure DeskSettings extends Limits where
  model : String
  temperature : Option ℚ := none
  stream : Bool := false
  structuredStreamMode : StreamMode := .off
  respectContextWindow : Bool := true
  inMemoryStore : Bool := false
  model_ne : Text.strip model ≠ "" := by decide
  temperature_nonneg : ∀ q ∈ temperature, 0 ≤ q := by decide

end Blackgeorge.Program
