import Blackgeorge.Program.World

/-! Concrete environments. In the plain one every store works, ids are fresh numbers,
tools succeed, callbacks decide no and the model answers as a given function of the
number of the request. Runs in it witness that statements about runs are not empty. -/

namespace Blackgeorge.Program

open Data Coroutine

/-- The answers of an outside that never fails. -/
def plainAnswers (model : ℕ → ModelResponse) (n : ℕ) : ∀ q, Answer q
  | .newId => toString n
  | .complete .. => .ok (.response (model n))
  | .structured .. => .ok { data := .none }
  | .validateJson .. => .ok .none
  | .runTool .. => .ok { content := some "ok" }
  | .tokenCount .. => 1
  | .modelRegistered _ => true
  | .usageCost .. => 0
  | .store _ => .ok ()
  | .readMemory _ => .ok none
  | .reduce .. => .ok { runId := "", status := .completed }
  | .predicate _ _ context => .ok (false, context.artifacts)
  | .selector _ _ context => .ok ("", context.artifacts)
  | .stop _ _ context => .ok (true, context.artifacts)
  | .jobBuilder _ _ context => .ok (context.job, context.artifacts)
  | .rounds => 100
  | .runner _ => .ok ({ runId := "", status := .completed }, none)
  | .decide .. => ()

/-- The run of a program in an environment, from the first request and the first side. -/
def runIn {α : Type} (answers : ℕ → ∀ q, Answer q) (c : Prog α) (w : World) :
    Trace sig × Except Exn α × World :=
  Coro.drive (S := sig) answers (fun _ => false) c 0 w

theorem runIn_runs {α : Type} {ok : ∀ q, Answer q → Prop} {answers : ℕ → ∀ q, Answer q}
    (h : ∀ n q, ok q (answers n q)) (c : Prog α) (w : World) :
    Coro.Runs (S := sig) ok c w (runIn answers c w).1 (runIn answers c w).2.1
      (runIn answers c w).2.2 :=
  Coro.drive_runs (S := sig) _ h c 0 w

theorem eq_ok_get {α : Type} {r : Except Exn α} (h : r.toOption.isSome) :
    r = .ok (r.toOption.get h) := by
  cases r with
  | ok a => rfl
  | error e => cases h

/-- A tool that runs at once. -/
def plainTool : Tool where
  name := "lookup"
  description := "Look something up"
  callable := 1

/-- A tool that waits for a confirmation. -/
def guardedTool : Tool where
  name := "deploy"
  description := "Deploy the release"
  callable := 2
  requiresConfirmation := true

def plainWorker : Worker where
  name := "worker"
  toolbelt := { tools := [plainTool, guardedTool] }
  memoryScope := "worker:worker"

def plainConfig : RunConfig where
  sink := .desk 0 "run"
  runId := "run"
  defaultModel := some "model"
  usageTotals := 0

theorem one_le_maxContext : ∀ n ∈ some 1, 1 ≤ n := by decide

/-- One message of the history is too much. -/
def crowdedConfig : RunConfig :=
  { plainConfig with maxContextMessages := some 1, maxContextMessages_pos := one_le_maxContext }

theorem one_le_maxIterations : 1 ≤ 1 := le_rfl

/-- One iteration for the whole run. -/
def onceConfig : RunConfig :=
  { plainConfig with maxIterations := 1, maxIterations_pos := one_le_maxIterations }

theorem one_nonneg_budget : ∀ q ∈ some (1 : ℚ), 0 ≤ q := by simp

/-- One dollar for the run. -/
def cappedConfig : RunConfig :=
  { plainConfig with maxCostUsd := some 1, maxCostUsd_nonneg := one_nonneg_budget }

def noTools : Toolbelt where
  tools := []
  nodup := List.nodup_nil

def plainDesk : DeskSettings where
  model := "model"

def plainJob : Job where
  id := "job"
  input := .str "go"

/-- Calls the tool that runs at once first, and is done after it. -/
def plainModel (n : ℕ) : ModelResponse :=
  if n < 4 then
    { content := none, toolCalls := [{ id := "c1", name := "lookup", arguments := [] }] }
  else { content := some "done" }

/-- Calls the tool that waits first, and is done after it. -/
def guardedModel (n : ℕ) : ModelResponse :=
  if n < 4 then
    { content := none, toolCalls := [{ id := "c1", name := "deploy", arguments := [] }] }
  else { content := some "done" }

/-- A model call. -/
def isModelCall : Event sig → Bool
  | ⟨.complete .., _⟩ => true
  | ⟨.structured .., _⟩ => true
  | _ => false

/-- The roles of the messages in each call of the model. -/
def sentRoles (t : Trace sig) : List (List MessageRole) :=
  t.filterMap fun e => match e.1 with
    | .complete _ call => some (call.messages.map PayloadMessage.role)
    | _ => none

/-- The functions behind the tools that ran for a pending action. -/
def approvedCallables (t : Trace sig) : List ℕ :=
  t.filterMap fun e => match e with
    | ⟨.runTool tool _ (some _), _⟩ => some tool.callable
    | _ => none

end Blackgeorge.Program
