import Mathlib.Data.List.MinMax
import Blackgeorge.Data.Dumps
import Blackgeorge.Program.Environment
import Blackgeorge.Workflow.Flow
import Blackgeorge.WorkforceRun.Budget

/-! The cost budget of a flow. Its steps share the totals of the run, and as many workers may be
in a turn at the same time as its parallel groups are wide. -/

namespace Blackgeorge.Workflow

open Data Program Coroutine Coro WorkerRunner WorkforceRun Desk

/-! ### How many workers run at the same time -/

def runnerWidth : Runner → ℕ
  | .worker _ => 1
  | .workforce force => WorkforceRun.width force

mutual

def width : Node → ℕ
  | .step _ runner _ _ => runnerWidth runner
  | .parallel _ steps => sumWidth steps
  | .condition _ _ _ ifTrue ifFalse => max (maxWidth ifTrue) (maxWidth ifFalse)
  | .router _ _ routes => routesWidth routes
  | .loop _ _ _ _ _ _ steps => maxWidth steps

/-- Of steps that run together. -/
def sumWidth : List Node → ℕ
  | [] => 0
  | step :: steps => width step + sumWidth steps

/-- Of steps that run one after another. -/
def maxWidth : List Node → ℕ
  | [] => 0
  | step :: steps => max (width step) (maxWidth steps)

def routesWidth : List (String × List Node) → ℕ
  | [] => 0
  | (_, steps) :: routes => max (maxWidth steps) (routesWidth routes)

end

theorem maxWidth_drop (steps : List Node) (n : ℕ) : maxWidth (steps.drop n) ≤ maxWidth steps := by
  induction steps generalizing n with
  | nil => simp
  | cons step steps ih =>
    cases n with
    | zero => exact Nat.le_refl _
    | succ n => exact (ih n).trans (Nat.le_max_right _ _)

def continuationWidth : Continuation → ℕ
  | .sequence steps _ _ => maxWidth steps
  | .loop loop _ _ _ _ => maxWidth loop.steps
  | .outputs _ => 0

theorem maxWidth_le_sumWidth (steps : List Node) : maxWidth steps ≤ sumWidth steps := by
  induction steps with
  | nil => exact le_rfl
  | cons step steps ih =>
    have hmax : maxWidth (step :: steps) = max (width step) (maxWidth steps) := rfl
    have hsum : sumWidth (step :: steps) = width step + sumWidth steps := rfl
    omega

mutual

theorem entries_width : ∀ (steps : List Node) (path : StepPath) (i : ℕ),
    ∀ entry ∈ entries steps path i, width entry.2 ≤ maxWidth steps
  | [], _, _, entry, h => absurd h List.not_mem_nil
  | step :: steps, path, i, entry, h => by
    rcases List.mem_cons.mp h with rfl | h
    · exact Nat.le_max_left _ _
    · rcases List.mem_append.mp h with h | h
      · exact (childEntries_width step _ entry h).trans (Nat.le_max_left _ _)
      · exact (entries_width steps path (i + 1) entry h).trans (Nat.le_max_right _ _)

theorem childEntries_width : ∀ (node : Node) (path : StepPath),
    ∀ entry ∈ childEntries node path, width entry.2 ≤ width node
  | .step .., _, entry, h => absurd h List.not_mem_nil
  | .parallel _ steps, _, entry, h =>
    (entries_width steps _ 0 entry h).trans (maxWidth_le_sumWidth steps)
  | .condition _ _ _ ifTrue ifFalse, _, entry, h => by
    rcases List.mem_append.mp h with h | h
    · exact (entries_width ifTrue _ 0 entry h).trans (Nat.le_max_left _ _)
    · exact (entries_width ifFalse _ 0 entry h).trans (Nat.le_max_right _ _)
  | .router _ _ routes, _, entry, h => routeEntries_width routes _ entry h
  | .loop _ _ _ _ _ _ steps, _, entry, h => entries_width steps _ 0 entry h

theorem routeEntries_width : ∀ (routes : List (String × List Node)) (path : StepPath),
    ∀ entry ∈ routeEntries routes path, width entry.2 ≤ routesWidth routes
  | [], _, entry, h => absurd h List.not_mem_nil
  | (_, steps) :: routes, path, entry, h => by
    rcases List.mem_append.mp h with h | h
    · exact (entries_width steps _ 0 entry h).trans (Nat.le_max_left _ _)
    · exact (routeEntries_width routes path entry h).trans (Nat.le_max_right _ _)

end

theorem resolve_width {steps : List Node} {path : StepPath} {node : Node}
    (h : resolve steps path = .ok node) : width node ≤ maxWidth steps := by
  unfold resolve at h
  split at h
  · next entry hfound =>
    obtain rfl := Except.ok.inj h
    exact entries_width steps [] 0 entry (List.mem_of_find?_eq_some hfound)
  · cases h

theorem resolveAll_width {steps : List Node} : ∀ {paths : List StepPath} {nodes : List Node},
    paths.mapM (resolve steps) = .ok nodes → maxWidth nodes ≤ maxWidth steps
  | [], nodes, h => by
    obtain rfl : [] = nodes := Except.ok.inj h
    exact Nat.zero_le _
  | path :: paths, nodes, h => by
    rw [List.mapM_cons] at h
    obtain ⟨node, hnode, h⟩ := ok_of_bind h
    obtain ⟨rest, hrest, h⟩ := ok_of_bind h
    obtain rfl := Except.ok.inj h
    exact Nat.max_le.mpr ⟨resolve_width hnode, resolveAll_width hrest⟩

theorem restoredLoop_width {node : Node} {startIndex : ℕ} {loopName : String} {pos : Pos} {round : ℕ}
    {continuation : Continuation}
    (h : restoredLoop node startIndex loopName pos round = .ok continuation) :
    continuationWidth continuation ≤ width node := by
  unfold restoredLoop at h
  cases node with
  | loop =>
    dsimp only [Node.loop?] at h
    split_ifs at h
    obtain rfl := Except.ok.inj h
    exact le_rfl
  | _ => cases h

/-- A restored continuation is made of nodes of the flow. -/
theorem restore_width {steps : List Node} {stored : StoredContinuation} {ref : Ref}
    {restored : Continuation × Ref} (h : restore steps stored ref = .ok restored) :
    continuationWidth restored.1 ≤ maxWidth steps := by
  cases stored with
  | sequence paths pos first =>
    unfold restore at h
    obtain ⟨nodes, hnodes, h⟩ := ok_of_bind h
    obtain rfl := Except.ok.inj h
    exact resolveAll_width hnodes
  | loop path startIndex loopName pos round =>
    unfold restore at h
    obtain ⟨node, hresolved, h⟩ := ok_of_bind h
    obtain ⟨continuation, hloop, h⟩ := ok_of_bind h
    obtain rfl := Except.ok.inj h
    exact (restoredLoop_width hloop).trans (resolve_width hresolved)
  | outputs outputs =>
    unfold restore at h
    obtain ⟨outputs, -, h⟩ := ok_of_bind h
    obtain rfl := Except.ok.inj h
    exact Nat.zero_le _

theorem restoreAll_width {steps : List Node} {stored : List StoredContinuation} :
    ∀ {ref : Ref} {restored : List Continuation × Ref}, restoreAll steps stored ref = .ok restored →
      ∀ c ∈ restored.1, continuationWidth c ≤ maxWidth steps := by
  induction stored with
  | nil =>
    intro ref restored h c hmem
    obtain rfl := Except.ok.inj h
    exact absurd hmem List.not_mem_nil
  | cons first rest ih =>
    intro ref restored h c hmem
    unfold restoreAll at h
    obtain ⟨⟨continuation, next⟩, hfirst, h⟩ := ok_of_bind h
    obtain ⟨⟨continuations, last⟩, hrest, h⟩ := ok_of_bind h
    obtain rfl := Except.ok.inj h
    rcases List.mem_cons.mp hmem with rfl | hmem
    · exact restore_width hfirst
    · exact ih hrest c hmem

/-! ### What a flow does beside its runners -/

variable {k : Weights} {flow : Flow} {ref : Ref} {budget : ℚ} {cap : ℕ}

section

variable (context : Ref)

theorem idle_getContext :
    Each (budgetGate k (some flow.id) ref budget).idle (getContext context) fun _ => True :=
  each_look (fun _ => budgetGate_step rfl rfl) fun _ => trivial

theorem idle_modifyContext (f : Context → Context) :
    Each (budgetGate k (some flow.id) ref budget).idle (modifyContext context f) fun _ => True :=
  each_update (fun _ => budgetGate_step rfl rfl) trivial

theorem idle_ask {q : Query} (h : ∀ answer : Answer q, k.cost ⟨q, answer⟩ = 0) :
    Each (budgetGate k (some flow.id) ref budget).idle (Prog.ask q) fun _ => True :=
  each_query fun answer _ => ⟨h answer, trivial⟩

theorem idle_store (op : StoreOp) :
    Each (budgetGate k (some flow.id) ref budget).idle (Prog.store op) fun _ => True :=
  each_bind (idle_ask fun _ => rfl) fun r _ => each_outcome r

theorem idle_applyCallback {α : Type} (r : Callback α) :
    Each (budgetGate k (some flow.id) ref budget).idle (applyCallback context r) fun _ => True := by
  unfold applyCallback
  split
  · exact each_raise
  · exact each_bind (idle_modifyContext context _) fun _ _ => each_pure trivial

theorem idle_evalPredicate (fn : FnId) (pos : Pos) :
    Each (budgetGate k (some flow.id) ref budget).idle (evalPredicate context fn pos) fun _ => True := by
  apply each_bind (idle_getContext context)
  intro c _
  exact each_bind (idle_ask fun _ => rfl) fun r _ => idle_applyCallback context r

theorem idle_evalSelector (fn : FnId) (pos : Pos) :
    Each (budgetGate k (some flow.id) ref budget).idle (evalSelector context fn pos) fun _ => True := by
  apply each_bind (idle_getContext context)
  intro c _
  exact each_bind (idle_ask fun _ => rfl) fun r _ => idle_applyCallback context r

theorem idle_evalStop (fn : FnId) (pos : Pos) :
    Each (budgetGate k (some flow.id) ref budget).idle (evalStop context fn pos) fun _ => True := by
  apply each_bind (idle_getContext context)
  intro c _
  exact each_bind (idle_ask fun _ => rfl) fun r _ => idle_applyCallback context r

theorem idle_stepJob (jobBuilder : Option FnId) (pos : Pos) :
    Each (budgetGate k (some flow.id) ref budget).idle (stepJob context jobBuilder pos)
      fun _ => True := by
  apply each_bind (idle_getContext context)
  intro c _
  split
  · exact each_pure trivial
  · exact each_bind (idle_ask fun _ => rfl) fun r _ => idle_applyCallback context r

theorem idle_beginIteration (name : String) (maxIterations : ℕ) (started : Bool) :
    Each (budgetGate k (some flow.id) ref budget).idle
      (beginIteration context name maxIterations started) fun _ => True := by
  apply each_exchange
  · intro w
    dsimp only
    split_ifs <;> exact budgetGate_step rfl rfl
  · exact fun _ => trivial

end

theorem idle_newRef :
    Each (budgetGate k (some flow.id) ref budget).idle Prog.newRef fun _ => True :=
  each_exchange (fun _ => budgetGate_step rfl rfl) fun _ => trivial

theorem idle_prepareJob (desk : DeskSettings) (runner : Runner) (job : Job) :
    Each (budgetGate k (some flow.id) ref budget).idle (prepareJob desk runner job)
      fun _ => True := by
  unfold prepareJob
  dsimp only
  split
  · refine each_bind (idle_ask fun _ => rfl) fun r _ => ?_
    apply each_bind (each_outcome r)
    intro memory _
    split <;> exact each_pure trivial
  · exact each_pure trivial

theorem idle_recordMemory (runner : Option Runner) (report : Report) :
    Each (budgetGate k (some flow.id) ref budget).idle (recordMemory runner report)
      fun _ => True := by
  unfold recordMemory
  split
  · split_ifs
    · split
      · exact each_pure trivial
      · exact idle_store _
      · exact each_bind (each_outcome _) fun _ _ => idle_store _
      · exact idle_store _
    · exact each_pure trivial
  · exact each_pure trivial

theorem idle_registerRunner (runner : Runner) :
    Each (budgetGate k (some flow.id) ref budget).idle (registerRunner runner) fun _ => True := by
  apply each_update _ trivial
  intro w
  cases runner <;> exact budgetGate_step rfl rfl

theorem idle_flowEmit (id : ℕ) (type source : String) (payload : Dict) :
    Each (budgetGate k (some flow.id) ref budget).idle (flowEmit id type source payload)
      fun _ => True := by
  refine each_bind (P := fun _ => True) (each_look budgetIdle_permits.refl fun _ => trivial) fun fields _ => ?_
  split_ifs
  · exact each_pure trivial
  · exact each_deskEmit budgetIdle_permits _ _ _ _ _

/-! ### Runners -/

/-- A runner's outcome with its report as an object of the flow. -/
theorem idle_holdReport (runner : Option Runner) (pos : Pos) (o : Report × Option StepState) :
    Each (budgetGate k (some flow.id) ref budget).idle (do
      recordMemory runner o.1
      let ref ← Prog.newRef
      pure ((⟨ref, pos, o.1⟩ : Held), o.2)) fun _ => True := by
  apply each_bind (idle_recordMemory _ _)
  intro _ _
  apply each_bind idle_newRef
  intro _ _
  exact each_pure trivial

theorem looks_map {α β : Type} {id : Option ℕ} {c : Prog α} {g : α → β}
    (h : Looks (budgetGate k id ref budget) cap c) : Looks (budgetGate k id ref budget) cap (g <$> c) := by
  rw [map_eq_pure_bind]
  exact gated_bind h fun _ => gated_pure

theorem looks_runnersArun {id : Option ℕ} {config : RunConfig} (hconfig : Capped config ref budget)
    (runner : Runner) (job : Job) (pos : Pos) :
    Looks (budgetGate k id ref budget) (runnerWidth runner * k.turn)
      (runners.arun runner config job pos) := by
  cases runner with
  | worker worker =>
    rw [runnerWidth, Nat.one_mul]
    exact looks_map (looks_arun worker hconfig job)
  | workforce force => exact looks_map (looks_arunWorkforce force hconfig job)

theorem looks_runnersAresume {id : Option ℕ} {config : RunConfig} (hconfig : Capped config ref budget)
    (hbudget : 0 ≤ budget) (runner : Runner) (state : StepState) (decision : Value) (pos : Pos) :
    Looks (budgetGate k id ref budget) k.turn
      (runners.aresume runner config state decision pos) := by
  cases runner with
  | worker worker =>
    cases state with
    | worker state => exact looks_map (looks_aresume worker hconfig hbudget state decision)
    | workforce state => exact gated_raise
  | workforce force =>
    cases state with
    | worker state => exact gated_raise
    | workforce state => exact looks_map (looks_aresumeWorkforce force hconfig hbudget state decision)

/-! ### Executing nodes -/

section

variable {desk : DeskSettings} (hdesk : desk.maxCostUsd = some budget) (context : Ref)

include hdesk

/-- While the flow keeps its totals, its configurations have them. -/
theorem looks_flowRunConfig {α : Type} {stream : FlowFields → Bool} {g : RunConfig → Prog α}
    (h : ∀ config, Capped config ref budget →
      Looks (budgetGate k (some flow.id) ref budget) cap (g config)) :
    Looks (budgetGate k (some flow.id) ref budget) cap (flowRunConfig desk flow stream >>= g) := by
  rw [flowRunConfig, LawfulMonad.bind_assoc]
  refine looks_look fun w hw => ?_
  exact h _ ⟨hdesk, hw flow.id rfl⟩

theorem looks_runRunner (runner : Runner) (job : Job) (pos : Pos) :
    Looks (budgetGate k (some flow.id) ref budget) (runnerWidth runner * k.turn)
      (runRunner desk runners flow runner job pos) := by
  refine looks_flowRunConfig hdesk fun config hconfig => ?_
  refine gated_bind (gated_idle (idle_registerRunner runner)) fun _ => ?_
  refine gated_bind (gated_idle (idle_prepareJob desk runner job)) fun job => ?_
  refine gated_bind (looks_runnersArun hconfig runner job pos) fun o => ?_
  exact gated_idle (idle_holdReport _ _ o)

theorem looks_executeStep (runner : Runner) (name : String) (jobBuilder : Option FnId) (pos : Pos) :
    Looks (budgetGate k (some flow.id) ref budget) (runnerWidth runner * k.turn)
      (executeStep desk runners flow context runner name jobBuilder pos) := by
  refine gated_bind (gated_idle (idle_stepJob context jobBuilder pos)) fun job => ?_
  refine gated_bind (gated_idle (idle_flowEmit _ _ _ _)) fun _ => ?_
  refine gated_bind (looks_runRunner hdesk runner job pos) fun r => ?_
  exact gated_bind (gated_idle (idle_flowEmit _ _ _ _)) fun _ => gated_pure

omit hdesk in
theorem looks_iterate (loop : Loop) (pos : Pos) {pass : ℕ → ℕ → List StepOutput → Prog Pass}
    (hpass : ∀ start round outputs, Looks (budgetGate k (some flow.id) ref budget) cap
      (pass start round outputs)) (fuel start round : ℕ) (started : Bool)
    (outputs : List StepOutput) :
    Looks (budgetGate k (some flow.id) ref budget) cap
      (iterate context loop pos pass fuel start round started outputs) := by
  induction fuel generalizing start round started outputs with
  | zero => exact gated_raise
  | succ fuel ih =>
    refine gated_bind (gated_idle (idle_beginIteration context _ _ _)) fun begins => ?_
    split_ifs
    · refine gated_bind (hpass _ _ _) ?_
      rintro (outputs | outputs)
      · refine gated_bind (gated_idle (idle_evalStop context _ _)) fun stops => ?_
        split_ifs
        · exact gated_pure
        · exact ih _ _ _ _
      · exact gated_pure
    · exact gated_pure

omit hdesk in
mutual

theorem looks_execute (hdesk : desk.maxCostUsd = some budget) (context : Ref) : ∀ (node : Node) (pos : Pos),
    Looks (budgetGate k (some flow.id) ref budget) (width node * k.turn)
      (execute desk runners flow context node pos)
  | .step _ runner name jobBuilder, pos => looks_executeStep hdesk context runner name jobBuilder pos
  | .parallel _ steps, pos => by
    rw [execute, width]
    refine gated_bind (gated_bind (looks_executeBranches hdesk context steps pos 0) fun rs => ?_)
      fun _ => gated_pure
    dsimp only
    split
    · exact gated_pure
    · exact gated_raise
  | .condition _ _ predicate ifTrue ifFalse, pos => by
    rw [execute, width]
    refine gated_bind (gated_idle (idle_evalPredicate context _ _)) fun b => ?_
    split_ifs
    · exact (looks_executeSequence hdesk context ifTrue pos 0 []).mono_cap
        (Nat.mul_le_mul_right _ (Nat.le_max_left _ _))
    · exact (looks_executeSequence hdesk context ifFalse pos 0 []).mono_cap
        (Nat.mul_le_mul_right _ (Nat.le_max_right _ _))
  | .router _ selector routes, pos => by
    rw [execute, width]
    refine gated_bind (gated_idle (idle_evalSelector context _ _)) fun route => ?_
    exact looks_executeRoute hdesk context routes route pos
  | .loop id cls name explicitName maxIterations stop steps, pos => by
    rw [execute, width]
    refine gated_bind (gated_idle (idle_modifyContext context _)) fun _ => ?_
    refine gated_bind (gated_idle (P := fun _ => True) (idle_ask fun _ => rfl)) fun fuel => ?_
    exact looks_iterate context _ _
      (fun start round outputs => looks_executePass hdesk context _ steps start _ 0 outputs) _ _ _ _ _

theorem looks_executeBranches (hdesk : desk.maxCostUsd = some budget) (context : Ref) :
    ∀ (steps : List Node) (pos : Pos) (i : ℕ),
    Looks (budgetGate k (some flow.id) ref budget) (sumWidth steps * k.turn)
      (parAll (executeBranches desk runners flow context steps pos i))
  | [], _, _ => gated_pure
  | step :: steps, pos, i => by
    rw [executeBranches, sumWidth, Nat.add_mul]
    exact looks_parAll_cons (looks_execute hdesk context step _)
      (looks_executeBranches hdesk context steps pos (i + 1))

theorem looks_executeSequence (hdesk : desk.maxCostUsd = some budget) (context : Ref) :
    ∀ (steps : List Node) (pos : Pos) (i : ℕ) (outputs : List StepOutput),
    Looks (budgetGate k (some flow.id) ref budget) (maxWidth steps * k.turn)
      (executeSequence desk runners flow context steps pos i outputs)
  | [], _, _, _ => gated_pure
  | step :: steps, pos, i, outputs => by
    rw [executeSequence, maxWidth]
    refine gated_bind ((looks_execute hdesk context step _).mono_cap
      (Nat.mul_le_mul_right _ (Nat.le_max_left _ _))) fun stepOutputs => ?_
    refine gated_bind (gated_idle (idle_modifyContext context _)) fun _ => ?_
    split
    · exact gated_pure
    · exact (looks_executeSequence hdesk context steps pos (i + 1) _).mono_cap
        (Nat.mul_le_mul_right _ (Nat.le_max_right _ _))

theorem looks_executeRoute (hdesk : desk.maxCostUsd = some budget) (context : Ref) :
    ∀ (routes : List (String × List Node)) (route : String) (pos : Pos),
    Looks (budgetGate k (some flow.id) ref budget) (routesWidth routes * k.turn)
      (executeRoute desk runners flow context routes route pos)
  | [], _, _ => gated_pure
  | (name, steps) :: routes, route, pos => by
    rw [executeRoute, routesWidth]
    split_ifs
    · exact (looks_executeSequence hdesk context steps pos 0 []).mono_cap
        (Nat.mul_le_mul_right _ (Nat.le_max_left _ _))
    · exact (looks_executeRoute hdesk context routes route pos).mono_cap
        (Nat.mul_le_mul_right _ (Nat.le_max_right _ _))

theorem looks_executePass (hdesk : desk.maxCostUsd = some budget) (context : Ref)
    (continuation : ℕ → Continuation) : ∀ (steps : List Node) (skip : ℕ)
    (pos : Pos) (i : ℕ) (outputs : List StepOutput),
    Looks (budgetGate k (some flow.id) ref budget) (maxWidth steps * k.turn)
      (executePass desk runners flow context continuation steps skip pos i outputs)
  | [], _, _, _, _ => gated_pure
  | step :: steps, skip + 1, pos, i, outputs => by
    rw [executePass, maxWidth]
    exact (looks_executePass hdesk context continuation steps skip pos (i + 1) outputs).mono_cap
      (Nat.mul_le_mul_right _ (Nat.le_max_right _ _))
  | step :: steps, 0, pos, i, outputs => by
    rw [executePass, maxWidth]
    refine gated_bind ((looks_execute hdesk context step _).mono_cap
      (Nat.mul_le_mul_right _ (Nat.le_max_left _ _))) fun stepOutputs => ?_
    refine gated_bind (gated_idle (idle_modifyContext context _)) fun _ => ?_
    split
    · exact gated_pure
    · exact (looks_executePass hdesk context continuation steps 0 pos (i + 1) _).mono_cap
        (Nat.mul_le_mul_right _ (Nat.le_max_right _ _))

end

/-! ### Running steps -/

omit hdesk in
theorem idle_look {α : Type} (f : World → α) :
    Each (budgetGate k (some flow.id) ref budget).idle (Prog.get f) fun _ => True :=
  each_look budgetIdle_permits.refl fun _ => trivial

omit hdesk in
theorem idle_updateRun (runId : RunId) (status : RunStatus) (output : Option String)
    (outputJson : Value) (state : Option RunState) :
    Each (budgetGate k (some flow.id) ref budget).idle
      (updateRun desk runId status output outputJson state) fun _ => True := by
  apply each_bind (each_outcome _)
  intro record _
  apply each_bind (idle_store _)
  intro _ _
  apply each_update _ trivial
  intro w
  split_ifs <;> exact budgetGate_step rfl rfl

omit hdesk in
theorem idle_recordEnd (status : RunStatus) (event : String) (output : Option String)
    (outputJson : Value) :
    Each (budgetGate k (some flow.id) ref budget).idle
      (recordEnd desk flow status event output outputJson) fun _ => True := by
  apply each_bind (idle_look _)
  intro fields _
  apply each_bind (each_deskEmit budgetIdle_permits _ _ _ _ _)
  intro _ _
  apply each_bind (idle_updateRun _ _ _ _ _)
  intro _ _
  exact each_update (fun _ => budgetGate_step rfl rfl) trivial

omit hdesk in
theorem idle_failRun (report : RunId → Report) :
    Each (budgetGate k (some flow.id) ref budget).idle (failRun desk flow report) fun _ => True := by
  apply each_bind (idle_look _)
  intro fields _
  exact each_bind (idle_recordEnd _ _ _ _) fun _ _ => each_pure trivial

omit hdesk in
theorem idle_pauseFlow (report : Report) (paused : PausedFlow) :
    Each (budgetGate k (some flow.id) ref budget).idle (pauseFlow desk flow context report paused)
      fun _ => True := by
  apply each_bind (idle_look _)
  intro fields _
  apply each_bind (each_getTotals budgetIdle_permits _)
  intro totals _
  apply each_bind (idle_getContext context)
  intro c _
  dsimp only
  split
  · split_ifs
    · exact each_bind (idle_recordEnd _ _ _ _) fun _ _ => each_pure trivial
    · exact each_raise
  · apply each_bind (each_deskEmit budgetIdle_permits _ _ _ _ _)
    intro _ _
    exact each_bind (idle_updateRun _ _ _ _ _) fun _ _ => each_pure trivial

omit hdesk in
theorem idle_executeStepResults (run : FlowRun) (stepIndex : ℕ) (remaining : List Continuation)
    (results : List StepOutput) (allReports : List Held) :
    Each (budgetGate k (some flow.id) ref budget).idle
      (executeStepResults desk flow run stepIndex remaining results allReports) fun _ => True := by
  induction results generalizing allReports with
  | nil => exact each_pure trivial
  | cons result tail ih =>
    unfold executeStepResults
    split
    · exact each_bind (idle_failRun _) fun _ _ => each_pure trivial
    · exact each_bind (idle_pauseFlow run.context _ _) fun _ _ => each_pure trivial
    · exact each_bind (idle_recordEnd _ _ _ _) fun _ _ => each_pure trivial
    · exact each_bind (idle_modifyContext run.context _) fun _ _ => ih _

omit hdesk in
theorem idle_finish (progress : Progress) :
    Each (budgetGate k (some flow.id) ref budget).idle (finish desk flow progress) fun _ => True := by
  cases progress with
  | ended report => exact each_pure trivial
  | going allReports =>
    unfold finish finalizeFlowRun
    dsimp only
    split_ifs
    · exact idle_failRun _
    · apply each_bind (idle_look _)
      intro fields _
      apply each_bind (each_getTotals budgetIdle_permits _)
      intro totals _
      exact each_bind (idle_recordEnd _ _ _ _) fun _ _ => each_pure trivial

theorem looks_runSteps (run : FlowRun) (steps : List Node) (i : ℕ) (allReports : List Held) :
    Looks (budgetGate k (some flow.id) ref budget) (maxWidth steps * k.turn)
      (runSteps desk runners flow run steps i allReports) := by
  induction steps generalizing i allReports with
  | nil => exact gated_pure
  | cons step steps ih =>
    refine gated_bind ((looks_execute hdesk run.context step _).mono_cap
      (Nat.mul_le_mul_right _ (Nat.le_max_left _ _))) fun results => ?_
    refine gated_bind (gated_idle (idle_executeStepResults run i [] results allReports)) ?_
    rintro (report | allReports)
    · exact gated_pure
    · exact (ih _ _).mono_cap (Nat.mul_le_mul_right _ (Nat.le_max_right _ _))

/-! ### Resuming -/

theorem looks_runContinuation (continuation : Continuation) :
    Looks (budgetGate k (some flow.id) ref budget) (continuationWidth continuation * k.turn)
      (runContinuation desk runners flow context continuation) := by
  cases continuation with
  | sequence steps pos first => exact looks_executeSequence hdesk context steps pos first []
  | outputs outputs => exact gated_pure
  | loop loop startIndex previousName pos round =>
    refine gated_bind (gated_idle (P := fun _ => True) ?_) fun _ => ?_
    · unfold takeOverCounter
      split
      · exact idle_modifyContext context _
      · exact each_pure trivial
    · refine gated_bind (gated_idle (P := fun _ => True) (idle_ask fun _ => rfl)) fun fuel => ?_
      exact looks_iterate context _ _
        (fun start round outputs => looks_executePass hdesk context _ loop.steps start _ 0 outputs)
        _ _ _ _ _

theorem looks_runContinuations {n : ℕ} (run : FlowRun) (stepIndex : ℕ)
    {continuations : List Continuation} (hwidth : ∀ c ∈ continuations, continuationWidth c ≤ n)
    (allReports : List Held) :
    Looks (budgetGate k (some flow.id) ref budget) (n * k.turn)
      (runContinuations desk runners flow run stepIndex continuations allReports) := by
  induction continuations generalizing allReports with
  | nil => exact gated_pure
  | cons continuation continuations ih =>
    refine gated_bind ((looks_runContinuation hdesk run.context continuation).mono_cap
      (Nat.mul_le_mul_right _ (hwidth _ List.mem_cons_self))) fun results => ?_
    refine gated_bind (gated_idle (idle_executeStepResults run _ _ results allReports)) ?_
    rintro (report | allReports)
    · exact gated_pure
    · exact ih (fun c hc => hwidth c (List.mem_cons_of_mem _ hc)) _

theorem looks_resumeRunner (hbudget : 0 ≤ budget) (state : StepState) (decision : Value)
    (stream : Bool) (pos : Pos) :
    Looks (budgetGate k (some flow.id) ref budget) k.turn
      (resumeRunner desk runners flow state decision stream pos) := by
  refine looks_flowRunConfig hdesk fun config hconfig => ?_
  refine looks_look fun w _ => ?_
  cases hrunner : registeredRunner w state with
  | none =>
    refine gated_idle (P := fun _ => True) ?_
    exact each_bind idle_newRef fun _ _ => each_pure trivial
  | some runner =>
    refine gated_bind (looks_runnersAresume hconfig hbudget runner state decision pos) fun o => ?_
    exact gated_idle (idle_holdReport _ _ o)

/-- The steps and continuations that a resume goes on with. -/
def resumeWidth (flow : Flow) (restored : Restored) : ℕ :=
  max 1 (max (maxWidth flow.steps) ((restored.continuations.map continuationWidth).foldr max 0))

omit hdesk in
/-- What is restored is no wider than the flow. -/
theorem resumeWidth_restored {state : FlowState} {first : Ref} {restored : Restored × Ref}
    (h : restoreFlow flow state first = .ok restored) :
    resumeWidth flow restored.1 = max 1 (maxWidth flow.steps) := by
  obtain ⟨⟨continuations, last⟩, hall, h⟩ := ok_of_bind h
  obtain rfl := Except.ok.inj h
  have hle : (continuations.map continuationWidth).foldr max 0 ≤ maxWidth flow.steps := by
    refine List.max_le_of_forall_le _ _ fun n hmem => ?_
    obtain ⟨c, hc, rfl⟩ := List.mem_map.mp hmem
    exact restoreAll_width hall c hc
  show max 1 (max (maxWidth flow.steps) ((continuations.map continuationWidth).foldr max 0)) = _
  rw [Nat.max_eq_left hle]

theorem looks_resumeRestored (hbudget : 0 ≤ budget) (run : FlowRun) (stepIndex : ℕ)
    (stepState : StepState) (stepPos : Pos) (restored : Restored) (decision : Value) :
    Looks (budgetGate k (some flow.id) ref budget) (resumeWidth flow restored * k.turn)
      (resumeRestored desk runners flow run stepIndex stepState stepPos restored decision) := by
  have hone : k.turn ≤ resumeWidth flow restored * k.turn :=
    Nat.le_mul_of_pos_left _ (Nat.lt_of_lt_of_le Nat.one_pos (Nat.le_max_left _ _))
  have hsteps : maxWidth (flow.steps.drop (stepIndex + 1)) ≤ resumeWidth flow restored :=
    (maxWidth_drop _ _).trans ((Nat.le_max_left _ _).trans (Nat.le_max_right _ _))
  have hcontinuations : ∀ c ∈ restored.continuations,
      continuationWidth c ≤ resumeWidth flow restored := by
    intro c hc
    have hle : continuationWidth c ≤ (restored.continuations.map continuationWidth).foldr max 0 :=
      List.le_max_of_le' 0 (List.mem_map_of_mem hc) le_rfl
    exact hle.trans ((Nat.le_max_right _ _).trans (Nat.le_max_right _ _))
  refine gated_bind ((looks_resumeRunner hdesk hbudget _ decision run.stream stepPos).mono_cap hone) ?_
  rintro ⟨held, updated⟩
  refine gated_bind (gated_idle (idle_executeStepResults run stepIndex _ _ _)) ?_
  rintro (report | allReports)
  · exact gated_pure
  · refine gated_bind (looks_runContinuations hdesk run stepIndex hcontinuations allReports) ?_
    rintro (report | allReports)
    · exact gated_pure
    · exact (looks_runSteps hdesk run _ _ _).mono_cap (Nat.mul_le_mul_right _ hsteps)

omit hdesk in
theorem looks_finish {c : Prog Progress} (h : Looks (budgetGate k (some flow.id) ref budget) cap c) :
    Looks (budgetGate k (some flow.id) ref budget) cap (c >>= finish desk flow) :=
  gated_bind h fun progress => gated_idle (idle_finish progress)

end

/-! ### Over the budget -/

/-- The calls on a runner, with how many of their turns run at the same time. -/
inductive RunsRunner (config : RunConfig) : ℕ → Prog (Report × Option StepState) → Prop
  | arun (runner : Runner) (job : Job) (pos : Pos) :
    RunsRunner config (runnerWidth runner) (runners.arun runner config job pos)
  | aresume (runner : Runner) (state : StepState) (decision : Value) (pos : Pos) :
    RunsRunner config 1 (runners.aresume runner config state decision pos)

theorem RunsRunner.looks {config : RunConfig} (hconfig : Capped config ref budget) {id : Option ℕ} {n : ℕ}
    {c : Prog (Report × Option StepState)} (h : RunsRunner config n c) :
    Looks (budgetGate k id ref budget) (n * k.turn) c := by
  cases h with
  | arun runner job pos => exact looks_runnersArun hconfig runner job pos
  | aresume runner state decision pos =>
    have hbudget : 0 ≤ budget := config.maxCostUsd_nonneg budget hconfig.maxCostUsd
    rw [Nat.one_mul]
    exact looks_runnersAresume hconfig hbudget runner state decision pos

/-- Once the recorded total of a run exceeds the budget, a worker or a workforce ends at most one
turn for each worker that is in one, wherever the run stood and whatever the others do that
share its totals. A run that begins there makes no call. -/
theorem runners_stop_over_budget {config : RunConfig} (hconfig : Capped config ref budget) {n : ℕ}
    {c c' c'' : Prog (Report × Option StepState)} (hcall : RunsRunner config n c) {w w' w'' : World}
    {t t' : Trace sig}
    (hr : Reaches (S := sig) (KeepsTotals none ref budget) Nonnegative c w t c' w')
    (hover : OverBudget ref budget w')
    (hr' : Reaches (S := sig) (KeepsTotals none ref budget) Nonnegative c' w' t' c'' w'') (k : Weights) :
    (t'.map k.cost).sum ≤ n * k.turn ∧ (OverBudget ref budget w → (t'.map k.cost).sum = 0) := by
  have hw : HasTotals none ref w := fun id hid => by cases hid
  exact spent_le_of_looks (hcall.looks hconfig) hw hr hover hr'

/-- A model that calls a tool each time, for two dollars. -/
def costlyAnswers (n : ℕ) : ∀ q, Answer q
  | .complete .. => .ok (.response { plainModel 0 with usage := [("total_tokens", .int 1)] })
  | .usageCost .. => 2
  | q => plainAnswers plainModel n q

theorem costlyAnswers_nonnegative (n : ℕ) (q : Query) : Nonnegative q (costlyAnswers n q) := by
  cases q with
  | usageCost modelName usage => exact (by decide : (0 : ℚ) ≤ 2)
  | _ => trivial

/-- More than a dollar is spent. -/
def overspent (w : World) : Bool := 1 < (w.totals 0).costUsd.getD 0

theorem of_overspent {w : World} (h : overspent w = true) : OverBudget 0 1 w := by
  unfold overspent at h
  have hover : 1 < (w.totals 0).costUsd.getD 0 := of_decide_eq_true h
  exact hover

/-- What a program has done when the dollar is spent, what it has become and what it does then;
the sides of a choice alternate. -/
def crossing {α : Type} (c : Prog α) : Trace sig × Prog α × World :=
  Coro.driveUntil (S := sig) overspent costlyAnswers (fun n => n % 2 = 0) c 0 {}

def afterCrossing {α : Type} (c : Prog α) : Trace sig × Except Exn α × World :=
  Coro.drive (S := sig) costlyAnswers (fun n => n % 2 = 0) (crossing c).2.1 0 (crossing c).2.2

theorem crossing_reaches {α : Type} {rely : World → World → Prop} (c : Prog α) :
    Reaches (S := sig) rely Nonnegative c {} (crossing c).1 (crossing c).2.1 (crossing c).2.2 :=
  driveUntil_reaches _ _ costlyAnswers_nonnegative _ _ _

theorem afterCrossing_reaches {α : Type} {rely : World → World → Prop} (c : Prog α) :
    Reaches (S := sig) rely Nonnegative (crossing c).2.1 (crossing c).2.2 (afterCrossing c).1
      (.ret (afterCrossing c).2.1) (afterCrossing c).2.2 :=
  (drive_runs (S := sig) _ costlyAnswers_nonnegative _ _ _).reaches

/-- What a trace counts for if responses, structured answers and recordings all count. -/
def counted (t : Trace sig) : ℕ := (t.map (Weights.cost ⟨1, 1, 1⟩)).sum

/-- A worker under the budget of a dollar. -/
@[irreducible] def costlyRun : Prog (Report × Option StepState) :=
  runners.arun (.worker plainWorker) cappedConfig plainJob []

theorem runners_stop_over_budget_crossing : counted (crossing costlyRun).1 = 2 ∧
    counted (afterCrossing costlyRun).1 ≤ 1 * Weights.turn ⟨1, 1, 1⟩ := by
  have hcall : RunsRunner cappedConfig 1 costlyRun := by
    unfold costlyRun
    exact .arun (.worker plainWorker) plainJob []
  have hover : OverBudget 0 1 (crossing costlyRun).2.2 :=
    of_overspent (by decide +kernel)
  refine ⟨by decide +kernel, ?_⟩
  exact (runners_stop_over_budget (show Capped cappedConfig 0 1 from ⟨rfl, rfl⟩) hcall
    (crossing_reaches _) hover (afterCrossing_reaches _) ⟨1, 1, 1⟩).1

/-- The parts of a flow's run that run its steps, with how many turns run at the same time. A
resume goes on with what the stored state restores. -/
inductive RunsSteps (desk : DeskSettings) (flow : Flow) : ℕ → Prog Report → Prop
  | run (run : FlowRun) (steps : List Node) (i : ℕ) (allReports : List Held) :
    RunsSteps desk flow (maxWidth steps) (runSteps desk runners flow run steps i allReports >>= finish desk flow)
  | resume {state : FlowState} {first : Ref} {restored : Restored × Ref} (run : FlowRun)
      (stepIndex : ℕ) (stepState : StepState) (stepPos : Pos) (decision : Value) :
    restoreFlow flow state first = .ok restored →
    RunsSteps desk flow (max 1 (maxWidth flow.steps))
      (resumeRestored desk runners flow run stepIndex stepState stepPos restored.1 decision >>=
        finish desk flow)

theorem RunsSteps.looks {desk : DeskSettings} (hdesk : desk.maxCostUsd = some budget) {n : ℕ}
    {c : Prog Report} (h : RunsSteps desk flow n c) :
    Looks (budgetGate k (some flow.id) ref budget) (n * k.turn) c := by
  cases h with
  | run run steps i allReports => exact looks_finish (looks_runSteps hdesk run steps i allReports)
  | @resume state first restored run stepIndex stepState stepPos decision hrestored =>
    have hbudget : 0 ≤ budget := desk.maxCostUsd_nonneg budget hdesk
    rw [← resumeWidth_restored hrestored]
    exact looks_finish (looks_resumeRestored hdesk hbudget run stepIndex stepState stepPos restored.1 decision)

/-- A run of a flow begins, and then runs its steps. -/
theorem run_eq_begin (desk : DeskSettings) (flow : Flow) (job : Job) : ∃ steps : FlowRun → Prog Report,
    run desk runners flow job = beginRun desk flow job >>= steps ∧
      ∀ flowRun, RunsSteps desk flow (maxWidth flow.steps) (steps flowRun) := by
  refine ⟨_, ?_, fun flowRun => .run flowRun flow.steps 0 []⟩
  unfold run collectRun
  rw [LawfulMonad.bind_assoc]

/-- The same for the steps of a flow, for as many workers as its parallel groups run at once.
No other call runs or resumes the flow object meanwhile, which would give it other totals. -/
theorem flows_stop_over_budget {desk : DeskSettings} (hdesk : desk.maxCostUsd = some budget) {n : ℕ}
    {c c' c'' : Prog Report} (hcall : RunsSteps desk flow n c) {w w' w'' : World} {t t' : Trace sig}
    (hw : (w.flows flow.id).usageTotals = ref)
    (hr : Reaches (S := sig) (KeepsTotals (some flow.id) ref budget) Nonnegative c w t c' w')
    (hover : OverBudget ref budget w')
    (hr' : Reaches (S := sig) (KeepsTotals (some flow.id) ref budget) Nonnegative c' w' t' c'' w'')
    (k : Weights) :
    (t'.map k.cost).sum ≤ n * k.turn ∧ (OverBudget ref budget w → (t'.map k.cost).sum = 0) := by
  have hw' : HasTotals (some flow.id) ref w := fun id hid => by
    cases hid
    exact hw
  exact spent_le_of_looks (hcall.looks hdesk) hw' hr hover hr'

/-- One dollar for the run of a flow. -/
def cappedDesk : DeskSettings :=
  { plainDesk with maxCostUsd := some 1, maxCostUsd_nonneg := one_nonneg_budget }

def reviewFlow : Flow where
  id := 0
  steps := [.parallel 1 [.step 2 (.worker plainWorker) "plan" none, .step 3 (.worker plainWorker) "review" none],
    .step 4 (.worker plainWorker) "report" none]
  name := "flow"

/-- The steps of the flow, two of them at the same time. -/
@[irreducible] def costlyFlowRun : Prog Report :=
  runSteps cappedDesk runners reviewFlow ⟨1, plainJob, false⟩ reviewFlow.steps 0 [] >>=
    finish cappedDesk reviewFlow

/-- The other worker of the group is in its turn when the first one spends the dollar. -/
theorem flows_stop_over_budget_crossing : counted (crossing costlyFlowRun).1 = 2 ∧
    counted (afterCrossing costlyFlowRun).1 = 2 ∧
      counted (afterCrossing costlyFlowRun).1 ≤ 2 * Weights.turn ⟨1, 1, 1⟩ := by
  have hcall : RunsSteps cappedDesk reviewFlow 2 costlyFlowRun := by
    unfold costlyFlowRun
    exact .run ⟨1, plainJob, false⟩ reviewFlow.steps 0 []
  have hover : OverBudget 0 1 (crossing costlyFlowRun).2.2 :=
    of_overspent (by decide +kernel)
  refine ⟨by decide +kernel, by decide +kernel, ?_⟩
  exact (flows_stop_over_budget rfl hcall rfl (crossing_reaches _) hover (afterCrossing_reaches _)
    ⟨1, 1, 1⟩).1

end Blackgeorge.Workflow
