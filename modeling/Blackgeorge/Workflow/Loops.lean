import Blackgeorge.Workflow.Flow

/-! The loops of a flow: their names, the positions that its nodes are executed at, and
what the continuations of a paused flow come down to. -/

namespace Blackgeorge.Workflow

open Data Program Desk

/-! ### Names -/

mutual

/-- The names of the loops in a node, its own included. -/
def loopNames : Node → List String
  | .step .. => []
  | .parallel _ steps => allLoopNames steps
  | .condition _ _ _ ifTrue ifFalse => allLoopNames ifTrue ++ allLoopNames ifFalse
  | .router _ _ routes => routeLoopNames routes
  | .loop _ _ name _ _ _ steps => name :: allLoopNames steps

def allLoopNames : List Node → List String
  | [] => []
  | step :: steps => loopNames step ++ allLoopNames steps

def routeLoopNames : List (String × List Node) → List String
  | [] => []
  | (_, steps) :: routes => allLoopNames steps ++ routeLoopNames routes

end

mutual

/-- No loop inside a loop, or in another branch of a parallel group, has its name. -/
def Apart : Node → Prop
  | .step .. => True
  | .parallel _ steps =>
    AllApart steps ∧ steps.Pairwise fun step step' => ∀ n ∈ loopNames step, n ∉ loopNames step'
  | .condition _ _ _ ifTrue ifFalse => AllApart ifTrue ∧ AllApart ifFalse
  | .router _ _ routes => RoutesApart routes
  | .loop _ _ name _ _ _ steps => AllApart steps ∧ name ∉ allLoopNames steps

def AllApart : List Node → Prop
  | [] => True
  | step :: steps => Apart step ∧ AllApart steps

def RoutesApart : List (String × List Node) → Prop
  | [] => True
  | (_, steps) :: routes => AllApart steps ∧ RoutesApart routes

end

theorem allApart_iff {steps : List Node} : AllApart steps ↔ ∀ step ∈ steps, Apart step := by
  induction steps with
  | nil => simp [AllApart]
  | cons step steps ih => simp [AllApart, ih]

theorem mem_allLoopNames {steps : List Node} {n : String} :
    n ∈ allLoopNames steps ↔ ∃ step ∈ steps, n ∈ loopNames step := by
  induction steps with
  | nil => simp [allLoopNames]
  | cons step steps ih => simp [allLoopNames, ih]

/-- The loop as a node again. -/
def loopNode (loop : Loop) : Node :=
  .loop loop.id loop.cls loop.name loop.explicitName loop.maxIterations loop.stop loop.steps

/-! ### Positions -/

/-- The nodes of a flow at the positions they may be executed at. The rounds of a loop that
a position names are no more than the loop's bound. -/
inductive At (steps : List Node) : Node → Pos → Prop
  | top {i node} : steps[i]? = some node → At steps node [.seq i]
  | parallel {id children pos i node} : At steps (.parallel id children) pos →
    children[i]? = some node → At steps node (pos ++ [.par i])
  | ifTrue {id cls predicate ifTrue ifFalse pos i node} :
    At steps (.condition id cls predicate ifTrue ifFalse) pos → ifTrue[i]? = some node →
    At steps node (pos ++ [.seq i])
  | ifFalse {id cls predicate ifTrue ifFalse pos i node} :
    At steps (.condition id cls predicate ifTrue ifFalse) pos → ifFalse[i]? = some node →
    At steps node (pos ++ [.seq i])
  | route {id selector routes name children pos i node} :
    At steps (.router id selector routes) pos → (name, children) ∈ routes →
    children[i]? = some node → At steps node (pos ++ [.seq i])
  | round {loop pos round i node} : At steps (loopNode loop) pos → 1 ≤ round →
    round ≤ loop.maxIterations → loop.steps[i]? = some node →
    At steps node (pos ++ [.iter round] ++ [.seq i])

/-- Nodes that are executed one after the other, the first one with number `first`. -/
def InLine (steps : List Node) (nodes : List Node) (pos : Pos) (first : ℕ) : Prop :=
  ∀ i node, nodes[i]? = some node → At steps node (pos ++ [.seq (first + i)])

theorem InLine.head {steps nodes : List Node} {node : Node} {pos : Pos} {first : ℕ}
    (h : InLine steps (node :: nodes) pos first) : At steps node (pos ++ [.seq first]) :=
  h 0 node rfl

theorem InLine.tail {steps nodes : List Node} {node : Node} {pos : Pos} {first : ℕ}
    (h : InLine steps (node :: nodes) pos first) : InLine steps nodes pos (first + 1) := by
  intro i node' hnode
  have := h (i + 1) node' hnode
  rwa [show first + (i + 1) = first + 1 + i by omega] at this

/-- Where a flow asks: at the position of the node that asks. A stop function is asked at a
round of its loop, when the loop's counter has that round. -/
def Placed (steps : List Node) : Coroutine.Event sig → Prop
  | ⟨.stop fn pos context, _⟩ => ∃ loop pos' round, At steps (loopNode loop) pos' ∧
    loop.stop = fn ∧ pos = pos' ++ [.iter round] ∧ 1 ≤ round ∧ round ≤ loop.maxIterations ∧
    context.loopIterations loop.name = round
  | ⟨.predicate fn pos _, _⟩ => ∃ id cls ifTrue ifFalse,
    At steps (.condition id cls fn ifTrue ifFalse) pos
  | ⟨.selector fn pos _, _⟩ => ∃ id routes, At steps (.router id fn routes) pos
  | ⟨.jobBuilder fn pos _, _⟩ => ∃ id runner name, At steps (.step id runner name (some fn)) pos
  | ⟨.runner (.run pos runner _), _⟩ => ∃ id name jobBuilder,
    At steps (.step id runner name jobBuilder) pos
  | _ => True

/-! ### What a paused flow still has to do -/

mutual

/-- The sequences and loops that a result's continuations come down to, in the order in
which they run. -/
def resultLeaves : StepOutput → List Continuation
  | .bare _ => []
  | .result _ _ continuations => continuationsLeaves continuations

def continuationLeaves : Continuation → List Continuation
  | .sequence steps pos first => [.sequence steps pos first]
  | .loop loop startIndex previousName pos round => [.loop loop startIndex previousName pos round]
  | .outputs outputs => outputsLeaves outputs

def outputsLeaves : List StepOutput → List Continuation
  | [] => []
  | output :: outputs => resultLeaves output ++ outputsLeaves outputs

def continuationsLeaves : List Continuation → List Continuation
  | [] => []
  | continuation :: continuations =>
    continuationLeaves continuation ++ continuationsLeaves continuations

end

theorem resultLeaves_eq (output : StepOutput) :
    resultLeaves output = continuationsLeaves output.continuations := by
  cases output <;> rfl

@[simp] theorem outputsLeaves_normalized (outputs : List StepOutput) :
    outputsLeaves (outputs.map StepOutput.normalized) = outputsLeaves outputs := by
  induction outputs with
  | nil => rfl
  | cons output outputs ih =>
    rw [List.map_cons, outputsLeaves, outputsLeaves, ih, resultLeaves_eq output]
    rfl

@[simp] theorem outputsLeaves_append (l l' : List StepOutput) :
    outputsLeaves (l ++ l') = outputsLeaves l ++ outputsLeaves l' := by
  induction l with
  | nil => rfl
  | cons output l ih => simp [outputsLeaves, ih]

@[simp] theorem continuationsLeaves_append (l l' : List Continuation) :
    continuationsLeaves (l ++ l') = continuationsLeaves l ++ continuationsLeaves l' := by
  induction l with
  | nil => rfl
  | cons continuation l ih => simp [continuationsLeaves, ih]

@[simp] theorem continuationsLeaves_parked (tail : List StepOutput) :
    continuationsLeaves (parked tail) = outputsLeaves tail := by
  cases tail <;> simp [parked, continuationsLeaves, continuationLeaves, outputsLeaves]

theorem outputsLeaves_filter (p : StepOutput → Bool) (outputs : List StepOutput) :
    (outputsLeaves (outputs.filter p)).Sublist (outputsLeaves outputs) := by
  induction outputs with
  | nil => exact .refl _
  | cons output outputs ih =>
    rw [List.filter_cons]
    split_ifs
    · exact (List.Sublist.refl _).append ih
    · exact ih.trans (List.sublist_append_right _ _)

theorem outputsLeaves_deferPaused (continuations : List Continuation) (outputs : List StepOutput) :
    (outputsLeaves (deferPaused continuations outputs)).Sublist
      (outputsLeaves outputs ++ continuationsLeaves continuations) := by
  induction outputs with
  | nil => exact List.nil_sublist _
  | cons output tail ih =>
    unfold deferPaused
    split_ifs
    · simp [outputsLeaves, resultLeaves, resultLeaves_eq output]
    · rw [outputsLeaves, outputsLeaves, List.append_assoc]
      exact (List.Sublist.refl _).append ih

/-- Deferring keeps the order and drops work only where a failure ends it. -/
theorem outputsLeaves_deferAfterPause (outputs : List StepOutput)
    (continuations : List Continuation) :
    (outputsLeaves (deferAfterPause outputs continuations)).Sublist
      (outputsLeaves outputs ++ continuationsLeaves continuations) := by
  unfold deferAfterPause
  dsimp only
  split_ifs
  · exact outputsLeaves_deferPaused continuations outputs
  · exact (outputsLeaves_filter _ _).trans (List.sublist_append_left _ _)

theorem outputsLeaves_stopOutputs (outputs stepOutputs : List StepOutput)
    (continuations : List Continuation) :
    (outputsLeaves (stopOutputs outputs stepOutputs continuations)).Sublist
      (outputsLeaves outputs ++ continuationsLeaves continuations) := by
  unfold stopOutputs
  split_ifs
  · exact outputsLeaves_deferAfterPause outputs continuations
  · exact List.sublist_append_left _ _

/-- Only paused results have something left to do. -/
def OnlyPaused (outputs : List StepOutput) : Prop :=
  ∀ output ∈ outputs, output.status ≠ .paused → resultLeaves output = []

theorem onlyPaused_nil : OnlyPaused [] := by simp [OnlyPaused]

theorem onlyPaused_append {l l' : List StepOutput} (h : OnlyPaused l) (h' : OnlyPaused l') :
    OnlyPaused (l ++ l') := by
  intro output hmem
  rcases List.mem_append.mp hmem with hmem | hmem
  · exact h output hmem
  · exact h' output hmem

theorem onlyPaused_deferPaused (continuations : List Continuation) {outputs : List StepOutput}
    (h : OnlyPaused outputs) : OnlyPaused (deferPaused continuations outputs) := by
  induction outputs with
  | nil => exact h
  | cons output tail ih =>
    have htail : OnlyPaused tail := fun o ho => h o (List.mem_cons_of_mem _ ho)
    unfold deferPaused
    split_ifs with hpaused
    · intro o ho hne
      obtain rfl := List.mem_singleton.mp ho
      exact absurd hpaused hne
    · intro o ho
      rcases List.mem_cons.mp ho with rfl | ho
      · exact h o (List.mem_cons_self)
      · exact ih htail o ho

theorem onlyPaused_deferAfterPause (continuations : List Continuation) {outputs : List StepOutput}
    (h : OnlyPaused outputs) : OnlyPaused (deferAfterPause outputs continuations) := by
  unfold deferAfterPause
  dsimp only
  split_ifs
  · exact onlyPaused_deferPaused continuations h
  · exact fun o ho => h o (List.mem_of_mem_filter ho)

theorem onlyPaused_stopOutputs {outputs : List StepOutput} (stepOutputs : List StepOutput)
    (continuations : List Continuation) (h : OnlyPaused outputs) :
    OnlyPaused (stopOutputs outputs stepOutputs continuations) := by
  unfold stopOutputs
  split_ifs
  · exact onlyPaused_deferAfterPause continuations h
  · exact h

/-- Outputs that do not stop a sequence leave nothing to do. -/
theorem outputsLeaves_of_not_shouldStop {outputs : List StepOutput} (h : OnlyPaused outputs)
    (hstop : shouldStop outputs = false) : outputsLeaves outputs = [] := by
  induction outputs with
  | nil => rfl
  | cons output outputs ih =>
    unfold shouldStop at hstop
    rw [List.any_cons, Bool.or_eq_false_iff] at hstop
    have hne : output.status ≠ .paused := by
      intro hpaused
      rw [hpaused] at hstop
      simp at hstop
    rw [outputsLeaves, h output (List.mem_cons_self) hne,
      ih (fun o ho => h o (List.mem_cons_of_mem _ ho)) hstop.2]
    rfl

/-! ### Counters -/

/-- The names of the loops that a sequence or loop still runs. -/
def Continuation.touched : Continuation → List String
  | .sequence steps _ _ => allLoopNames steps
  | .loop l _ _ _ _ => l.name :: allLoopNames l.steps
  | .outputs _ => []

/-- The name that a waiting loop's count is kept under. -/
def Continuation.keptUnder : Continuation → Option String
  | .loop l _ previousName _ _ => some (previousName.getD l.name)
  | _ => none

/-- What a continuation has of the flow it belongs to. -/
def Continuation.Fits (steps : List Node) : Continuation → Prop
  | .sequence nodes pos first => AllApart nodes ∧ InLine steps nodes pos first
  | .loop l _ _ pos round =>
    Apart (loopNode l) ∧ At steps (loopNode l) pos ∧ 1 ≤ round ∧ round ≤ l.maxIterations
  | .outputs _ => True

/-- A waiting loop's count is the number of the round it waits in. -/
def Continuation.Counted (f : String → ℕ) : Continuation → Prop
  | .loop l _ previousName _ round => f (previousName.getD l.name) = round
  | _ => True

/-- The first one leaves alone what the second one's count is kept under. -/
def Separate (k k' : Continuation) : Prop := ∀ n ∈ k.touched, k'.keptUnder ≠ some n

/-- Waiting sequences and loops that can go on one after the other. -/
structure Ready (steps : List Node) (f : String → ℕ) (leaves : List Continuation) : Prop where
  fits : ∀ k ∈ leaves, k.Fits steps
  counted : ∀ k ∈ leaves, k.Counted f
  separate : leaves.Pairwise Separate

theorem ready_nil (steps : List Node) (f : String → ℕ) : Ready steps f [] := ⟨by simp, by simp, .nil⟩

theorem Ready.sublist {steps : List Node} {f : String → ℕ} {l l' : List Continuation}
    (h : Ready steps f l) (hl : l'.Sublist l) : Ready steps f l' :=
  ⟨fun k hk => h.fits k (hl.mem hk), fun k hk => h.counted k (hl.mem hk), h.separate.sublist hl⟩

theorem Ready.append {steps : List Node} {f : String → ℕ} {l l' : List Continuation}
    (h : Ready steps f l) (h' : Ready steps f l') (hsep : ∀ k ∈ l, ∀ k' ∈ l', Separate k k') :
    Ready steps f (l ++ l') := by
  refine ⟨fun k hk => ?_, fun k hk => ?_, List.pairwise_append.mpr ⟨h.separate, h'.separate, hsep⟩⟩
  · rcases List.mem_append.mp hk with hk | hk
    · exact h.fits k hk
    · exact h'.fits k hk
  · rcases List.mem_append.mp hk with hk | hk
    · exact h.counted k hk
    · exact h'.counted k hk

end Blackgeorge.Workflow
