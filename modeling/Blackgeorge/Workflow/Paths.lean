import Blackgeorge.Data.Dumps
import Blackgeorge.Workflow.Loops

/-! The stored form of a flow's continuations and back. A flow's nodes have different
paths, so a path leads back to the node it was taken from, and what a resume restores is
what the pause has stored; only a loop remembers the name it had. -/

namespace Blackgeorge.Workflow

open Data Program Desk

/-! ### Paths -/

mutual

/-- The routes of every router in a node are the keys of a dictionary. -/
def Keyed : Node → Prop
  | .step .. => True
  | .parallel _ steps => AllKeyed steps
  | .condition _ _ _ ifTrue ifFalse => AllKeyed ifTrue ∧ AllKeyed ifFalse
  | .router _ _ routes => (routes.map Prod.fst).Nodup ∧ RoutesKeyed routes
  | .loop _ _ _ _ _ _ steps => AllKeyed steps

def AllKeyed : List Node → Prop
  | [] => True
  | step :: steps => Keyed step ∧ AllKeyed steps

def RoutesKeyed : List (String × List Node) → Prop
  | [] => True
  | (_, steps) :: routes => AllKeyed steps ∧ RoutesKeyed routes

end

mutual

/-- What a path in a sequence goes through first. -/
theorem entries_path : ∀ (steps : List Node) (path : StepPath) (i : ℕ),
    ∀ e ∈ entries steps path i, ∃ j rest, i ≤ j ∧ e.1 = path ++ .int j :: rest
  | [], _, _, e, he => by simp [entries] at he
  | step :: steps, path, i, e, he => by
    rcases List.mem_cons.mp he with rfl | he
    · exact ⟨i, [], le_rfl, rfl⟩
    rcases List.mem_append.mp he with he | he
    · obtain ⟨s, rest, hrest⟩ := childEntries_path step _ e he
      exact ⟨i, .str s :: rest, le_rfl, by simp [hrest]⟩
    · obtain ⟨j, rest, hj, hrest⟩ := entries_path steps path (i + 1) e he
      exact ⟨j, rest, by omega, hrest⟩

theorem childEntries_path : ∀ (node : Node) (path : StepPath),
    ∀ e ∈ childEntries node path, ∃ s rest, e.1 = path ++ .str s :: rest
  | .step .., _, e, he => by simp [childEntries] at he
  | .parallel _ steps, path, e, he => by
    obtain ⟨j, rest, _, hrest⟩ := entries_path steps _ 0 e he
    exact ⟨"parallel", .int j :: rest, by simp [hrest]⟩
  | .condition _ _ _ ifTrue ifFalse, path, e, he => by
    rcases List.mem_append.mp he with he | he
    · obtain ⟨j, rest, _, hrest⟩ := entries_path ifTrue _ 0 e he
      exact ⟨"true", .int j :: rest, by simp [hrest]⟩
    · obtain ⟨j, rest, _, hrest⟩ := entries_path ifFalse _ 0 e he
      exact ⟨"false", .int j :: rest, by simp [hrest]⟩
  | .router _ _ routes, path, e, he => by
    obtain ⟨route, _, rest, hrest⟩ := routeEntries_path routes _ e he
    exact ⟨"route", .str route :: rest, by simp [hrest]⟩
  | .loop _ _ _ _ _ _ steps, path, e, he => by
    obtain ⟨j, rest, _, hrest⟩ := entries_path steps _ 0 e he
    exact ⟨"loop", .int j :: rest, by simp [hrest]⟩

theorem routeEntries_path : ∀ (routes : List (String × List Node)) (path : StepPath),
    ∀ e ∈ routeEntries routes path, ∃ route ∈ routes.map Prod.fst, ∃ rest,
      e.1 = path ++ .str route :: rest
  | [], _, e, he => by simp [routeEntries] at he
  | (route, steps) :: routes, path, e, he => by
    rcases List.mem_append.mp he with he | he
    · obtain ⟨j, rest, _, hrest⟩ := entries_path steps _ 0 e he
      exact ⟨route, by simp, .int j :: rest, by simp [hrest]⟩
    · obtain ⟨route', hmem, rest, hrest⟩ := routeEntries_path routes path e he
      exact ⟨route', List.mem_cons_of_mem _ hmem, rest, hrest⟩

end

/-- Paths that part at their first step differ. -/
theorem path_ne {path : StepPath} {p q : PathPart} {rest rest' : StepPath} (h : p ≠ q) :
    path ++ p :: rest ≠ path ++ q :: rest' := by
  intro heq
  have := List.append_cancel_left heq
  exact h (List.cons.inj this).1

mutual

/-- A path belongs to one node. -/
theorem entries_inj : ∀ (steps : List Node), AllKeyed steps → ∀ (path : StepPath) (i : ℕ),
    ∀ e ∈ entries steps path i, ∀ e' ∈ entries steps path i, e.1 = e'.1 → e = e'
  | [], _, _, _, e, he, _, _, _ => by simp [entries] at he
  | step :: steps, hkeyed, path, i, e, he, e', he', heq => by
    have hbehind : ∀ e ∈ entries steps path (i + 1), ∀ rest, e.1 ≠ path ++ .int i :: rest := by
      intro e he rest hrest
      obtain ⟨j, rest', hj, hpath⟩ := entries_path steps path (i + 1) e he
      refine path_ne (fun h : PathPart.int j = .int i => ?_) (hpath.symm.trans hrest)
      have := PathPart.int.inj h
      omega
    have hinside : ∀ e ∈ childEntries step (path ++ [.int i]), ∃ s rest,
        e.1 = path ++ .int i :: .str s :: rest := by
      intro e he
      obtain ⟨s, rest, hrest⟩ := childEntries_path step _ e he
      exact ⟨s, rest, by simp [hrest]⟩
    rcases List.mem_cons.mp he with rfl | he
    · rcases List.mem_cons.mp he' with rfl | he'
      · rfl
      rcases List.mem_append.mp he' with he' | he'
      · obtain ⟨s, rest, hrest⟩ := hinside e' he'
        rw [hrest] at heq
        simp at heq
      · exact absurd heq.symm (hbehind e' he' [])
    rcases List.mem_append.mp he with he | he
    · obtain ⟨s, rest, hrest⟩ := hinside e he
      rcases List.mem_cons.mp he' with rfl | he'
      · rw [hrest] at heq
        simp at heq
      rcases List.mem_append.mp he' with he' | he'
      · exact childEntries_inj step hkeyed.1 _ e he e' he' heq
      · exact absurd (heq.symm.trans hrest) (hbehind e' he' _)
    · rcases List.mem_cons.mp he' with rfl | he'
      · exact absurd heq (hbehind e he [])
      rcases List.mem_append.mp he' with he' | he'
      · obtain ⟨s, rest, hrest⟩ := hinside e' he'
        exact absurd (heq.trans hrest) (hbehind e he _)
      · exact entries_inj steps hkeyed.2 path (i + 1) e he e' he' heq

theorem childEntries_inj : ∀ (node : Node), Keyed node → ∀ (path : StepPath),
    ∀ e ∈ childEntries node path, ∀ e' ∈ childEntries node path, e.1 = e'.1 → e = e'
  | .step .., _, _, e, he, _, _, _ => by simp [childEntries] at he
  | .parallel _ steps, hkeyed, path, e, he, e', he', heq => by
    exact entries_inj steps hkeyed _ 0 e he e' he' heq
  | .condition _ _ _ ifTrue ifFalse, hkeyed, path, e, he, e', he', heq => by
    have hdiffer : ∀ e ∈ entries ifTrue (path ++ [.str "true"]) 0,
        ∀ e' ∈ entries ifFalse (path ++ [.str "false"]) 0, e.1 ≠ e'.1 := by
      intro e he e' he' heq
      obtain ⟨j, rest, _, hrest⟩ := entries_path ifTrue _ 0 e he
      obtain ⟨j', rest', _, hrest'⟩ := entries_path ifFalse _ 0 e' he'
      rw [hrest, hrest'] at heq
      simp at heq
    rcases List.mem_append.mp he with he | he <;> rcases List.mem_append.mp he' with he' | he'
    · exact entries_inj ifTrue hkeyed.1 _ 0 e he e' he' heq
    · exact absurd heq (hdiffer e he e' he')
    · exact absurd heq.symm (hdiffer e' he' e he)
    · exact entries_inj ifFalse hkeyed.2 _ 0 e he e' he' heq
  | .router _ _ routes, hkeyed, path, e, he, e', he', heq => by
    exact routeEntries_inj routes hkeyed.1 hkeyed.2 _ e he e' he' heq
  | .loop _ _ _ _ _ _ steps, hkeyed, path, e, he, e', he', heq => by
    exact entries_inj steps hkeyed _ 0 e he e' he' heq

theorem routeEntries_inj : ∀ (routes : List (String × List Node)), (routes.map Prod.fst).Nodup →
    RoutesKeyed routes → ∀ (path : StepPath),
    ∀ e ∈ routeEntries routes path, ∀ e' ∈ routeEntries routes path, e.1 = e'.1 → e = e'
  | [], _, _, _, e, he, _, _, _ => by simp [routeEntries] at he
  | (route, steps) :: routes, hnodup, hkeyed, path, e, he, e', he', heq => by
    obtain ⟨hnew, hnodup⟩ := List.nodup_cons.mp hnodup
    have hdiffer : ∀ e ∈ entries steps (path ++ [.str route]) 0, ∀ e' ∈ routeEntries routes path,
        e.1 ≠ e'.1 := by
      intro e he e' he' heq
      obtain ⟨j, rest, _, hrest⟩ := entries_path steps _ 0 e he
      obtain ⟨route', hmem, rest', hrest'⟩ := routeEntries_path routes path e' he'
      have hne : PathPart.str route ≠ .str route' := fun h => hnew (PathPart.str.inj h ▸ hmem)
      rw [hrest, hrest', List.append_assoc] at heq
      exact path_ne hne heq
    rcases List.mem_append.mp he with he | he <;> rcases List.mem_append.mp he' with he' | he'
    · exact entries_inj steps hkeyed.1 _ 0 e he e' he' heq
    · exact absurd heq (hdiffer e he e' he')
    · exact absurd heq.symm (hdiffer e' he' e he)
    · exact routeEntries_inj routes hnodup hkeyed.2 path e he e' he' heq

end

/-! ### Nodes in the graph -/

mutual

/-- The graph of a sequence has the children of its nodes. -/
theorem childEntries_subset : ∀ (steps : List Node) (path : StepPath) (i : ℕ) {p : StepPath} {node : Node},
    (p, node) ∈ entries steps path i → childEntries node p ⊆ entries steps path i
  | [], _, _, _, _, h => by simp [entries] at h
  | step :: steps, path, i, p, node, h => by
    rcases List.mem_cons.mp h with heq | h
    · obtain ⟨rfl, rfl⟩ := Prod.mk.inj heq
      exact fun e he => List.mem_cons_of_mem _ (List.mem_append_left _ he)
    rcases List.mem_append.mp h with h | h
    · exact fun e he => List.mem_cons_of_mem _
        (List.mem_append_left _ (childEntries_subset_child step _ h he))
    · exact fun e he => List.mem_cons_of_mem _
        (List.mem_append_right _ (childEntries_subset steps path (i + 1) h he))

theorem childEntries_subset_child : ∀ (node' : Node) (path : StepPath) {p : StepPath} {node : Node},
    (p, node) ∈ childEntries node' path → childEntries node p ⊆ childEntries node' path
  | .step .., _, _, _, h => by simp [childEntries] at h
  | .parallel _ steps, path, p, node, h => by exact childEntries_subset steps _ 0 h
  | .condition _ _ _ ifTrue ifFalse, path, p, node, h => by
    rcases List.mem_append.mp h with h | h
    · exact fun e he => List.mem_append_left _ (childEntries_subset ifTrue _ 0 h he)
    · exact fun e he => List.mem_append_right _ (childEntries_subset ifFalse _ 0 h he)
  | .router _ _ routes, path, p, node, h => by exact childEntries_subset_routes routes _ h
  | .loop _ _ _ _ _ _ steps, path, p, node, h => by exact childEntries_subset steps _ 0 h

theorem childEntries_subset_routes : ∀ (routes : List (String × List Node)) (path : StepPath)
    {p : StepPath} {node : Node}, (p, node) ∈ routeEntries routes path →
    childEntries node p ⊆ routeEntries routes path
  | [], _, _, _, h => by simp [routeEntries] at h
  | (route, steps) :: routes, path, p, node, h => by
    rcases List.mem_append.mp h with h | h
    · exact fun e he => List.mem_append_left _ (childEntries_subset steps _ 0 h he)
    · exact fun e he => List.mem_append_right _ (childEntries_subset_routes routes path h he)

end

theorem mem_entries_of_getElem {steps : List Node} {j : ℕ} {node : Node} (path : StepPath) (i : ℕ)
    (h : steps[j]? = some node) : (path ++ [.int (i + j)], node) ∈ entries steps path i := by
  induction steps generalizing i j with
  | nil => simp at h
  | cons step steps ih =>
    cases j with
    | zero =>
      obtain rfl : step = node := by simpa using h
      exact List.mem_cons_self
    | succ j =>
      have := ih (j := j) (i + 1) (by simpa using h)
      rw [show i + 1 + j = i + (j + 1) by omega] at this
      exact List.mem_cons_of_mem _ (List.mem_append_right _ this)

theorem routeEntries_of_mem {routes : List (String × List Node)} {route : String} {steps : List Node}
    (path : StepPath) (h : (route, steps) ∈ routes) :
    entries steps (path ++ [.str route]) 0 ⊆ routeEntries routes path := by
  induction routes with
  | nil => simp at h
  | cons r routes ih =>
    rcases List.mem_cons.mp h with rfl | h
    · exact fun e he => List.mem_append_left _ he
    · exact fun e he => List.mem_append_right _ (ih h he)

/-- Every node that may be executed has a path. -/
theorem At.exists_path {steps : List Node} {node : Node} {pos : Pos} (h : At steps node pos) :
    ∃ path, (path, node) ∈ entries steps [] 0 := by
  induction h with
  | @top i node h => exact ⟨_, mem_entries_of_getElem [] 0 h⟩
  | @parallel id children pos i node _ h ih =>
    obtain ⟨path, hpath⟩ := ih
    exact ⟨_, childEntries_subset steps [] 0 hpath (mem_entries_of_getElem _ 0 h)⟩
  | @ifTrue id cls predicate ifTrue ifFalse pos i node _ h ih =>
    obtain ⟨path, hpath⟩ := ih
    exact ⟨_, childEntries_subset steps [] 0 hpath
      (List.mem_append_left _ (mem_entries_of_getElem _ 0 h))⟩
  | @ifFalse id cls predicate ifTrue ifFalse pos i node _ h ih =>
    obtain ⟨path, hpath⟩ := ih
    exact ⟨_, childEntries_subset steps [] 0 hpath
      (List.mem_append_right _ (mem_entries_of_getElem _ 0 h))⟩
  | @route id selector routes name children pos i node _ hmem h ih =>
    obtain ⟨path, hpath⟩ := ih
    exact ⟨_, childEntries_subset steps [] 0 hpath
      (routeEntries_of_mem _ hmem (mem_entries_of_getElem _ 0 h))⟩
  | @round loop pos round i node _ _ _ h ih =>
    obtain ⟨path, hpath⟩ := ih
    exact ⟨_, childEntries_subset steps [] 0 hpath (mem_entries_of_getElem _ 0 h)⟩

theorem resolve_of_mem {steps : List Node} (hkeyed : AllKeyed steps) {node : Node} {path : StepPath}
    (hmem : (path, node) ∈ entries steps [] 0) : resolve steps path = .ok node := by
  unfold resolve
  cases hfind : (entries steps [] 0).find? (·.1 = path) with
  | none => simpa using List.find?_eq_none.mp hfind (path, node) hmem
  | some entry =>
    have hpath : entry.1 = path := by simpa using List.find?_some hfind
    obtain rfl : entry = (path, node) :=
      entries_inj steps hkeyed [] 0 entry (List.mem_of_find?_eq_some hfind) (path, node) hmem hpath
    rfl

/-- The path that is found for a node's identity is the node's only one. -/
theorem pathFor_eq {steps : List Node} {node : Node} {p path : StepPath}
    (hmem : (p, node) ∈ entries steps [] 0) (h : pathFor steps node.id = .ok path) : p = path := by
  have hentry : (p, node) ∈ (entries steps [] 0).filter (·.2.id = node.id) := by
    simpa using hmem
  unfold pathFor at h
  split at h
  · cases h
  · next entry hone =>
    rw [hone] at hentry
    obtain rfl := List.mem_singleton.mp hentry
    exact Except.ok.inj h
  · cases h

/-- The path of a node of the flow leads back to it. -/
theorem resolve_of_pathFor {steps : List Node} (hkeyed : AllKeyed steps) {node : Node} {pos : Pos}
    (hat : At steps node pos) {path : StepPath} (h : pathFor steps node.id = .ok path) :
    resolve steps path = .ok node := by
  obtain ⟨p, hmem⟩ := hat.exists_path
  obtain rfl := pathFor_eq hmem h
  exact resolve_of_mem hkeyed hmem

/-! ### Stored continuations -/

mutual

/-- The sequences and loops that a stored continuation comes down to. -/
def storedLeaves : StoredContinuation → List StoredContinuation
  | .sequence paths pos first => [.sequence paths pos first]
  | .loop path startIndex loopName pos round => [.loop path startIndex loopName pos round]
  | .outputs outputs => storedOutputsLeaves outputs

def storedOutputsLeaves : List (Pos × Report × Option StepState × List StoredContinuation) →
    List StoredContinuation
  | [] => []
  | (_, _, _, continuations) :: outputs =>
    allStoredLeaves continuations ++ storedOutputsLeaves outputs

def allStoredLeaves : List StoredContinuation → List StoredContinuation
  | [] => []
  | continuation :: continuations => storedLeaves continuation ++ allStoredLeaves continuations

end

/-- What a pause makes of a leaf. -/
def StoredLeaf (steps : List Node) (k : Continuation) (s : StoredContinuation) : Prop :=
  serialize steps k = .ok s ∧ ∀ outputs, k ≠ .outputs outputs

mutual

/-- A pause stores the leaves one by one. -/
theorem serialize_leaves (steps : List Node) : ∀ (k : Continuation) {s : StoredContinuation},
    serialize steps k = .ok s →
    List.Forall₂ (StoredLeaf steps) (continuationLeaves k) (storedLeaves s)
  | .sequence nodes pos first, s, h => by
    obtain ⟨paths, _, hs⟩ := ok_of_bind h
    obtain rfl := Except.ok.inj hs
    exact .cons ⟨h, nofun⟩ .nil
  | .loop loop startIndex previousName pos round, s, h => by
    obtain ⟨path, _, hs⟩ := ok_of_bind h
    obtain rfl := Except.ok.inj hs
    exact .cons ⟨h, nofun⟩ .nil
  | .outputs outputs, s, h => by
    obtain ⟨stored, houtputs, hs⟩ := ok_of_bind h
    obtain rfl := Except.ok.inj hs
    exact serializeOutputs_leaves steps outputs houtputs

theorem serializeOutputs_leaves (steps : List Node) : ∀ (outputs : List StepOutput)
    {stored : List (Pos × Report × Option StepState × List StoredContinuation)},
    serializeOutputs steps outputs = .ok stored →
    List.Forall₂ (StoredLeaf steps) (outputsLeaves outputs) (storedOutputsLeaves stored)
  | [], stored, h => by
    obtain rfl : [] = stored := Except.ok.inj h
    exact .nil
  | .bare held :: outputs, stored, h => by
    obtain ⟨report, _, h⟩ := ok_of_bind h
    obtain ⟨rest, hrest, h⟩ := ok_of_bind h
    obtain rfl := Except.ok.inj h
    have hleaves := serializeOutputs_leaves steps outputs hrest
    exact hleaves
  | .result held state continuations :: outputs, stored, h => by
    obtain ⟨report, _, h⟩ := ok_of_bind h
    obtain ⟨state', _, h⟩ := ok_of_bind h
    obtain ⟨all, hall, h⟩ := ok_of_bind h
    obtain ⟨rest, hrest, h⟩ := ok_of_bind h
    obtain rfl := Except.ok.inj h
    exact List.rel_append (serializeAll_leaves steps continuations hall)
      (serializeOutputs_leaves steps outputs hrest)

theorem serializeAll_leaves (steps : List Node) : ∀ (ks : List Continuation)
    {stored : List StoredContinuation}, serializeAll steps ks = .ok stored →
    List.Forall₂ (StoredLeaf steps) (continuationsLeaves ks) (allStoredLeaves stored)
  | [], stored, h => by
    obtain rfl : [] = stored := Except.ok.inj h
    exact .nil
  | k :: ks, stored, h => by
    obtain ⟨s, hs, h⟩ := ok_of_bind h
    obtain ⟨rest, hrest, h⟩ := ok_of_bind h
    obtain rfl := Except.ok.inj h
    exact List.rel_append (serialize_leaves steps k hs) (serializeAll_leaves steps ks hrest)

end

mutual

/-- A store keeps the leaves as they are. -/
theorem storedLeaves_persisted : ∀ (s : StoredContinuation) {s' : StoredContinuation},
    s.persisted = some s' → storedLeaves s' = storedLeaves s
  | .sequence paths pos first, s', h => by
    obtain rfl := Option.some.inj h
    rfl
  | .loop path startIndex loopName pos round, s', h => by
    obtain rfl := Option.some.inj h
    rfl
  | .outputs outputs, s', h => by
    simp only [StoredContinuation.persisted, Option.bind_eq_bind, Option.bind_eq_some_iff] at h
    obtain ⟨outputs', houtputs, h⟩ := h
    obtain rfl := Option.some.inj h
    exact storedOutputsLeaves_persisted outputs houtputs

theorem storedOutputsLeaves_persisted :
    ∀ (outputs : List (Pos × Report × Option StepState × List StoredContinuation))
    {outputs' : List (Pos × Report × Option StepState × List StoredContinuation)},
    persistedOutputs outputs = some outputs' → storedOutputsLeaves outputs' = storedOutputsLeaves outputs
  | [], outputs', h => by
    obtain rfl := Option.some.inj h
    rfl
  | (pos, report, state, continuations) :: outputs, outputs', h => by
    simp only [persistedOutputs, Option.bind_eq_bind, Option.bind_eq_some_iff] at h
    obtain ⟨report', _, state', _, continuations', hcontinuations, rest, hrest, h⟩ := h
    obtain rfl := Option.some.inj h
    rw [storedOutputsLeaves, storedOutputsLeaves, allStoredLeaves_persisted continuations hcontinuations,
      storedOutputsLeaves_persisted outputs hrest]

theorem allStoredLeaves_persisted : ∀ (stored : List StoredContinuation)
    {stored' : List StoredContinuation}, persistedContinuations stored = some stored' →
    allStoredLeaves stored' = allStoredLeaves stored
  | [], stored', h => by
    obtain rfl := Option.some.inj h
    rfl
  | s :: stored, stored', h => by
    simp only [persistedContinuations, Option.bind_eq_bind, Option.bind_eq_some_iff] at h
    obtain ⟨s', hs, rest, hrest, h⟩ := h
    obtain rfl := Option.some.inj h
    rw [allStoredLeaves, allStoredLeaves, storedLeaves_persisted s hs,
      allStoredLeaves_persisted stored hrest]

end

/-- What a resume makes of a leaf. -/
def RestoredLeaf (steps : List Node) (s : StoredContinuation) (k : Continuation) : Prop :=
  ∃ ref ref', restore steps s ref = .ok (k, ref')

theorem restoredLoop_ok {node : Node} {startIndex : ℕ} {loopName : String} {pos : Pos} {round : ℕ}
    {k : Continuation} (h : restoredLoop node startIndex loopName pos round = .ok k) :
    ∃ loop, node.loop? = some loop ∧ k = .loop loop startIndex (some loopName) pos round := by
  unfold restoredLoop at h
  split at h
  · cases h
  · next loop hloop =>
    split_ifs at h
    exact ⟨loop, hloop, (Except.ok.inj h).symm⟩

mutual

/-- A resume restores the leaves one by one. -/
theorem restore_leaves (steps : List Node) : ∀ (s : StoredContinuation) {ref : Ref}
    {r : Continuation × Ref}, restore steps s ref = .ok r →
    List.Forall₂ (RestoredLeaf steps) (storedLeaves s) (continuationLeaves r.1)
  | .sequence paths pos first, ref, r, h => by
    obtain ⟨nodes, _, hr⟩ := ok_of_bind h
    obtain rfl := Except.ok.inj hr
    exact .cons ⟨ref, _, h⟩ .nil
  | .loop path startIndex loopName pos round, ref, r, h => by
    obtain ⟨node, _, hr⟩ := ok_of_bind h
    obtain ⟨k, hk, hr⟩ := ok_of_bind hr
    obtain rfl := Except.ok.inj hr
    obtain ⟨loop, _, rfl⟩ := restoredLoop_ok hk
    exact .cons ⟨ref, _, h⟩ .nil
  | .outputs outputs, ref, r, h => by
    obtain ⟨restored, houtputs, hr⟩ := ok_of_bind h
    obtain rfl := Except.ok.inj hr
    exact restoreOutputs_leaves steps outputs houtputs

theorem restoreOutputs_leaves (steps : List Node) :
    ∀ (stored : List (Pos × Report × Option StepState × List StoredContinuation)) {ref : Ref}
    {r : List StepOutput × Ref}, restoreOutputs steps stored ref = .ok r →
    List.Forall₂ (RestoredLeaf steps) (storedOutputsLeaves stored) (outputsLeaves r.1)
  | [], ref, r, h => by
    obtain rfl := Except.ok.inj h
    exact .nil
  | (pos, report, state, continuations) :: stored, ref, r, h => by
    obtain ⟨all, hall, h⟩ := ok_of_bind h
    obtain ⟨rest, hrest, h⟩ := ok_of_bind h
    obtain rfl := Except.ok.inj h
    exact List.rel_append (restoreAll_leaves steps continuations hall)
      (restoreOutputs_leaves steps stored hrest)

theorem restoreAll_leaves (steps : List Node) : ∀ (stored : List StoredContinuation) {ref : Ref}
    {r : List Continuation × Ref}, restoreAll steps stored ref = .ok r →
    List.Forall₂ (RestoredLeaf steps) (allStoredLeaves stored) (continuationsLeaves r.1)
  | [], ref, r, h => by
    obtain rfl := Except.ok.inj h
    exact .nil
  | s :: stored, ref, r, h => by
    obtain ⟨first, hfirst, h⟩ := ok_of_bind h
    obtain ⟨rest, hrest, h⟩ := ok_of_bind h
    obtain rfl := Except.ok.inj h
    exact List.rel_append (restore_leaves steps s hfirst) (restoreAll_leaves steps stored hrest)

end

/-! ### Same flow -/

/-- The leaf that a resume on the same flow finds: a loop knows the name it was stored
under. -/
def Continuation.renewed : Continuation → Continuation
  | .loop l startIndex _ pos round => .loop l startIndex (some l.name) pos round
  | k => k

theorem resolve_mapM {steps : List Node} (hkeyed : AllKeyed steps) :
    ∀ {nodes : List Node} {paths : List StepPath} {nodes' : List Node},
    (∀ node ∈ nodes, ∃ pos, At steps node pos) →
    (nodes.mapM fun node => pathFor steps node.id) = .ok paths →
    paths.mapM (resolve steps) = .ok nodes' → nodes' = nodes
  | [], paths, nodes', _, hpaths, hnodes => by
    obtain rfl : [] = paths := Except.ok.inj hpaths
    exact (Except.ok.inj hnodes).symm
  | node :: nodes, paths, nodes', hat, hpaths, hnodes => by
    rw [List.mapM_cons] at hpaths
    obtain ⟨path, hpath, hpaths⟩ := ok_of_bind hpaths
    obtain ⟨rest, hrest, hpaths⟩ := ok_of_bind hpaths
    obtain rfl := Except.ok.inj hpaths
    rw [List.mapM_cons] at hnodes
    obtain ⟨node', hnode', hnodes⟩ := ok_of_bind hnodes
    obtain ⟨nodes'', hnodes'', hnodes⟩ := ok_of_bind hnodes
    obtain rfl := Except.ok.inj hnodes
    obtain ⟨pos, hpos⟩ := hat node (List.mem_cons_self)
    rw [resolve_of_pathFor hkeyed hpos hpath] at hnode'
    obtain rfl := Except.ok.inj hnode'
    rw [resolve_mapM hkeyed (fun n hn => hat n (List.mem_cons_of_mem _ hn)) hrest hnodes'']

theorem renewed_of_restored {steps : List Node} (hkeyed : AllKeyed steps) {k k' : Continuation}
    {s : StoredContinuation} (hfits : k.Fits steps) (hs : StoredLeaf steps k s)
    (hk' : RestoredLeaf steps s k') : k' = k.renewed := by
  obtain ⟨hs, hleaf⟩ := hs
  obtain ⟨ref, ref', hr⟩ := hk'
  cases k with
  | sequence nodes pos first =>
    obtain ⟨paths, hpaths, hs⟩ := ok_of_bind hs
    obtain rfl := Except.ok.inj hs
    obtain ⟨nodes', hnodes', hr⟩ := ok_of_bind hr
    obtain ⟨rfl, _⟩ := Prod.mk.inj (Except.ok.inj hr)
    have hat : ∀ node ∈ nodes, ∃ pos, At steps node pos := by
      intro node hnode
      obtain ⟨i, hi⟩ := List.mem_iff_getElem?.mp hnode
      exact ⟨_, hfits.2 i node hi⟩
    rw [resolve_mapM hkeyed hat hpaths hnodes']
    rfl
  | loop l startIndex previousName pos round =>
    obtain ⟨path, hpath, hs⟩ := ok_of_bind hs
    obtain rfl := Except.ok.inj hs
    obtain ⟨node, hnode, hr⟩ := ok_of_bind hr
    obtain ⟨k'', hk'', hr⟩ := ok_of_bind hr
    obtain ⟨rfl, _⟩ := Prod.mk.inj (Except.ok.inj hr)
    obtain ⟨loop, hloop, rfl⟩ := restoredLoop_ok hk''
    rw [resolve_of_pathFor hkeyed hfits.2.1 hpath] at hnode
    obtain rfl := Except.ok.inj hnode
    obtain rfl : l = loop := Option.some.inj hloop
    rfl
  | outputs outputs => exact absurd rfl (hleaf outputs)

/-- What a resume on the same flow has to do is what the pause has left. -/
theorem leaves_restoreAll {steps : List Node} (hkeyed : AllKeyed steps) {leaves : List Continuation}
    {stored : List StoredContinuation} {ref : Ref} {r : List Continuation × Ref}
    (hstored : List.Forall₂ (StoredLeaf steps) leaves (allStoredLeaves stored))
    (hr : restoreAll steps stored ref = .ok r) (hfits : ∀ k ∈ leaves, k.Fits steps) :
    continuationsLeaves r.1 = leaves.map Continuation.renewed := by
  have hrestored := restoreAll_leaves steps stored hr
  generalize continuationsLeaves r.1 = leaves' at hrestored
  generalize allStoredLeaves stored = between at hstored hrestored
  clear hr
  induction hstored generalizing leaves' with
  | nil =>
    cases hrestored
    rfl
  | cons hs _ ih =>
    cases hrestored with
    | cons hr hrest =>
      rw [List.map_cons, renewed_of_restored hkeyed (hfits _ (List.mem_cons_self)) hs hr,
        ih (fun k hk => hfits k (List.mem_cons_of_mem _ hk)) _ hrest]

/-- A loop's count is kept under its own name. -/
def Continuation.Own : Continuation → Prop
  | .loop l _ previousName _ _ => previousName.getD l.name = l.name
  | _ => True

theorem renewed_own (k : Continuation) : k.renewed.Own := by
  cases k with
  | loop => rfl
  | _ => trivial

theorem Continuation.Own.keptUnder_renewed {k : Continuation} (h : k.Own) :
    k.renewed.keptUnder = k.keptUnder := by
  cases k with
  | loop l startIndex previousName pos round => exact congrArg some h.symm
  | _ => rfl

theorem renewed_touched (k : Continuation) : k.renewed.touched = k.touched := by
  cases k <;> rfl

theorem Continuation.Fits.renewed {steps : List Node} {k : Continuation} (h : k.Fits steps) :
    k.renewed.Fits steps := by
  cases k <;> exact h

theorem Continuation.Counted.renewed {f : String → ℕ} {k : Continuation} (h : k.Counted f)
    (hown : k.Own) : k.renewed.Counted f := by
  cases k with
  | loop l startIndex previousName pos round => exact (congrArg f hown.symm).trans h
  | _ => trivial

theorem Ready.renewed {steps : List Node} {f : String → ℕ} {leaves : List Continuation}
    (h : Ready steps f leaves) (hown : ∀ k ∈ leaves, k.Own) :
    Ready steps f (leaves.map Continuation.renewed) := by
  refine ⟨?_, ?_, ?_⟩
  · intro k' hk'
    obtain ⟨k, hk, rfl⟩ := List.mem_map.mp hk'
    exact (h.fits k hk).renewed
  · intro k' hk'
    obtain ⟨k, hk, rfl⟩ := List.mem_map.mp hk'
    exact (h.counted k hk).renewed (hown k hk)
  · rw [List.pairwise_map]
    refine h.separate.imp_of_mem fun {k k'} _ hk' hsep n hn => ?_
    rw [(hown k' hk').keptUnder_renewed]
    exact hsep n (renewed_touched k ▸ hn)

end Blackgeorge.Workflow
