import Blackgeorge.Workflow.Paths

/-! Flows of the same shape. A recreated flow has a node of the same shape wherever the
flow has one, so the stored continuations of one are restored on the other, node by node
at the same paths. -/

namespace Blackgeorge.Workflow

open Data Program Desk

/-! ### Nodes of the same shape -/

/-- The shapes of two nodes are equal. -/
abbrev Alike (node node' : Node) : Prop := (shape node).pyEq (shape node') = true

/-- The shapes of two sequences are equal. -/
abbrev SameShapes (nodes nodes' : List Node) : Prop :=
  Value.eqItems (shapes nodes) (shapes nodes') = true

theorem Alike.parallel {id : ℕ} {nodes : List Node} {node' : Node}
    (h : Alike (.parallel id nodes) node') :
    ∃ id' nodes', node' = .parallel id' nodes' ∧ SameShapes nodes nodes' := by
  cases node' with
  | parallel id' nodes' =>
    refine ⟨id', nodes', rfl, ?_⟩
    simpa [Alike, shape, Value.pyEq, Value.eqFields, List.lookup_cons] using h
  | _ => simp [Alike, shape, Value.pyEq, Value.eqFields, List.lookup_cons] at h

theorem Alike.condition {id : ℕ} {cls : String} {fn : FnId} {ifTrue ifFalse : List Node} {node' : Node}
    (h : Alike (.condition id cls fn ifTrue ifFalse) node') :
    ∃ id' cls' fn' ifTrue' ifFalse', node' = .condition id' cls' fn' ifTrue' ifFalse' ∧
      SameShapes ifTrue ifTrue' ∧ SameShapes ifFalse ifFalse' := by
  cases node' with
  | condition id' cls' fn' ifTrue' ifFalse' =>
    refine ⟨id', cls', fn', ifTrue', ifFalse', rfl, ?_⟩
    simp [Alike, shape, Value.pyEq, Value.eqFields, List.lookup_cons] at h
    exact h.2
  | _ => simp [Alike, shape, Value.pyEq, Value.eqFields, List.lookup_cons] at h

theorem Alike.router {id : ℕ} {fn : FnId} {routes : List (String × List Node)} {node' : Node}
    (h : Alike (.router id fn routes) node') :
    ∃ id' fn' routes', node' = .router id' fn' routes' ∧
      Value.eqFields (routeShapes routes) (routeShapes routes') = true := by
  cases node' with
  | router id' fn' routes' =>
    refine ⟨id', fn', routes', rfl, ?_⟩
    simp [Alike, shape, Value.pyEq, Value.eqFields, List.lookup_cons] at h
    exact h.2
  | _ => simp [Alike, shape, Value.pyEq, Value.eqFields, List.lookup_cons] at h

theorem Alike.loop {id : ℕ} {cls name : String} {explicitName : Bool} {maxIterations : ℕ} {fn : FnId}
    {nodes : List Node} {node' : Node}
    (h : Alike (.loop id cls name explicitName maxIterations fn nodes) node') :
    ∃ id' cls' name' explicitName' fn' nodes',
      node' = .loop id' cls' name' explicitName' maxIterations fn' nodes' ∧ SameShapes nodes nodes' := by
  cases node' with
  | loop id' cls' name' explicitName' maxIterations' fn' nodes' =>
    simp [Alike, shape, Value.pyEq, Value.eqFields, List.lookup_cons, Value.numeric?] at h
    obtain ⟨_, _, hmax, hnodes⟩ := h
    obtain rfl : maxIterations = maxIterations' := by exact_mod_cast hmax
    exact ⟨id', cls', name', explicitName', fn', nodes', rfl, hnodes⟩
  | _ => simp [Alike, shape, Value.pyEq, Value.eqFields, List.lookup_cons] at h

theorem SameShapes.cons {node : Node} {nodes nodes' : List Node} (h : SameShapes (node :: nodes) nodes') :
    ∃ node' rest, nodes' = node' :: rest ∧ Alike node node' ∧ SameShapes nodes rest := by
  cases nodes' with
  | nil => simp [SameShapes, shapes, Value.eqItems] at h
  | cons node' rest =>
    simp only [SameShapes, shapes, Value.eqItems, Bool.and_eq_true] at h
    exact ⟨node', rest, rfl, h.1, h.2⟩

theorem SameShapes.length {nodes nodes' : List Node} (h : SameShapes nodes nodes') :
    nodes'.length = nodes.length := by
  induction nodes generalizing nodes' with
  | nil =>
    cases nodes' with
    | nil => rfl
    | cons => simp [SameShapes, shapes, Value.eqItems] at h
  | cons node nodes ih =>
    obtain ⟨node', rest, rfl, _, hrest⟩ := h.cons
    simp [ih hrest]

theorem SameShapes.getElem {nodes nodes' : List Node} (h : SameShapes nodes nodes') {i : ℕ} {node : Node}
    (hnode : nodes[i]? = some node) : ∃ node', nodes'[i]? = some node' ∧ Alike node node' := by
  induction nodes generalizing nodes' i with
  | nil => simp at hnode
  | cons first nodes ih =>
    obtain ⟨node', rest, rfl, hfirst, hrest⟩ := h.cons
    cases i with
    | zero =>
      obtain rfl : first = node := by simpa using hnode
      exact ⟨node', rfl, hfirst⟩
    | succ i => exact ih hrest (by simpa using hnode)

theorem lookup_routeShapes {routes : List (String × List Node)} {route : String} {v : Value}
    (h : (routeShapes routes).lookup route = some v) :
    ∃ nodes, (route, nodes) ∈ routes ∧ v = .list (shapes nodes) := by
  induction routes with
  | nil => simp [routeShapes] at h
  | cons r routes ih =>
    obtain ⟨name, nodes⟩ := r
    rw [routeShapes, List.lookup_cons] at h
    cases heq : route == name with
    | true =>
      rw [heq] at h
      obtain rfl : route = name := by simpa using heq
      exact ⟨nodes, List.mem_cons_self, (Option.some.inj h).symm⟩
    | false =>
      rw [heq] at h
      obtain ⟨nodes', hmem, hv⟩ := ih h
      exact ⟨nodes', List.mem_cons_of_mem _ hmem, hv⟩

/-- A route of one router is a route of the other. -/
theorem eqFields_routeShapes {routes routes' : List (String × List Node)}
    (h : Value.eqFields (routeShapes routes) (routeShapes routes') = true) {route : String}
    {nodes : List Node} (hmem : (route, nodes) ∈ routes) :
    ∃ nodes', (route, nodes') ∈ routes' ∧ SameShapes nodes nodes' := by
  induction routes with
  | nil => simp at hmem
  | cons r routes ih =>
    obtain ⟨name, first⟩ := r
    rw [routeShapes, Value.eqFields] at h
    cases hlookup : (routeShapes routes').lookup name with
    | none => simp [hlookup] at h
    | some v =>
      obtain ⟨nodes', hmem', rfl⟩ := lookup_routeShapes hlookup
      rw [hlookup] at h
      simp only [Value.pyEq, Bool.and_eq_true] at h
      rcases List.mem_cons.mp hmem with heq | hmem
      · obtain ⟨rfl, rfl⟩ := Prod.mk.inj heq
        exact ⟨nodes', hmem', h.1⟩
      · exact ih h.2 hmem

/-! ### Positions and paths -/

/-- A flow of the same shape has a node of the same shape at every position, under the
same path. -/
theorem At.counterpart {steps steps' : List Node} (hshape : SameShapes steps steps') {node : Node}
    {pos : Pos} (h : At steps node pos) : ∃ path node', (path, node) ∈ entries steps [] 0 ∧
      (path, node') ∈ entries steps' [] 0 ∧ At steps' node' pos ∧ Alike node node' := by
  induction h with
  | top h =>
    obtain ⟨node', hnode', halike⟩ := hshape.getElem h
    exact ⟨_, node', mem_entries_of_getElem [] 0 h, mem_entries_of_getElem [] 0 hnode', .top hnode', halike⟩
  | parallel _ h ih =>
    obtain ⟨path, node', hmem, hmem', hat, halike⟩ := ih
    obtain ⟨id', nodes', rfl, hnodes⟩ := halike.parallel
    obtain ⟨node', hnode', halike⟩ := hnodes.getElem h
    exact ⟨_, node', childEntries_subset steps [] 0 hmem (mem_entries_of_getElem _ 0 h),
      childEntries_subset steps' [] 0 hmem' (mem_entries_of_getElem _ 0 hnode'),
      .parallel hat hnode', halike⟩
  | ifTrue _ h ih =>
    obtain ⟨path, node', hmem, hmem', hat, halike⟩ := ih
    obtain ⟨id', cls', fn', ifTrue', ifFalse', rfl, htrue, _⟩ := halike.condition
    obtain ⟨node', hnode', halike⟩ := htrue.getElem h
    exact ⟨_, node',
      childEntries_subset steps [] 0 hmem (List.mem_append_left _ (mem_entries_of_getElem _ 0 h)),
      childEntries_subset steps' [] 0 hmem'
        (List.mem_append_left _ (mem_entries_of_getElem _ 0 hnode')), .ifTrue hat hnode', halike⟩
  | ifFalse _ h ih =>
    obtain ⟨path, node', hmem, hmem', hat, halike⟩ := ih
    obtain ⟨id', cls', fn', ifTrue', ifFalse', rfl, _, hfalse⟩ := halike.condition
    obtain ⟨node', hnode', halike⟩ := hfalse.getElem h
    exact ⟨_, node',
      childEntries_subset steps [] 0 hmem (List.mem_append_right _ (mem_entries_of_getElem _ 0 h)),
      childEntries_subset steps' [] 0 hmem'
        (List.mem_append_right _ (mem_entries_of_getElem _ 0 hnode')), .ifFalse hat hnode', halike⟩
  | route _ hroute h ih =>
    obtain ⟨path, node', hmem, hmem', hat, halike⟩ := ih
    obtain ⟨id', fn', routes', rfl, hroutes⟩ := halike.router
    obtain ⟨nodes', hroute', hnodes⟩ := eqFields_routeShapes hroutes hroute
    obtain ⟨node', hnode', halike⟩ := hnodes.getElem h
    exact ⟨_, node',
      childEntries_subset steps [] 0 hmem (routeEntries_of_mem _ hroute (mem_entries_of_getElem _ 0 h)),
      childEntries_subset steps' [] 0 hmem'
        (routeEntries_of_mem _ hroute' (mem_entries_of_getElem _ 0 hnode')),
      .route hat hroute' hnode', halike⟩
  | @round loop pos round i node _ hpos hround h ih =>
    obtain ⟨path, node', hmem, hmem', hat, halike⟩ := ih
    obtain ⟨id', cls', name', explicitName', fn', nodes', rfl, hnodes⟩ := halike.loop
    obtain ⟨node', hnode', halike⟩ := hnodes.getElem h
    exact ⟨_, node', childEntries_subset steps [] 0 hmem (mem_entries_of_getElem _ 0 h),
      childEntries_subset steps' [] 0 hmem' (mem_entries_of_getElem _ 0 hnode'),
      @At.round _ ⟨id', cls', name', explicitName', loop.maxIterations, fn', nodes'⟩ _ _ _ _
        hat hpos hround hnode', halike⟩

mutual

/-- A flow of the same shape has a node of the same shape at every path. -/
theorem entries_alike : ∀ (nodes nodes' : List Node), SameShapes nodes nodes' →
    ∀ (path : StepPath) (i : ℕ) {p : StepPath} {node : Node}, (p, node) ∈ entries nodes path i →
    ∃ node', (p, node') ∈ entries nodes' path i ∧ Alike node node'
  | [], _, _, _, _, _, _, h => by simp [entries] at h
  | first :: nodes, nodes', hshape, path, i, p, node, h => by
    obtain ⟨first', rest, rfl, hfirst, hrest⟩ := hshape.cons
    rcases List.mem_cons.mp h with heq | h
    · obtain ⟨rfl, rfl⟩ := Prod.mk.inj heq
      exact ⟨first', List.mem_cons_self, hfirst⟩
    rcases List.mem_append.mp h with h | h
    · obtain ⟨node', hmem, halike⟩ := childEntries_alike first first' hfirst _ h
      exact ⟨node', List.mem_cons_of_mem _ (List.mem_append_left _ hmem), halike⟩
    · obtain ⟨node', hmem, halike⟩ := entries_alike nodes rest hrest path (i + 1) h
      exact ⟨node', List.mem_cons_of_mem _ (List.mem_append_right _ hmem), halike⟩

theorem childEntries_alike : ∀ (parent parent' : Node), Alike parent parent' →
    ∀ (path : StepPath) {p : StepPath} {node : Node}, (p, node) ∈ childEntries parent path →
    ∃ node', (p, node') ∈ childEntries parent' path ∧ Alike node node'
  | .step .., _, _, _, _, _, h => by simp [childEntries] at h
  | .parallel _ nodes, _, halike, path, p, node, h => by
    obtain ⟨id', nodes', rfl, hnodes⟩ := halike.parallel
    exact entries_alike nodes nodes' hnodes _ 0 h
  | .condition _ _ _ ifTrue ifFalse, _, halike, path, p, node, h => by
    obtain ⟨id', cls', fn', ifTrue', ifFalse', rfl, htrue, hfalse⟩ := halike.condition
    rcases List.mem_append.mp h with h | h
    · obtain ⟨node', hmem, halike⟩ := entries_alike ifTrue ifTrue' htrue _ 0 h
      exact ⟨node', List.mem_append_left _ hmem, halike⟩
    · obtain ⟨node', hmem, halike⟩ := entries_alike ifFalse ifFalse' hfalse _ 0 h
      exact ⟨node', List.mem_append_right _ hmem, halike⟩
  | .router _ _ routes, _, halike, path, p, node, h => by
    obtain ⟨id', fn', routes', rfl, hroutes⟩ := halike.router
    exact routeEntries_alike routes routes' (fun _ _ => eqFields_routeShapes hroutes) _ h
  | .loop _ _ _ _ _ _ nodes, _, halike, path, p, node, h => by
    obtain ⟨id', cls', name', explicitName', fn', nodes', rfl, hnodes⟩ := halike.loop
    exact entries_alike nodes nodes' hnodes _ 0 h

theorem routeEntries_alike : ∀ (routes routes' : List (String × List Node)),
    (∀ route nodes, (route, nodes) ∈ routes → ∃ nodes', (route, nodes') ∈ routes' ∧ SameShapes nodes nodes') →
    ∀ (path : StepPath) {p : StepPath} {node : Node}, (p, node) ∈ routeEntries routes path →
    ∃ node', (p, node') ∈ routeEntries routes' path ∧ Alike node node'
  | [], _, _, _, _, _, h => by simp [routeEntries] at h
  | (route, nodes) :: routes, routes', hroutes, path, p, node, h => by
    rcases List.mem_append.mp h with h | h
    · obtain ⟨nodes', hmem', hnodes⟩ := hroutes route nodes (List.mem_cons_self)
      obtain ⟨node', hmem, halike⟩ := entries_alike nodes nodes' hnodes _ 0 h
      exact ⟨node', routeEntries_of_mem path hmem' hmem, halike⟩
    · exact routeEntries_alike routes routes'
        (fun route nodes hmem => hroutes route nodes (List.mem_cons_of_mem _ hmem)) path h

end

end Blackgeorge.Workflow
