import Blackgeorge.Data.Dumps
import Blackgeorge.Program.Environment
import Blackgeorge.Workflow.Shapes

/-! Continuations on a recreated flow. A list of continuations is stored if every node it
refers to occurs once in the flow, and a flow of the same shape restores it with its own
nodes in the places of the old ones. -/

namespace Blackgeorge.Workflow

open Data Program Desk

/-! ### References -/

mutual

/-- The nodes that a continuation refers to. -/
def references : Continuation → List Node
  | .sequence steps _ _ => steps
  | .loop l _ _ _ _ => [loopNode l]
  | .outputs outputs => outputsReferences outputs

def outputsReferences : List StepOutput → List Node
  | [] => []
  | .bare _ :: outputs => outputsReferences outputs
  | .result _ _ continuations :: outputs => allReferences continuations ++ outputsReferences outputs

def allReferences : List Continuation → List Node
  | [] => []
  | k :: ks => references k ++ allReferences ks

end

/-- The places of a flow that a node object stands in. -/
def occurrences (steps : List Node) (node : Node) : List (StepPath × Node) :=
  (entries steps [] 0).filter (·.2.id = node.id)

/-- A node object stands in one place of a flow. -/
def OccursOnce (steps : List Node) (node : Node) : Prop := ∃ path, occurrences steps node = [(path, node)]

mutual

/-- Loops go on at one of their steps or at their end, and JSON can be made of the reports
and states. -/
def Storable : Continuation → Prop
  | .sequence .. => True
  | .loop l startIndex _ _ _ => startIndex ≤ l.steps.length
  | .outputs outputs => StorableOutputs outputs

def StorableOutputs : List StepOutput → Prop
  | [] => True
  | .bare held :: outputs => held.report.persisted.isSome ∧ StorableOutputs outputs
  | .result held state continuations :: outputs =>
    held.report.persisted.isSome ∧ (state.mapM StepState.persisted).isSome ∧
      AllStorable continuations ∧ StorableOutputs outputs

def AllStorable : List Continuation → Prop
  | [] => True
  | k :: ks => Storable k ∧ AllStorable ks

end

/-! ### Recreated continuations -/

/-- The nodes at the same place of two flows. -/
def Counterpart (steps steps' : List Node) (node node' : Node) : Prop :=
  ∃ path, (path, node) ∈ entries steps [] 0 ∧ (path, node') ∈ entries steps' [] 0

mutual

/-- The second continuation is the first one with the nodes of another flow: loops know the
names they had, reports and states have their JSON form, bare reports have become results. -/
def Recreated (steps steps' : List Node) : Continuation → Continuation → Prop
  | .sequence nodes pos first, .sequence nodes' pos' first' =>
    List.Forall₂ (Counterpart steps steps') nodes nodes' ∧ pos' = pos ∧ first' = first
  | .loop l startIndex _ pos round, .loop l' startIndex' previousName' pos' round' =>
    Counterpart steps steps' (loopNode l) (loopNode l') ∧ startIndex' = startIndex ∧
      previousName' = some l.name ∧ pos' = pos ∧ round' = round
  | .outputs outputs, .outputs outputs' => RecreatedOutputs steps steps' outputs outputs'
  | _, _ => False

def RecreatedOutputs (steps steps' : List Node) : List StepOutput → List StepOutput → Prop
  | [], [] => True
  | .bare held :: outputs, .result held' none [] :: outputs' =>
    held'.pos = held.pos ∧ held.report.persisted = some held'.report ∧
      RecreatedOutputs steps steps' outputs outputs'
  | .result held state continuations :: outputs, .result held' state' continuations' :: outputs' =>
    held'.pos = held.pos ∧ held.report.persisted = some held'.report ∧
      state.mapM StepState.persisted = some state' ∧
      RecreatedAll steps steps' continuations continuations' ∧
      RecreatedOutputs steps steps' outputs outputs'
  | _, _ => False

def RecreatedAll (steps steps' : List Node) : List Continuation → List Continuation → Prop
  | [], [] => True
  | k :: ks, k' :: ks' => Recreated steps steps' k k' ∧ RecreatedAll steps steps' ks ks'
  | _, _ => False

end

variable {steps steps' : List Node}

theorem OccursOnce.exists_path {node : Node} (h : OccursOnce steps node) :
    ∃ path, pathFor steps node.id = .ok path ∧ (path, node) ∈ entries steps [] 0 := by
  obtain ⟨path, hone⟩ := h
  have hmem : (path, node) ∈ (entries steps [] 0).filter (·.2.id = node.id) := by
    rw [show (entries steps [] 0).filter (·.2.id = node.id) = [(path, node)] from hone]
    exact List.mem_singleton_self _
  refine ⟨path, ?_, List.mem_of_mem_filter hmem⟩
  unfold pathFor
  rw [show (entries steps [] 0).filter (·.2.id = node.id) = [(path, node)] from hone]

/-- A node that stands in one place is found again in the same place of the other flow. -/
theorem exists_counterpart (hkeyed : AllKeyed steps') (hshape : SameShapes steps steps') {node : Node}
    (h : OccursOnce steps node) : ∃ path node', pathFor steps node.id = .ok path ∧
      resolve steps' path = .ok node' ∧ Counterpart steps steps' node node' ∧ Alike node node' := by
  obtain ⟨path, hpath, hmem⟩ := h.exists_path
  obtain ⟨node', hmem', halike⟩ := entries_alike steps steps' hshape [] 0 hmem
  exact ⟨path, node', hpath, resolve_of_mem hkeyed hmem', ⟨path, hmem, hmem'⟩, halike⟩

theorem exists_counterparts (hkeyed : AllKeyed steps') (hshape : SameShapes steps steps') :
    ∀ {nodes : List Node}, (∀ node ∈ nodes, OccursOnce steps node) →
    ∃ paths nodes', (nodes.mapM fun node => pathFor steps node.id) = .ok paths ∧
      paths.mapM (resolve steps') = .ok nodes' ∧ List.Forall₂ (Counterpart steps steps') nodes nodes'
  | [], _ => ⟨[], [], rfl, rfl, .nil⟩
  | node :: nodes, h => by
    obtain ⟨path, node', hpath, hnode', hcounterpart, _⟩ :=
      exists_counterpart hkeyed hshape (h node (List.mem_cons_self))
    obtain ⟨paths, nodes', hpaths, hnodes', hcounterparts⟩ :=
      exists_counterparts hkeyed hshape fun n hn => h n (List.mem_cons_of_mem _ hn)
    refine ⟨path :: paths, node' :: nodes', ?_, ?_, .cons hcounterpart hcounterparts⟩
    · rw [List.mapM_cons, hpath, hpaths]
      rfl
    · rw [List.mapM_cons, hnode', hnodes']
      rfl

theorem orSerializationError_some {α : Type} {o : Option α} {a : α} (h : o = some a) :
    orSerializationError o = .ok a := by
  rw [h]
  rfl

mutual

theorem exists_restore (hkeyed : AllKeyed steps') (hshape : SameShapes steps steps') :
    ∀ (k : Continuation), (∀ node ∈ references k, OccursOnce steps node) → Storable k →
    ∃ s, serialize steps k = .ok s ∧ s.persisted = some s ∧
      ∀ ref, ∃ r, restore steps' s ref = .ok r ∧ Recreated steps steps' k r.1
  | .sequence nodes pos first, honce, _ => by
    have honce' : ∀ node ∈ nodes, OccursOnce steps node := honce
    obtain ⟨paths, nodes', hpaths, hnodes', hcounterparts⟩ := exists_counterparts hkeyed hshape honce'
    refine ⟨.sequence paths pos first, ?_, rfl, fun ref => ⟨(.sequence nodes' pos first, ref), ?_, ?_⟩⟩
    · unfold serialize
      rw [hpaths]
      rfl
    · unfold restore
      rw [hnodes']
      rfl
    · exact ⟨hcounterparts, rfl, rfl⟩
  | .loop l startIndex previousName pos round, honce, hindex => by
    obtain ⟨path, node', hpath, hnode', hcounterpart, halike⟩ :=
      exists_counterpart hkeyed hshape (honce (loopNode l) (List.mem_singleton_self _))
    obtain ⟨id', cls', name', explicitName', fn', nodes', rfl, hnodes⟩ := halike.loop
    have hindex' : ¬ nodes'.length < startIndex := by
      have : startIndex ≤ l.steps.length := hindex
      rw [hnodes.length]
      omega
    refine ⟨.loop path startIndex l.name pos round, ?_, rfl, fun ref =>
      ⟨(.loop ⟨id', cls', name', explicitName', l.maxIterations, fn', nodes'⟩ startIndex (some l.name)
        pos round, ref), ?_, ?_⟩⟩
    · unfold serialize
      rw [show l.id = (loopNode l).id from rfl, hpath]
      rfl
    · unfold restore
      rw [hnode']
      simp only [bind, Except.bind, restoredLoop, Node.loop?, if_neg hindex']
      rfl
    · exact ⟨hcounterpart, rfl, rfl, rfl, rfl⟩
  | .outputs outputs, honce, hstorable => by
    obtain ⟨stored, hstored, hpersisted, hrestored⟩ :=
      exists_restoreOutputs hkeyed hshape outputs honce hstorable
    refine ⟨.outputs stored, ?_, ?_, fun ref => ?_⟩
    · unfold serialize
      rw [hstored]
      rfl
    · simp [StoredContinuation.persisted, hpersisted]
    · obtain ⟨r, hr, hrecreated⟩ := hrestored ref
      refine ⟨(.outputs r.1, r.2), ?_, hrecreated⟩
      unfold restore
      rw [hr]
      rfl

theorem exists_restoreOutputs (hkeyed : AllKeyed steps') (hshape : SameShapes steps steps') :
    ∀ (outputs : List StepOutput), (∀ node ∈ outputsReferences outputs, OccursOnce steps node) →
    StorableOutputs outputs →
    ∃ stored, serializeOutputs steps outputs = .ok stored ∧ persistedOutputs stored = some stored ∧
      ∀ ref, ∃ r, restoreOutputs steps' stored ref = .ok r ∧ RecreatedOutputs steps steps' outputs r.1
  | [], _, _ => ⟨[], rfl, rfl, fun ref => ⟨([], ref), rfl, trivial⟩⟩
  | .bare held :: outputs, honce, ⟨hreport, houtputs⟩ => by
    obtain ⟨report', hreport'⟩ := Option.isSome_iff_exists.mp hreport
    obtain ⟨rest, hrest, hpersisted, hrestored⟩ :=
      exists_restoreOutputs hkeyed hshape outputs honce houtputs
    refine ⟨(held.pos, report', none, []) :: rest, ?_, ?_, fun ref => ?_⟩
    · unfold serializeOutputs
      rw [orSerializationError_some hreport', hrest]
      rfl
    · have hreport'' := settles_report _ _ hreport'
      simp [persistedOutputs, persistedContinuations, hreport'', hpersisted]
    · obtain ⟨r, hr, hrecreated⟩ := hrestored (ref + 1)
      refine ⟨(.result ⟨ref, held.pos, report'⟩ none [] :: r.1, r.2), ?_, rfl, hreport', hrecreated⟩
      unfold restoreOutputs
      rw [restoreAll]
      simp only [bind, Except.bind, pure, Except.pure]
      rw [hr]
  | .result held state continuations :: outputs, honce, ⟨hreport, hstate, hcontinuations, houtputs⟩ => by
    obtain ⟨report', hreport'⟩ := Option.isSome_iff_exists.mp hreport
    obtain ⟨state', hstate'⟩ := Option.isSome_iff_exists.mp hstate
    obtain ⟨ks, hks, hkspersisted, hksrestored⟩ := exists_restoreAll hkeyed hshape continuations
      (fun node hnode => honce node (List.mem_append_left _ hnode)) hcontinuations
    obtain ⟨rest, hrest, hrestpersisted, hrestrestored⟩ := exists_restoreOutputs hkeyed hshape outputs
      (fun node hnode => honce node (List.mem_append_right _ hnode)) houtputs
    refine ⟨(held.pos, report', state', ks) :: rest, ?_, ?_, fun ref => ?_⟩
    · unfold serializeOutputs
      rw [orSerializationError_some hreport', orSerializationError_some hstate', hks, hrest]
      rfl
    · have hreport'' := settles_report _ _ hreport'
      have hstate'' := settles_stepState.option _ _ hstate'
      simp [persistedOutputs, hreport'', hstate'', hkspersisted, hrestpersisted]
    · obtain ⟨r, hr, hrecreated⟩ := hksrestored (ref + 1)
      obtain ⟨r', hr', hrecreated'⟩ := hrestrestored r.2
      refine ⟨(.result ⟨ref, held.pos, report'⟩ state' r.1 :: r'.1, r'.2), ?_,
        rfl, hreport', hstate', hrecreated, hrecreated'⟩
      unfold restoreOutputs
      rw [hr]
      simp only [bind, Except.bind]
      rw [hr']
      rfl

theorem exists_restoreAll (hkeyed : AllKeyed steps') (hshape : SameShapes steps steps') :
    ∀ (ks : List Continuation), (∀ node ∈ allReferences ks, OccursOnce steps node) → AllStorable ks →
    ∃ stored, serializeAll steps ks = .ok stored ∧ persistedContinuations stored = some stored ∧
      ∀ ref, ∃ r, restoreAll steps' stored ref = .ok r ∧ RecreatedAll steps steps' ks r.1
  | [], _, _ => ⟨[], rfl, rfl, fun ref => ⟨([], ref), rfl, trivial⟩⟩
  | k :: ks, honce, ⟨hk, hks⟩ => by
    obtain ⟨s, hs, hpersisted, hrestored⟩ := exists_restore hkeyed hshape k
      (fun node hnode => honce node (List.mem_append_left _ hnode)) hk
    obtain ⟨rest, hrest, hrestpersisted, hrestrestored⟩ := exists_restoreAll hkeyed hshape ks
      (fun node hnode => honce node (List.mem_append_right _ hnode)) hks
    refine ⟨s :: rest, ?_, ?_, fun ref => ?_⟩
    · unfold serializeAll
      rw [hs, hrest]
      rfl
    · simp [persistedContinuations, hpersisted, hrestpersisted]
    · obtain ⟨r, hr, hrecreated⟩ := hrestored ref
      obtain ⟨r', hr', hrecreated'⟩ := hrestrestored r.2
      refine ⟨(r.1 :: r'.1, r'.2), ?_, hrecreated, hrecreated'⟩
      unfold restoreAll
      rw [hr]
      simp only [bind, Except.bind]
      rw [hr']
      rfl

end

/-! ### References that are not stored -/

/-- Nothing but `ValueError` is raised. -/
def OnlyValueErrors {α : Type} (x : Except Exn α) : Prop := ∀ e, x = .error e → e.kind = .valueError

section

variable {α β : Type}

theorem onlyValueErrors_ok (a : α) : OnlyValueErrors (.ok a) := nofun

theorem onlyValueErrors_bind {x : Except Exn α} {f : α → Except Exn β} (hx : OnlyValueErrors x)
    (hf : ∀ a, OnlyValueErrors (f a)) : OnlyValueErrors (x >>= f) := by
  cases x with
  | error e =>
    intro e' he'
    obtain rfl := Except.error.inj he'
    exact hx e rfl
  | ok a => exact hf a

theorem onlyValueErrors_mapM {f : α → Except Exn β} {l : List α} (h : ∀ a ∈ l, OnlyValueErrors (f a)) :
    OnlyValueErrors (l.mapM f) := by
  induction l with
  | nil => exact onlyValueErrors_ok _
  | cons a l ih =>
    rw [List.mapM_cons]
    refine onlyValueErrors_bind (h a (List.mem_cons_self)) fun b => ?_
    exact onlyValueErrors_bind (ih fun x hx => h x (List.mem_cons_of_mem _ hx)) fun _ =>
      onlyValueErrors_ok _

theorem onlyValueErrors_dump (dump : Option α) : OnlyValueErrors (orSerializationError dump) := by
  intro e he
  cases dump with
  | none =>
    obtain rfl := Except.error.inj he
    rfl
  | some a => cases he

end

theorem onlyValueErrors_pathFor (steps : List Node) (id : ℕ) : OnlyValueErrors (pathFor steps id) := by
  intro e he
  unfold pathFor at he
  split at he
  · obtain rfl := Except.error.inj he
    rfl
  · cases he
  · obtain rfl := Except.error.inj he
    rfl

mutual

theorem onlyValueErrors_serialize (steps : List Node) : ∀ k : Continuation,
    OnlyValueErrors (serialize steps k)
  | .sequence nodes pos first => by
    exact onlyValueErrors_bind (onlyValueErrors_mapM fun _ _ => onlyValueErrors_pathFor _ _) fun _ =>
      onlyValueErrors_ok _
  | .loop l startIndex previousName pos round => by
    exact onlyValueErrors_bind (onlyValueErrors_pathFor _ _) fun _ => onlyValueErrors_ok _
  | .outputs outputs => by
    exact onlyValueErrors_bind (onlyValueErrors_serializeOutputs steps outputs) fun _ =>
      onlyValueErrors_ok _

theorem onlyValueErrors_serializeOutputs (steps : List Node) : ∀ outputs : List StepOutput,
    OnlyValueErrors (serializeOutputs steps outputs)
  | [] => onlyValueErrors_ok _
  | .bare held :: outputs => by
    refine onlyValueErrors_bind (onlyValueErrors_dump _) fun _ => ?_
    exact onlyValueErrors_bind (onlyValueErrors_serializeOutputs steps outputs) fun _ =>
      onlyValueErrors_ok _
  | .result held state continuations :: outputs => by
    refine onlyValueErrors_bind (onlyValueErrors_dump _) fun _ => ?_
    refine onlyValueErrors_bind (onlyValueErrors_dump _) fun _ => ?_
    refine onlyValueErrors_bind (onlyValueErrors_serializeAll steps continuations) fun _ => ?_
    exact onlyValueErrors_bind (onlyValueErrors_serializeOutputs steps outputs) fun _ =>
      onlyValueErrors_ok _

theorem onlyValueErrors_serializeAll (steps : List Node) : ∀ ks : List Continuation,
    OnlyValueErrors (serializeAll steps ks)
  | [] => onlyValueErrors_ok _
  | k :: ks => by
    refine onlyValueErrors_bind (onlyValueErrors_serialize steps k) fun _ => ?_
    exact onlyValueErrors_bind (onlyValueErrors_serializeAll steps ks) fun _ => onlyValueErrors_ok _

end

theorem occurrences_of_pathFor {node : Node} {path : StepPath} (h : pathFor steps node.id = .ok path) :
    (occurrences steps node).length = 1 := by
  unfold pathFor at h
  unfold occurrences
  split at h
  · cases h
  · next entry hone => rw [hone, List.length_singleton]
  · cases h

theorem occurrences_of_mapM : ∀ {nodes : List Node} {paths : List StepPath},
    (nodes.mapM fun node => pathFor steps node.id) = .ok paths →
    ∀ node ∈ nodes, (occurrences steps node).length = 1
  | [], _, _ => by simp
  | first :: nodes, paths, h => by
    rw [List.mapM_cons] at h
    obtain ⟨path, hpath, h⟩ := ok_of_bind h
    obtain ⟨rest, hrest, _⟩ := ok_of_bind h
    intro node hnode
    rcases List.mem_cons.mp hnode with rfl | hnode
    · exact occurrences_of_pathFor hpath
    · exact occurrences_of_mapM hrest node hnode

mutual

/-- What is stored refers to nodes that stand in one place of the flow. -/
theorem occurrences_of_serialize : ∀ (k : Continuation) {s : StoredContinuation},
    serialize steps k = .ok s → ∀ node ∈ references k, (occurrences steps node).length = 1
  | .sequence nodes pos first, s, h => by
    obtain ⟨paths, hpaths, _⟩ := ok_of_bind h
    exact occurrences_of_mapM hpaths
  | .loop l startIndex previousName pos round, s, h => by
    obtain ⟨path, hpath, _⟩ := ok_of_bind h
    intro node hnode
    obtain rfl := List.mem_singleton.mp hnode
    exact occurrences_of_pathFor hpath
  | .outputs outputs, s, h => by
    obtain ⟨stored, hstored, _⟩ := ok_of_bind h
    exact occurrences_of_serializeOutputs outputs hstored

theorem occurrences_of_serializeOutputs : ∀ (outputs : List StepOutput)
    {stored : List (Pos × Report × Option StepState × List StoredContinuation)},
    serializeOutputs steps outputs = .ok stored →
    ∀ node ∈ outputsReferences outputs, (occurrences steps node).length = 1
  | [], _, _ => by simp [outputsReferences]
  | .bare held :: outputs, stored, h => by
    obtain ⟨report, _, h⟩ := ok_of_bind h
    obtain ⟨rest, hrest, _⟩ := ok_of_bind h
    exact occurrences_of_serializeOutputs outputs hrest
  | .result held state continuations :: outputs, stored, h => by
    obtain ⟨report, _, h⟩ := ok_of_bind h
    obtain ⟨state', _, h⟩ := ok_of_bind h
    obtain ⟨all, hall, h⟩ := ok_of_bind h
    obtain ⟨rest, hrest, _⟩ := ok_of_bind h
    intro node hnode
    rcases List.mem_append.mp hnode with hnode | hnode
    · exact occurrences_of_serializeAll continuations hall node hnode
    · exact occurrences_of_serializeOutputs outputs hrest node hnode

theorem occurrences_of_serializeAll : ∀ (ks : List Continuation) {stored : List StoredContinuation},
    serializeAll steps ks = .ok stored →
    ∀ node ∈ allReferences ks, (occurrences steps node).length = 1
  | [], _, _ => by simp [allReferences]
  | k :: ks, stored, h => by
    obtain ⟨s, hs, h⟩ := ok_of_bind h
    obtain ⟨rest, hrest, _⟩ := ok_of_bind h
    intro node hnode
    rcases List.mem_append.mp hnode with hnode | hnode
    · exact occurrences_of_serialize k hs node hnode
    · exact occurrences_of_serializeAll ks hrest node hnode

end

/-- Continuations that refer to nodes which occur once are stored and restored on every
flow of the same shape, and continuations that refer to another node are not stored. -/
theorem serialize_restore (hkeyed : AllKeyed steps') (hshape : SameShapes steps steps')
    (ks : List Continuation) :
    ((∀ node ∈ allReferences ks, OccursOnce steps node) → AllStorable ks →
      ∃ stored stored', serializeAll steps ks = .ok stored ∧
        persistedContinuations stored = some stored' ∧
        ∀ ref, ∃ r, restoreAll steps' stored' ref = .ok r ∧ RecreatedAll steps steps' ks r.1) ∧
    ((∃ node ∈ allReferences ks, (occurrences steps node).length ≠ 1) →
      ∃ e, serializeAll steps ks = .error e ∧ e.kind = .valueError) := by
  constructor
  · intro honce hstorable
    obtain ⟨stored, hstored, hpersisted, hrestored⟩ := exists_restoreAll hkeyed hshape ks honce hstorable
    exact ⟨stored, stored, hstored, hpersisted, hrestored⟩
  · rintro ⟨node, hnode, hne⟩
    cases hs : serializeAll steps ks with
    | error e => exact ⟨e, rfl, onlyValueErrors_serializeAll steps ks e hs⟩
    | ok stored => exact absurd (occurrences_of_serializeAll ks hs node hnode) hne

/-! ### A loop under another name -/

def pollLoop (name : String) : Loop :=
  ⟨1, nodesModule ++ "Loop", name, false, 3, 1, [.step 2 (.worker plainWorker) "step" none]⟩

/-- A loop that waits behind a bare report and a result, one level down. -/
def pollContinuations : List Continuation :=
  [.outputs [.bare ⟨4, [.par 0], { runId := "a", status := .completed, content := some "done" }⟩,
    .result ⟨5, [.par 1], { runId := "b", status := .completed }⟩ none
      [.loop (pollLoop "loop_1") 1 none [.seq 0] 1]]]

theorem serialize_restore_renamed : ∃ stored stored',
    serializeAll [loopNode (pollLoop "loop_1")] pollContinuations = .ok stored ∧
      persistedContinuations stored = some stored' ∧
      ∀ ref, ∃ r, restoreAll [loopNode (pollLoop "loop_2")] stored' ref = .ok r ∧
        RecreatedAll [loopNode (pollLoop "loop_1")] [loopNode (pollLoop "loop_2")]
          pollContinuations r.1 := by
  have hkeyed : AllKeyed [loopNode (pollLoop "loop_2")] := by
    simp [AllKeyed, Keyed, loopNode, pollLoop]
  have hspec := @serialize_restore [loopNode (pollLoop "loop_1")] _ hkeyed (by decide)
    pollContinuations
  refine hspec.1 ?_ ?_
  · intro node hnode
    obtain rfl := List.mem_singleton.mp hnode
    exact ⟨[.int 0], rfl⟩
  · exact ⟨⟨rfl, rfl, rfl, ⟨le_rfl, trivial⟩, trivial⟩, trivial⟩

/-- A start index behind a loop's steps is stored but not restored. -/
theorem not_restored_behind_end : ∃ stored,
    (∀ node ∈ allReferences [.loop (pollLoop "loop_1") 2 none [.seq 0] 1],
      OccursOnce [loopNode (pollLoop "loop_1")] node) ∧
    serializeAll [loopNode (pollLoop "loop_1")] [.loop (pollLoop "loop_1") 2 none [.seq 0] 1] = .ok stored ∧
    ∀ stored', persistedContinuations stored = some stored' →
      ∀ ref r, restoreAll [loopNode (pollLoop "loop_1")] stored' ref ≠ .ok r := by
  refine ⟨_, fun node hnode => ?_, rfl, fun stored' hstored' ref r hr => ?_⟩
  · obtain rfl := List.mem_singleton.mp hnode
    exact ⟨[.int 0], rfl⟩
  · obtain rfl := Option.some.inj hstored'
    cases hr

end Blackgeorge.Workflow
