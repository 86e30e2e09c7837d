import Blackgeorge.Workflow.Rounds

/-! Resumes on recreated flows, whose unnamed loops have other names. A loop's count is
stored under the name it had and copied when the loop goes on. The loops go on with their
own counts unless one that goes on earlier has taken the name of a stored count, or the flow
pauses again before a loop with another name has gone on. -/

namespace Blackgeorge.Workflow

open Data Program Coroutine Coro Desk

/-! ### Names of their own -/

mutual

theorem apart_of_nodup : ∀ node : Node, (loopNames node).Nodup → Apart node
  | .step .., _ => trivial
  | .parallel _ steps, h => by exact ⟨allApart_of_nodup steps h, pairwise_of_nodup steps h⟩
  | .condition _ _ _ ifTrue ifFalse, h => by
    obtain ⟨htrue, hfalse, _⟩ := List.nodup_append.mp h
    exact ⟨allApart_of_nodup ifTrue htrue, allApart_of_nodup ifFalse hfalse⟩
  | .router _ _ routes, h => by exact routesApart_of_nodup routes h
  | .loop _ _ name _ _ _ steps, h => by
    obtain ⟨hname, hsteps⟩ := List.nodup_cons.mp h
    exact ⟨allApart_of_nodup steps hsteps, hname⟩

theorem allApart_of_nodup : ∀ steps : List Node, (allLoopNames steps).Nodup → AllApart steps
  | [], _ => trivial
  | step :: steps, h => by
    obtain ⟨hstep, hsteps, _⟩ := List.nodup_append.mp h
    exact ⟨apart_of_nodup step hstep, allApart_of_nodup steps hsteps⟩

theorem routesApart_of_nodup : ∀ routes : List (String × List Node),
    (routeLoopNames routes).Nodup → RoutesApart routes
  | [], _ => trivial
  | (_, steps) :: routes, h => by
    obtain ⟨hsteps, hroutes, _⟩ := List.nodup_append.mp h
    exact ⟨allApart_of_nodup steps hsteps, routesApart_of_nodup routes hroutes⟩

theorem pairwise_of_nodup : ∀ steps : List Node, (allLoopNames steps).Nodup →
    steps.Pairwise fun step step' => ∀ n ∈ loopNames step, n ∉ loopNames step'
  | [], _ => .nil
  | step :: steps, h => by
    obtain ⟨_, hsteps, hdisjoint⟩ := List.nodup_append.mp h
    refine .cons (fun step' hstep' n hn hn' => ?_) (pairwise_of_nodup steps hsteps)
    exact hdisjoint n hn n (mem_allLoopNames.mpr ⟨step', hstep', hn'⟩) rfl

end

/-! ### Leaves on another flow -/

variable {steps steps' : List Node}

mutual

theorem apart_of_mem_child : ∀ (parent : Node), Apart parent → ∀ (path : StepPath),
    ∀ e ∈ childEntries parent path, Apart e.2
  | .step .., _, _, e, he => by simp [childEntries] at he
  | .parallel _ steps, h, path, e, he => by exact apart_of_mem_entries steps h.1 _ 0 e he
  | .condition _ _ _ ifTrue ifFalse, h, path, e, he => by
    rcases List.mem_append.mp he with he | he
    · exact apart_of_mem_entries ifTrue h.1 _ 0 e he
    · exact apart_of_mem_entries ifFalse h.2 _ 0 e he
  | .router _ _ routes, h, path, e, he => by exact apart_of_mem_routes routes h _ e he
  | .loop _ _ _ _ _ _ steps, h, path, e, he => by exact apart_of_mem_entries steps h.1 _ 0 e he

theorem apart_of_mem_entries : ∀ (steps : List Node), AllApart steps → ∀ (path : StepPath) (i : ℕ),
    ∀ e ∈ entries steps path i, Apart e.2
  | [], _, _, _, e, he => by simp [entries] at he
  | step :: steps, h, path, i, e, he => by
    rcases List.mem_cons.mp he with rfl | he
    · exact h.1
    rcases List.mem_append.mp he with he | he
    · exact apart_of_mem_child step h.1 _ e he
    · exact apart_of_mem_entries steps h.2 path (i + 1) e he

theorem apart_of_mem_routes : ∀ (routes : List (String × List Node)), RoutesApart routes →
    ∀ (path : StepPath), ∀ e ∈ routeEntries routes path, Apart e.2
  | [], _, _, e, he => by simp [routeEntries] at he
  | (_, steps) :: routes, h, path, e, he => by
    rcases List.mem_append.mp he with he | he
    · exact apart_of_mem_entries steps h.1 _ 0 e he
    · exact apart_of_mem_routes routes h.2 path e he

end

/-- What a path taken from a node leads to in a flow of the same shape. -/
theorem At.resolved (hkeyed : AllKeyed steps') (hapart : AllApart steps') (hshape : SameShapes steps steps')
    {node node' : Node} {pos : Pos} (hat : At steps node pos) {path : StepPath}
    (hpath : pathFor steps node.id = .ok path) (hnode' : resolve steps' path = .ok node') :
    At steps' node' pos ∧ Alike node node' ∧ Apart node' := by
  obtain ⟨p, counterpart, hmem, hmem', hat', halike⟩ := hat.counterpart hshape
  obtain rfl := pathFor_eq hmem hpath
  rw [resolve_of_mem hkeyed hmem'] at hnode'
  obtain rfl := Except.ok.inj hnode'
  exact ⟨hat', halike, apart_of_mem_entries steps' hapart [] 0 _ hmem'⟩

theorem inLine_resolved (hkeyed : AllKeyed steps') (hapart : AllApart steps')
    (hshape : SameShapes steps steps') {pos : Pos} : ∀ {nodes : List Node} {first : ℕ}
    {paths : List StepPath} {nodes' : List Node}, InLine steps nodes pos first →
    (nodes.mapM fun node => pathFor steps node.id) = .ok paths →
    paths.mapM (resolve steps') = .ok nodes' → AllApart nodes' ∧ InLine steps' nodes' pos first
  | [], _, paths, nodes', _, hpaths, hnodes' => by
    obtain rfl : [] = paths := Except.ok.inj hpaths
    obtain rfl : [] = nodes' := Except.ok.inj hnodes'
    exact ⟨trivial, by simp [InLine]⟩
  | node :: nodes, first, paths, nodes', hline, hpaths, hnodes' => by
    rw [List.mapM_cons] at hpaths
    obtain ⟨path, hpath, hpaths⟩ := ok_of_bind hpaths
    obtain ⟨rest, hrest, hpaths⟩ := ok_of_bind hpaths
    obtain rfl := Except.ok.inj hpaths
    rw [List.mapM_cons] at hnodes'
    obtain ⟨node', hnode', hnodes'⟩ := ok_of_bind hnodes'
    obtain ⟨rest', hrest', hnodes'⟩ := ok_of_bind hnodes'
    obtain rfl := Except.ok.inj hnodes'
    obtain ⟨hat, _, hnode⟩ := hline.head.resolved hkeyed hapart hshape hpath hnode'
    obtain ⟨hall, htail⟩ := inLine_resolved hkeyed hapart hshape hline.tail hrest hrest'
    refine ⟨⟨hnode, hall⟩, fun i n hn => ?_⟩
    cases i with
    | zero =>
      obtain rfl : node' = n := by simpa using hn
      exact hat
    | succ i =>
      have := htail i n (by simpa using hn)
      rwa [show first + 1 + i = first + (i + 1) by omega] at this

/-- A restored leaf has the other flow's nodes at the positions of the old ones, and a
loop's count where it was stored. -/
theorem RestoredLeaf.recreated (hkeyed : AllKeyed steps') (hapart : AllApart steps')
    (hshape : SameShapes steps steps') {k k' : Continuation} {s : StoredContinuation} {f : String → ℕ}
    (hk' : RestoredLeaf steps' s k') (hs : StoredLeaf steps k s) (hfits : k.Fits steps)
    (hcounted : k.Counted f) (hown : k.Own) : k'.Fits steps' ∧ k'.Counted f := by
  obtain ⟨hs, hleaf⟩ := hs
  obtain ⟨ref, ref', hr⟩ := hk'
  cases k with
  | sequence nodes pos first =>
    obtain ⟨paths, hpaths, hs⟩ := ok_of_bind hs
    obtain rfl := Except.ok.inj hs
    obtain ⟨nodes', hnodes', hr⟩ := ok_of_bind hr
    obtain ⟨rfl, _⟩ := Prod.mk.inj (Except.ok.inj hr)
    exact ⟨inLine_resolved hkeyed hapart hshape hfits.2 hpaths hnodes', trivial⟩
  | loop l startIndex previousName pos round =>
    obtain ⟨path, hpath, hs⟩ := ok_of_bind hs
    obtain rfl := Except.ok.inj hs
    obtain ⟨node, hnode, hr⟩ := ok_of_bind hr
    obtain ⟨k'', hk'', hr⟩ := ok_of_bind hr
    obtain ⟨rfl, _⟩ := Prod.mk.inj (Except.ok.inj hr)
    obtain ⟨loop, hloop, rfl⟩ := restoredLoop_ok hk''
    obtain ⟨hat, halike, hloopApart⟩ := hfits.2.1.resolved hkeyed hapart hshape hpath hnode
    obtain ⟨id', cls', name', explicitName', fn', nodes', rfl, _⟩ := halike.loop
    obtain rfl := Option.some.inj hloop
    refine ⟨⟨hloopApart, hat, hfits.2.2⟩, ?_⟩
    have hname : previousName.getD l.name = l.name := hown
    have hcount : f (previousName.getD l.name) = round := hcounted
    rwa [hname] at hcount
  | outputs outputs => exact absurd rfl (hleaf outputs)

/-- The waiting loops of a restored state take their counts over one by one: none that goes
on earlier has the name that another one's count is stored under. -/
def TakesOver (steps : List Node) (state : FlowState) : Prop :=
  ∀ ref r, restoreAll steps (state.continuations.getD []) ref = .ok r →
    (continuationsLeaves r.1).Pairwise Separate

/-- What a resume restores of a state's waiting sequences and loops. -/
def Waiting (steps : List Node) (state : FlowState) (k : Continuation) : Prop :=
  ∃ s ∈ allStoredLeaves (state.continuations.getD []), RestoredLeaf steps s k

theorem Resumable.recreated {scope : Scope} (hkeyed : AllKeyed scope.steps)
    (hapart : AllApart scope.steps) (hshape : SameShapes steps scope.steps) {state : FlowState}
    (h : Resumable steps state) (htakes : TakesOver scope.steps state)
    (hrenamed : ∀ k, Waiting scope.steps state k → scope.renamed k) : Continues scope state := by
  obtain ⟨_, leaves, hstored, hready, hown⟩ := h
  intro ref r hr
  have hrestored := restoreAll_leaves scope.steps _ hr
  have hall : ∀ k' ∈ continuationsLeaves r.1, k'.Fits scope.steps ∧ k'.Counted (storedCounters state) := by
    have hfits := hready.fits
    have hcounted := hready.counted
    generalize continuationsLeaves r.1 = leaves' at hrestored
    generalize allStoredLeaves (state.continuations.getD []) = between at hstored hrestored
    clear hr hready
    induction hstored generalizing leaves' with
    | nil =>
      cases hrestored
      simp
    | @cons k s leaves between hs _ ih =>
      cases hrestored with
      | cons hr hrest =>
        intro k' hk'
        rcases List.mem_cons.mp hk' with rfl | hk'
        · exact hr.recreated hkeyed hapart hshape hs (hfits k (List.mem_cons_self))
            (hcounted k (List.mem_cons_self)) (hown k (List.mem_cons_self))
        · exact ih (fun k hk => hown k (List.mem_cons_of_mem _ hk))
            (fun k hk => hfits k (List.mem_cons_of_mem _ hk))
            (fun k hk => hcounted k (List.mem_cons_of_mem _ hk)) _ hrest k' hk'
  refine ⟨⟨fun k hk => (hall k hk).1, fun k hk => (hall k hk).2, htakes ref r hr⟩, fun k hk => ?_⟩
  obtain ⟨i, hi, rfl⟩ := List.mem_iff_getElem.mp hk
  have hi' := hrestored.length_eq ▸ hi
  exact .inr (hrenamed _ ⟨_, List.getElem_mem hi', hrestored.get hi' hi⟩)

/-- A loop that waits at the same place in both states has the same name in them. -/
def KeepsNames (state state' : FlowState) : Prop :=
  ∀ path startIndex name name' pos round,
    .loop path startIndex name pos round ∈ allStoredLeaves (state.continuations.getD []) →
    .loop path startIndex name' pos round ∈ allStoredLeaves (state'.continuations.getD []) →
    name' = name

theorem mem_of_resolve {path : StepPath} {node : Node} (h : resolve steps path = .ok node) :
    (path, node) ∈ entries steps [] 0 := by
  unfold resolve at h
  split at h
  · next entry hfind =>
    have hpath : entry.1 = path := by simpa using List.find?_some hfind
    obtain rfl := Except.ok.inj h
    rw [← hpath]
    exact List.mem_of_find?_eq_some hfind
  · cases h

theorem loopNode_of_loop? {node : Node} {loop : Loop} (h : node.loop? = some loop) :
    loopNode loop = node := by
  cases node with
  | loop id cls name explicitName maxIterations stop steps =>
    obtain rfl := Option.some.inj h
    rfl
  | _ => cases h

/-- A restored leaf that is stored again under the name it was stored with has its own name. -/
theorem Waiting.own {state state' : FlowState} {k : Continuation} (h : Waiting steps state k)
    (hnames : KeepsNames state state') {s' : StoredContinuation}
    (hs' : s' ∈ allStoredLeaves (state'.continuations.getD [])) (hstored : StoredLeaf steps k s') :
    k.Own := by
  obtain ⟨s, hs, ref, ref', hr⟩ := h
  cases k with
  | sequence => trivial
  | outputs => trivial
  | loop l startIndex previousName pos round =>
    obtain ⟨path', hpath', hserialized⟩ := ok_of_bind hstored.1
    obtain rfl := Except.ok.inj hserialized
    cases s with
    | sequence paths pos₀ first =>
      obtain ⟨nodes, _, hr⟩ := ok_of_bind hr
      cases hr
    | outputs outputs =>
      obtain ⟨restored, _, hr⟩ := ok_of_bind hr
      cases hr
    | loop path startIndex₀ name pos₀ round₀ =>
      obtain ⟨node, hnode, hr⟩ := ok_of_bind hr
      obtain ⟨k', hk', hr⟩ := ok_of_bind hr
      obtain ⟨rfl, _⟩ := Prod.mk.inj (Except.ok.inj hr)
      obtain ⟨loop, hloop, hk'⟩ := restoredLoop_ok hk'
      obtain ⟨rfl, rfl, rfl, rfl, rfl⟩ := Continuation.loop.inj hk'
      have hnode' := loopNode_of_loop? hloop
      have hid : pathFor steps node.id = .ok path' := hnode' ▸ hpath'
      obtain rfl := pathFor_eq (mem_of_resolve hnode) hid
      exact (hnames _ _ _ _ _ _ hs hs').symm

/-! ### Chains of recreated flows -/

/-- A state of a flow stands in the store. -/
def Stores (w : World) (state : FlowState) : Prop :=
  ∃ runId record, w.records runId = some record ∧ record.state = some (.flow state)

/-- The state that a call goes on from. -/
def FlowCall.Resumes (w : World) : FlowCall → FlowState → Prop
  | .run _, _ => False
  | .resume report _ _, state =>
    ∃ record, w.records report.runId = some record ∧ record.state = some (.flow state)

/-- The worlds that calls of flows lead to, one after the other, with whatever else happens
behind each of them that stores no state of a flow, pauses of flows of other shapes left out.
The waiting loops of a resumed state take their counts over, and those that wait still when
the resume pauses again have kept their names. -/
inductive RecreatedCalls (flows : Set Flow) (w : World) : World → Prop
  | start : RecreatedCalls flows w w
  | call {desk : DeskSettings} {flow w' v w'' call t r} : RecreatedCalls flows w w' → flow ∈ flows →
    (∀ state, call.Resumes w' state → TakesOver flow.steps state) →
    Runs (Bounded flow.steps) (FlowCall.prog desk flow call) w' t r v →
    (∀ state, Stores w'' state → Stores v state) →
    (∀ state state', call.Resumes w' state → Stores w'' state' → ¬ Stores w' state' →
      KeepsNames state state') → RecreatedCalls flows w w''

/-- Flows of one shape, as a program creates them in one process after the other. -/
structure OneShape (flows : Set Flow) : Prop where
  keyed : ∀ flow ∈ flows, AllKeyed flow.steps
  names : ∀ flow ∈ flows, (allLoopNames flow.steps).Nodup
  shape : ∀ flow ∈ flows, ∀ flow' ∈ flows, SameShapes flow.steps flow'.steps

section

variable {flows : Set Flow}

/-- A call of a recreated flow, whose loops may wait under the names they were stored with. -/
def recreation (flow : Flow) (calm : Prop) (w : World) (call : FlowCall) : Scope where
  steps := flow.steps
  calm := calm
  renamed k := ∃ state, call.Resumes w state ∧ Waiting flow.steps state k
  stored := Stores w

theorem recreation_keeps (hflows : OneShape flows) {desk : DeskSettings} {flow : Flow}
    (hflow : flow ∈ flows) {w w' : World} {call : FlowCall}
    (hall : ∀ state, Stores w state → ∃ flow ∈ flows, Resumable flow.steps state)
    (htakes : ∀ state, call.Resumes w state → TakesOver flow.steps state) {t : Trace sig}
    {r : Except Exn Report} (hr : Runs (Bounded flow.steps) (call.prog desk flow) w t r w')
    {calm : Prop} (hcalm : calm → ∀ e ∈ t, ∀ x, raisedBy e = some x → x.kind ≠ .cancelled) :
    (flowTerms (recreation flow calm w call)).Keeps w t r w' := by
  have hapart := allApart_of_nodup flow.steps (hflows.names flow hflow)
  have hsteps : flow.steps = (recreation flow calm w call).steps := rfl
  refine flowCall_keeps hsteps hapart ?_ hr hcalm
  rintro report decision stream rfl record state hrecord hstate
  obtain ⟨flow₀, hflow₀, hresumable⟩ := hall state ⟨report.runId, record, hrecord, hstate⟩
  have hresumes : (FlowCall.resume report decision stream).Resumes w state := ⟨record, hrecord, hstate⟩
  exact hresumable.recreated (hflows.keyed flow hflow) hapart (hflows.shape flow₀ hflow₀ flow hflow)
    (htakes state hresumes) fun k hk => ⟨state, hresumes, hk⟩

theorem RecreatedCalls.resumable (hflows : OneShape flows) {w w' : World}
    (hfresh : ∀ state, ¬ Stores w state) (h : RecreatedCalls flows w w') :
    ∀ state, Stores w' state → ∃ flow ∈ flows, Resumable flow.steps state := by
  induction h with
  | start => exact fun state hstate => absurd hstate (hfresh state)
  | @call desk flow w' v w'' call t r _ hflow htakes hr hothers hnames ih =>
    intro state' hafter
    by_cases hold : Stores w' state'
    · exact ih state' hold
    obtain ⟨runId, record, hrecord, hstate'⟩ := hothers state' hafter
    have hkeeps := recreation_keeps hflows hflow ih htakes hr False.elim
    have hbefore : AllStored (recreation flow False w' call).Allows w' :=
      fun runId record state hrecord hstate => .inl ⟨runId, record, hrecord, hstate⟩
    obtain hstored | hleft := hkeeps.step hbefore runId record state' hrecord hstate'
    · exact absurd hstored hold
    · refine ⟨flow, hflow, hleft.resumable ?_⟩
      rintro k ⟨state, hresumes, hwaiting⟩ s hs hstored
      exact hwaiting.own (hnames state state' hresumes hafter hold) hs hstored

end

instance (k k' : Continuation) : Decidable (Separate k k') :=
  inferInstanceAs (Decidable (∀ n ∈ k.touched, k'.keptUnder ≠ some n))

/-- The names of a restored leaf do not depend on when it is restored. -/
theorem RestoredLeaf.names {steps : List Node} {s : StoredContinuation} {k k' : Continuation}
    (h : RestoredLeaf steps s k) (h' : RestoredLeaf steps s k') :
    k.touched = k'.touched ∧ k.keptUnder = k'.keptUnder := by
  obtain ⟨ref₁, ref₂, hk⟩ := h
  obtain ⟨ref₁', ref₂', hk'⟩ := h'
  cases s with
  | sequence paths pos first =>
    obtain ⟨nodes, hnodes, hk⟩ := ok_of_bind hk
    obtain ⟨nodes', hnodes', hk'⟩ := ok_of_bind hk'
    obtain rfl := Except.ok.inj (hnodes.symm.trans hnodes')
    obtain ⟨rfl, _⟩ := Prod.mk.inj (Except.ok.inj hk)
    obtain ⟨rfl, _⟩ := Prod.mk.inj (Except.ok.inj hk')
    exact ⟨rfl, rfl⟩
  | loop path startIndex loopName pos round =>
    obtain ⟨node, hnode, hk⟩ := ok_of_bind hk
    obtain ⟨node', hnode', hk'⟩ := ok_of_bind hk'
    obtain rfl := Except.ok.inj (hnode.symm.trans hnode')
    obtain ⟨l, hl, hk⟩ := ok_of_bind hk
    obtain ⟨l', hl', hk'⟩ := ok_of_bind hk'
    obtain rfl := Except.ok.inj (hl.symm.trans hl')
    obtain ⟨rfl, _⟩ := Prod.mk.inj (Except.ok.inj hk)
    obtain ⟨rfl, _⟩ := Prod.mk.inj (Except.ok.inj hk')
    exact ⟨rfl, rfl⟩
  | outputs outputs =>
    obtain ⟨restored, _, hk⟩ := ok_of_bind hk
    obtain ⟨restored', _, hk'⟩ := ok_of_bind hk'
    obtain ⟨rfl, _⟩ := Prod.mk.inj (Except.ok.inj hk)
    obtain ⟨rfl, _⟩ := Prod.mk.inj (Except.ok.inj hk')
    exact ⟨rfl, rfl⟩

end Blackgeorge.Workflow
