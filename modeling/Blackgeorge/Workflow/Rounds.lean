import Blackgeorge.Desk.Runners
import Blackgeorge.Workflow.Counters
import Blackgeorge.Workflow.Recreation

/-! The rounds of a flow's loops over all its runs and resumes. Where no loop inside a
loop or in another branch of a parallel group has its name, a loop's rounds stay within
its bound, whatever the stop functions say and however often the flow pauses. -/

namespace Blackgeorge.Workflow

open Data Program Coroutine Coro Desk

variable {scope : Scope} {context : Ref}

/-! ### Continuations -/

/-- What is left to do in a run, in the order in which it goes on. -/
def Going (scope : Scope) (leaves : List Continuation) (f : String → ℕ) : Prop :=
  Ready scope.steps f leaves ∧ ∀ k ∈ leaves, k.Own ∨ scope.renamed k

theorem Going.sublist {leaves leaves' : List Continuation} {f : String → ℕ}
    (h : Going scope leaves f) (hl : leaves'.Sublist leaves) : Going scope leaves' f :=
  ⟨h.1.sublist hl, fun k hk => h.2 k (hl.mem hk)⟩

theorem going_nil (f : String → ℕ) : Going scope [] f := ⟨ready_nil _ _, by simp⟩

section

variable (desk : DeskSettings) (flow : Flow)

theorem counts_takeOverCounter {l : Loop} {previousName : Option String} {round : ℕ} :
    Counts scope context Set.univ {l.name} (fun f => f (previousName.getD l.name) = round)
      (takeOverCounter context l previousName) fun _ f => f l.name = round := by
  unfold takeOverCounter
  split
  · next previous h =>
    obtain ⟨rfl, hne⟩ := Option.filter_eq_some_iff.mp h
    refine counts_modifyContext (Set.mem_singleton _) (localTo_univ _) (localTo_univ _) ?_ ?_
    · exact fun c n hn => Function.update_of_ne hn _ _
    · intro c hc
      simpa [Context.setLoopIteration] using hc
  · next h =>
    refine shares_pure (localTo_univ _) fun f hf => ?_
    cases previousName with
    | none => exact hf
    | some previous =>
      have heq : previous = l.name := by simpa [Option.filter] using h
      rwa [Option.getD_some, heq] at hf

theorem counts_resumeLoop {l : Loop} {startIndex : ℕ} {previousName : Option String} {pos : Pos}
    {round : ℕ} (hfits : (Continuation.loop l startIndex previousName pos round).Fits scope.steps) :
    Counts scope context Set.univ {n | n ∈ l.name :: allLoopNames l.steps}
      (fun f => f (previousName.getD l.name) = round)
      (resumeLoop desk askedRunners flow context l startIndex previousName pos round)
      (Left scope.steps (l.name :: allLoopNames l.steps)) := by
  obtain ⟨hapart, hat, hpos, hround⟩ := hfits
  have hname : l.name ∈ {n | n ∈ l.name :: allLoopNames l.steps} := List.mem_cons_self
  have hcount : Counts scope context Set.univ {n | n ∈ l.name :: allLoopNames l.steps}
      (fun f => f (previousName.getD l.name) = round) (takeOverCounter context l previousName)
      fun _ f => f l.name = round :=
    counts_takeOverCounter.mono Set.Subset.rfl (Set.singleton_subset_iff.mpr hname) (fun _ h => h)
      fun _ _ h => h
  refine shares_bind hcount fun _ => ?_
  have hrounds : ∀ n : ℕ, Calm scope .rounds n →
      Placed scope.steps ⟨.rounds, n⟩ ∧ l.maxIterations < n :=
    fun n hn => ⟨trivial, hn _ pos hat⟩
  refine shares_bind (counts_ask (localTo_univ _) hrounds) fun fuel => ?_
  rintro w ⟨hw, hfuel⟩
  have hpass : ∀ startIndex round outputs, 1 ≤ round → round ≤ l.maxIterations →
      OnlyPaused outputs → outputsLeaves outputs = [] →
      Counts scope context Set.univ {n | n ∈ l.name :: allLoopNames l.steps} (fun f => f l.name = round)
        (executePass desk askedRunners flow context (fun index => .loop l index none pos round) l.steps
          startIndex (pos ++ [.iter round]) 0 outputs)
        fun pass f => PassLeft scope.steps (l.name :: allLoopNames l.steps) pass f ∧ f l.name = round :=
    fun startIndex round outputs hpos hround hpaused hdone =>
      counts_executePass desk flow l pos round ⟨hapart, hat, hpos, hround⟩ (fun n hn => hn)
        (Set.subset_univ _) l.steps startIndex (pos ++ [.iter round]) 0 outputs
        (fun i node hnode => by simpa using At.round hat hpos hround hnode) hapart.1 (fun n hn => hn)
        hpaused hdone
  have hiterate := counts_iterate hat (fun n hn => Set.mem_univ n) (Set.mem_univ _) hname hpass fuel
    startIndex round true hpos (fun _ => hround) (by omega) nofun onlyPaused_nil rfl
  refine hiterate w ?_
  rwa [RoundStarts, if_pos rfl]

/-- The cells that the counts of waiting loops are kept in. -/
def keptNames (leaves : List Continuation) : Set String := {n | ∃ k ∈ leaves, k.keptUnder = some n}

theorem localTo_going (leaves : List Continuation) :
    LocalTo (keptNames leaves) (Going scope leaves) := by
  rintro f g hfg ⟨⟨hfits, hcounted, hseparate⟩, hown⟩
  refine ⟨⟨hfits, fun k hk => ?_, hseparate⟩, hown⟩
  exact (hcounted k hk).congr fun n hn => hfg ⟨k, hk, hn⟩

/-- Work behind what nodes with loops of these names leave. -/
theorem Left.going {names : List String} {outputs : List StepOutput} {leaves : List Continuation}
    {f : String → ℕ} (h : Left scope.steps names outputs f) (hrest : Going scope leaves f)
    (hsep : ∀ n ∈ names, n ∉ keptNames leaves) : Going scope (outputsLeaves outputs ++ leaves) f := by
  refine ⟨h.ready.append hrest.1 fun k hk k' hk' n hn heq => ?_, fun k hk => ?_⟩
  · exact hsep n (h.touched k hk n hn) ⟨k', hk', heq⟩
  · rcases List.mem_append.mp hk with hk | hk
    · exact .inl (h.own k hk)
    · exact hrest.2 k hk

/-- A program that owns the counters of its loops, in front of waiting work. -/
theorem counts_before {names : List String} {leaves : List Continuation} {A : (String → ℕ) → Prop}
    {c : Prog (List StepOutput)} (hsep : ∀ n ∈ names, n ∉ keptNames leaves)
    (h : Counts scope context Set.univ {n | n ∈ names} A c (Left scope.steps names)) :
    Counts scope context Set.univ Set.univ (fun f => A f ∧ Going scope leaves f) c
      fun outputs => Going scope (outputsLeaves outputs ++ leaves) := by
  have hlocal : LocalTo (keptNames leaves) (Going scope leaves) := localTo_going leaves
  have hkeep := h.keep (Set.subset_univ (keptNames leaves)) (Set.disjoint_right.mpr hsep) hlocal
  exact hkeep.mono Set.Subset.rfl (Set.subset_univ _) (fun _ hf => hf) fun _ f hf =>
    hf.1.going hf.2 hsep

theorem counts_runContinuation (k : Continuation) (leaves : List Continuation) :
    Counts scope context Set.univ Set.univ (Going scope (continuationLeaves k ++ leaves))
      (runContinuation desk askedRunners flow context k)
      fun outputs => Going scope (outputsLeaves outputs ++ leaves) := by
  intro w hw
  have hrest : Going scope leaves (counters context w) := hw.sublist (List.sublist_append_right _ _)
  cases k with
  | outputs outputs => exact shares_pure (localTo_univ _) (fun _ h => h) w hw
  | sequence nodes pos first =>
    obtain ⟨hapart, hline⟩ := hw.1.fits _ (List.mem_cons_self)
    have hsep : ∀ n ∈ allLoopNames nodes, n ∉ keptNames leaves := fun n hn ⟨k', hk', heq⟩ =>
      (List.pairwise_cons.mp hw.1.separate).1 k' hk' n hn heq
    exact counts_before hsep (counts_executeSequence desk flow nodes pos first [] hline hapart
      onlyPaused_nil rfl (fun n hn => hn) (Set.subset_univ _)) w ⟨trivial, hrest⟩
  | loop l startIndex previousName pos round =>
    have hsep : ∀ n ∈ l.name :: allLoopNames l.steps, n ∉ keptNames leaves := fun n hn ⟨k', hk', heq⟩ =>
      (List.pairwise_cons.mp hw.1.separate).1 k' hk' n hn heq
    exact counts_before hsep (counts_resumeLoop desk flow (hw.1.fits _ (List.mem_cons_self))) w
      ⟨hw.1.counted _ (List.mem_cons_self), hrest⟩

end

/-! ### Stored states -/

/-- A state that holds what is left to do, in the form it was serialized to. -/
theorem leftOver_of_stored {steps : List Node} {renamed : Continuation → Prop} {ks : List Continuation}
    {stored : List StoredContinuation} {state : FlowState} (hs : serializeAll steps ks = .ok stored)
    (hleaves : allStoredLeaves (state.continuations.getD []) = allStoredLeaves stored)
    (hready : Ready steps (storedCounters state) (continuationsLeaves ks))
    (hown : ∀ k ∈ continuationsLeaves ks, k.Own ∨ renamed k)
    (hsigned : state.flowSignature = some (signature steps)) : LeftOver steps renamed state :=
  ⟨hsigned, continuationsLeaves ks, hleaves ▸ serializeAll_leaves steps ks hs, hready, hown⟩

theorem contextSnapshot_ok {c : Context} {snapshot : ContextSnapshot}
    (h : contextSnapshot c = .ok snapshot) : snapshot.loopIterations = c.loopIterations := by
  unfold contextSnapshot at h
  split at h
  · obtain rfl := Except.ok.inj h
    rfl
  · cases h

theorem buildFlowState_ok {flow : Flow} {runId : RunId} {totals : UsageTotals} {c : Context}
    {paused : PausedFlow} {state : FlowState} (h : buildFlowState flow runId totals c paused = .ok state) :
    ∃ stored, serializeAll flow.steps paused.continuations = .ok stored ∧
      state.continuations = some stored ∧ storedCounters state = c.loopIterations ∧
      state.flowSignature = some (signature flow.steps) := by
  obtain ⟨outputs, _, h⟩ := ok_of_bind h
  obtain ⟨stepState, _, h⟩ := ok_of_bind h
  obtain ⟨snapshot, hsnapshot, h⟩ := ok_of_bind h
  obtain ⟨stored, hstored, h⟩ := ok_of_bind h
  obtain rfl := Except.ok.inj h
  exact ⟨stored, hstored, rfl, contextSnapshot_ok hsnapshot, rfl⟩

theorem flowState_persisted {state state' : FlowState} (h : state.persisted = some state') :
    storedCounters state' = storedCounters state ∧
      allStoredLeaves (state'.continuations.getD []) = allStoredLeaves (state.continuations.getD []) ∧
      state'.flowSignature = state.flowSignature := by
  simp only [FlowState.persisted, Option.bind_eq_bind, Option.bind_eq_some_iff] at h
  obtain ⟨core, _, outputs, _, stepState, _, context, hcontext, continuations, hcontinuations, h⟩ := h
  obtain rfl := Option.some.inj h
  refine ⟨?_, ?_, rfl⟩
  · cases hc : state.context with
    | none =>
      obtain rfl : none = context := by simpa [hc] using hcontext
      simp [storedCounters, hc]
    | some snapshot =>
      obtain ⟨artifacts, _, rfl⟩ : ∃ artifacts, snapshot.artifacts.persisted = some artifacts ∧
          some { snapshot with artifacts := artifacts } = context := by
        simpa [hc, Option.bind_eq_some_iff] using hcontext
      simp [storedCounters, hc]
  · cases hc : state.continuations with
    | none =>
      obtain rfl : none = continuations := by simpa [hc] using hcontinuations
      rfl
    | some stored =>
      obtain ⟨stored', hstored, rfl⟩ : ∃ stored', persistedContinuations stored = some stored' ∧
          some stored' = continuations := by
        simpa [hc] using hcontinuations
      exact allStoredLeaves_persisted stored hstored

/-- Whatever a store keeps of the state that a pause builds has what is left to do. -/
theorem leftOver_buildFlowState {flow : Flow} {runId : RunId} {totals : UsageTotals} {c : Context}
    {paused : PausedFlow} {state : FlowState} {renamed : Continuation → Prop}
    (h : buildFlowState flow runId totals c paused = .ok state)
    (hready : Ready flow.steps c.loopIterations (continuationsLeaves paused.continuations))
    (hown : ∀ k ∈ continuationsLeaves paused.continuations, k.Own ∨ renamed k) {state' : FlowState}
    (hstate' : state' = state ∨ state.persisted = some state') :
    LeftOver flow.steps renamed state' := by
  obtain ⟨stored, hstored, hcontinuations, hcounters, hsigned⟩ := buildFlowState_ok h
  have hleaves : allStoredLeaves (state.continuations.getD []) = allStoredLeaves stored := by
    rw [hcontinuations]
    rfl
  rcases hstate' with rfl | hpersisted
  · exact leftOver_of_stored hstored hleaves (hcounters ▸ hready) hown hsigned
  · obtain ⟨hsame, hleaves', hsigned'⟩ := flowState_persisted hpersisted
    exact leftOver_of_stored hstored (hleaves'.trans hleaves) (hsame ▸ hcounters ▸ hready) hown
      (hsigned'.trans hsigned)

theorem uncancelled_bind {α β : Type} {x : Except Exn α} {f : α → Except Exn β}
    (hx : Uncancelled scope x) (hf : ∀ a, Uncancelled scope (f a)) : Uncancelled scope (x >>= f) := by
  cases x with
  | error e =>
    rintro e' he'
    obtain rfl := Except.error.inj he'
    exact hx e rfl
  | ok a => exact hf a

theorem OnlyValueErrors.uncancelled {α : Type} {x : Except Exn α} (h : OnlyValueErrors x) :
    Uncancelled scope x := by
  intro e he _
  rw [h e he]
  decide

theorem uncancelled_buildFlowState (flow : Flow) (runId : RunId) (totals : UsageTotals) (c : Context)
    (paused : PausedFlow) : Uncancelled scope (buildFlowState flow runId totals c paused) := by
  have hsnapshot : Uncancelled scope (contextSnapshot c) := by
    rintro e he _
    unfold contextSnapshot at he
    split at he
    · cases he
    · obtain rfl := Except.error.inj he
      decide
  refine uncancelled_bind (uncancelled_orSerializationError _) fun _ => ?_
  refine uncancelled_bind (uncancelled_orSerializationError _) fun _ => ?_
  refine uncancelled_bind hsnapshot fun _ => ?_
  exact uncancelled_bind (onlyValueErrors_serializeAll _ _).uncancelled fun _ => uncancelled_ok _

/-! ### Recording how a run ends -/

section

variable (desk : DeskSettings)

theorem uncancelled_storedRecord (status : RunStatus) (output : Option String) (outputJson : Value)
    (state : Option RunState) :
    Uncancelled scope (storedRecord desk status output outputJson state) := by
  unfold storedRecord
  by_cases hmemory : desk.inMemoryStore = true
  · rw [if_pos hmemory]
    exact uncancelled_ok _
  by_cases hplain : outputJson.plain = true
  · rw [if_neg hmemory, if_pos hplain]
    exact uncancelled_bind (uncancelled_orSerializationError _) fun _ => uncancelled_ok _
  · rw [if_neg hmemory, if_neg hplain]
    rintro e he _
    obtain rfl := Except.error.inj he
    decide

/-- A record has the state that it is written with, or what a store makes of it. -/
theorem storedRecord_state {status : RunStatus} {output : Option String} {outputJson : Value}
    {state : Option RunState} {record : RunRecord} {s : FlowState}
    (h : storedRecord desk status output outputJson state = .ok record)
    (hs : record.state = some (.flow s)) :
    ∃ s₀, state = some (.flow s₀) ∧ (s = s₀ ∨ s₀.persisted = some s) := by
  rcases storedRecord_ok h with hsame | hpersisted
  · exact ⟨s, hsame ▸ hs, .inl rfl⟩
  · rw [hs] at hpersisted
    cases state with
    | none => simp at hpersisted
    | some state =>
      have hp : state.persisted = some (.flow s) := by simpa using hpersisted
      cases state with
      | flow s₀ =>
        refine ⟨s₀, rfl, .inr ?_⟩
        simpa [RunState.persisted, Option.bind_eq_some_iff] using hp
      | worker s₀ => simp [RunState.persisted, Option.bind_eq_some_iff] at hp
      | workforce s₀ => simp [RunState.persisted, Option.bind_eq_some_iff] at hp

/-- An update that leaves a state behind which is allowed, if any. -/
theorem plain_updateRun (runId : RunId) (status : RunStatus) (output : Option String)
    (outputJson : Value) (state : Option RunState)
    (h : ∀ s₀ s, state = some (.flow s₀) → (s = s₀ ∨ s₀.persisted = some s) → scope.Allows s) :
    Plain scope context (updateRun desk runId status output outputJson state) := by
  intro P N A hA
  have hrecord : Counts scope context P N A
      (Prog.ofExcept (storedRecord desk status output outputJson state)) fun record f =>
        A f ∧ storedRecord desk status output outputJson state = .ok record :=
    shares_ofExcept (fun _ => hA.and (localTo_const _ _)) (fun _ hok _ hf => ⟨hf, hok⟩)
      (uncancelled_storedRecord desk _ _ _ _)
  refine shares_bind hrecord fun record w hw => ?_
  obtain ⟨hw, hok⟩ := hw
  refine shares_bind (plain_store _ P N A hA) (fun _ => ?_) w hw
  have hkeep (w : World) : (flowTerms scope).step w
      (if desk.inMemoryStore || (w.records runId).isSome then
        { w with records := Function.update w.records runId (some record) }
      else w) := by
    intro hall runId' record' s hrecord' hs
    split_ifs at hrecord' with hwrite
    · dsimp only at hrecord'
      by_cases heq : runId' = runId
      · subst heq
        obtain rfl : record = record' := by simpa using hrecord'
        obtain ⟨s₀, hs₀, hor⟩ := storedRecord_state desk hok hs
        exact h s₀ s hs₀ hor
      · rw [Function.update_of_ne heq] at hrecord'
        exact hall runId' record' s hrecord' hs
    · exact hall runId' record' s hrecord' hs
  have hsame (w : World) : counters context
      (if desk.inMemoryStore || (w.records runId).isSome then
        { w with records := Function.update w.records runId (some record) }
      else w) = counters context w := by
    split_ifs <;> rfl
  refine shares_update hA hA hkeep (fun w => ?_) fun w hw => ?_
  · rw [hsame]
    exact Set.eqOn_refl _ _
  · rwa [hsame]

theorem plain_getTotals (ref : Ref) : Plain scope context (getTotals ref) := plain_get _

theorem plain_unregisterFlowRun (runId : RunId) :
    Plain scope context (unregisterFlowRun runId) :=
  plain_modify (fun _ => rfl) fun _ => rfl

variable (flow : Flow)

theorem plain_getFields : Plain scope context (getFields flow) := plain_get _

theorem plain_modifyFields (f : FlowFields → FlowFields) :
    Plain scope context (modifyFields flow f) :=
  plain_modify (fun _ => rfl) fun _ => rfl

theorem plain_recordEnd (status : RunStatus) (event : String) (output : Option String)
    (outputJson : Value) : Plain scope context (recordEnd desk flow status event output outputJson) :=
  plain_bind (plain_getFields flow) fun _ => plain_bind (plain_deskEmit _ _ _ _ _) fun _ =>
    plain_bind (plain_updateRun desk _ _ _ _ _ fun _ _ => nofun) fun _ => plain_unregisterFlowRun _

theorem plain_failRun (report : RunId → Report) : Plain scope context (failRun desk flow report) :=
  plain_bind (plain_getFields flow) fun _ =>
    plain_bind (plain_recordEnd desk flow _ _ _ _) fun _ => plain_pure _

theorem plain_finalizeFlowRun (allReports : List Held) :
    Plain scope context (finalizeFlowRun desk flow allReports) := by
  unfold finalizeFlowRun
  split_ifs
  · exact plain_failRun desk flow _
  · exact plain_bind (plain_getFields flow) fun _ => plain_bind (plain_getTotals _) fun _ =>
      plain_bind (plain_recordEnd desk flow _ _ _ _) fun _ => plain_pure _

theorem plain_finish (progress : Progress) : Plain scope context (finish desk flow progress) := by
  cases progress with
  | ended report => exact plain_pure _
  | going allReports => exact plain_finalizeFlowRun desk flow allReports

/-- A pause stores what is left to do with the counters it goes on with. -/
theorem counts_pauseFlow (hsteps : flow.steps = scope.steps)
    (report : Report) (paused : PausedFlow) :
    Counts scope context Set.univ Set.univ (Going scope (continuationsLeaves paused.continuations))
      (pauseFlow desk flow context report paused) fun _ _ => True := by
  have hlocal : LocalTo Set.univ (Going scope (continuationsLeaves paused.continuations)) :=
    localTo_univ _
  refine shares_bind (plain_getFields flow _ _ _ hlocal) fun fields => ?_
  refine shares_bind (plain_getTotals _ _ _ _ hlocal) fun totals => ?_
  have hread : Counts scope context Set.univ Set.univ
      (Going scope (continuationsLeaves paused.continuations)) (getContext context) fun c _ =>
        Going scope (continuationsLeaves paused.continuations) c.loopIterations :=
    shares_look hlocal (fun _ => localTo_const _ _) (fun _ => flowTerms_step_of_records rfl)
      fun _ h => h
  refine shares_bind hread fun c w hgoing => ?_
  have hnone : LocalTo Set.univ fun _ : String → ℕ => True := localTo_const _ _
  dsimp only
  split
  · next e he =>
    split_ifs
    · refine (plain_bind (plain_recordEnd desk flow _ _ _ _) fun _ => plain_pure _) _ _ _ hnone w trivial
    · have hraise : scope.calm → e.kind ≠ .cancelled := uncancelled_buildFlowState flow _ _ _ _ e he
      exact plain_raise hraise _ _ _ hnone w trivial
  · next state hstate =>
    have hallowed : ∀ s₀ s, some (RunState.flow state) = some (.flow s₀) →
        (s = s₀ ∨ s₀.persisted = some s) → scope.Allows s := by
      rintro s₀ s heq hor
      obtain rfl : state = s₀ := RunState.flow.inj (Option.some.inj heq)
      have hleft := leftOver_buildFlowState hstate (hsteps ▸ hgoing.1) hgoing.2 hor
      exact .inr (hsteps ▸ hleft)
    refine (plain_bind (plain_deskEmit _ _ _ _ _) fun _ => plain_bind
      (plain_updateRun desk _ _ _ _ _ hallowed) fun _ => plain_pure _) _ _ _ hnone w trivial

/-! ### Running steps -/

/-- What is left to do in a run that goes on. -/
def Proceeds (scope : Scope) (leaves : List Continuation) (progress : Progress) (f : String → ℕ) : Prop :=
  match progress with
  | .ended _ => True
  | .going _ => Going scope leaves f

variable (run : FlowRun)

theorem counts_executeStepResults (hsteps : flow.steps = scope.steps)
    (stepIndex : ℕ) (remaining : List Continuation) : ∀ (results : List StepOutput)
    (allReports : List Held),
    Counts scope run.context Set.univ Set.univ
      (Going scope (outputsLeaves results ++ continuationsLeaves remaining))
      (executeStepResults desk flow run stepIndex remaining results allReports)
      (Proceeds scope (continuationsLeaves remaining))
  | [], allReports => shares_pure (localTo_univ _) fun _ h => h
  | output :: tail, allReports => by
    have hlocal : LocalTo Set.univ
        (Going scope (outputsLeaves (output :: tail) ++ continuationsLeaves remaining)) :=
      localTo_univ _
    unfold executeStepResults
    split
    · refine shares_bind (plain_failRun desk flow _ _ _ _ hlocal) fun report => ?_
      exact shares_pure (localTo_univ _) fun _ _ => trivial
    · refine shares_bind (B := fun _ _ => True) ?_ fun report => shares_pure (localTo_univ _) fun _ h => h
      refine (counts_pauseFlow desk flow hsteps _ _).pre fun f hf => hf.sublist ?_
      simp [outputsLeaves, resultLeaves_eq output]
    · refine shares_bind (plain_recordEnd desk flow _ _ _ _ _ _ _ hlocal) fun _ => ?_
      exact shares_pure (localTo_univ _) fun _ _ => trivial
    · have hadd : Plain scope run.context (modifyContext run.context (Context.addOutput output.held)) :=
        plain_modifyContext (addOutput_loopIterations _)
      refine shares_bind (hadd _ _ _ hlocal) fun _ => ?_
      refine (counts_executeStepResults hsteps stepIndex remaining tail _).pre fun f hf =>
        hf.sublist ?_
      rw [outputsLeaves, List.append_assoc]
      exact List.sublist_append_right _ _

/-- The steps of a flow from one of them on. -/
theorem counts_runSteps (hsteps : flow.steps = scope.steps) :
    ∀ (nodes : List Node) (i : ℕ) (allReports : List Held), InLine scope.steps nodes [] i →
    AllApart nodes →
    Counts scope run.context Set.univ Set.univ (fun _ => True)
      (runSteps desk askedRunners flow run nodes i allReports) fun _ _ => True
  | [], _, _, _, _ => shares_pure (localTo_univ _) fun _ h => h
  | node :: nodes, i, allReports, hline, hapart => by
    refine shares_bind (counts_execute desk flow node ([] ++ [.seq i]) hline.head hapart.1
      (fun n _ => Set.mem_univ n) (Set.subset_univ Set.univ)) fun results => ?_
    have hresults := counts_executeStepResults desk flow run hsteps i [] results allReports
    refine shares_bind (hresults.pre fun f hf => hf.going (going_nil f) ?_) fun progress => ?_
    · simp [keptNames, continuationsLeaves]
    · cases progress with
      | ended report => exact shares_pure (localTo_univ _) fun _ _ => trivial
      | going allReports =>
        exact (counts_runSteps hsteps nodes (i + 1) allReports hline.tail hapart.2).pre
          fun _ _ => trivial

theorem counts_runContinuations (hsteps : flow.steps = scope.steps)
    (stepIndex : ℕ) : ∀ (ks : List Continuation) (allReports : List Held),
    Counts scope run.context Set.univ Set.univ (Going scope (continuationsLeaves ks))
      (runContinuations desk askedRunners flow run stepIndex ks allReports) fun _ _ => True
  | [], _ => shares_pure (localTo_univ _) fun _ _ => trivial
  | k :: ks, allReports => by
    refine shares_bind (counts_runContinuation desk flow k (continuationsLeaves ks)) fun results => ?_
    refine shares_bind (counts_executeStepResults desk flow run hsteps stepIndex ks results
      allReports) fun progress => ?_
    cases progress with
    | ended report => exact shares_pure (localTo_univ _) fun _ _ => trivial
    | going allReports => exact counts_runContinuations hsteps stepIndex ks allReports

theorem inLine_drop (steps : List Node) (n : ℕ) : InLine steps (steps.drop n) [] n := by
  intro i node hnode
  rw [List.getElem?_drop] at hnode
  exact .top hnode

theorem allApart_drop {steps : List Node} (h : AllApart steps) (n : ℕ) : AllApart (steps.drop n) :=
  allApart_iff.mpr fun step hstep => allApart_iff.mp h step (List.mem_of_mem_drop hstep)

theorem counts_continueRun (hsteps : flow.steps = scope.steps)
    (hapart : AllApart flow.steps) (stepIndex : ℕ) (ks : List Continuation) (allReports : List Held) :
    Counts scope run.context Set.univ Set.univ (Going scope (continuationsLeaves ks))
      (continueRun desk askedRunners flow run stepIndex ks allReports) fun _ _ => True := by
  refine shares_bind (counts_runContinuations desk flow run hsteps stepIndex ks allReports)
    fun progress => ?_
  cases progress with
  | ended report => exact shares_pure (localTo_univ _) fun _ _ => trivial
  | going allReports =>
    exact counts_runSteps desk flow run hsteps _ _ _ (hsteps ▸ inLine_drop _ _)
      (allApart_drop hapart _)

theorem plain_resumeRunner (state : StepState) (decision : Value) (stream : Bool) (pos : Pos) :
    Plain scope context (resumeRunner desk askedRunners flow state decision stream pos) := by
  refine plain_bind (plain_flowRunConfig desk flow _) fun config => plain_bind (plain_get _) fun runner => ?_
  cases runner with
  | none => exact plain_bind plain_newRef fun _ => plain_pure _
  | some runner =>
    have hresume : Plain scope context (askedRunners.aresume runner config state decision pos) :=
      plain_ask_bind (fun _ ha => ⟨trivial, ha⟩) fun _ hr => plain_ofExcept hr
    refine plain_bind hresume fun outcome => ?_
    exact plain_bind (plain_recordMemory _ _) fun _ => plain_bind plain_newRef fun _ => plain_pure _

theorem counts_resumeRestored (hsteps : flow.steps = scope.steps)
    (hapart : AllApart flow.steps) (stepIndex : ℕ) (stepState : StepState) (stepPos : Pos)
    (restored : Restored) (decision : Value) :
    Counts scope run.context Set.univ Set.univ
      (Going scope (continuationsLeaves restored.continuations))
      (resumeRestored desk askedRunners flow run stepIndex stepState stepPos restored decision)
      fun _ _ => True := by
  refine shares_bind (plain_resumeRunner desk flow _ _ _ _ _ _ _ (localTo_univ _)) fun outcome => ?_
  have hresults := counts_executeStepResults desk flow run hsteps stepIndex restored.continuations
    [.result outcome.1 outcome.2 []] restored.allReports
  refine shares_bind (hresults.pre fun f hf => hf) fun progress => ?_
  cases progress with
  | ended report => exact shares_pure (localTo_univ _) fun _ _ => trivial
  | going allReports => exact counts_continueRun desk flow run hsteps hapart _ _ _

end

/-! ### Restoring -/

theorem onlyValueErrors_resolve (steps : List Node) (path : StepPath) :
    OnlyValueErrors (resolve steps path) := by
  intro e he
  unfold resolve at he
  split at he
  · cases he
  · obtain rfl := Except.error.inj he
    rfl

mutual

theorem onlyValueErrors_restore (steps : List Node) : ∀ (s : StoredContinuation) (ref : Ref),
    OnlyValueErrors (restore steps s ref)
  | .sequence paths pos first, ref => by
    exact onlyValueErrors_bind (onlyValueErrors_mapM fun _ _ => onlyValueErrors_resolve _ _) fun _ =>
      onlyValueErrors_ok _
  | .loop path startIndex loopName pos round, ref => by
    refine onlyValueErrors_bind (onlyValueErrors_resolve _ _) fun node => ?_
    refine onlyValueErrors_bind ?_ fun _ => onlyValueErrors_ok _
    intro e he
    unfold restoredLoop at he
    split at he
    · obtain rfl := Except.error.inj he
      rfl
    · split_ifs at he
      obtain rfl := Except.error.inj he
      rfl
  | .outputs outputs, ref => by
    exact onlyValueErrors_bind (onlyValueErrors_restoreOutputs steps outputs ref) fun _ =>
      onlyValueErrors_ok _

theorem onlyValueErrors_restoreOutputs (steps : List Node) :
    ∀ (stored : List (Pos × Report × Option StepState × List StoredContinuation)) (ref : Ref),
    OnlyValueErrors (restoreOutputs steps stored ref)
  | [], _ => onlyValueErrors_ok _
  | (pos, report, state, continuations) :: stored, ref => by
    refine onlyValueErrors_bind (onlyValueErrors_restoreAll steps continuations _) fun _ => ?_
    exact onlyValueErrors_bind (onlyValueErrors_restoreOutputs steps stored _) fun _ =>
      onlyValueErrors_ok _

theorem onlyValueErrors_restoreAll (steps : List Node) :
    ∀ (stored : List StoredContinuation) (ref : Ref), OnlyValueErrors (restoreAll steps stored ref)
  | [], _ => onlyValueErrors_ok _
  | s :: stored, ref => by
    refine onlyValueErrors_bind (onlyValueErrors_restore steps s ref) fun _ => ?_
    exact onlyValueErrors_bind (onlyValueErrors_restoreAll steps stored _) fun _ => onlyValueErrors_ok _

end

/-- A stored state that `steps` can go on from. -/
def Continues (scope : Scope) (state : FlowState) : Prop :=
  ∀ ref r, restoreAll scope.steps (state.continuations.getD []) ref = .ok r →
    Going scope (continuationsLeaves r.1) (storedCounters state)

theorem Resumable.continues (hkeyed : AllKeyed scope.steps) {state : FlowState}
    (h : Resumable scope.steps state) : Continues scope state := by
  obtain ⟨_, leaves, hstored, hready, hown⟩ := h
  intro ref r hr
  rw [leaves_restoreAll hkeyed hstored hr hready.fits]
  refine ⟨hready.renewed hown, fun k hk => ?_⟩
  obtain ⟨k', _, rfl⟩ := List.mem_map.mp hk
  exact .inl (renewed_own k')

theorem restoreFlow_going {flow : Flow} {state : FlowState} {ref : Ref} {r : Restored × Ref}
    (hsteps : flow.steps = scope.steps) (h : Continues scope state) (hr : restoreFlow flow state ref = .ok r) :
    Going scope (continuationsLeaves r.1.continuations) r.1.context.loopIterations := by
  obtain ⟨restored, hrestored, hr⟩ := ok_of_bind hr
  obtain rfl := Except.ok.inj hr
  have hcounters : (restoreContext state.job (restoreReports ref state.outputs)
      state.context).loopIterations = storedCounters state := by
    unfold storedCounters
    cases state.context <;> rfl
  dsimp only
  rw [hcounters]
  exact h _ _ (hsteps ▸ hrestored)

/-! ### Calls of a flow -/

theorem flowTerms_trans (u v w : World) (h : (flowTerms scope).step u v)
    (h' : (flowTerms scope).step v w) : (flowTerms scope).step u w :=
  fun hall => h' (h hall)

/-- A program keeps to the terms from `w` on and returns what `Q` says. -/
def Stays {α : Type} (scope : Scope) (w : World) (c : Prog α) (Q : α → World → Prop) : Prop :=
  After (Calm scope) c w fun t r w' => (flowTerms scope).Keeps w t r w' ∧ ∀ a, r = .ok a → Q a w'

section

variable {α β : Type} {w : World}

theorem stays_bind {c : Prog α} {g : α → Prog β} {C : α → World → Prop} {Q : β → World → Prop}
    (hc : Stays scope w c C)
    (hg : ∀ a w', (flowTerms scope).step w w' → C a w' → Stays scope w' (g a) Q) :
    Stays scope w (c >>= g) Q :=
  after_keeps_bind (T := flowTerms scope) flowTerms_trans hc hg

theorem Plain.stays {c : Prog α} (h : Plain scope 0 c) : Stays scope w c fun _ _ => True := by
  have hc := h Set.univ Set.univ (fun _ => True) (localTo_const _ _)
  exact hc.after (fun _ h => h) flowTerms_trans trivial

theorem stays_counts {A : (String → ℕ) → Prop} {B : α → (String → ℕ) → Prop} {c : Prog α}
    (h : Counts scope context Set.univ Set.univ A c B) (hw : A (counters context w)) :
    Stays scope w c fun _ _ => True :=
  (h.after (fun _ h => h) flowTerms_trans hw).mono fun _ _ _ hr => ⟨hr.1, fun _ _ => trivial⟩

/-- A plain program and what follows it. -/
theorem stays_plain_bind {c : Prog α} {g : α → Prog β} {Q : β → World → Prop} (hc : Plain scope 0 c)
    (hg : ∀ a w', (flowTerms scope).step w w' → Stays scope w' (g a) Q) : Stays scope w (c >>= g) Q :=
  stays_bind hc.stays fun a w' hstep _ => hg a w' hstep

theorem stays_newContext (c : Context) :
    Stays scope w (newContext c) fun ref w' => counters ref w' = c.loopIterations := by
  refine after_exchange ⟨⟨by simp, flowTerms_step_of_records rfl, nofun⟩, ?_⟩
  rintro _ ⟨⟩
  unfold counters
  dsimp only
  rw [Function.update_self]

end

theorem plain_ask {q : Query} (h : ∀ a, Calm scope q a → Placed scope.steps ⟨q, a⟩) :
    Plain scope context (Prog.ask q) := fun _ _ _ hA =>
  shares_query (fun _ => hA) fun a ha => ⟨h a ha, fun _ hf => hf⟩

theorem plain_deskOpen : Plain scope context deskOpen := by
  refine plain_bind (plain_get _) fun closed => ?_
  split_ifs
  · exact plain_raise fun _ => by decide
  · exact plain_pure ()

theorem plain_newEventList (events : List Event) : Plain scope context (newEventList events) :=
  plain_exchange (fun _ => rfl) fun _ => rfl

theorem plain_newTotals (totals : UsageTotals) : Plain scope context (newTotals totals) :=
  plain_exchange (fun _ => rfl) fun _ => rfl

theorem plain_registerFlowRun (runId : RunId) (flow : Flow) :
    Plain scope context (registerFlowRun runId flow) :=
  plain_modify (fun _ => rfl) fun _ => rfl

theorem plain_getEvents (runId : RunId) : Plain scope context (getEvents runId) :=
  plain_bind (plain_store _) fun _ => plain_bind (plain_get _) fun _ => plain_newEventList _

theorem plain_createRun (desk : DeskSettings) (runId : RunId) (job : Job) :
    Plain scope context (createRun desk runId job) := by
  refine plain_bind (plain_ofExcept (uncancelled_orSerializationError _)) fun _ => ?_
  refine plain_bind (plain_get _) fun known => ?_
  by_cases hknown : known = true
  · rw [if_pos hknown]
    exact plain_raise fun _ => by simp [valueError]
  rw [if_neg hknown]
  refine plain_bind (plain_store _) fun _ => fun P N A hA => ?_
  refine shares_update hA hA ?_ (fun _ => Set.eqOn_refl _ _) fun _ h => h
  intro w hall runId' record s hrecord hs
  dsimp only at hrecord
  by_cases heq : runId' = runId
  · subst heq
    obtain rfl : { status := .running } = record := by simpa using hrecord
    cases hs
  · rw [Function.update_of_ne heq] at hrecord
    exact hall runId' record s hrecord hs

section

variable (desk : DeskSettings) (flow : Flow)

theorem stays_beginRun {w : World} (job : Job) :
    Stays scope w (beginRun desk flow job) fun _ _ => True := by
  refine stays_plain_bind plain_deskOpen fun _ _ _ => ?_
  refine stays_plain_bind (plain_ask fun _ _ => trivial) fun runId _ _ => ?_
  refine stays_plain_bind (plain_newEventList _) fun events _ _ => ?_
  refine stays_plain_bind (plain_newTotals _) fun totals _ _ => ?_
  refine stays_plain_bind (plain_modifyFields flow _) fun _ _ _ => ?_
  refine stays_plain_bind (plain_createRun desk _ _) fun _ _ _ => ?_
  refine stays_plain_bind (plain_registerFlowRun _ _) fun _ _ _ => ?_
  refine stays_plain_bind (plain_deskEmit _ _ _ _ _) fun _ _ _ => ?_
  exact stays_bind (stays_newContext _) fun _ _ _ _ => (plain_pure _).stays

theorem stays_run (hsteps : flow.steps = scope.steps)
    (hapart : AllApart flow.steps) {w : World} (job : Job) :
    Stays scope w (run desk askedRunners flow job) fun _ _ => True := by
  refine stays_bind (C := fun _ _ => True) ?_ fun progress _ _ _ => (plain_finish desk flow progress).stays
  refine stays_bind (stays_beginRun desk flow job) fun run w' _ _ => ?_
  have hline : InLine scope.steps flow.steps [] 0 := hsteps ▸ inLine_drop flow.steps 0
  exact stays_counts (counts_runSteps desk flow run hsteps flow.steps 0 [] hline hapart) trivial

theorem plain_resumeFailure (state : FlowState) (error : String) :
    Plain scope context (resumeFailure desk flow state error) :=
  plain_bind (plain_recordEnd desk flow _ _ _ _) fun _ => plain_pure _

theorem stays_restoreParts {w : World} {state : FlowState} (hsteps : flow.steps = scope.steps)
    (hstate : Continues scope state) :
    Stays scope w (restoreParts flow state) fun r _ =>
      Uncancelled scope r ∧ ∀ restored, r = .ok restored →
        Going scope (continuationsLeaves restored.continuations) restored.context.loopIterations := by
  have huncancelled : Uncancelled scope (restoreFlow flow state w.nextRef) :=
    uncancelled_bind (onlyValueErrors_restoreAll _ _ _).uncancelled fun _ => uncancelled_ok _
  refine after_exchange ⟨⟨by simp, ?_, by simp⟩, fun r hr => ?_⟩
  · cases restoreFlow flow state w.nextRef <;> exact flowTerms_step_of_records rfl
  · obtain rfl := Except.ok.inj hr
    have hgoing : ∀ restored, restoreFlow flow state w.nextRef = .ok restored →
        Going scope (continuationsLeaves restored.1.continuations) restored.1.context.loopIterations :=
      fun restored h => restoreFlow_going hsteps hstate h
    generalize restoreFlow flow state w.nextRef = restored at huncancelled hgoing
    cases restored with
    | error e =>
      refine ⟨fun e' he' => huncancelled e' ?_, by simp [Except.map]⟩
      obtain rfl : e = e' := Except.error.inj he'
      rfl
    | ok restored =>
      refine ⟨uncancelled_ok _, fun r h => ?_⟩
      obtain rfl : restored.1 = r := Except.ok.inj h
      exact hgoing restored rfl

theorem stays_collectResume (hsteps : flow.steps = scope.steps)
    (hapart : AllApart flow.steps) {w : World} {state : FlowState} (hstate : Continues scope state)
    (decision : Value) (stream : Option Bool) :
    Stays scope w (collectResume desk askedRunners flow state decision stream) fun _ _ => True := by
  refine stays_plain_bind (plain_modifyFields flow _) fun _ _ _ => ?_
  refine stays_plain_bind (plain_getEvents _) fun events _ _ => ?_
  refine stays_plain_bind (plain_modifyFields flow _) fun _ _ _ => ?_
  split
  · exact stays_plain_bind (plain_resumeFailure desk flow _ _) fun _ _ _ => (plain_pure _).stays
  · refine stays_bind (stays_restoreParts flow hsteps hstate) ?_
    rintro (e | restored) w' _ ⟨huncancelled, hgoing⟩
    · dsimp only
      split_ifs
      · exact stays_plain_bind (plain_resumeFailure desk flow _ _) fun _ _ _ => (plain_pure _).stays
      · exact (plain_raise (huncancelled e rfl)).stays
    · refine stays_plain_bind (plain_newTotals _) fun totals _ _ => ?_
      refine stays_plain_bind (plain_modifyFields flow _) fun _ _ _ => ?_
      refine stays_plain_bind (plain_registerFlowRun _ _) fun _ _ _ => ?_
      refine stays_plain_bind (plain_deskEmit _ _ _ _ _) fun _ _ _ => ?_
      refine stays_plain_bind (plain_modifyFields flow _) fun _ _ _ => ?_
      refine stays_bind (stays_newContext restored.context) fun context w'' _ hcontext => ?_
      refine stays_counts (counts_resumeRestored desk flow _ hsteps hapart _ _ _ restored decision) ?_
      rw [hcontext]
      exact hgoing restored rfl

theorem stays_deskOpen (w : World) : Stays scope w deskOpen fun _ w' => w' = w := by
  apply after_bind
  apply after_look
  show After (S := sig) _ (if w.closed then _ else _) w _
  split_ifs
  · refine after_raise ⟨⟨by simp, fun h => h, ?_⟩, nofun⟩
    rintro _ ⟨⟩ -
    decide
  · exact after_pure ⟨⟨by simp, fun h => h, nofun⟩, fun _ _ => rfl⟩

theorem stays_store (op : StoreOp) (w : World) : Stays scope w (Prog.store op) fun _ w' => w' = w :=
  after_bind (after_query fun _ ha => after_ofExcept
    ⟨⟨List.forall_mem_singleton.mpr trivial, fun h => h, fun e he hcalm => ha e he hcalm⟩,
      fun _ _ => rfl⟩)

theorem stays_aresume (hsteps : flow.steps = scope.steps)
    (hapart : AllApart flow.steps) {w : World} (report : Report) (decision : Value) (stream : Option Bool)
    (hstates : ∀ record state, w.records report.runId = some record →
      record.state = some (.flow state) → Continues scope state) :
    Stays scope w (aresume desk askedRunners flow report decision stream) fun _ _ => True := by
  refine stays_bind (C := fun _ _ => True) ?_ fun progress _ _ _ => (plain_finish desk flow progress).stays
  refine stays_bind (stays_deskOpen w) fun _ w₁ _ hw₁ => ?_
  subst hw₁
  refine stays_bind (C := fun record w' => record = w'.records report.runId ∧ w' = w₁) ?_
    fun record w₂ _ hrecord => ?_
  · refine stays_bind (stays_store _ w₁) fun _ w₂ _ hw₂ => ?_
    subst hw₂
    refine after_look ⟨⟨by simp, fun h => h, nofun⟩, ?_⟩
    rintro _ ⟨⟩
    exact ⟨rfl, rfl⟩
  · obtain ⟨rfl, rfl⟩ := hrecord
    cases hstate : (w₂.records report.runId).bind RunRecord.state with
    | none => exact (plain_pure _).stays
    | some state =>
      cases state with
      | flow state =>
        obtain ⟨record', hrecord', hstate⟩ := Option.bind_eq_some_iff.mp hstate
        have hcontinues := hstates record' state hrecord' hstate
        exact stays_collectResume desk flow hsteps hapart hcontinues decision stream
      | worker state => exact (plain_pure _).stays
      | workforce state => exact (plain_pure _).stays

end

/-! ### All runs of a flow object -/

/-- Every loop may go on for more rounds than its bound. -/
def Bounded (steps : List Node) : ∀ q, Answer q → Prop
  | .rounds, n => ∀ loop pos, At steps (loopNode loop) pos → loop.maxIterations < n
  | _, _ => True

/-- The exception that comes with an answer. -/
def raisedBy : Event sig → Option Exn
  | ⟨.complete .., .error e⟩ => some e
  | ⟨.structured .., .error e⟩ => some e
  | ⟨.validateJson .., .error e⟩ => some e
  | ⟨.runTool .., .error e⟩ => some e
  | ⟨.store _, .error e⟩ => some e
  | ⟨.readMemory _, .error e⟩ => some e
  | ⟨.reduce .., .error e⟩ => some e
  | ⟨.predicate .., .error e⟩ => some e
  | ⟨.selector .., .error e⟩ => some e
  | ⟨.stop .., .error e⟩ => some e
  | ⟨.jobBuilder .., .error e⟩ => some e
  | ⟨.runner _, .error e⟩ => some e
  | _ => none

theorem calm_of_bounded {scope : Scope} {q : Query} {answer : Answer q}
    (h : Bounded scope.steps q answer)
    (hcalm : scope.calm → ∀ e, raisedBy ⟨q, answer⟩ = some e → e.kind ≠ .cancelled) :
    Calm scope q answer := by
  cases q
  case rounds => exact h
  all_goals first
    | exact trivial
    | (rintro e rfl hscope
       exact hcalm hscope e rfl)

theorem runs_of_events {S : Sig} {α : Type} {ok ok' : ∀ q, S.Answer q → Prop} {c : Coro S α}
    {w w' : S.World} {t : Trace S} {r : Except S.Exn α} (hr : Runs ok c w t r w')
    (h : ∀ e ∈ t, ok e.1 e.2 → ok' e.1 e.2) : Runs ok' c w t r w' := by
  induction hr with
  | ret r w => exact .ret r w
  | act _ ih => exact .act (ih h)
  | ask ha _ ih =>
    exact .ask (h _ (List.mem_cons_self) ha) (ih fun e he => h e (List.mem_cons_of_mem _ he))
  | pick _ ih => exact .pick (ih h)

/-- A call of a flow object. -/
inductive FlowCall where
  | run (job : Job)
  | resume (report : Report) (decision : Value) (stream : Option Bool)

section

variable (desk : DeskSettings) (flow : Flow)

def FlowCall.prog : FlowCall → Prog Report
  | .run job => Workflow.run desk askedRunners flow job
  | .resume report decision stream => aresume desk askedRunners flow report decision stream

/-- The worlds that calls of a flow lead to, one after the other, with whatever else
happens between them that stores no state of a flow: the store is this flow's, and pauses of
other flows are left out. -/
inductive FlowCalls (w : World) : World → Prop
  | start : FlowCalls w w
  | call {w' w'' call t r} : FlowCalls w w' →
    Runs (Bounded flow.steps) (FlowCall.prog desk flow call) w' t r w'' → FlowCalls w w''
  | other {w' w''} : FlowCalls w w' →
    (∀ runId record state, w''.records runId = some record → record.state = some (.flow state) →
      ∃ record', w'.records runId = some record' ∧ record'.state = some (.flow state)) →
    FlowCalls w w''

variable {desk flow}

theorem stays_flowCall (hsteps : flow.steps = scope.steps) (hapart : AllApart flow.steps) {w : World}
    (call : FlowCall)
    (hstates : ∀ report decision stream, call = .resume report decision stream →
      ∀ record state, w.records report.runId = some record → record.state = some (.flow state) →
        Continues scope state) :
    Stays scope w (call.prog desk flow) fun _ _ => True := by
  cases call with
  | run job => exact stays_run desk flow hsteps hapart job
  | resume report decision stream =>
    exact stays_aresume desk flow hsteps hapart report decision stream
      (hstates report decision stream rfl)

theorem flowCall_keeps (hsteps : flow.steps = scope.steps) (hapart : AllApart flow.steps) {w w' : World}
    {call : FlowCall}
    (hstates : ∀ report decision stream, call = .resume report decision stream →
      ∀ record state, w.records report.runId = some record → record.state = some (.flow state) →
        Continues scope state) {t : Trace sig} {r : Except Exn Report}
    (hr : Runs (Bounded flow.steps) (call.prog desk flow) w t r w')
    (hcalm : scope.calm → ∀ e ∈ t, ∀ x, raisedBy e = some x → x.kind ≠ .cancelled) :
    (flowTerms scope).Keeps w t r w' := by
  have hcalmRun : Runs (Calm scope) (call.prog desk flow) w t r w' :=
    runs_of_events hr fun e he hbounded => calm_of_bounded (hsteps ▸ hbounded) fun h => hcalm h e he
  exact (stays_flowCall hsteps hapart call hstates t r w' hcalmRun).1

/-- The calls of one flow object, none of whose loops changes its name. -/
def sameFlow (flow : Flow) (calm : Prop) : Scope :=
  ⟨flow.steps, calm, fun _ => False, Resumable flow.steps⟩

theorem sameFlow_allows {calm : Prop} {state : FlowState} :
    (sameFlow flow calm).Allows state ↔ Resumable flow.steps state :=
  ⟨fun h => h.elim id fun h => h.resumable fun _ => False.elim, .inl⟩

theorem sameFlow_keeps (hkeyed : AllKeyed flow.steps) (hapart : AllApart flow.steps) {w w' : World}
    (hall : AllStored (Resumable flow.steps) w) {call : FlowCall} {t : Trace sig} {r : Except Exn Report}
    (hr : Runs (Bounded flow.steps) (call.prog desk flow) w t r w') {calm : Prop}
    (hcalm : calm → ∀ e ∈ t, ∀ x, raisedBy e = some x → x.kind ≠ .cancelled) :
    (flowTerms (sameFlow flow calm)).Keeps w t r w' := by
  have hsteps : flow.steps = (sameFlow flow calm).steps := rfl
  refine flowCall_keeps hsteps hapart ?_ hr hcalm
  intro report decision stream _ record state hrecord hstate
  exact Resumable.continues hkeyed (hall report.runId record state hrecord hstate)

theorem FlowCalls.allResumable (hkeyed : AllKeyed flow.steps) (hapart : AllApart flow.steps)
    {w w' : World} (hall : AllStored (Resumable flow.steps) w) (h : FlowCalls desk flow w w') :
    AllStored (Resumable flow.steps) w' := by
  induction h with
  | start => exact hall
  | call _ hr ih =>
    intro runId record state hrecord hstate
    have hstep := (sameFlow_keeps hkeyed hapart ih hr False.elim).step
    exact sameFlow_allows.mp (hstep (fun runId record state hrecord hstate =>
      sameFlow_allows.mpr (ih runId record state hrecord hstate)) runId record state hrecord hstate)
  | other _ hother ih =>
    intro runId record state hrecord hstate
    obtain ⟨record', hrecord', hstate'⟩ := hother runId record state hrecord hstate
    exact ih runId record' state hrecord' hstate'

/-- Where no loop inside a loop or in another branch of a parallel group has its name, the
rounds of every loop stay within its bound in all runs and resumes of a flow object, and no
loop keeps a call from its end. -/
theorem flowCalls_placed (hkeyed : AllKeyed flow.steps) (hapart : AllApart flow.steps) {w w' w'' : World}
    (hfresh : ∀ runId record state, w.records runId = some record → record.state ≠ some (.flow state))
    (h : FlowCalls desk flow w w') {call : FlowCall} {t : Trace sig} {r : Except Exn Report}
    (hr : Runs (Bounded flow.steps) (call.prog desk flow) w' t r w'') :
    (∀ e ∈ t, Placed flow.steps e) ∧
      ((∀ e ∈ t, ∀ x, raisedBy e = some x → x.kind ≠ .cancelled) →
        ∀ x, r = .error x → x.kind ≠ .cancelled) := by
  have hall : AllStored (Resumable flow.steps) w' := h.allResumable hkeyed hapart
    fun runId record state hrecord hstate => absurd hstate (hfresh runId record state hrecord)
  refine ⟨(sameFlow_keeps hkeyed hapart hall hr False.elim).event, fun huncancelled x hx => ?_⟩
  have hcalm : True → ∀ e ∈ t, ∀ x, raisedBy e = some x → x.kind ≠ .cancelled := fun _ => huncancelled
  exact (sameFlow_keeps hkeyed hapart hall hr hcalm).raises x hx trivial

end

/-! ### Nested loops -/

/-- A loop inside another one. -/
def nestedFlow (inner outer : String) : Flow where
  id := 1
  name := "flow"
  steps :=
    [.loop 1 "loop" outer true 2 1
      [.loop 2 "loop" inner true 1 1 [.step 3 (.worker plainWorker) "step" none]]]

/-- Callbacks never stop a loop, and an activation may go on for four rounds. -/
def restlessAnswers (n : ℕ) : ∀ q, Answer q
  | .stop _ _ context => .ok (false, context.artifacts)
  | .rounds => 4
  | q => plainAnswers plainModel n q

def stopPositions (t : Trace sig) : List Pos :=
  t.filterMap fun e => match e with
    | ⟨.stop _ pos _, _⟩ => some pos
    | _ => none

theorem nestedFlow_bound {inner outer : String} {loop : Loop} {pos : Pos}
    (h : At (nestedFlow inner outer).steps (loopNode loop) pos) : loop.maxIterations ≤ 2 := by
  obtain ⟨path, hmem⟩ := h.exists_path
  have hnode : loop.maxIterations = 2 ∨ loop.maxIterations = 1 := by
    simp only [nestedFlow, entries, childEntries, loopNode, List.mem_cons, List.mem_append,
      Prod.mk.injEq, Node.loop.injEq, reduceCtorEq, List.not_mem_nil] at hmem
    rcases hmem with ⟨_, hloop⟩ | (⟨_, hloop⟩ | h) | h
    · exact .inl hloop.2.2.2.2.1
    · exact .inr hloop.2.2.2.2.1
    all_goals simp at h
  omega

theorem restless_bounded (inner outer : String) (n : ℕ) (q : Query) :
    Bounded (nestedFlow inner outer).steps q (restlessAnswers n q) := by
  cases q
  case rounds =>
    intro loop pos h
    have := nestedFlow_bound h
    show loop.maxIterations < 4
    omega
  all_goals exact trivial

theorem mem_stopPositions {t : Trace sig} {pos : Pos} (h : pos ∈ stopPositions t) :
    ∃ fn context answer, (⟨.stop fn pos context, answer⟩ : Event sig) ∈ t := by
  obtain ⟨⟨q, answer⟩, hmem, hpos⟩ := List.mem_filterMap.mp h
  cases q
  case stop fn pos' context =>
    obtain rfl : pos' = pos := Option.some.inj hpos
    exact ⟨fn, context, answer, hmem⟩
  all_goals cases hpos

/-- Loops of different names stay within their bounds. -/
theorem flowCalls_placed_nested :
    List.Forall (Placed (nestedFlow "inner" "outer").steps)
      (runIn restlessAnswers (run plainDesk askedRunners (nestedFlow "inner" "outer") plainJob) {}).1 :=
  List.forall_iff_forall_mem.mpr (flowCalls_placed (by simp [nestedFlow, AllKeyed, Keyed])
    (by simp [nestedFlow, AllApart, Apart, allLoopNames, loopNames]) (by simp) .start
    (runIn_runs (restless_bounded "inner" "outer")
      (FlowCall.prog plainDesk (nestedFlow "inner" "outer") (.run plainJob)) {})).1

/-- A loop inside a loop of its name starts that one's count anew, and the outer loop goes
on behind its bound. -/
theorem not_placed_nested : ∃ t r w', Runs (Bounded (nestedFlow "loop" "loop").steps)
    (run plainDesk askedRunners (nestedFlow "loop" "loop") plainJob) {} t r w' ∧
    ¬ ∀ e ∈ t, Placed (nestedFlow "loop" "loop").steps e := by
  refine ⟨_, _, _, runIn_runs (restless_bounded "loop" "loop") _ _, fun h => ?_⟩
  have hthird : [.seq 0, .iter 3] ∈ stopPositions (runIn restlessAnswers
      (run plainDesk askedRunners (nestedFlow "loop" "loop") plainJob) {}).1 := by decide
  obtain ⟨fn, context, answer, hmem⟩ := mem_stopPositions hthird
  obtain ⟨loop, pos, round, hat, _, hpos, _, hround, _⟩ := h _ hmem
  have hbound := nestedFlow_bound hat
  have hlast := congrArg List.getLast? hpos
  rw [List.getLast?_append] at hlast
  obtain rfl : 3 = round := Coord.iter.inj (Option.some.inj hlast)
  omega

end Blackgeorge.Workflow
