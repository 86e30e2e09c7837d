import Blackgeorge.Desk.Runners
import Blackgeorge.Workflow.Nodes

/-! What the execution of a node leaves: every paused result waits for its report's action,
and the results hold the credits of the actions that their steps wait for, deferred ones
included. -/

namespace Blackgeorge.Workflow

open Data Program Coroutine Coro WorkerRunner WorkforceRun Desk

/-! ### Results -/

mutual

/-- The credits of the states in a result and in its continuations. -/
def resultCredits (a : String) : StepOutput → ℕ
  | .bare _ => 0
  | .result _ state continuations => state.elim 0 (stepCredits a) + continuationsCredits a continuations

def continuationCredits (a : String) : Continuation → ℕ
  | .outputs outputs => outputsCredits a outputs
  | .sequence .. => 0
  | .loop .. => 0

def outputsCredits (a : String) : List StepOutput → ℕ
  | [] => 0
  | output :: outputs => resultCredits a output + outputsCredits a outputs

def continuationsCredits (a : String) : List Continuation → ℕ
  | [] => 0
  | continuation :: continuations =>
    continuationCredits a continuation + continuationsCredits a continuations

end

mutual

/-- Every state in a result and in its continuations comes with its paused report. -/
def ResultOk : StepOutput → Prop
  | .bare _ => True
  | .result held state continuations =>
    (∀ s, state = some s → Carries held.report (stepAction s)) ∧ ContinuationsOk continuations

def ContinuationOk : Continuation → Prop
  | .outputs outputs => OutputsOk outputs
  | .sequence .. => True
  | .loop .. => True

def OutputsOk : List StepOutput → Prop
  | [] => True
  | output :: outputs => ResultOk output ∧ OutputsOk outputs

def ContinuationsOk : List Continuation → Prop
  | [] => True
  | continuation :: continuations => ContinuationOk continuation ∧ ContinuationsOk continuations

end

variable {a : String}

theorem resultCredits_eq (o : StepOutput) :
    resultCredits a o = o.state.elim 0 (stepCredits a) + continuationsCredits a o.continuations := by
  cases o <;> rfl

theorem resultOk_iff (o : StepOutput) :
    ResultOk o ↔
      (∀ s, o.state = some s → Carries o.report (stepAction s)) ∧ ContinuationsOk o.continuations := by
  cases o with
  | bare => simp [ResultOk, StepOutput.state, StepOutput.continuations, ContinuationsOk]
  | result => exact Iff.rfl

@[simp] theorem outputsCredits_normalized (outputs : List StepOutput) :
    outputsCredits a (outputs.map StepOutput.normalized) = outputsCredits a outputs := by
  induction outputs with
  | nil => rfl
  | cons o outputs ih =>
    rw [List.map_cons, outputsCredits, outputsCredits, ih, resultCredits_eq o]
    rfl

@[simp] theorem outputsOk_normalized (outputs : List StepOutput) :
    OutputsOk (outputs.map StepOutput.normalized) ↔ OutputsOk outputs := by
  induction outputs with
  | nil => exact Iff.rfl
  | cons o outputs ih =>
    rw [List.map_cons, OutputsOk, OutputsOk, ih, resultOk_iff o]
    exact Iff.rfl

@[simp] theorem outputsCredits_append (l l' : List StepOutput) :
    outputsCredits a (l ++ l') = outputsCredits a l + outputsCredits a l' := by
  induction l with
  | nil => simp [outputsCredits]
  | cons o l ih => simp [outputsCredits, ih, Nat.add_assoc]

@[simp] theorem continuationsCredits_append (l l' : List Continuation) :
    continuationsCredits a (l ++ l') = continuationsCredits a l + continuationsCredits a l' := by
  induction l with
  | nil => simp [continuationsCredits]
  | cons o l ih => simp [continuationsCredits, ih, Nat.add_assoc]

@[simp] theorem outputsOk_append (l l' : List StepOutput) :
    OutputsOk (l ++ l') ↔ OutputsOk l ∧ OutputsOk l' := by
  induction l with
  | nil => simp [OutputsOk]
  | cons o l ih => simp [OutputsOk, ih, and_assoc]

@[simp] theorem continuationsOk_append (l l' : List Continuation) :
    ContinuationsOk (l ++ l') ↔ ContinuationsOk l ∧ ContinuationsOk l' := by
  induction l with
  | nil => simp [ContinuationsOk]
  | cons o l ih => simp [ContinuationsOk, ih, and_assoc]

theorem outputsCredits_flatten (groups : List (List StepOutput)) :
    outputsCredits a groups.flatten = (groups.map (outputsCredits a)).sum := by
  induction groups with
  | nil => rfl
  | cons group groups ih => simp [ih]

theorem outputsOk_flatten (groups : List (List StepOutput)) :
    OutputsOk groups.flatten ↔ ∀ group ∈ groups, OutputsOk group := by
  induction groups with
  | nil => simp [OutputsOk]
  | cons group groups ih => simp [ih]

theorem outputsCredits_filter_le (p : StepOutput → Bool) (l : List StepOutput) :
    outputsCredits a (l.filter p) ≤ outputsCredits a l := by
  induction l with
  | nil => simp
  | cons o l ih =>
    rw [List.filter_cons]
    split_ifs <;> simp only [outputsCredits] <;> omega

theorem outputsOk_filter {p : StepOutput → Bool} {l : List StepOutput} (h : OutputsOk l) :
    OutputsOk (l.filter p) := by
  induction l with
  | nil => exact h
  | cons o l ih =>
    rw [List.filter_cons]
    split_ifs
    · exact ⟨h.1, ih h.2⟩
    · exact ih h.2

@[simp] theorem continuationsCredits_parked (tail : List StepOutput) :
    continuationsCredits a (parked tail) = outputsCredits a tail := by
  cases tail <;> simp [parked, continuationsCredits, continuationCredits, outputsCredits]

@[simp] theorem continuationsOk_parked (tail : List StepOutput) :
    ContinuationsOk (parked tail) ↔ OutputsOk tail := by
  cases tail <;> simp [parked, ContinuationsOk, ContinuationOk, OutputsOk]

theorem resultCredits_defer (o : StepOutput) (continuations : List Continuation) :
    resultCredits a (.result o.held o.state (o.continuations ++ continuations)) =
      resultCredits a o + continuationsCredits a continuations := by
  rw [resultCredits_eq o, resultCredits, continuationsCredits_append, Nat.add_assoc]

theorem resultOk_defer (o : StepOutput) (continuations : List Continuation) :
    ResultOk (.result o.held o.state (o.continuations ++ continuations)) ↔
      ResultOk o ∧ ContinuationsOk continuations := by
  rw [resultOk_iff o, ResultOk, continuationsOk_append, and_assoc]
  exact Iff.rfl

theorem deferPaused_spec (continuations : List Continuation) (outputs : List StepOutput) :
    outputsCredits a (deferPaused continuations outputs) ≤
        outputsCredits a outputs + continuationsCredits a continuations ∧
      (OutputsOk outputs → ContinuationsOk continuations →
        OutputsOk (deferPaused continuations outputs)) := by
  induction outputs with
  | nil => exact ⟨by simp [deferPaused, outputsCredits], fun h _ => h⟩
  | cons o tail ih =>
    unfold deferPaused
    split_ifs
    · have hcredits := resultCredits_defer (a := a) o (parked tail ++ continuations)
      have hok := resultOk_defer o (parked tail ++ continuations)
      refine ⟨?_, ?_⟩
      · simp only [outputsCredits, hcredits, continuationsCredits_append,
          continuationsCredits_parked]
        omega
      · intro houtputs hcontinuations
        have hdeferred : ContinuationsOk (parked tail ++ continuations) := by
          simpa using ⟨houtputs.2, hcontinuations⟩
        exact ⟨hok.mpr ⟨houtputs.1, hdeferred⟩, trivial⟩
    · refine ⟨?_, fun houtputs hcontinuations => ⟨houtputs.1, ih.2 houtputs.2 hcontinuations⟩⟩
      have := ih.1
      simp only [outputsCredits]
      omega

/-- Deferring loses credits only where a failure drops the other outputs. -/
theorem deferAfterPause_spec (outputs : List StepOutput) (continuations : List Continuation) :
    outputsCredits a (deferAfterPause outputs continuations) ≤
        outputsCredits a outputs + continuationsCredits a continuations ∧
      (OutputsOk outputs → ContinuationsOk continuations →
        OutputsOk (deferAfterPause outputs continuations)) := by
  unfold deferAfterPause
  dsimp only
  split_ifs
  · exact deferPaused_spec continuations outputs
  · have := outputsCredits_filter_le (a := a) (fun o => o.status = .failed) outputs
    exact ⟨by omega, fun houtputs _ => outputsOk_filter houtputs⟩

theorem stopOutputs_spec (outputs stepOutputs : List StepOutput) {continuations : List Continuation}
    (hzero : continuationsCredits a continuations = 0) (hok : ContinuationsOk continuations) :
    outputsCredits a (stopOutputs outputs stepOutputs continuations) ≤ outputsCredits a outputs ∧
      (OutputsOk outputs → OutputsOk (stopOutputs outputs stepOutputs continuations)) := by
  unfold stopOutputs
  split_ifs
  · have hspec := deferAfterPause_spec (a := a) outputs continuations
    exact ⟨by omega, fun houtputs => hspec.2 houtputs hok⟩
  · exact ⟨le_rfl, id⟩

/-! ### Steps -/

section

variable (context : Ref)

theorem quiet_getContext : Each (quietLaw Undecided) (getContext context) fun _ => True :=
  each_look Quiet.refl fun _ => trivial

theorem quiet_modifyContext (f : Context → Context) :
    Each (quietLaw Undecided) (modifyContext context f) fun _ => True :=
  each_update (fun _ => ⟨rfl, rfl, rfl, rfl, rfl, rfl⟩) trivial

theorem quiet_ask {q : Query} (h : ∀ answer, Undecided ⟨q, answer⟩) :
    Each (quietLaw Undecided) (Prog.ask q) fun _ => True :=
  each_query fun answer _ => ⟨h answer, trivial⟩

theorem quiet_applyCallback {α : Type} (r : Callback α) :
    Each (quietLaw Undecided) (applyCallback context r) fun _ => True := by
  unfold applyCallback
  split
  · exact each_raise
  · exact each_bind (quiet_modifyContext context _) fun _ _ => each_pure trivial

theorem quiet_evalPredicate (fn : FnId) (pos : Pos) :
    Each (quietLaw Undecided) (evalPredicate context fn pos) fun _ => True := by
  apply each_bind (quiet_getContext context)
  intro c _
  exact each_bind (quiet_ask fun _ => trivial) fun r _ => quiet_applyCallback context r

theorem quiet_evalSelector (fn : FnId) (pos : Pos) :
    Each (quietLaw Undecided) (evalSelector context fn pos) fun _ => True := by
  apply each_bind (quiet_getContext context)
  intro c _
  exact each_bind (quiet_ask fun _ => trivial) fun r _ => quiet_applyCallback context r

theorem quiet_evalStop (fn : FnId) (pos : Pos) :
    Each (quietLaw Undecided) (evalStop context fn pos) fun _ => True := by
  apply each_bind (quiet_getContext context)
  intro c _
  exact each_bind (quiet_ask fun _ => trivial) fun r _ => quiet_applyCallback context r

theorem quiet_stepJob (jobBuilder : Option FnId) (pos : Pos) :
    Each (quietLaw Undecided) (stepJob context jobBuilder pos) fun _ => True := by
  apply each_bind (quiet_getContext context)
  intro c _
  split
  · exact each_pure trivial
  · exact each_bind (quiet_ask fun _ => trivial) fun r _ => quiet_applyCallback context r

theorem quiet_beginIteration (name : String) (maxIterations : ℕ) (started : Bool) :
    Each (quietLaw Undecided) (beginIteration context name maxIterations started)
      fun _ => True := by
  apply each_exchange
  · intro w
    dsimp only
    split_ifs
    · exact ⟨rfl, rfl, rfl, rfl, rfl, rfl⟩
    · exact Quiet.refl w
  · exact fun _ => trivial

theorem quiet_publishOutputs (outputs : List StepOutput) :
    Each (quietLaw Undecided) (publishOutputs context outputs) fun _ => True :=
  quiet_modifyContext context _

end

theorem quiet_store (op : StoreOp) : Each (quietLaw Undecided) (Prog.store op) fun _ => True :=
  each_bind (quiet_ask fun _ => trivial) fun r _ => each_outcome r

theorem quiet_newRef : Each (quietLaw Undecided) Prog.newRef fun _ => True :=
  each_exchange (fun _ => ⟨rfl, rfl, rfl, rfl, rfl, rfl⟩) fun _ => trivial

theorem quiet_prepareJob (desk : DeskSettings) (runner : Runner) (job : Job) :
    Each (quietLaw Undecided) (prepareJob desk runner job) fun _ => True := by
  unfold prepareJob
  dsimp only
  split
  · refine each_bind (quiet_ask fun _ => trivial) fun r _ => ?_
    apply each_bind (each_outcome r)
    intro memory _
    split <;> exact each_pure trivial
  · exact each_pure trivial

theorem quiet_recordMemory (runner : Option Runner) (report : Report) :
    Each (quietLaw Undecided) (recordMemory runner report) fun _ => True := by
  unfold recordMemory
  split
  · split_ifs
    · split
      · exact each_pure trivial
      · exact quiet_store _
      · exact each_bind (each_outcome _) fun _ _ => quiet_store _
      · exact quiet_store _
    · exact each_pure trivial
  · exact each_pure trivial

theorem quiet_registerRunner (runner : Runner) :
    Each (quietLaw Undecided) (registerRunner runner) fun _ => True := by
  apply each_update _ trivial
  intro w
  cases runner <;> exact ⟨rfl, rfl, rfl, rfl, rfl, rfl⟩

theorem quiet_flowEmit (id : ℕ) (type source : String) (payload : Dict) :
    Each (quietLaw Undecided) (flowEmit id type source payload) fun _ => True := by
  refine each_bind (P := fun _ => True) (each_look Quiet.refl fun _ => trivial) fun fields _ => ?_
  split_ifs
  · exact each_pure trivial
  · exact each_deskEmit ((quietLaw_bills fun _ h => h).toPermits) _ _ _ _ _

/-! ### Executing nodes -/

section

variable {desk : DeskSettings} {api : RunnerApi} (hapi : Honest a api) (flow : Flow) (context : Ref)

/-- A program whose events are free of decisions and cost nothing. -/
theorem pays_quiet {α : Type} {c : Prog α} {Φ : α → Prop} (h : Each (quietLaw Undecided) c Φ) :
    Pays (quietLaw Undecided) (approvals a) 0 c (fun _ => 0) Φ :=
  pays_free (fun _ h => h) a h

/-- A result of a runner with its credits. -/
def heldCredits (a : String) (r : Held × Option StepState) : ℕ := r.2.elim 0 (stepCredits a)

def HeldOk (r : Held × Option StepState) : Prop :=
  ∀ s, r.2 = some s → Carries r.1.report (stepAction s)

theorem quiet_flowRunConfig (stream : FlowFields → Bool) :
    Each (quietLaw Undecided) (flowRunConfig desk flow stream) fun _ => True :=
  each_bind (P := fun _ => True) (each_look Quiet.refl fun _ => trivial) fun _ _ =>
    each_pure trivial

/-- The report of a runner becomes an object of the flow. -/
theorem pays_holdReport (runner : Option Runner) (pos : Pos) (o : Report × Option StepState)
    (ho : StepOutcome o) :
    Pays (quietLaw Undecided) (approvals a) (stepOutcomeCredits a o) (do
      recordMemory runner o.1
      let ref ← Prog.newRef
      pure ((⟨ref, pos, o.1⟩ : Held), o.2)) (heldCredits a) HeldOk := by
  apply pays_bind_free (pays_quiet (quiet_recordMemory _ _))
  intro _ _
  apply pays_bind_free (pays_quiet quiet_newRef)
  intro ref _
  exact pays_pure le_rfl ho

include hapi

theorem pays_runRunner (runner : Runner) (job : Job) (pos : Pos) :
    Pays (quietLaw Undecided) (approvals a) 0 (runRunner desk api flow runner job pos)
      (heldCredits a) HeldOk := by
  apply pays_bind_free (pays_quiet (quiet_flowRunConfig flow _))
  intro config _
  apply pays_bind_free (pays_quiet (quiet_registerRunner runner))
  intro _ _
  apply pays_bind_free (pays_quiet (quiet_prepareJob desk runner job))
  intro job _
  apply pays_bind (hapi.arun runner config job pos)
  intro o ho
  exact pays_holdReport (some runner) pos o ho

theorem pays_executeStep (runner : Runner) (name : String) (jobBuilder : Option FnId) (pos : Pos) :
    Pays (quietLaw Undecided) (approvals a) 0
      (executeStep desk api flow context runner name jobBuilder pos) (outputsCredits a)
      OutputsOk := by
  apply pays_bind_free (pays_quiet (quiet_stepJob context jobBuilder pos))
  intro job _
  apply pays_bind_free (pays_quiet (quiet_flowEmit _ _ _ _))
  intro _ _
  apply pays_bind (pays_runRunner hapi flow runner job pos)
  rintro ⟨held, state⟩ hheld
  apply pays_bind_free (pays_quiet (quiet_flowEmit _ _ _ _))
  intro _ _
  apply pays_pure
  · simp [outputsCredits, resultCredits, continuationsCredits, heldCredits]
  · exact ⟨⟨hheld, trivial⟩, trivial⟩

omit hapi

/-! #### Loops -/

def passCredits (a : String) : Pass → ℕ
  | .through outputs => outputsCredits a outputs
  | .stopped outputs => outputsCredits a outputs

def PassOk : Pass → Prop
  | .through outputs => OutputsOk outputs
  | .stopped outputs => OutputsOk outputs

/-- What holds of every pass over a loop's steps holds of all its rounds. -/
theorem pays_iterate (loop : Loop) (pos : Pos) (pass : ℕ → ℕ → List StepOutput → Prog Pass)
    (hpass : ∀ startIndex round outputs, OutputsOk outputs →
      Pays (quietLaw Undecided) (approvals a) (outputsCredits a outputs)
        (pass startIndex round outputs) (passCredits a) PassOk)
    (fuel startIndex round : ℕ) (started : Bool) {outputs : List StepOutput}
    (h : OutputsOk outputs) :
    Pays (quietLaw Undecided) (approvals a) (outputsCredits a outputs)
      (iterate context loop pos pass fuel startIndex round started outputs) (outputsCredits a)
      OutputsOk := by
  induction fuel generalizing startIndex round started outputs with
  | zero => exact pays_raise
  | succ fuel ih =>
    apply pays_bind_free (pays_quiet (quiet_beginIteration context _ _ _))
    intro begun _
    split_ifs
    · apply pays_bind (hpass startIndex round outputs h)
      rintro (outputs' | outputs') houtputs'
      · apply pays_bind_free (pays_quiet (quiet_evalStop context _ _))
        intro stopped _
        split_ifs
        · exact pays_pure le_rfl houtputs'
        · exact ih _ _ _ houtputs'
      · exact pays_pure le_rfl houtputs'
    · exact pays_pure le_rfl h

theorem pays_gather {α : Type} {cs : List (Prog α)} {P : α → ℕ} {Φ : α → Prop}
    (h : ∀ c ∈ cs, Pays (quietLaw Undecided) (approvals a) 0 c P Φ) :
    Pays (quietLaw Undecided) (approvals a) 0 (Prog.gather cs) (fun as => (as.map P).sum)
      fun as => ∀ x ∈ as, Φ x := by
  refine pays_bind (pays_parAll h) ?_
  rintro rs ⟨-, hall⟩
  cases hrs : rs.mapM id with
  | error e => exact pays_raise
  | ok as =>
    obtain rfl := mapM_id_ok hrs
    apply pays_pure
    · rw [List.map_map]
      exact le_rfl
    · intro x hx
      exact hall (.ok x) (by simpa using hx) x rfl

/-- A sequence that stops at a step, or goes on behind it. -/
theorem pays_afterStep {β : Type} (stopped : List StepOutput → β) {outputs stepOutputs : List StepOutput}
    {continuations : List Continuation} {rest : Prog β}
    {P : β → ℕ} {Φ : β → Prop} (houtputs : OutputsOk outputs) (hstep : OutputsOk stepOutputs)
    (hzero : continuationsCredits a continuations = 0) (hok : ContinuationsOk continuations)
    (hstopped : ∀ l, OutputsOk l → P (stopped l) = outputsCredits a l ∧ Φ (stopped l))
    (hrest : OutputsOk (outputs ++ stepOutputs) → Pays (quietLaw Undecided) (approvals a)
      (outputsCredits a (outputs ++ stepOutputs)) rest P Φ) :
    Pays (quietLaw Undecided) (approvals a) (outputsCredits a stepOutputs + outputsCredits a outputs)
      (do
        publishOutputs context stepOutputs
        if shouldStop stepOutputs then
          pure (stopped (stopOutputs (outputs ++ stepOutputs) stepOutputs continuations))
        else rest) P Φ := by
  have hall : OutputsOk (outputs ++ stepOutputs) := (outputsOk_append _ _).mpr ⟨houtputs, hstep⟩
  have hcredits : outputsCredits a stepOutputs + outputsCredits a outputs =
      outputsCredits a (outputs ++ stepOutputs) := by
    rw [outputsCredits_append, Nat.add_comm]
  rw [hcredits]
  apply pays_bind_free (pays_quiet (quiet_publishOutputs context stepOutputs))
  intro _ _
  split_ifs
  · obtain ⟨hle, hstop⟩ := stopOutputs_spec (outputs ++ stepOutputs) stepOutputs hzero hok
    obtain ⟨hP, hΦ⟩ := hstopped _ (hstop hall)
    exact pays_pure (hP.trans_le hle) hΦ
  · exact hrest hall

include hapi

set_option linter.unusedSectionVars false in
mutual

/-- By recursion on the tree: the results of a node hold the credits of its pending
actions. -/
theorem pays_execute : ∀ (node : Node) (pos : Pos),
    Pays (quietLaw Undecided) (approvals a) 0 (execute desk api flow context node pos)
      (outputsCredits a) OutputsOk
  | .step _ runner name jobBuilder, pos => pays_executeStep hapi flow context runner name jobBuilder pos
  | .parallel _ steps, pos => by
    apply pays_bind (pays_gather (pays_executeBranches steps pos 0))
    intro groups hgroups
    have hspec := deferAfterPause_spec (a := a) groups.flatten []
    apply pays_pure
    · rw [← outputsCredits_flatten]
      simpa [continuationsCredits] using hspec.1
    · exact hspec.2 ((outputsOk_flatten groups).mpr hgroups) trivial
  | .condition _ _ predicate ifTrue ifFalse, pos => by
    apply pays_bind_free (pays_quiet (quiet_evalPredicate context predicate pos))
    intro selected _
    split_ifs
    · exact pays_executeSequence ifTrue pos 0 [] trivial
    · exact pays_executeSequence ifFalse pos 0 [] trivial
  | .router _ selector routes, pos => by
    apply pays_bind_free (pays_quiet (quiet_evalSelector context selector pos))
    intro route _
    exact pays_executeRoute routes route pos
  | .loop id cls name explicitName maxIterations stop steps, pos => by
    apply pays_bind_free (pays_quiet (quiet_modifyContext context _))
    intro _ _
    refine pays_bind_free (pays_quiet (quiet_ask fun _ => trivial)) fun fuel _ => ?_
    have hnone : OutputsOk [] := trivial
    apply pays_iterate context _ _ _ _ _ _ _ _ hnone
    intro startIndex round outputs houtputs
    exact pays_executePass ⟨id, cls, name, explicitName, maxIterations, stop, steps⟩ steps
      startIndex _ 0 outputs houtputs pos round

theorem pays_executeBranches : ∀ (steps : List Node) (pos : Pos) (i : ℕ),
    ∀ c ∈ executeBranches desk api flow context steps pos i,
      Pays (quietLaw Undecided) (approvals a) 0 c (outputsCredits a) OutputsOk
  | [], _, _ => by simp [executeBranches]
  | step :: steps, pos, i => by
    intro c hc
    rcases List.mem_cons.mp hc with rfl | hc
    · exact pays_execute step _
    · exact pays_executeBranches steps pos (i + 1) c hc

theorem pays_executeSequence : ∀ (steps : List Node) (pos : Pos) (i : ℕ)
    (outputs : List StepOutput), OutputsOk outputs →
    Pays (quietLaw Undecided) (approvals a) (outputsCredits a outputs)
      (executeSequence desk api flow context steps pos i outputs) (outputsCredits a) OutputsOk
  | [], _, _, _, h => pays_pure le_rfl h
  | step :: steps, pos, i, outputs, h => by
    have hstep := (pays_execute step (pos ++ [.seq i])).frame (outputsCredits a outputs)
    refine pays_bind (by simpa using hstep) fun stepOutputs hstepOutputs => ?_
    apply pays_afterStep context id h hstepOutputs
    · split_ifs <;> simp [continuationsCredits, continuationCredits]
    · split_ifs <;> simp [ContinuationsOk, ContinuationOk]
    · exact fun l hl => ⟨rfl, hl⟩
    · exact fun hall => pays_executeSequence steps pos (i + 1) _ hall

theorem pays_executeRoute : ∀ (routes : List (String × List Node)) (route : String) (pos : Pos),
    Pays (quietLaw Undecided) (approvals a) 0 (executeRoute desk api flow context routes route pos)
      (outputsCredits a) OutputsOk
  | [], _, _ => pays_pure le_rfl trivial
  | (name, steps) :: routes, route, pos => by
    unfold executeRoute
    split_ifs
    · exact pays_executeSequence steps pos 0 [] trivial
    · exact pays_executeRoute routes route pos

theorem pays_executePass (loop : Loop) : ∀ (steps : List Node) (skip : ℕ) (pos : Pos)
    (i : ℕ) (outputs : List StepOutput), OutputsOk outputs → ∀ (loopPos : Pos) (round : ℕ),
    Pays (quietLaw Undecided) (approvals a) (outputsCredits a outputs)
      (executePass desk api flow context (fun index => .loop loop index none loopPos round) steps
        skip pos i outputs) (passCredits a) PassOk
  | [], _, _, _, _, h, _, _ => pays_pure le_rfl h
  | _ :: steps, skip + 1, pos, i, outputs, h, loopPos, round =>
    pays_executePass loop steps skip pos (i + 1) outputs h loopPos round
  | step :: steps, 0, pos, i, outputs, h, loopPos, round => by
    have hstep := (pays_execute step (pos ++ [.seq i])).frame (outputsCredits a outputs)
    refine pays_bind (by simpa using hstep) fun stepOutputs hstepOutputs => ?_
    apply pays_afterStep context Pass.stopped h hstepOutputs
    · simp [continuationsCredits, continuationCredits]
    · simp [ContinuationsOk, ContinuationOk]
    · exact fun l hl => ⟨rfl, hl⟩
    · exact fun hall => pays_executePass loop steps 0 pos (i + 1) _ hall loopPos round

end

theorem pays_runContinuation (continuation : Continuation) (h : ContinuationOk continuation) :
    Pays (quietLaw Undecided) (approvals a) (continuationCredits a continuation)
      (runContinuation desk api flow context continuation) (outputsCredits a) OutputsOk := by
  cases continuation with
  | sequence steps pos first => exact pays_executeSequence hapi flow context steps pos first [] trivial
  | outputs outputs => exact pays_pure le_rfl h
  | loop loop startIndex previousName pos round =>
    have hcounter : Each (quietLaw Undecided) (takeOverCounter context loop previousName)
        fun _ => True := by
      unfold takeOverCounter
      split
      · exact quiet_modifyContext context _
      · exact each_pure trivial
    apply pays_bind_free (pays_quiet hcounter)
    intro _ _
    refine pays_bind_free (pays_quiet (quiet_ask fun _ => trivial)) fun fuel _ => ?_
    have hnone : OutputsOk [] := trivial
    apply pays_iterate context _ _ _ _ _ _ _ _ hnone
    intro startIndex round outputs houtputs
    exact pays_executePass hapi flow context loop loop.steps startIndex _ 0 outputs houtputs _ _

end

end Blackgeorge.Workflow
