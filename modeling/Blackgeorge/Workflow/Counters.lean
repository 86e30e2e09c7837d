import Blackgeorge.Coroutine.Shares
import Blackgeorge.Program.Laws
import Blackgeorge.Workflow.Paths

/-! The counters of a flow's loops. A node changes only the counters of its own loops, so the
branches of a parallel group leave each other's alone, and while a loop runs or waits its
counter is the number of its round. -/

namespace Blackgeorge.Workflow

open Data Program Coroutine Coro Desk

def counters (context : Ref) (w : World) : String → ℕ := (w.contexts context).loopIterations

/-- What is known of the calls of a flow: the flow's steps, whether what comes from outside
is no cancellation, the continuations that may wait with another name of their loop, and what
holds of the states that were stored before. -/
structure Scope where
  steps : List Node
  calm : Prop
  renamed : Continuation → Prop
  stored : FlowState → Prop

/-- In a calm scope, no exception from outside is a cancellation. -/
def Uncancelled {α : Type} (scope : Scope) (r : Except Exn α) : Prop :=
  ∀ e, r = .error e → scope.calm → e.kind ≠ .cancelled

/-- A loop is not cut off within its bound, and no callback, runner or store is cancelled in
a calm scope. -/
def Calm (scope : Scope) : ∀ q, Answer q → Prop
  | .rounds, n => ∀ loop pos, At scope.steps (loopNode loop) pos → loop.maxIterations < n
  | .complete .., r => Uncancelled scope r
  | .structured .., r => Uncancelled scope r
  | .validateJson .., r => Uncancelled scope r
  | .runTool .., r => Uncancelled scope r
  | .store _, r => Uncancelled scope r
  | .readMemory _, r => Uncancelled scope r
  | .reduce .., r => Uncancelled scope r
  | .predicate .., r => Uncancelled scope r
  | .selector .., r => Uncancelled scope r
  | .stop .., r => Uncancelled scope r
  | .jobBuilder .., r => Uncancelled scope r
  | .runner _, r => Uncancelled scope r
  | _, _ => True

/-- The counters in a stored state. -/
def storedCounters (state : FlowState) : String → ℕ :=
  state.context.elim (fun _ => 0) ContextSnapshot.loopIterations

/-- A state signed for these steps holds what a run of them has left to do, with its counts. -/
def LeftOver (steps : List Node) (renamed : Continuation → Prop) (state : FlowState) : Prop :=
  state.flowSignature = some (signature steps) ∧
    ∃ leaves, List.Forall₂ (StoredLeaf steps) leaves (allStoredLeaves (state.continuations.getD [])) ∧
      Ready steps (storedCounters state) leaves ∧ ∀ k ∈ leaves, k.Own ∨ renamed k

/-- A state whose counts are stored under the names that its loops have. -/
def Resumable (steps : List Node) (state : FlowState) : Prop :=
  state.flowSignature = some (signature steps) ∧
    ∃ leaves, List.Forall₂ (StoredLeaf steps) leaves (allStoredLeaves (state.continuations.getD [])) ∧
      Ready steps (storedCounters state) leaves ∧ ∀ k ∈ leaves, k.Own

theorem LeftOver.resumable {steps : List Node} {renamed : Continuation → Prop} {state : FlowState}
    (h : LeftOver steps renamed state)
    (hown : ∀ k, renamed k → ∀ s ∈ allStoredLeaves (state.continuations.getD []), StoredLeaf steps k s →
      k.Own) : Resumable steps state := by
  obtain ⟨hsigned, leaves, hstored, hready, hleaves⟩ := h
  refine ⟨hsigned, leaves, hstored, hready, fun k hk => ?_⟩
  obtain hk' | hk' := hleaves k hk
  · exact hk'
  · obtain ⟨i, hi, rfl⟩ := List.mem_iff_getElem.mp hk
    have hi' := hstored.length_eq ▸ hi
    exact hown _ hk' _ (List.getElem_mem hi') (hstored.get hi hi')

/-- What holds of every state of a flow in the store. -/
def AllStored (p : FlowState → Prop) (w : World) : Prop :=
  ∀ runId record state, w.records runId = some record → record.state = some (.flow state) → p state

/-- A state from before, or one that a run of the flow leaves. -/
def Scope.Allows (scope : Scope) (state : FlowState) : Prop :=
  scope.stored state ∨ LeftOver scope.steps scope.renamed state

/-- A flow's calls ask where they are placed, raise no cancellation of their own and store
states that can be resumed. -/
def flowTerms (scope : Scope) : Terms sig where
  admits := Calm scope
  step w w' := AllStored scope.Allows w → AllStored scope.Allows w'
  event := Placed scope.steps
  raises e := scope.calm → e.kind ≠ .cancelled

theorem flowTerms_step_of_records {scope : Scope} {w w' : World} (h : w'.records = w.records) :
    (flowTerms scope).step w w' := by
  intro hall runId record state
  rw [h]
  exact hall runId record state

section

variable (scope : Scope) (context : Ref)

/-- A part of a flow that owns the counters in `N` and is promised those in `P`. -/
abbrev Counts {α : Type} (P N : Set String) (A : (String → ℕ) → Prop) (c : Prog α)
    (B : α → (String → ℕ) → Prop) : Prop :=
  Shares (flowTerms scope) (counters context) P N A c B

/-- A program that changes no counter. -/
def Plain {α : Type} (c : Prog α) : Prop :=
  ∀ P N A, LocalTo P A → Counts scope context P N A c fun _ => A

end

variable {scope : Scope} {context : Ref} {α β : Type}

/-! ### Plain programs -/

theorem plain_pure (a : α) : Plain scope context (pure a) := fun _ _ _ hA =>
  shares_pure hA fun _ h => h

theorem plain_raise {e : Exn} (h : scope.calm → e.kind ≠ .cancelled) :
    Plain scope context (Prog.raise e : Prog α) :=
  fun _ _ _ _ => shares_raise fun _ _ => h

theorem plain_ofExcept {r : Except Exn α} (h : Uncancelled scope r) :
    Plain scope context (Prog.ofExcept r) :=
  fun _ _ _ hA => shares_ofExcept (fun _ => hA) (fun _ _ _ h => h) h

theorem plain_bind {c : Prog α} {g : α → Prog β} (hc : Plain scope context c)
    (hg : ∀ a, Plain scope context (g a)) : Plain scope context (c >>= g) := fun P N A hA =>
  shares_bind (hc P N A hA) fun a => hg a P N A hA

theorem plain_get (g : World → α) : Plain scope context (Prog.get g) := fun _ _ _ hA =>
  shares_look hA (fun _ => hA) (fun _ => flowTerms_step_of_records rfl) fun _ h => h

theorem plain_exchange {g : World → α} {f : World → World} (hrecords : ∀ w, (f w).records = w.records)
    (hcontexts : ∀ w, (f w).contexts = w.contexts) :
    Plain scope context (Coro.exchange (S := sig) g f) := by
  have hsame (w : World) : counters context (f w) = counters context w := by
    unfold counters
    rw [hcontexts]
  intro P N A hA
  refine shares_exchange hA (fun _ => hA) (fun w => flowTerms_step_of_records (hrecords w)) (fun w => ?_) fun w h => ?_
  · rw [hsame]
    exact Set.eqOn_refl _ _
  · rwa [hsame]

theorem plain_modify {f : World → World} (hrecords : ∀ w, (f w).records = w.records)
    (hcontexts : ∀ w, (f w).contexts = w.contexts) : Plain scope context (Prog.modify f) :=
  plain_exchange hrecords hcontexts

/-- A question with a fact about its answer. -/
theorem counts_ask {P N : Set String} {A : (String → ℕ) → Prop} (hA : LocalTo P A) {q : Query}
    {p : Answer q → Prop} (h : ∀ a, Calm scope q a → Placed scope.steps ⟨q, a⟩ ∧ p a) :
    Counts scope context P N A (Prog.ask q) fun a f => A f ∧ p a :=
  shares_query (fun _ => hA.and (localTo_const _ _)) fun a ha => ⟨(h a ha).1, fun _ hf => ⟨hf, (h a ha).2⟩⟩

/-- A question and what follows it. -/
theorem plain_ask_bind {q : Query} {g : Answer q → Prog β} {p : Answer q → Prop}
    (h : ∀ a, Calm scope q a → Placed scope.steps ⟨q, a⟩ ∧ p a)
    (hg : ∀ a, p a → Plain scope context (g a)) : Plain scope context (Prog.ask q >>= g) := by
  intro P N A hA w hw
  refine shares_bind (counts_ask hA h) (fun a => ?_) w hw
  rintro w ⟨hw, hp⟩
  exact hg a hp P N A hA w hw

theorem plain_store (op : StoreOp) : Plain scope context (Prog.store op) :=
  plain_ask_bind (fun _ ha => ⟨trivial, ha⟩) fun _ hr => plain_ofExcept hr

theorem plain_newRef : Plain scope context Prog.newRef :=
  plain_exchange (fun _ => rfl) fun _ => rfl

theorem plain_deskEmit (events : Ref) (runId : RunId) (type source : String) (payload : Dict) :
    Plain scope context (deskEmit events runId type source payload) :=
  plain_bind (plain_modify (fun _ => rfl) fun _ => rfl) fun _ =>
    plain_bind (plain_store _) fun _ =>
      plain_modify (fun _ => rfl) fun _ => rfl

theorem plain_flowEmit (id : ℕ) (type source : String) (payload : Dict) :
    Plain scope context (flowEmit id type source payload) := by
  refine plain_bind (plain_get _) fun fields => ?_
  split_ifs
  · exact plain_pure ()
  · exact plain_deskEmit _ _ _ _ _

theorem uncancelled_ok (a : α) : Uncancelled scope (.ok a) := nofun

theorem uncancelled_orSerializationError (dump : Option α) :
    Uncancelled scope (orSerializationError dump) := by
  rintro e he _
  cases dump with
  | none =>
    obtain rfl := Except.error.inj he
    decide
  | some a => cases he

theorem plain_prepareJob (desk : DeskSettings) (runner : Runner) (job : Job) :
    Plain scope context (prepareJob desk runner job) := by
  unfold prepareJob
  dsimp only
  split
  · refine plain_ask_bind (fun _ ha => ⟨trivial, ha⟩) fun r hr => ?_
    refine plain_bind (plain_ofExcept hr) fun memory => ?_
    split <;> exact plain_pure _
  · exact plain_pure _

theorem plain_recordMemory (runner : Option Runner) (report : Report) :
    Plain scope context (recordMemory runner report) := by
  unfold recordMemory
  split
  · split_ifs
    · split
      · exact plain_pure ()
      · exact plain_store _
      · exact plain_bind (plain_ofExcept (uncancelled_orSerializationError _)) fun _ => plain_store _
      · exact plain_store _
    · exact plain_pure ()
  · exact plain_pure ()

theorem plain_registerRunner (runner : Runner) :
    Plain scope context (registerRunner runner) := by
  refine plain_modify (fun w => ?_) fun w => ?_
  · cases runner <;> rfl
  · cases runner <;> rfl

/-! ### The context -/

theorem plain_getContext : Plain scope context (getContext context) := plain_get _

/-- A change of the context that leaves the counters. -/
theorem plain_modifyContext {f : Context → Context}
    (h : ∀ c, (f c).loopIterations = c.loopIterations) :
    Plain scope context (modifyContext context f) := by
  have hsame (w : World) : counters context { w with
      contexts := Function.update w.contexts context (f (w.contexts context)) } = counters context w := by
    unfold counters
    dsimp only
    rw [Function.update_self, h]
  intro P N A hA
  refine shares_update hA hA (fun _ => flowTerms_step_of_records rfl) (fun w => ?_) fun w hw => ?_
  · rw [hsame]
    exact Set.eqOn_refl _ _
  · rwa [hsame]

theorem addOutput_loopIterations (output : Held) (c : Context) :
    (Context.addOutput output c).loopIterations = c.loopIterations := by
  unfold Context.addOutput
  split_ifs <;> rfl

theorem plain_publishOutputs (outputs : List StepOutput) :
    Plain scope context (publishOutputs context outputs) := by
  refine plain_modifyContext fun c => ?_
  induction outputs generalizing c with
  | nil => rfl
  | cons output outputs ih =>
    rw [List.foldl_cons, ih]
    split_ifs
    · exact addOutput_loopIterations _ _
    · rfl

theorem plain_applyCallback {r : Callback α} (h : Uncancelled scope r) :
    Plain scope context (applyCallback context r) := by
  unfold applyCallback
  split
  · exact plain_raise (h _ rfl)
  · exact plain_bind (plain_modifyContext fun _ => rfl) fun _ => plain_pure _

theorem plain_evalPredicate {id : ℕ} {cls : String} {fn : FnId} {ifTrue ifFalse : List Node} {pos : Pos}
    (h : At scope.steps (.condition id cls fn ifTrue ifFalse) pos) :
    Plain scope context (evalPredicate context fn pos) :=
  plain_bind plain_getContext fun _ =>
    plain_ask_bind (fun _ ha => ⟨⟨id, cls, ifTrue, ifFalse, h⟩, ha⟩) fun _ hr => plain_applyCallback hr

theorem plain_evalSelector {id : ℕ} {fn : FnId} {routes : List (String × List Node)} {pos : Pos}
    (h : At scope.steps (.router id fn routes) pos) : Plain scope context (evalSelector context fn pos) :=
  plain_bind plain_getContext fun _ =>
    plain_ask_bind (fun _ ha => ⟨⟨id, routes, h⟩, ha⟩) fun _ hr => plain_applyCallback hr

theorem plain_stepJob {id : ℕ} {runner : Runner} {name : String} {jobBuilder : Option FnId} {pos : Pos}
    (h : At scope.steps (.step id runner name jobBuilder) pos) :
    Plain scope context (stepJob context jobBuilder pos) := by
  refine plain_bind plain_getContext fun c => ?_
  cases jobBuilder with
  | none => exact plain_pure _
  | some fn =>
    exact plain_ask_bind (fun _ ha => ⟨⟨id, runner, name, h⟩, ha⟩) fun _ hr => plain_applyCallback hr

/-- A loop's stop function is asked in the round that the loop's counter has. -/
theorem counts_evalStop {P N : Set String} {loop : Loop} {pos : Pos} {round : ℕ}
    (hat : At scope.steps (loopNode loop) pos) (hpos : 1 ≤ round) (hround : round ≤ loop.maxIterations)
    (hP : loop.name ∈ P) :
    Counts scope context P N (fun f => f loop.name = round)
      (evalStop context loop.stop (pos ++ [.iter round])) fun _ f => f loop.name = round := by
  have hcell : LocalTo P fun f : String → ℕ => f loop.name = round :=
    localTo_cell hP fun n => n = round
  have hread : Counts scope context P N (fun f => f loop.name = round) (getContext context)
      fun c f => f loop.name = round ∧ c.loopIterations loop.name = round :=
    shares_look hcell (fun _ => hcell.and (localTo_const _ _)) (fun _ => flowTerms_step_of_records rfl) fun _ h => ⟨h, h⟩
  refine shares_bind hread fun c w hw => ?_
  have hask : ∀ r, Uncancelled scope r →
      Placed scope.steps ⟨.stop loop.stop (pos ++ [.iter round]) c, r⟩ ∧ Uncancelled scope r :=
    fun r hr => ⟨⟨loop, pos, round, hat, rfl, rfl, hpos, hround, hw.2⟩, hr⟩
  exact plain_ask_bind hask (fun r hr => plain_applyCallback hr) P N _ hcell w hw.1

/-! ### What is left to do -/

variable {steps : List Node}

theorem Continuation.Counted.congr {f g : String → ℕ} {k : Continuation}
    (h : ∀ n, k.keptUnder = some n → g n = f n) (hk : k.Counted f) : k.Counted g := by
  cases k with
  | loop loop startIndex previousName pos round =>
    exact (h _ rfl).trans hk
  | _ => trivial

/-- What some nodes with loops of these names leave to do. -/
structure Left (steps : List Node) (names : List String) (outputs : List StepOutput)
    (f : String → ℕ) : Prop where
  onlyPaused : OnlyPaused outputs
  ready : Ready steps f (outputsLeaves outputs)
  touched : ∀ k ∈ outputsLeaves outputs, ∀ n ∈ k.touched, n ∈ names
  kept : ∀ k ∈ outputsLeaves outputs, ∀ n, k.keptUnder = some n → n ∈ names
  own : ∀ k ∈ outputsLeaves outputs, k.Own

theorem localTo_left (names : List String) (outputs : List StepOutput) :
    LocalTo {n | n ∈ names} (Left steps names outputs) := by
  rintro f g hfg ⟨hpaused, ⟨hfits, hcounted, hseparate⟩, htouched, hkept, hown⟩
  refine ⟨hpaused, ⟨hfits, fun k hk => ?_, hseparate⟩, htouched, hkept, hown⟩
  exact (hcounted k hk).congr fun n hn => hfg (hkept k hk n hn)

theorem Left.mono {names names' : List String} {outputs : List StepOutput} {f : String → ℕ}
    (h : Left steps names outputs f) (hsub : ∀ n ∈ names, n ∈ names') :
    Left steps names' outputs f where
  onlyPaused := h.onlyPaused
  ready := h.ready
  touched := fun k hk n hn => hsub n (h.touched k hk n hn)
  kept := fun k hk n hn => hsub n (h.kept k hk n hn)
  own := h.own

theorem left_of_leaves_nil {names : List String} {outputs : List StepOutput} {f : String → ℕ}
    (hpaused : OnlyPaused outputs) (h : outputsLeaves outputs = []) :
    Left steps names outputs f := by
  refine ⟨hpaused, ?_, ?_, ?_, ?_⟩ <;> rw [h]
  · exact ready_nil steps f
  · simp
  · simp
  · simp

/-- Outputs that are done, with those of a step that stops behind them and what is left of
the sequence. -/
theorem Left.stop {names names' : List String} {outputs stepOutputs : List StepOutput}
    {f : String → ℕ} (h : Left steps names stepOutputs f) (hpaused : OnlyPaused outputs)
    (hdone : outputsLeaves outputs = []) (hsub : ∀ n ∈ names, n ∈ names')
    {continuations : List Continuation} (hready : Ready steps f (continuationsLeaves continuations))
    (htouched : ∀ k ∈ continuationsLeaves continuations, ∀ n ∈ k.touched, n ∈ names')
    (hkept : ∀ k ∈ continuationsLeaves continuations, ∀ n, k.keptUnder = some n →
      n ∈ names' ∧ n ∉ names)
    (hown : ∀ k ∈ continuationsLeaves continuations, k.Own) :
    Left steps names' (stopOutputs (outputs ++ stepOutputs) stepOutputs continuations) f := by
  have hleaves := outputsLeaves_stopOutputs (outputs ++ stepOutputs) stepOutputs continuations
  rw [outputsLeaves_append, hdone, List.nil_append] at hleaves
  have hall : Ready steps f (outputsLeaves stepOutputs ++ continuationsLeaves continuations) :=
    h.ready.append hready fun k hk k' hk' n hn heq =>
      (hkept k' hk' n heq).2 (h.touched k hk n hn)
  refine ⟨onlyPaused_stopOutputs _ _ (onlyPaused_append hpaused h.onlyPaused), hall.sublist hleaves,
    fun k hk n hn => ?_, fun k hk n hn => ?_, fun k hk => ?_⟩
  · rcases List.mem_append.mp (hleaves.mem hk) with hk | hk
    · exact hsub n (h.touched k hk n hn)
    · exact htouched k hk n hn
  · rcases List.mem_append.mp (hleaves.mem hk) with hk | hk
    · exact hsub n (h.kept k hk n hn)
    · exact (hkept k hk n hn).1
  · rcases List.mem_append.mp (hleaves.mem hk) with hk | hk
    · exact h.own k hk
    · exact hown k hk

/-! ### Loops -/

section

variable {P N : Set String}

/-- The counter of a loop, set in one step. -/
theorem counts_modifyContext {name : String} {f : Context → Context} {A B : (String → ℕ) → Prop}
    (hN : name ∈ N) (hA : LocalTo P A) (hB : LocalTo P B)
    (hkeep : ∀ c, ∀ n, n ≠ name → (f c).loopIterations n = c.loopIterations n)
    (h : ∀ c : Context, A c.loopIterations → B (f c).loopIterations) :
    Counts scope context P N A (modifyContext context f) fun _ => B := by
  have hnew (w : World) : counters context { w with
      contexts := Function.update w.contexts context (f (w.contexts context)) } =
      (f (w.contexts context)).loopIterations := by
    unfold counters
    dsimp only
    rw [Function.update_self]
  refine shares_update hA hB (fun _ => flowTerms_step_of_records rfl) (fun w n hn => ?_) fun w hw => ?_
  · rw [hnew]
    exact hkeep _ n fun heq => hn (heq ▸ hN)
  · rw [hnew]
    exact h _ hw

/-- What a loop's counter has before a round. -/
def RoundStarts (loop : Loop) (round : ℕ) (started : Bool) (f : String → ℕ) : Prop :=
  if started then f loop.name = round else f loop.name + 1 = round

theorem localTo_roundStarts {loop : Loop} (hP : loop.name ∈ P) (round : ℕ) (started : Bool) :
    LocalTo P (RoundStarts loop round started) := by
  cases started
  · exact localTo_cell hP fun n => n + 1 = round
  · exact localTo_cell hP fun n => n = round

theorem counts_beginIteration {loop : Loop} {round : ℕ} {started : Bool} (hP : loop.name ∈ P)
    (hN : loop.name ∈ N) (hround : started = true → round ≤ loop.maxIterations) :
    Counts scope context P N (RoundStarts loop round started)
      (beginIteration context loop.name loop.maxIterations started) fun begun f =>
        begun = true → f loop.name = round ∧ round ≤ loop.maxIterations := by
  have hlocal (begun : Bool) : LocalTo P fun f : String → ℕ =>
      begun = true → f loop.name = round ∧ round ≤ loop.maxIterations :=
    localTo_cell hP fun n => begun = true → n = round ∧ round ≤ loop.maxIterations
  refine shares_exchange (localTo_roundStarts hP round started) hlocal (fun w => ?_) (fun w n hn => ?_)
    fun w hw => ?_
  · dsimp only
    split_ifs
    · exact flowTerms_step_of_records rfl
    · exact flowTerms_step_of_records rfl
  · dsimp only
    split_ifs
    · have hne : n ≠ loop.name := fun heq => hn (heq ▸ hN)
      simp [counters, Context.setLoopIteration, Function.update_of_ne hne]
    · rfl
  · unfold RoundStarts counters at hw
    cases started with
    | true =>
      rw [if_pos rfl] at hw
      intro _
      exact ⟨by simpa [counters] using hw, hround rfl⟩
    | false =>
      rw [if_neg Bool.false_ne_true] at hw
      intro hbegun
      have hlt : (w.contexts context).loopIterations loop.name < loop.maxIterations := by
        simpa using hbegun
      refine ⟨?_, by omega⟩
      simpa [counters, Context.setLoopIteration, hlt] using hw

/-- What a pass over a loop's steps leaves. -/
def PassLeft (steps : List Node) (names : List String) (pass : Pass) (f : String → ℕ) : Prop :=
  match pass with
  | .through outputs => OnlyPaused outputs ∧ outputsLeaves outputs = []
  | .stopped outputs => Left steps names outputs f

theorem localTo_passLeft (names : List String) (pass : Pass) :
    LocalTo {n | n ∈ names} (PassLeft scope.steps names pass) := by
  cases pass with
  | through outputs => exact localTo_const _ _
  | stopped outputs => exact localTo_left names outputs

/-- A loop goes round by round: in each its counter has the round's number, no round is
behind its bound, and the bound is reached before the loop is cut off. -/
theorem counts_iterate {loop : Loop} {pos : Pos} {names : List String}
    (hat : At scope.steps (loopNode loop) pos) (hnames : ∀ n ∈ names, n ∈ P) (hP : loop.name ∈ P)
    (hN : loop.name ∈ N) {pass : ℕ → ℕ → List StepOutput → Prog Pass}
    (hpass : ∀ startIndex round outputs, 1 ≤ round → round ≤ loop.maxIterations →
      OnlyPaused outputs → outputsLeaves outputs = [] →
      Counts scope context P N (fun f => f loop.name = round) (pass startIndex round outputs)
        fun end_ f => PassLeft scope.steps names end_ f ∧ f loop.name = round)
    (fuel : ℕ) : ∀ (startIndex round : ℕ) (started : Bool) {outputs : List StepOutput},
    1 ≤ round → (started = true → round ≤ loop.maxIterations) → loop.maxIterations + 2 ≤ fuel + round →
    (started = false → round ≤ loop.maxIterations + 1) →
    OnlyPaused outputs → outputsLeaves outputs = [] →
    Counts scope context P N (RoundStarts loop round started)
      (iterate context loop pos pass fuel startIndex round started outputs)
      (Left scope.steps names) := by
  have hleft (outputs : List StepOutput) : LocalTo P (Left scope.steps names outputs) :=
    (localTo_left names outputs).mono hnames
  induction fuel with
  | zero =>
    intro startIndex round started outputs hpos hstarted hfuel hnew
    cases started with
    | true =>
      have := hstarted rfl
      omega
    | false =>
      have := hnew rfl
      omega
  | succ fuel ih =>
    intro startIndex round started outputs hpos hstarted hfuel hnew hpaused hdone
    refine shares_bind (counts_beginIteration hP hN hstarted) fun begun => ?_
    cases begun with
    | false => exact shares_pure (hleft _) fun _ _ => left_of_leaves_nil hpaused hdone
    | true =>
      intro w hw
      obtain ⟨hcount, hround⟩ := hw rfl
      refine shares_bind (hpass startIndex round outputs hpos hround hpaused hdone) ?_ w hcount
      rintro (outputs' | outputs')
      · intro w hw
        obtain ⟨⟨hpaused', hdone'⟩, hcount'⟩ := hw
        refine shares_bind (counts_evalStop hat hpos hround hP) (fun stopped => ?_) w hcount'
        cases stopped with
        | true => exact shares_pure (hleft _) fun _ _ => left_of_leaves_nil hpaused' hdone'
        | false =>
          have hnext := ih 0 (round + 1) false (by omega) nofun (by omega) (fun _ => by omega) hpaused'
            hdone'
          refine hnext.pre fun f hf => ?_
          rw [RoundStarts, if_neg Bool.false_ne_true, hf]
      · exact shares_pure (hleft _) fun _ h => h.1

end

/-! ### Executing nodes -/

section

variable (desk : DeskSettings) (flow : Flow)

theorem plain_flowRunConfig (stream : FlowFields → Bool) :
    Plain scope context (flowRunConfig desk flow stream) :=
  plain_bind (plain_get _) fun _ => plain_pure _

theorem plain_runRunner {id : ℕ} {runner : Runner} {name : String} {jobBuilder : Option FnId} {pos : Pos}
    (h : At scope.steps (.step id runner name jobBuilder) pos) (job : Job) :
    Plain scope context (runRunner desk askedRunners flow runner job pos) := by
  refine plain_bind (plain_flowRunConfig desk flow _) fun config => ?_
  refine plain_bind (plain_registerRunner runner) fun _ => ?_
  refine plain_bind (plain_prepareJob desk runner job) fun job => ?_
  have hrun : Plain scope context (askedRunners.arun runner config job pos) :=
    plain_ask_bind (fun _ ha => ⟨⟨id, name, jobBuilder, h⟩, ha⟩) fun _ hr => plain_ofExcept hr
  refine plain_bind hrun fun outcome => ?_
  exact plain_bind (plain_recordMemory _ _) fun _ => plain_bind plain_newRef fun _ => plain_pure _

variable {P N : Set String}

theorem counts_executeStep {id : ℕ} {runner : Runner} {name : String} {jobBuilder : Option FnId}
    {pos : Pos} (h : At scope.steps (.step id runner name jobBuilder) pos) :
    Counts scope context P N (fun _ => True)
      (executeStep desk askedRunners flow context runner name jobBuilder pos)
      (Left scope.steps []) := by
  have hnone : LocalTo P fun _ : String → ℕ => True := localTo_const _ _
  refine shares_bind (plain_stepJob h P N _ hnone) fun job => ?_
  refine shares_bind (plain_flowEmit _ _ _ _ P N _ hnone) fun _ => ?_
  refine shares_bind (plain_runRunner desk flow h job P N _ hnone) fun outcome => ?_
  refine shares_bind (plain_flowEmit _ _ _ _ P N _ hnone) fun _ => ?_
  have hleaves : outputsLeaves [.result outcome.1 outcome.2 []] = [] := rfl
  refine shares_pure ?_ fun _ _ => left_of_leaves_nil ?_ hleaves
  · exact (localTo_left [] _).mono (by simp)
  · intro output houtput _
    obtain rfl := List.mem_singleton.mp houtput
    rfl

theorem counts_gather {ι : Type} {own : ι → Set String} {B : ι → α → (String → ℕ) → Prop}
    {xs : List ι} {cs : List (Prog α)} (hB : ∀ x a, LocalTo (own x) (B x a))
    (hN : ∀ x ∈ xs, own x ⊆ N) (hNP : N ⊆ P) (hdisj : xs.Pairwise fun x y => Disjoint (own x) (own y))
    (h : List.Forall₂
      (fun x c => Counts scope context (own x) (own x) (fun _ => True) c (B x)) xs cs) :
    Counts scope context P N (fun _ => True) (Prog.gather cs) fun as f =>
      List.Forall₂ (fun x a => B x a f) xs as := by
  have hlocal : ∀ x ∈ xs, ∀ a, LocalTo P (B x a) := fun x hx a =>
    (hB x a).mono ((hN x hx).trans hNP)
  refine shares_bind (shares_parAll hB hN hNP hdisj h) fun rs => ?_
  cases hrs : rs.mapM id with
  | ok as =>
    obtain rfl := mapM_id_ok hrs
    refine shares_pure (localTo_forall₂ hlocal as) fun f hf => ?_
    exact List.forall₂_map_right_iff.mp hf
  | error e =>
    refine shares_raise fun f hf => ?_
    clear hlocal hdisj h hN
    -- the first exception is one of the outcomes
    induction hf with
    | nil => cases hrs
    | @cons x r xs rs hr _ ih =>
      cases r with
      | error e' =>
        obtain rfl : e' = e := Except.error.inj hrs
        exact hr
      | ok a =>
        refine ih ?_
        rw [List.mapM_cons] at hrs
        cases hrest : rs.mapM id with
        | error e' =>
          rw [hrest] at hrs
          exact congrArg _ (Except.error.inj hrs)
        | ok as =>
          rw [hrest] at hrs
          cases hrs

/-- Branches that have no loop name in common. -/
theorem left_groups {nodes : List Node} {groups : List (List StepOutput)} {f : String → ℕ}
    (h : List.Forall₂ (fun node group => Left scope.steps (loopNames node) group f) nodes groups)
    (hapart : nodes.Pairwise fun node node' => ∀ n ∈ loopNames node, n ∉ loopNames node') :
    Left scope.steps (allLoopNames nodes) groups.flatten f := by
  induction h with
  | nil => exact left_of_leaves_nil onlyPaused_nil rfl
  | @cons node group nodes groups hgroup _ ih =>
    obtain ⟨hfirst, hrest⟩ := List.pairwise_cons.mp hapart
    have htail := ih hrest
    have hready : Ready scope.steps f (outputsLeaves group ++ outputsLeaves groups.flatten) := by
      refine hgroup.ready.append htail.ready fun k hk k' hk' n hn heq => ?_
      obtain ⟨node', hmem, hn'⟩ := mem_allLoopNames.mp (htail.kept k' hk' n heq)
      exact hfirst node' hmem n (hgroup.touched k hk n hn) hn'
    rw [List.flatten_cons]
    refine ⟨onlyPaused_append hgroup.onlyPaused htail.onlyPaused, ?_, ?_, ?_, ?_⟩
    · rwa [outputsLeaves_append]
    · intro k hk n hn
      rw [outputsLeaves_append] at hk
      rcases List.mem_append.mp hk with hk | hk
      · exact List.mem_append_left _ (hgroup.touched k hk n hn)
      · exact List.mem_append_right _ (htail.touched k hk n hn)
    · intro k hk n hn
      rw [outputsLeaves_append] at hk
      rcases List.mem_append.mp hk with hk | hk
      · exact List.mem_append_left _ (hgroup.kept k hk n hn)
      · exact List.mem_append_right _ (htail.kept k hk n hn)
    · intro k hk
      rw [outputsLeaves_append] at hk
      rcases List.mem_append.mp hk with hk | hk
      · exact hgroup.own k hk
      · exact htail.own k hk

theorem Left.deferAfterPause {names : List String} {outputs : List StepOutput} {f : String → ℕ}
    (h : Left scope.steps names outputs f) : Left scope.steps names (deferAfterPause outputs []) f := by
  have hleaves := outputsLeaves_deferAfterPause outputs []
  rw [continuationsLeaves, List.append_nil] at hleaves
  exact ⟨onlyPaused_deferAfterPause [] h.onlyPaused, h.ready.sublist hleaves,
    fun k hk => h.touched k (hleaves.mem hk), fun k hk => h.kept k (hleaves.mem hk),
    fun k hk => h.own k (hleaves.mem hk)⟩

/-- A sequence that stops at a step, or goes on behind it. -/
theorem counts_afterStep {names : List String} {stepOutputs : List StepOutput}
    {C : (String → ℕ) → Prop} {B : α → (String → ℕ) → Prop} {stopped : α} {rest : Prog α}
    (hnames : ∀ n ∈ names, n ∈ P) (hC : LocalTo P C) (hB : ∀ a, LocalTo P (B a))
    (hstopped : ∀ f, Left scope.steps names stepOutputs f → C f → B stopped f)
    (hrest : OnlyPaused stepOutputs → outputsLeaves stepOutputs = [] →
      Counts scope context P N C rest B) :
    Counts scope context P N (fun f => Left scope.steps names stepOutputs f ∧ C f) (do
      publishOutputs context stepOutputs
      if shouldStop stepOutputs then pure stopped else rest) B := by
  have hlocal : LocalTo P fun f => Left scope.steps names stepOutputs f ∧ C f :=
    ((localTo_left names stepOutputs).mono hnames).and hC
  refine shares_bind (plain_publishOutputs stepOutputs P N _ hlocal) fun _ => ?_
  cases hstop : shouldStop stepOutputs with
  | true => exact shares_pure (hB _) fun f hf => hstopped f hf.1 hf.2
  | false =>
    intro w hw
    have hdone := outputsLeaves_of_not_shouldStop hw.1.onlyPaused hstop
    exact hrest hw.1.onlyPaused hdone w hw.2

set_option linter.unusedSectionVars false in
mutual

/-- By recursion on the tree: a node changes the counters of its own loops only and leaves
work that can go on. -/
theorem counts_execute : ∀ (node : Node) (pos : Pos), At scope.steps node pos → Apart node →
    ∀ {P N : Set String}, (∀ n ∈ loopNames node, n ∈ N) → N ⊆ P →
    Counts scope context P N (fun _ => True) (execute desk askedRunners flow context node pos)
      (Left scope.steps (loopNames node))
  | .step id runner name jobBuilder, pos, hat, _, P, N, _, _ => by
    exact counts_executeStep desk flow hat
  | .parallel id nodes, pos, hat, hapart, P, N, hN, hNP => by
    have hbranches := counts_executeBranches nodes pos 0
      (fun i node hnode => by simpa using At.parallel hat hnode) hapart.1
    have hlocal : ∀ groups, LocalTo P (Left scope.steps (allLoopNames nodes) groups) := fun groups =>
      (localTo_left _ groups).mono fun n hn => hNP (hN n hn)
    refine shares_bind (counts_gather (fun node group => localTo_left (loopNames node) group)
      ?_ hNP ?_ hbranches) fun groups => ?_
    · exact fun node hnode n hn => hN n (mem_allLoopNames.mpr ⟨node, hnode, hn⟩)
    · exact hapart.2.imp fun h => Set.disjoint_left.mpr h
    · exact shares_pure (hlocal _) fun f hf => (left_groups hf hapart.2).deferAfterPause
  | .condition id cls predicate ifTrue ifFalse, pos, hat, hapart, P, N, hN, hNP => by
    refine shares_bind (plain_evalPredicate hat P N _ (localTo_const _ _)) fun selected => ?_
    have hnone : outputsLeaves [] = [] := rfl
    cases selected with
    | true =>
      have hline : InLine scope.steps ifTrue pos 0 := fun i node hnode => by
        simpa using At.ifTrue hat hnode
      refine (counts_executeSequence ifTrue pos 0 [] hline hapart.1 onlyPaused_nil hnone
        (fun n hn => hN n (List.mem_append_left _ hn)) hNP).post fun outputs f h => ?_
      exact h.mono fun n hn => List.mem_append_left _ hn
    | false =>
      have hline : InLine scope.steps ifFalse pos 0 := fun i node hnode => by
        simpa using At.ifFalse hat hnode
      refine (counts_executeSequence ifFalse pos 0 [] hline hapart.2 onlyPaused_nil hnone
        (fun n hn => hN n (List.mem_append_right _ hn)) hNP).post fun outputs f h => ?_
      exact h.mono fun n hn => List.mem_append_right _ hn
  | .router id selector routes, pos, hat, hapart, P, N, hN, hNP => by
    refine shares_bind (plain_evalSelector hat P N _ (localTo_const _ _)) fun route => ?_
    refine counts_executeRoute routes route pos ?_ hapart hN hNP
    exact fun name nodes hmem i node hnode => by simpa using At.route hat hmem hnode
  | .loop id cls name explicitName maxIterations stop nodes, pos, hat, hapart, P, N, hN, hNP => by
    have hname : name ∈ N := hN name (List.mem_cons_self)
    have hat' : At scope.steps (loopNode ⟨id, cls, name, explicitName, maxIterations, stop, nodes⟩) pos := hat
    have hzero : Counts scope context P N (fun _ => True)
        (modifyContext context (Context.setLoopIteration name 0)) fun _ f => f name = 0 :=
      counts_modifyContext hname (localTo_const _ _) (localTo_cell (hNP hname) fun n => n = 0)
        (fun c n hn => Function.update_of_ne hn _ _) fun c _ => Function.update_self _ _ _
    refine shares_bind hzero fun _ => ?_
    have hrounds : ∀ n : ℕ, Calm scope .rounds n → Placed scope.steps ⟨.rounds, n⟩ ∧ maxIterations < n :=
      fun n hn => ⟨trivial, hn _ pos hat'⟩
    refine shares_bind (counts_ask (localTo_cell (hNP hname) fun n => n = 0) hrounds) fun fuel => ?_
    intro w hw
    obtain ⟨hcount, hfuel⟩ := hw
    have hpass := fun startIndex round outputs (hpos : 1 ≤ round) (hround : round ≤ maxIterations)
        (hpaused : OnlyPaused outputs) (hdone : outputsLeaves outputs = []) =>
      counts_executePass ⟨id, cls, name, explicitName, maxIterations, stop, nodes⟩ pos round
        ⟨hapart, hat', hpos, hround⟩ hN hNP nodes startIndex (pos ++ [.iter round]) 0 outputs
        (fun i node hnode => by simpa using At.round hat' hpos hround hnode) hapart.1 (fun n hn => hn)
        hpaused hdone
    refine counts_iterate hat' (fun n hn => hNP (hN n hn)) (hNP hname) hname hpass fuel 0 1 false le_rfl
      nofun (by dsimp only; omega) (fun _ => by dsimp only; omega) onlyPaused_nil rfl w ?_
    rw [RoundStarts, if_neg Bool.false_ne_true, hcount]

theorem counts_executeBranches : ∀ (nodes : List Node) (pos : Pos) (i : ℕ),
    (∀ j node, nodes[j]? = some node → At scope.steps node (pos ++ [.par (i + j)])) → AllApart nodes →
    List.Forall₂ (fun node c => Counts scope context {n | n ∈ loopNames node}
        {n | n ∈ loopNames node} (fun _ => True) c (Left scope.steps (loopNames node)))
      nodes (executeBranches desk askedRunners flow context nodes pos i)
  | [], _, _, _, _ => .nil
  | node :: nodes, pos, i, hat, hapart => by
    refine .cons ?_ (counts_executeBranches nodes pos (i + 1) (fun j node' hnode => ?_) hapart.2)
    · exact counts_execute node _ (hat 0 node rfl) hapart.1 (fun n hn => hn) Set.Subset.rfl
    · have := hat (j + 1) node' hnode
      rwa [show i + (j + 1) = i + 1 + j by omega] at this

theorem counts_executeSequence : ∀ (nodes : List Node) (pos : Pos) (i : ℕ)
    (outputs : List StepOutput), InLine scope.steps nodes pos i → AllApart nodes → OnlyPaused outputs →
    outputsLeaves outputs = [] → ∀ {P N : Set String}, (∀ n ∈ allLoopNames nodes, n ∈ N) → N ⊆ P →
    Counts scope context P N (fun _ => True)
      (executeSequence desk askedRunners flow context nodes pos i outputs)
      (Left scope.steps (allLoopNames nodes))
  | [], pos, i, outputs, _, _, hpaused, hdone, P, N, _, _ => by
    exact shares_pure ((localTo_left _ _).mono (by simp [allLoopNames])) fun _ _ =>
      left_of_leaves_nil hpaused hdone
  | node :: nodes, pos, i, outputs, hline, hapart, hpaused, hdone, P, N, hN, hNP => by
    have hstepNames : ∀ n ∈ loopNames node, n ∈ N := fun n hn => hN n (List.mem_append_left _ hn)
    have hrestNames : ∀ n ∈ allLoopNames nodes, n ∈ N := fun n hn => hN n (List.mem_append_right _ hn)
    have hlocal : ∀ outputs, LocalTo P (Left scope.steps (allLoopNames (node :: nodes)) outputs) :=
      fun outputs => (localTo_left _ outputs).mono fun n hn => hNP (hN n hn)
    refine shares_bind (counts_execute node _ hline.head hapart.1 hstepNames hNP) fun stepOutputs => ?_
    refine Shares.pre (counts_afterStep (fun n hn => hNP (hstepNames n hn)) (localTo_const _ True) hlocal
      ?_ ?_) fun f hf => ⟨hf, trivial⟩
    · intro f hleft _
      refine hleft.stop hpaused hdone (fun n hn => List.mem_append_left _ hn) ?_ ?_ ?_ ?_
      · split_ifs
        · exact ready_nil scope.steps f
        · refine ⟨?_, by simp [continuationsLeaves, continuationLeaves, Continuation.Counted],
            by simp [continuationsLeaves, continuationLeaves]⟩
          intro k hk
          obtain rfl := List.mem_singleton.mp hk
          exact ⟨hapart.2, hline.tail⟩
      · split_ifs
        · simp [continuationsLeaves]
        · intro k hk n hn
          obtain rfl := List.mem_singleton.mp hk
          exact List.mem_append_right _ hn
      · split_ifs
        · simp [continuationsLeaves]
        · intro k hk n hn
          obtain rfl := List.mem_singleton.mp hk
          cases hn
      · split_ifs
        · simp [continuationsLeaves]
        · intro k hk
          obtain rfl := List.mem_singleton.mp hk
          trivial
    · intro hstepPaused hstepDone
      refine (counts_executeSequence nodes pos (i + 1) _ hline.tail hapart.2
        (onlyPaused_append hpaused hstepPaused) (by simp [hdone, hstepDone]) hrestNames hNP).post ?_
      exact fun outputs f h => h.mono fun n hn => List.mem_append_right _ hn

theorem counts_executeRoute : ∀ (routes : List (String × List Node)) (route : String) (pos : Pos),
    (∀ name nodes, (name, nodes) ∈ routes → InLine scope.steps nodes pos 0) → RoutesApart routes →
    ∀ {P N : Set String}, (∀ n ∈ routeLoopNames routes, n ∈ N) → N ⊆ P →
    Counts scope context P N (fun _ => True)
      (executeRoute desk askedRunners flow context routes route pos)
      (Left scope.steps (routeLoopNames routes))
  | [], _, _, _, _, P, N, _, _ => by
    exact shares_pure ((localTo_left _ _).mono (by simp [routeLoopNames])) fun _ _ =>
      left_of_leaves_nil onlyPaused_nil rfl
  | (name, nodes) :: routes, route, pos, hline, hapart, P, N, hN, hNP => by
    unfold executeRoute
    split_ifs
    · refine (counts_executeSequence nodes pos 0 [] (hline name nodes (List.mem_cons_self)) hapart.1
        onlyPaused_nil rfl (fun n hn => hN n (List.mem_append_left _ hn)) hNP).post ?_
      exact fun outputs f h => h.mono fun n hn => List.mem_append_left _ hn
    · refine (counts_executeRoute routes route pos (fun name' nodes' hmem => ?_) hapart.2
        (fun n hn => hN n (List.mem_append_right _ hn)) hNP).post ?_
      · exact hline name' nodes' (List.mem_cons_of_mem _ hmem)
      · exact fun outputs f h => h.mono fun n hn => List.mem_append_right _ hn

/-- A pass of a loop that has counted its round. -/
theorem counts_executePass (loop : Loop) (loopPos : Pos) (round : ℕ)
    (hfits : (Continuation.loop loop 0 none loopPos round).Fits scope.steps) {P N : Set String}
    (hN : ∀ n ∈ loop.name :: allLoopNames loop.steps, n ∈ N) (hNP : N ⊆ P) :
    ∀ (nodes : List Node) (skip : ℕ) (pos : Pos) (i : ℕ) (outputs : List StepOutput),
    InLine scope.steps nodes pos i → AllApart nodes →
    (∀ n ∈ allLoopNames nodes, n ∈ allLoopNames loop.steps) → OnlyPaused outputs →
    outputsLeaves outputs = [] →
    Counts scope context P N (fun f => f loop.name = round)
      (executePass desk askedRunners flow context
        (fun index => .loop loop index none loopPos round) nodes skip pos i outputs)
      fun pass f => PassLeft scope.steps (loop.name :: allLoopNames loop.steps) pass f ∧
        f loop.name = round
  | [], skip, pos, i, outputs, _, _, _, hpaused, hdone => by
    have hP : loop.name ∈ P := hNP (hN _ (List.mem_cons_self))
    exact shares_pure ((localTo_const _ _).and (localTo_cell hP fun n => n = round))
      fun f hf => ⟨⟨hpaused, hdone⟩, hf⟩
  | node :: nodes, skip + 1, pos, i, outputs, hline, hapart, hsub, hpaused, hdone => by
    exact counts_executePass loop loopPos round hfits hN hNP nodes skip pos (i + 1) outputs hline.tail
      hapart.2 (fun n hn => hsub n (List.mem_append_right _ hn)) hpaused hdone
  | node :: nodes, 0, pos, i, outputs, hline, hapart, hsub, hpaused, hdone => by
    have hP : loop.name ∈ P := hNP (hN _ (List.mem_cons_self))
    have hcell : LocalTo P fun f : String → ℕ => f loop.name = round :=
      localTo_cell hP fun n => n = round
    have hnames : ∀ n ∈ loop.name :: allLoopNames loop.steps, n ∈ P := fun n hn => hNP (hN n hn)
    have hown : {n | n ∈ allLoopNames loop.steps} ⊆ N := fun n hn => hN n (List.mem_cons_of_mem _ hn)
    -- the loop's own counter is kept while its step runs
    have hdisj : Disjoint {loop.name} {n | n ∈ allLoopNames loop.steps} :=
      Set.disjoint_singleton_left.mpr hfits.1.2
    have hmem : ∀ n ∈ loopNames node, n ∈ {n | n ∈ allLoopNames loop.steps} :=
      fun n hn => hsub n (List.mem_append_left _ hn)
    have hstep : Counts scope context P {n | n ∈ allLoopNames loop.steps} (fun _ => True)
        (execute desk askedRunners flow context node (pos ++ [.seq i])) (Left scope.steps (loopNames node)) :=
      counts_execute node (pos ++ [.seq i]) hline.head hapart.1 hmem (hown.trans hNP)
    have hkept : Counts scope context P N (fun f => f loop.name = round)
        (execute desk askedRunners flow context node (pos ++ [.seq i]))
        fun outputs f => Left scope.steps (loopNames node) outputs f ∧ f loop.name = round :=
      (hstep.keep (Set.singleton_subset_iff.mpr hP) hdisj
        (localTo_cell (Set.mem_singleton _) fun n => n = round)).mono Set.Subset.rfl hown
        (fun f hf => ⟨trivial, hf⟩) fun _ _ h => h
    refine shares_bind hkept fun stepOutputs => ?_
    refine counts_afterStep (fun n hn => hnames n (List.mem_cons_of_mem _ (hsub n (List.mem_append_left _ hn))))
      hcell (fun pass => ((localTo_passLeft _ pass).mono hnames).and hcell) ?_ ?_
    · intro f hleft hcount
      refine ⟨hleft.stop hpaused hdone
        (fun n hn => List.mem_cons_of_mem _ (hsub n (List.mem_append_left _ hn))) ?_ ?_ ?_ ?_, hcount⟩
      · refine ⟨?_, ?_, by simp [continuationsLeaves, continuationLeaves]⟩
        · intro k hk
          obtain rfl := List.mem_singleton.mp hk
          exact hfits
        · intro k hk
          obtain rfl := List.mem_singleton.mp hk
          exact hcount
      · intro k hk n hn
        obtain rfl := List.mem_singleton.mp hk
        exact hn
      · intro k hk n hn
        obtain rfl := List.mem_singleton.mp hk
        obtain rfl : loop.name = n := Option.some.inj hn
        exact ⟨List.mem_cons_self, fun hmem => hfits.1.2 (hsub _ (List.mem_append_left _ hmem))⟩
      · intro k hk
        obtain rfl := List.mem_singleton.mp hk
        rfl
    · intro hstepPaused hstepDone
      exact counts_executePass loop loopPos round hfits hN hNP nodes 0 pos (i + 1) _ hline.tail hapart.2
        (fun n hn => hsub n (List.mem_append_right _ hn)) (onlyPaused_append hpaused hstepPaused)
        (by simp [hdone, hstepDone])

end

end

end Blackgeorge.Workflow
