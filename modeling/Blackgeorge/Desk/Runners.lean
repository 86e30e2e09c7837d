import Blackgeorge.Data.Dumps
import Blackgeorge.Desk.Store
import Blackgeorge.WorkforceRun.Approvals

/-! What a desk and a flow know of the runners they call: a run lets no decision meet a
pending action, a resume only the action of its state, and either accounts for every
approved execution. The program's runners keep to it. -/

namespace Blackgeorge.Desk

open Data Program Coroutine Coro WorkerRunner WorkforceRun

/-! ### Records -/

/-- A record has the state that it is written with, or what JSON makes of it. -/
theorem storedRecord_ok {desk : DeskSettings} {status : RunStatus} {output : Option String}
    {outputJson : Value} {state : Option RunState} {record : RunRecord}
    (h : storedRecord desk status output outputJson state = .ok record) :
    record.state = state ∨ state.mapM RunState.persisted = some record.state := by
  unfold storedRecord at h
  by_cases hmemory : desk.inMemoryStore = true
  · rw [if_pos hmemory] at h
    obtain rfl := Except.ok.inj h
    exact .inl rfl
  by_cases hplain : outputJson.plain = true
  · rw [if_neg hmemory, if_pos hplain] at h
    obtain ⟨stored, hstored, h⟩ := ok_of_bind h
    obtain rfl := Except.ok.inj h
    exact .inr (orSerializationError_ok hstored)
  · rw [if_neg hmemory, if_neg hplain] at h
    cases h

/-! ### Outcomes -/

/-- The credits of a step's state. -/
def stepCredits (a : String) (state : StepState) : ℕ :=
  if (stepAction state).map Awaited.actionId = some a then 1 else 0

def stepOutcomeCredits (a : String) (o : Report × Option StepState) : ℕ := o.2.elim 0 (stepCredits a)

/-- A state comes with a paused report that waits for the same action. -/
def StepOutcome (o : Report × Option StepState) : Prop :=
  ∀ state, o.2 = some state → Carries o.1 (stepAction state)

/-- The decision meets one action only, and no tool that is held back runs unless for this action. -/
def OnlyAction (action : Option Awaited) (decision : Value) : Event sig → Prop
  | ⟨.decide pending d, _⟩ => action = some (awaited pending) ∧ d = decision
  | ⟨.runTool tool call (some a), _⟩ => ∃ x, action = some x ∧ x.actionId = a ∧ x.Fulfils decision tool call
  | ⟨.runTool tool _ none, _⟩ => Unguarded tool
  | _ => True

theorem OnlyAction.of_undecided {action : Option Awaited} {decision : Value} {e : Event sig} (h : Undecided e) :
    OnlyAction action decision e := by
  obtain ⟨q, answer⟩ := e
  cases q with
  | runTool tool call approved =>
    cases approved with
    | none => exact h
    | some _ => exact False.elim h
  | decide => exact False.elim h
  | _ => trivial

theorem decidesState_onlyAction (state : WorkerState) (decision : Value) :
    DecidesState (quietLaw (OnlyAction (workerAction state) decision)) state decision := by
  intro worker p hp
  have haction : workerAction state = some (awaited p) := by
    rw [workerAction, Option.mem_def.mp hp]
    rfl
  exact ⟨⟨haction, rfl⟩, fun tool call _ _ h => ⟨awaited p, haction, rfl, h⟩⟩

/-! ### The program's runners -/

/-- What is known of runners, for one action. -/
structure Honest (a : String) (api : RunnerApi) : Prop where
  arun : ∀ runner config job pos,
    Pays (quietLaw Undecided) (approvals a) 0 (api.arun runner config job pos)
      (stepOutcomeCredits a) StepOutcome
  aresume : ∀ runner config state decision pos,
    Pays (quietLaw (OnlyAction (stepAction state) decision)) (approvals a) (stepCredits a state)
      (api.aresume runner config state decision pos) (stepOutcomeCredits a) StepOutcome

theorem pays_map {α β : Type} {L : Law sig} {T : Tariff sig} {m : ℕ} {c : Prog α} {f : α → β}
    {P : α → ℕ} {Q : β → ℕ} {Φ : α → Prop} {Ψ : β → Prop} (h : Pays L T m c P Φ)
    (hf : ∀ x, Φ x → Q (f x) ≤ P x ∧ Ψ (f x)) : Pays L T m (f <$> c) Q Ψ := by
  rw [map_eq_pure_bind]
  refine pays_bind h fun x hx => ?_
  exact pays_pure (hf x hx).1 (hf x hx).2

theorem workerOutcome_step {a : String} {o : Report × Option WorkerState} (h : WorkerOutcome o) :
    stepOutcomeCredits a (workerOutcome o) ≤ outcomeCredits a o ∧ StepOutcome (workerOutcome o) := by
  obtain ⟨report, _ | state⟩ := o
  · exact ⟨le_rfl, by simp [StepOutcome, workerOutcome]⟩
  · refine ⟨?_, ?_⟩
    · exact (workerCredits_eq a state).ge
    · rintro _ ⟨⟩
      exact h state rfl

theorem forceOutcome_step {a : String} {o : Report × Option WorkforceState} (h : ForceOutcome o) :
    stepOutcomeCredits a (workforceOutcome o) ≤ forceOutcomeCredits a o ∧
      StepOutcome (workforceOutcome o) := by
  obtain ⟨report, _ | state⟩ := o
  · exact ⟨le_rfl, by simp [StepOutcome, workforceOutcome]⟩
  · refine ⟨?_, ?_⟩
    · exact (forceCredits_eq a state).ge
    · rintro _ ⟨⟩
      exact h state rfl

theorem runners_arun (a : String) (runner : Runner) (config : RunConfig) (job : Job) (pos : Pos) :
    Pays (quietLaw Undecided) (approvals a) 0 (runners.arun runner config job pos)
      (stepOutcomeCredits a) StepOutcome := by
  have hev : ∀ e, Undecided e → Undecided e := fun _ h => h
  cases runner with
  | worker worker =>
    have hworker := (pays_arun hev a worker config job).and_each
      (serves_worker serves_undecided config worker job) rfl
    exact pays_map hworker fun o ho => workerOutcome_step ho
  | workforce force =>
    have hforce := (pays_arunWorkforce hev a force config job).and_each
      (serves_arunWorkforce serves_undecided force config job) rfl
    exact pays_map hforce fun o ho => forceOutcome_step ho

theorem runners_aresume (a : String) (runner : Runner) (config : RunConfig) (state : StepState)
    (decision : Value) (pos : Pos) :
    Pays (quietLaw (OnlyAction (stepAction state) decision)) (approvals a) (stepCredits a state)
      (runners.aresume runner config state decision pos) (stepOutcomeCredits a) StepOutcome := by
  have hserves (tools : List Tool) : Serves (quietLaw (OnlyAction (stepAction state) decision)) tools :=
    serves_quietLaw (fun _ h => OnlyAction.of_undecided h) tools
  match runner, state with
  | .worker worker, .worker state =>
    have hworker := (pays_aresume a worker config state decision).and_each
      (decides_worker hserves config (decidesState_onlyAction state decision) worker) rfl
    have hpays := pays_map (Q := stepOutcomeCredits a) hworker fun o ho => workerOutcome_step ho
    exact hpays.mono (workerCredits_eq a state).le fun _ h => ⟨le_rfl, h⟩
  | .workforce force, .workforce state =>
    have hd : ∀ ws ∈ state.workerState,
        DecidesState (quietLaw (OnlyAction (stepAction (.workforce state)) decision)) ws decision := by
      intro ws hws
      have haction : stepAction (.workforce state) = workerAction ws := by
        rw [stepAction, Option.mem_def.mp hws]
        rfl
      exact haction ▸ decidesState_onlyAction ws decision
    have hforce := (pays_aresumeWorkforce a force config state decision).and_each
      (decides_aresumeWorkforce hserves force config hd) rfl
    have hpays := pays_map (Q := stepOutcomeCredits a) hforce fun o ho => forceOutcome_step ho
    exact hpays.mono (forceCredits_eq a state).le fun _ h => ⟨le_rfl, h⟩
  | .worker _, .workforce _ => exact pays_raise
  | .workforce _, .worker _ => exact pays_raise

theorem runners_honest (a : String) : Honest a runners :=
  ⟨runners_arun a, runners_aresume a⟩

end Blackgeorge.Desk
