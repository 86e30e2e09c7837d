import Blackgeorge.Coroutine.Lockstep
import Blackgeorge.Program.Environment
import Blackgeorge.Program.Laws
import Blackgeorge.WorkerRunner.Sightless

/-! Two workers that are called alike call their models alike: what one sees of the world
are the flow objects and what has been spent, which can only stop it. -/

namespace Blackgeorge.WorkerRunner

open Data Program Coroutine Coro

/-- Worlds with the same flow objects. -/
def SameFlows (w v : World) : Prop := w.flows = v.flows

abbrev Unseeing {α : Type} (c : Prog α) : Prop := Blind (S := sig) SameFlows c

theorem unseeing : Sightless fun _ c => Unseeing c where
  ofExcept r := blind_ofExcept (S := sig) r
  ask q := blind_query (S := sig) q
  flow id := blind_look fun _ _ h => congrFun h id
  update _ hf := blind_update fun w v h => (hf w).trans (h.trans (hf v).symm)
  bind := blind_bind
  attempt := blind_attempt

theorem unseeing_gathered (plan : ToolPlan) : Unseeing plan.gathered := by
  refine unseeing.bind (blind_parAll ?_) fun rs => ?_
  · intro c hc
    obtain ⟨⟨call, tool⟩, -, rfl⟩ := List.mem_map.mp hc
    exact sightless_executeTool unseeing _ _ _
  · cases rs.mapM id with
    | ok as => exact unseeing.pure as
    | error e => exact unseeing.raise e

theorem unseeing_processTurnResponse (ctx : RunContext) (state : LoopState) (job : Job)
    (response : ModelResponse) (allowed : String → Option Tool) :
    Unseeing (processTurnResponse ctx state job response allowed) := by
  apply sightless_processTurnResponse unseeing
  intro state
  apply sightless_processToolCalls unseeing
  intro g hg
  exact unseeing.bind (sightless_planToolCalls unseeing _ _ _ _ _) fun planned =>
    hg planned (unseeing_gathered planned.1)

/-! ### The loop -/

/-- The law of programs that call no model. -/
def speechless : Law sig where
  step _ _ := True
  admits _ _ := True
  event e := isModelCall e = false

theorem permits_speechless : Permits speechless where
  refl _ := trivial
  eventLists _ _ := trivial
  storedEvents _ _ := trivial
  routine q a hq := by
    cases q <;> first | rfl | exact False.elim hq

/-- The rest of a run that calls no model and does not pause. -/
def Ends (c : Prog (Report × Option WorkerState)) : Prop :=
  Each speechless c fun outcome => outcome.2 = none

theorem ends_overBudget (ctx : RunContext) (state : LoopState) (message : String) :
    Ends (do pure (← failReport ctx state message, none)) := by
  have hfail : Each speechless (failReport ctx state message) fun _ => True :=
    each_bind (each_emit permits_speechless _ _ _ _) fun _ _ => each_pure trivial
  exact each_bind hfail fun _ _ => each_pure rfl

/-- What stops one of two runs and not the other is a cost budget. -/
def Budgeted (config : RunConfig) (c : Prog (Report × Option WorkerState)) : Prop :=
  config.maxCostUsd ≠ none ∧ Ends c

/-- Runs of the program keep pace with each other, but for a cost budget. -/
abbrev Paced (config : RunConfig) (c : Prog (Report × Option WorkerState)) : Prop :=
  Lockstep (S := sig) SameFlows (Budgeted config) c c

/-- What an iteration does once its budget is checked. -/
theorem paced_iteration (ctx : RunContext) (job : Job) (tools : List Tool) {left : ℕ}
    (hleft : ∀ state, Paced ctx.config (runLoop ctx job tools left state)) (state : LoopState) :
    Paced ctx.config (do
      let state ← compactToLimit ctx { state with iteration := state.iteration + 1 }
      match ← acquireTurnResponse ctx state job tools with
      | (.report report, _) => pure (report, none)
      | (.again, state) => runLoop ctx job tools left state
      | (.response response, state) =>
        match ← processTurnResponse ctx state job response (allowedTools tools) with
        | .report report => pure (report, none)
        | .paused report paused => pure (report, some paused)
        | .next state => runLoop ctx job tools left state) := by
  refine (sightless_compactToLimit unseeing _ _).bind fun state => ?_
  refine (sightless_acquireTurnResponse unseeing _ _ _ _).bind fun acquired => ?_
  obtain ⟨response | _ | report, state⟩ := acquired
  · refine (unseeing_processTurnResponse _ _ _ _ _).bind fun turn => ?_
    cases turn with
    | next state => exact hleft state
    | report report => exact .ret _
    | paused report paused => exact .ret _
  · exact hleft state
  · exact .ret _

theorem paced_runLoop (ctx : RunContext) (job : Job) (tools : List Tool) (left : ℕ) :
    ∀ state, Paced ctx.config (runLoop ctx job tools left state) := by
  induction left with
  | zero =>
    intro state
    exact (unseeing.bind (sightless_failReport unseeing _ _ _) fun _ => unseeing.pure _).lockstep
  | succ left ih =>
    intro state
    refine .act (fun _ _ h => h) fun w v hw => ?_
    dsimp only [Coro.bind]
    -- what was spent may differ between the worlds
    have hpass := paced_iteration ctx job tools ih state
    cases hbudget : ctx.config.maxCostUsd with
    | none => exact hpass
    | some budget =>
      have hset : ctx.config.maxCostUsd ≠ none := by simp [hbudget]
      by_cases hover : budget < (w.totals ctx.config.usageTotals).costUsd.getD 0
      · refine .left ⟨hset, ?_⟩
        rw [Option.filter_some, if_pos (by simpa using hover)]
        exact ends_overBudget _ _ _
      · by_cases hover' : budget < (v.totals ctx.config.usageTotals).costUsd.getD 0
        · refine .right ⟨hset, ?_⟩
          rw [Option.filter_some, if_pos (by simpa using hover')]
          exact ends_overBudget _ _ _
        · rw [Option.filter_some, if_neg (by simpa using hover), Option.filter_some,
            if_neg (by simpa using hover')]
          exact hpass

theorem paced_enterLoop (worker : Worker) (config : RunConfig) (modelName : String) (state : LoopState)
    (job : Job) : Paced config (enterLoop worker config modelName state job) :=
  (sightless_emit unseeing _ _ _ _).bind fun _ => paced_runLoop ⟨config, modelName⟩ _ _ _ _

theorem paced_arun (worker : Worker) (config : RunConfig) (job : Job) :
    Paced config (arun worker config job) := by
  unfold arun
  dsimp only
  split_ifs
  · exact (sightless_modelNotSet unseeing _ _ _ _).lockstep
  · exact (unseeing.ask _).bind fun registered => paced_enterLoop _ _ _ _ _

/-! ### The resume -/

theorem unseeing_resolvePending (worker : Worker) (config : RunConfig) (job : Job)
    (pending : PendingAction) (decision : Value) :
    Unseeing (resolvePending worker config job pending decision) := by
  have hrefuse (error : String) : Unseeing (do
      config.emit "tool.failed" pending.toolCall.name
        [("tool_call_id", .str pending.toolCall.id), ("error", .str error)]
      pure (pending.toolCall, ({ error := some error } : ToolResult))) :=
    unseeing.bind (sightless_emit unseeing _ _ _ _) fun _ => unseeing.pure _
  refine unseeing.bind (unseeing.ask _) fun _ => ?_
  dsimp only
  split
  · exact hrefuse _
  · split_ifs
    · exact hrefuse _
    all_goals
      refine unseeing.bind (sightless_emit unseeing _ _ _ _) fun _ => ?_
      refine unseeing.bind (sightless_executeTool unseeing _ _ _) fun result => ?_
      exact unseeing.bind (sightless_emitToolResult unseeing _ _ _ _) fun _ => unseeing.pure _

theorem paced_resumePending (worker : Worker) (config : RunConfig) (state : WorkerState)
    (pending : PendingAction) (decision : Value) :
    Paced config (resumePending worker config state pending decision) := by
  refine (unseeing_resolvePending _ _ _ _ _).bind fun resolved => ?_
  refine (unseeing.ofExcept _).bind fun toolCalls => ?_
  dsimp only
  split_ifs
  · exact (sightless_modelNotSet unseeing _ _ _ _).lockstep
  · exact (unseeing.ask _).bind fun registered => paced_enterLoop _ _ _ _ _

theorem paced_aresume (worker : Worker) (config : RunConfig) (state : WorkerState) (decision : Value) :
    Paced config (aresume worker config state decision) := by
  have hconfig : (resumeConfig config state.runId).maxCostUsd = config.maxCostUsd := by
    unfold resumeConfig
    split_ifs <;> rfl
  refine (sightless_modifyTotals unseeing _ _).bind fun _ => ?_
  split
  · exact .ret _
  · refine (paced_resumePending _ _ _ _ _).mono fun c hc => ?_
    exact ⟨hconfig ▸ hc.1, hc.2⟩

end Blackgeorge.WorkerRunner
