import Blackgeorge.Coroutine.Alone
import Blackgeorge.WorkerRunner.Blind
import Blackgeorge.WorkerRunner.Waiting

/-! A worker without tools. It pauses for nothing, and with no tools to run together it
leaves no choice to the scheduler. -/

namespace Blackgeorge.WorkerRunner

open Data Program Coroutine Coro

theorem straight : Sightless fun _ c => Straight (S := sig) c where
  ofExcept r := Straight.ret (S := sig) r
  ask q := straight_query (S := sig) q
  flow id := straight_look (S := sig) fun w => w.flows id
  update f _ := straight_update (S := sig) f
  bind hc hg := Straight.bind hc hg
  attempt hc := Straight.attempt hc

/-- Without tools a plan executes none. -/
theorem planToolCalls_toolless (maxToolCalls : ℕ) (calls : List ToolCall) :
    ∀ (toolCalls : List ToolCall) (plan : ToolPlan), plan.executableCalls = [] →
      ∃ planned, planToolCalls (allowedTools []) maxToolCalls calls toolCalls plan = pure planned ∧
        planned.1.executableCalls = [] := by
  induction calls with
  | nil => exact fun toolCalls plan h => ⟨(plan, toolCalls), rfl, h⟩
  | cons call calls ih =>
    intro toolCalls plan hplan
    unfold planToolCalls
    split_ifs
    · exact ⟨_, rfl, hplan⟩
    · cases hcall : call.error.filter (· ≠ "") with
      | none => exact ih _ _ hplan
      | some error => exact ih _ _ hplan

theorem straight_processTurnResponse (ctx : RunContext) (state : LoopState) (job : Job)
    (response : ModelResponse) :
    Straight (S := sig) (processTurnResponse ctx state job response (allowedTools [])) := by
  apply sightless_processTurnResponse straight
  intro state
  apply sightless_processToolCalls straight
  intro g hg
  obtain ⟨planned, hplanned, hnone⟩ :=
    planToolCalls_toolless ctx.config.maxToolCalls response.toolCalls state.toolCalls {} rfl
  rw [hplanned]
  apply hg planned
  have hgathered : planned.1.gathered = pure [] := by
    rw [ToolPlan.gathered, hnone]
    rfl
  rw [hgathered]
  exact straight.pure []

theorem straight_runLoop (ctx : RunContext) (job : Job) (left : ℕ) :
    ∀ state, Straight (S := sig) (runLoop ctx job [] left state) := by
  induction left with
  | zero =>
    intro state
    exact straight.bind (sightless_failReport straight _ _ _) fun _ => straight.pure _
  | succ left ih =>
    intro state
    refine .act fun w => ?_
    dsimp only [Coro.bind]
    split
    · exact straight.bind (sightless_failReport straight _ _ _) fun _ => straight.pure _
    · refine straight.bind (sightless_compactToLimit straight _ _) fun state => ?_
      refine straight.bind (sightless_acquireTurnResponse straight _ _ _ _) fun acquired => ?_
      obtain ⟨response | _ | report, state⟩ := acquired
      · refine straight.bind (straight_processTurnResponse _ _ _ _) fun turn => ?_
        cases turn with
        | next state => exact ih state
        | report report => exact straight.pure _
        | paused report paused => exact straight.pure _
      · exact ih state
      · exact straight.pure _

variable {worker : Worker} {job : Job} (htoolless : resolveTools worker.toolbelt job = [])

include htoolless

theorem straight_arun (config : RunConfig) : Straight (S := sig) (arun worker config job) := by
  unfold arun
  dsimp only
  split_ifs
  · exact sightless_modelNotSet straight _ _ _ _
  · refine straight.bind (straight.ask _) fun registered => ?_
    refine straight.bind (sightless_emit straight _ _ _ _) fun _ => ?_
    rw [htoolless]
    exact straight_runLoop _ _ _ _

/-- A worker without tools does not pause. -/
theorem arun_toolless {L : Law sig} (hL : Serves L (resolveTools worker.toolbelt job))
    (config : RunConfig) : Each L (arun worker config job) fun outcome => outcome.2 = none := by
  refine (serves_arun hL config).mono ?_
  rintro outcome ⟨registered, houtcome⟩
  cases hpaused : outcome.2 with
  | none => rfl
  | some paused =>
    obtain ⟨p, -, -, tool, htool, -⟩ := (houtcome.paused paused hpaused).pending
    rw [htoolless] at htool
    cases htool

end Blackgeorge.WorkerRunner
