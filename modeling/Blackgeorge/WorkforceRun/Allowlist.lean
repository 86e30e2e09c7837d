import Blackgeorge.WorkerRunner.Resolution
import Blackgeorge.WorkforceRun.Chains

/-! Who may hand over to whom. The swarm resolves the handoff tool of a stint once more, under
its own job; the worker's loop resolved it under the job of its call. -/

namespace Blackgeorge.WorkforceRun

open Data Program Coroutine Coro WorkerRunner

variable {ok : ∀ q, Answer q → Prop} {force : Workforce} {config : RunConfig} {runId : RunId}
  {budget count : ℕ} {history : List Report} {w w' : World} {stints : List Stint} {r : Outcome}

/-! ### The offered tool -/

/-- The job that a call's loop runs under. -/
def Call.job : Call → Job
  | .run job => job
  | .resume state _ => state.job

/-- The tool that a worker's loop has under a name in a stint. -/
def Stint.offered (stint : Stint) (name : String) : Option Tool :=
  allowedTools (resolveTools stint.worker.toolbelt stint.call.job) name

/-- The enum of a tool's `agent_name`. -/
def agentNames (tool : Tool) : Option (List String) := do
  let properties ← (tool.schema.get "properties").bind dict?
  let agentName ← (properties.get "agent_name").bind dict?
  let rawEnum ← (agentName.get "enum").bind list?
  pure ((rawEnum.filterMap Value.str?).filter (· ≠ ""))

/-- The swarm's resolution is the loop's. -/
theorem handoffTool_eq (worker : Worker) (job : Job) (name : String) :
    handoffTool worker job name = allowedTools (resolveTools worker.toolbelt job) name := by
  unfold handoffTool allowedTools resolveTools
  cases job.toolsOverride with
  | some refs => rfl
  | none => exact (find?_reverse worker.toolbelt.nodup name).symm

theorem handoffAllowedAgents_eq (worker : Worker) (job : Job) (name : String) :
    handoffAllowedAgents worker job name =
      (allowedTools (resolveTools worker.toolbelt job) name).bind fun tool =>
        if tool.requiresHandoff then agentNames tool else none := by
  unfold handoffAllowedAgents
  rw [handoffTool_eq, Option.bind_eq_bind]
  refine Option.bind_congr fun tool _ => ?_
  cases tool.requiresHandoff <;> rfl

/-! ### Lawful handoffs -/

/-- The stint waits for a handoff. -/
def Stint.Asks (stint : Stint) (pending : PendingAction) : Prop :=
  ∃ report state, stint.result = .ok (report, some state) ∧ report.status = .paused ∧
    report.pendingAction = some pending ∧ pending.type = .handoff

def handoffTarget (pending : PendingAction) : Option String :=
  (pending.toolCall.arguments.get "agent_name").bind Value.str?

/-- If the handoff tool that the stint was offered has an enum of agents, the target is in it. -/
def Stint.Allows (stint : Stint) (pending : PendingAction) (target : String) : Prop :=
  ∀ tool agents, stint.offered pending.toolCall.name = some tool → tool.requiresHandoff = true →
    agentNames tool = some agents → target ∈ agents

/-- A handoff to a registered worker that the offered tool allows. -/
def Stint.Lawful (force : Workforce) (stint : Stint) (pending : PendingAction) (target : String) : Prop :=
  handoffTarget pending = some target ∧ (force.workerByName target).isSome ∧ stint.Allows pending target

/-- The handoff between two stints. -/
def Taken (force : Workforce) (stint next : Stint) : Prop :=
  ∃ pending, stint.Asks pending ∧ stint.Lawful force pending next.worker.name ∧
    force.workerByName next.worker.name = some next.worker

/-- All handoffs are lawful, and a stint that asks for another one is the last and fails. -/
structure Guarded (force : Workforce) (chains : List (List Stint)) (r : Outcome) : Prop where
  taken : ∀ chain ∈ chains, chain.IsChain (Taken force)
  refused : ∀ chain ∈ chains, ∀ stint ∈ chain, ∀ pending, stint.Asks pending →
    (∀ target, ¬ stint.Lawful force pending target) →
    (∃ chains' stints, chains = chains' ++ [stints ++ [stint]]) ∧
      ∃ report, r = .ok (report, none) ∧ report.status = .failed

/-- The swarm allows no registered worker that the enum of the offered tool excludes. -/
def Stint.NoWider (force : Workforce) (stint : Stint) : Prop :=
  ∀ name agents, handoffAllowedAgents stint.worker stint.call.job name = some agents →
    ∃ agents', handoffAllowedAgents stint.worker stint.job name = some agents' ∧
      ∀ agent ∈ agents', (force.workerByName agent).isSome → agent ∈ agents

theorem Stint.noWider_of_run {stint : Stint} (h : stint.call = .run stint.job) : stint.NoWider force := by
  intro name agents hagents
  rw [h] at hagents
  exact ⟨agents, hagents, fun agent hagent _ => hagent⟩

/-! ### What the transition checks -/

theorem handoffTransition_some {report : Report} {worker next : Worker} {job nextJob : Job}
    (h : handoffTransition force report job worker = .ok (some (next, nextJob))) :
    ∃ pending, report.pendingAction = some pending ∧ pending.type = .handoff ∧
      handoffTarget pending = some next.name ∧ force.workerByName next.name = some next ∧
      ∀ agents, handoffAllowedAgents worker job pending.toolCall.name = some agents →
        next.name ∈ agents := by
  unfold handoffTransition at h
  split at h
  · cases h
  · next pending hpending =>
    obtain ⟨hpending, htype⟩ := Option.filter_eq_some_iff.mp hpending
    split at h
    · cases h
    · next target htarget =>
      obtain ⟨htarget, -⟩ := Option.filter_eq_some_iff.mp htarget
      split_ifs at h with hallowed
      split at h
      · cases h
      · next found hfound =>
        obtain ⟨rfl, rfl⟩ := Prod.mk.inj (Option.some.inj (Except.ok.inj h))
        obtain ⟨hname, -, hregistered⟩ := swarmWorker_ok hfound
        rw [hname]
        refine ⟨pending, hpending, by simpa using htype, htarget, hregistered, fun agents hagents => ?_⟩
        simpa [hagents] using hallowed

/-- A pending handoff leads to another worker or to an error. -/
theorem handoffTransition_pending {report : Report} {worker : Worker} {job : Job}
    {pending : PendingAction} (hpending : report.pendingAction = some pending)
    (htype : pending.type = .handoff) :
    (∃ e, handoffTransition force report job worker = .error e) ∨
      ∃ next, handoffTransition force report job worker = .ok (some next) := by
  unfold handoffTransition
  have hfilter : report.pendingAction.filter (·.type = .handoff) = some pending := by
    simp [hpending, htype]
  rw [hfilter]
  dsimp only
  split
  · exact .inl ⟨_, rfl⟩
  · split_ifs
    · exact .inl ⟨_, rfl⟩
    · split
      · exact .inl ⟨_, rfl⟩
      · exact .inr ⟨_, rfl⟩

theorem Stint.taken_of_handsOver {stint next : Stint} (hwider : stint.NoWider force)
    (h : stint.handsOver force = some (next.worker, next.job)) : Taken force stint next := by
  obtain ⟨report, state, hresult, hpaused, ht⟩ := Stint.handsOver_some h
  obtain ⟨pending, hpending, htype, htarget, hregistered, hallowed⟩ := handoffTransition_some ht
  refine ⟨pending, ⟨report, state, hresult, hpaused, hpending, htype⟩, ⟨htarget, ?_, ?_⟩, hregistered⟩
  · rw [hregistered]
    rfl
  · intro tool agents htool hhandoff hagents
    have hoffered : handoffAllowedAgents stint.worker stint.call.job pending.toolCall.name = some agents := by
      rw [handoffAllowedAgents_eq]
      unfold Stint.offered at htool
      simp [htool, hhandoff, hagents]
    obtain ⟨agents', hchecked, hsubset⟩ := hwider _ _ hoffered
    exact hsubset _ (hallowed agents' hchecked) (by rw [hregistered]; rfl)

theorem Stint.Asks.unique {stint : Stint} {pending pending' : PendingAction} (h : stint.Asks pending)
    (h' : stint.Asks pending') : pending = pending' := by
  obtain ⟨report, state, hresult, -, hpending, -⟩ := h
  obtain ⟨report', state', hresult', -, hpending', -⟩ := h'
  obtain ⟨rfl, -⟩ := Prod.mk.inj (Except.ok.inj (hresult.symm.trans hresult'))
  exact Option.some.inj (hpending.symm.trans hpending')

/-- Behind the first stint of a chain all are runs of the job that the swarm is at. -/
theorem Chain.tail_runs (h : Chain force config runId ok budget count history w stints r w') :
    ∀ stint ∈ stints.tail, stint.call = .run stint.job := by
  induction h with
  | last _ _ _ => simp
  | @hand count history w stint w₁ next stints r w' _ _ hnext _ _ ih =>
    intro stint' hmem
    rcases List.mem_cons.mp hmem with rfl | hmem
    · exact hnext
    · exact ih stint' hmem

theorem Chain.noWider (h : Chain force config runId ok budget count history w stints r w')
    (hwider : ∀ stint ∈ stints.head?, stint.NoWider force) : ∀ stint ∈ stints, stint.NoWider force := by
  have htail := h.tail_runs
  cases stints with
  | nil => simp
  | cons first stints =>
    intro stint hmem
    rcases List.mem_cons.mp hmem with rfl | hmem
    · exact hwider stint rfl
    · exact Stint.noWider_of_run (htail stint hmem)

/-- A chain takes lawful handoffs only, and fails where another one is asked for. -/
theorem Chain.guarded (h : Chain force config runId ok budget count history w stints r w')
    (hhead : ∀ stint ∈ stints.head?, stint.NoWider force) :
    stints.IsChain (Taken force) ∧ ∀ stint ∈ stints, ∀ pending, stint.Asks pending →
      (∀ target, ¬ stint.Lawful force pending target) →
      (∃ earlier, stints = earlier ++ [stint]) ∧ ∃ report, r = .ok (report, none) ∧
        report.status = .failed := by
  have hwider := h.noWider hhead
  clear hhead
  induction h with
  | @last count history w stint w₁ r w' hcall hend hclose =>
    refine ⟨.singleton _, fun stint' hmem pending hasks hunlawful => ?_⟩
    obtain rfl := List.mem_singleton.mp hmem
    refine ⟨⟨[], rfl⟩, ?_⟩
    obtain ⟨report, state, hresult, hpaused, hpending, htype⟩ := hasks
    unfold Stint.close at hclose
    rw [hresult] at hclose
    have hclose' : Runs (S := sig) ok (swarmContinue force config runId (budget - count) count history
      stint'.worker stint'.job (report, some state)) w₁ [] r w' := hclose
    unfold swarmContinue at hclose'
    dsimp only at hclose'
    rw [if_pos hpaused] at hclose'
    rcases @handoffTransition_pending force report stint'.worker stint'.job pending hpending htype with
      ⟨e, ht⟩ | ⟨⟨next, nextJob⟩, ht⟩
    · rw [ht] at hclose'
      cases hclose'
      refine ⟨_, rfl, ?_⟩
      unfold mergeSwarmReports
      split_ifs <;> rfl
    · -- a handoff that the swarm would take is lawful
      have hover : stint'.handsOver force = some (next, nextJob) := by
        unfold Stint.handsOver
        rw [hresult]
        exact SwarmTurn.handsOver_of hpaused ht
      obtain ⟨pending', hasks', hlawful, -⟩ :=
        @Stint.taken_of_handsOver force stint' ⟨next, nextJob, .run nextJob, [], stint'.result⟩
          (hwider stint' hmem) hover
      obtain rfl := hasks'.unique ⟨report, state, hresult, hpaused, hpending, htype⟩
      exact absurd hlawful (hunlawful _)
  | @hand count history w stint w₁ next stints r w' hcall hover hnext hcount hrest ih =>
    have htaken := Stint.taken_of_handsOver (hwider stint List.mem_cons_self) hover
    obtain ⟨hchain, hrefused⟩ := ih fun stint' hmem => hwider stint' (List.mem_cons_of_mem _ hmem)
    refine ⟨.cons_cons htaken hchain, fun stint' hmem pending hasks hunlawful => ?_⟩
    rcases List.mem_cons.mp hmem with rfl | hmem
    · obtain ⟨pending', hasks', hlawful, -⟩ := htaken
      obtain rfl := hasks'.unique hasks
      exact absurd hlawful (hunlawful _)
    · obtain ⟨⟨earlier, hearlier⟩, hfailed⟩ := hrefused stint' hmem pending hasks hunlawful
      exact ⟨⟨stint :: earlier, by rw [hearlier]; rfl⟩, hfailed⟩

/-- Where no resumed worker's tool is checked against a wider one, every handoff of a swarm
goes to a registered worker that the tool its worker was offered allows, and a stint that
asks for any other fails the run. -/
theorem swarmCalls_guarded {kind : RunConfig → Prop} {chains : List (List Stint)}
    (h : SwarmCalls ok force kind chains r)
    (hwider : ∀ chain ∈ chains, ∀ stint ∈ chain.head?, stint.NoWider force) : Guarded force chains r := by
  induction h with
  | @run config job w stint stints r w' _ _ _ _ hchain =>
    obtain ⟨htaken, hrefused⟩ := hchain.guarded (hwider _ (List.mem_singleton_self _))
    constructor
    · intro chain hmem
      obtain rfl := List.mem_singleton.mp hmem
      exact htaken
    · intro chain hmem stint' hstint pending hasks hunlawful
      obtain rfl := List.mem_singleton.mp hmem
      obtain ⟨⟨earlier, hearlier⟩, hfailed⟩ := hrefused stint' hstint pending hasks hunlawful
      exact ⟨⟨[], earlier, by rw [hearlier]; rfl⟩, hfailed⟩
  | @resume chains report state state' current count history workerState config decision w stint stints
      r w' hcalls hstored hstage _ _ _ _ _ hchain ih =>
    obtain ⟨htaken, hrefused⟩ := hchain.guarded (hwider _ (by simp))
    have hbefore := ih fun chain hmem => hwider chain (List.mem_append_left _ hmem)
    constructor
    · intro chain hmem
      rcases List.mem_append.mp hmem with hmem | hmem
      · exact hbefore.taken chain hmem
      · obtain rfl := List.mem_singleton.mp hmem
        exact htaken
    · intro chain hmem stint' hstint pending hasks hunlawful
      rcases List.mem_append.mp hmem with hmem | hmem
      · -- an earlier chain has paused
        obtain ⟨-, failed, hfailed, -⟩ := hbefore.refused chain hmem stint' hstint pending hasks hunlawful
        cases hfailed
      · obtain rfl := List.mem_singleton.mp hmem
        obtain ⟨⟨earlier, hearlier⟩, hfailed⟩ := hrefused stint' hstint pending hasks hunlawful
        exact ⟨⟨chains, earlier, by rw [hearlier]⟩, hfailed⟩


/-! ### A wider override -/

/-- A tool that hands over to the agents of its enum. -/
def transferTo (agents : List String) : Tool :=
  { transferTool with
    schema := [("properties", .dict [("agent_name", .dict [("enum", .list (agents.map .str))])])] }

def gatekeeper : Worker :=
  { plainWorker with
    name := "gatekeeper", toolbelt := { tools := [transferTo ["helper"], guardedTool] }, memoryScope := "worker:gatekeeper", name_ne := by decide }

def reviewer : Worker :=
  { plainWorker with
    name := "reviewer", toolbelt := noTools, memoryScope := "worker:reviewer", name_ne := by decide }

def gatedTeam : Workforce where
  workers := [gatekeeper, helper, reviewer]
  mode := .swarm
  workers_ne := by simp
  nodup := by decide
  manager_ok := by simp

/-- A job under whose override the reviewer may be handed over to. -/
def wideJob : Job :=
  { plainJob with toolsOverride := some [.tool (transferTo ["helper", "reviewer"]), .name "deploy"] }

/-- What the swarm makes of a last stint. -/
def closedIn (stint : Stint × World) : Trace sig × Outcome × World :=
  runIn (plainAnswers plainModel) (stint.1.close gatedTeam plainConfig "run" 10 0 []) stint.2

/-- The gatekeeper waits for a confirmation. -/
def waitingStint : Stint × World :=
  stintIn plainConfig (plainAnswers guardedModel) gatekeeper wideJob (.run wideJob) {}

def stateOf : Outcome → Option WorkforceState
  | .ok (_, state) => state
  | .error _ => none

def waitingState : WorkforceState := (stateOf (closedIn waitingStint).2.1).get (by decide +kernel)

def gatekeeperState : WorkerState := waitingState.workerState.get (by decide +kernel)

/-- It is resumed, and hands over to the reviewer. -/
def handingStint : Stint × World :=
  stintIn plainConfig (plainAnswers (handingModel "reviewer")) gatekeeper waitingState.job
    (.resume gatekeeperState (.bool true)) {}

theorem swarmCalls_waiting :
    SwarmCalls (fun _ _ => True) gatedTeam (fun _ => True) [[waitingStint.1]] (closedIn waitingStint).2.1 := by
  have hsilent : (closedIn waitingStint).1 = [] := by decide +kernel
  have hclose : Runs (S := sig) (fun _ _ => True) (waitingStint.1.close gatedTeam plainConfig "run" 10 0 [])
      waitingStint.2 [] (closedIn waitingStint).2.1 (closedIn waitingStint).2.2 :=
    hsilent ▸ runIn_runs (fun _ _ => trivial) _ _
  exact .run trivial rfl rfl rfl (.last (runs_stintIn _ _ _ _ _ _) (.inl rfl) hclose)

def swarmStage : Stage → Option (String × ℕ × ℕ)
  | .swarm name count history => some (name, count, history.length)
  | _ => none

theorem waitingState_stage : waitingState.stage = .swarm "gatekeeper" 0 [] := by
  have hstage : swarmStage waitingState.stage = some ("gatekeeper", 0, 0) := by decide +kernel
  cases h : waitingState.stage with
  | swarm name count history =>
    rw [h] at hstage
    obtain ⟨rfl, rfl, hlen⟩ : name = "gatekeeper" ∧ count = 0 ∧ history.length = 0 := by
      simpa [swarmStage] using hstage
    rw [List.eq_nil_of_length_eq_zero hlen]
  | manager => rw [h] at hstage; cases hstage
  | worker => rw [h] at hstage; cases hstage
  | collaborate => rw [h] at hstage; cases hstage
  | unknown => rw [h] at hstage; cases hstage

/-- The tool that a stint's pending action calls. -/
def askedTool (stint : Stint) : Option String :=
  match stint.result with
  | .ok (report, _) => report.pendingAction.map fun pending => pending.toolCall.name
  | .error _ => none

/-- The gatekeeper hands over to the helper at once. -/
def greetingStint : Stint × World :=
  stintIn plainConfig (plainAnswers (handingModel "helper")) gatekeeper plainJob (.run plainJob) {}

theorem swarmCalls_guarded_greeting : ∃ next stints r,
    SwarmCalls (fun _ _ => True) gatedTeam (fun _ => True) [greetingStint.1 :: next :: stints] r ∧
      Guarded gatedTeam [greetingStint.1 :: next :: stints] r := by
  obtain ⟨⟨next, nextJob⟩, hnext⟩ : ∃ next, greetingStint.1.handsOver gatedTeam = some next :=
    Option.isSome_iff_exists.mp (by decide +kernel)
  have hcontinue := @runIn_runs _ (fun _ _ => True) (plainAnswers plainModel) (fun _ _ => trivial)
    (callThenContinue gatedTeam plainConfig "run" 10 1 (greetingStint.1.added []) next nextJob (.run nextJob))
    greetingStint.2
  obtain ⟨last, stints, rfl, rfl, hcall, -, hrest⟩ := exists_chain _ rfl hcontinue
  have hchain : Chain gatedTeam plainConfig "run" (fun _ _ => True) (swarmHandoffBudget plainConfig) 0 [] {}
      (greetingStint.1 :: last :: stints) _ _ :=
    .hand (runs_stintIn _ _ _ _ _ _) hnext hcall (by decide) hrest
  have hcalls : SwarmCalls (fun _ _ => True) gatedTeam (fun _ => True) [greetingStint.1 :: last :: stints] _ :=
    .run trivial rfl rfl rfl hchain
  refine ⟨last, stints, _, hcalls, swarmCalls_guarded hcalls ?_⟩
  intro chain hmem stint hstint
  obtain rfl := List.mem_singleton.mp hmem
  obtain rfl := Option.some.inj hstint
  exact Stint.noWider_of_run rfl

/-- The override's tool, which the resumed gatekeeper does not have any more, lets it hand over
to an agent that its own one excludes. -/
theorem not_guarded_wider : ∃ chains r,
    SwarmCalls (fun _ _ => True) gatedTeam (fun _ => True) chains r ∧ ¬ Guarded gatedTeam chains r := by
  have hover : ((handingStint.1.handsOver gatedTeam).map fun next => next.1.name) = some "reviewer" := by
    decide +kernel
  obtain ⟨⟨next, nextJob⟩, hnext, hname⟩ := Option.map_eq_some_iff.mp hover
  -- the reviewer's stint may end in any way
  have hcontinue := @runIn_runs _ (fun _ _ => True) (plainAnswers plainModel) (fun _ _ => trivial)
    (callThenContinue gatedTeam plainConfig "run" 10 1 (handingStint.1.added []) next nextJob (.run nextJob))
    handingStint.2
  obtain ⟨last, stints, rfl, rfl, hcall, -, hrest⟩ := exists_chain _ rfl hcontinue
  have hstate : stateOf (closedIn waitingStint).2.1 = some waitingState := (Option.some_get _).symm
  obtain ⟨report, hpaused⟩ : ∃ report, (closedIn waitingStint).2.1 = .ok (report, some waitingState) := by
    generalize (closedIn waitingStint).2.1 = r at hstate
    obtain e | ⟨report, state⟩ := r
    · cases hstate
    · obtain rfl : state = some waitingState := hstate
      exact ⟨report, rfl⟩
  have hresumed : resumedWorker gatedTeam waitingState gatekeeperState = .ok handingStint.1.worker := by
    rw [resumedWorker, waitingState_stage]
    rfl
  have hhand : Chain gatedTeam plainConfig "run" (fun _ _ => True) 10 0 [] {}
      (handingStint.1 :: last :: stints) _ _ :=
    .hand (runs_stintIn _ _ _ _ _ _) hnext hcall (by decide) hrest
  have hid : waitingState.runId = "run" := by decide +kernel
  have hconfig : resumeConfig plainConfig waitingState.runId = plainConfig := if_pos hid.symm
  have hbudget : swarmHandoffBudget (resumeConfig plainConfig waitingState.runId) = 10 := by
    rw [hconfig]
    rfl
  rw [← hid, ← hconfig, ← hbudget] at hhand
  have hcalls := SwarmCalls.resume (hpaused ▸ swarmCalls_waiting) .same waitingState_stage
    (Option.some_get _).symm hresumed trivial rfl rfl hhand
  refine ⟨_, _, hcalls, fun h => ?_⟩
  obtain ⟨htaken, -⟩ := List.isChain_cons_cons.mp (h.taken _ (List.mem_append_right _ (List.mem_singleton_self _)))
  obtain ⟨pending, ⟨report, state, hresult, -, hpending, -⟩, ⟨-, -, hallows⟩, -⟩ := htaken
  have hasked : askedTool handingStint.1 = some "transfer" := by decide +kernel
  have hoffered : ((handingStint.1.offered "transfer").map fun tool => (tool.requiresHandoff, agentNames tool)) =
      some (true, some ["helper"]) := by decide +kernel
  obtain ⟨tool, htool, hagents⟩ := Option.map_eq_some_iff.mp hoffered
  obtain ⟨hhandoff, hnames⟩ := Prod.mk.inj hagents
  unfold askedTool at hasked
  rw [hresult] at hasked
  dsimp only at hasked
  rw [hpending] at hasked
  have hname' : pending.toolCall.name = "transfer" := Option.some.inj hasked
  have hin := hallows tool ["helper"] (hname' ▸ htool) hhandoff hnames
  rw [hname] at hin
  exact absurd hin (by decide)

end Blackgeorge.WorkforceRun
