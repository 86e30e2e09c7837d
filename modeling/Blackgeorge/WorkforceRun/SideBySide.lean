import Blackgeorge.WorkerRunner.Blind
import Blackgeorge.WorkerRunner.Compaction
import Blackgeorge.WorkforceRun.Allowlist

/-! Two runs of a swarm side by side, under teams that differ in instructions: pairs of
stints, whose earlier workers say the same and whose later ones are answered alike. -/

namespace Blackgeorge.WorkforceRun

open Data Program Coroutine Coro WorkerRunner

/-! ### Teams that differ in instructions -/

/-- Workers that differ in their instructions only. -/
def SameRole (worker worker' : Worker) : Prop :=
  worker' = { worker with instructions := worker'.instructions }

/-- Teams whose workers differ in their instructions only. -/
structure SameTeam (force force' : Workforce) : Prop where
  workers : List.Forall₂ SameRole force.workers force'.workers
  manager : Option.Rel SameRole force.manager force'.manager

/-- Jobs that differ in their histories only. -/
def SameTask (job job' : Job) : Prop := job' = { job with initialMessages := job'.initialMessages }

theorem SameRole.name {worker worker' : Worker} (h : SameRole worker worker') :
    worker'.name = worker.name := by
  rw [h]

theorem SameRole.toolbelt {worker worker' : Worker} (h : SameRole worker worker') :
    worker'.toolbelt = worker.toolbelt := by
  rw [h]

theorem SameRole.symm {worker worker' : Worker} (h : SameRole worker worker') :
    SameRole worker' worker := by
  rw [SameRole, h]

theorem SameTask.refl (job : Job) : SameTask job job := rfl

theorem SameTask.symm {job job' : Job} (h : SameTask job job') : SameTask job' job := by
  rw [SameTask, h]

theorem SameTask.toolsOverride {job job' : Job} (h : SameTask job job') :
    job'.toolsOverride = job.toolsOverride := by
  rw [h]

theorem sameRole_find? {workers workers' : List Worker} (h : List.Forall₂ SameRole workers workers')
    (name : String) :
    Option.Rel SameRole (workers.find? (·.name = name)) (workers'.find? (·.name = name)) := by
  induction h with
  | nil => exact .none
  | @cons worker worker' workers workers' hworker _ ih =>
    rw [List.find?_cons, List.find?_cons, hworker.name]
    by_cases hname : worker.name = name
    · simpa [hname] using Option.Rel.some hworker
    · simpa [hname] using ih

variable {force force' : Workforce}

theorem SameTeam.workerByName (h : SameTeam force force') (name : String) :
    Option.Rel SameRole (force.workerByName name) (force'.workerByName name) := by
  unfold Workforce.workerByName
  have hworkers := sameRole_find? h.workers name
  have hmanager := h.manager
  cases hm : force.manager with
  | none =>
    rw [hm] at hmanager
    cases hm' : force'.manager with
    | none => exact hworkers
    | some m' =>
      rw [hm'] at hmanager
      cases hmanager
  | some m =>
    rw [hm] at hmanager
    cases hm' : force'.manager with
    | none =>
      rw [hm'] at hmanager
      cases hmanager
    | some m' =>
      rw [hm'] at hmanager
      cases hmanager with
      | some hrole =>
        dsimp only
        rw [hrole.name]
        split_ifs
        · exact .some hrole
        · exact hworkers

theorem SameTeam.leader (h : SameTeam force force') : SameRole (WorkforceRun.manager force) (WorkforceRun.manager force') := by
  unfold WorkforceRun.manager
  have hmanager := h.manager
  cases hm : force.manager with
  | none =>
    rw [hm] at hmanager
    cases hm' : force'.manager with
    | none =>
      obtain ⟨first, rest, hworkers⟩ := List.exists_cons_of_ne_nil force.workers_ne
      obtain ⟨first', rest', hworkers'⟩ := List.exists_cons_of_ne_nil force'.workers_ne
      have hall := h.workers
      rw [hworkers, hworkers'] at hall
      cases hall with
      | cons hfirst _ => simpa [Workforce.first, hworkers, hworkers'] using hfirst
    | some m' =>
      rw [hm'] at hmanager
      cases hmanager
  | some m =>
    rw [hm] at hmanager
    cases hm' : force'.manager with
    | none =>
      rw [hm'] at hmanager
      cases hmanager
    | some m' =>
      rw [hm'] at hmanager
      cases hmanager with
      | some hrole => exact hrole

theorem SameTeam.symm (h : SameTeam force force') : SameTeam force' force where
  workers := h.workers.flip.imp fun _ _ => SameRole.symm
  manager := by
    have hmanager := h.manager
    generalize force.manager = m at hmanager
    generalize force'.manager = m' at hmanager
    cases hmanager with
    | some hrole => exact .some hrole.symm
    | none => exact .none

/-- What one team has registered, the other one has too. -/
theorem SameTeam.registered (h : SameTeam force force') {name : String} {worker : Worker}
    (hworker : swarmWorker force name = .ok worker) :
    ∃ worker', swarmWorker force' name = .ok worker' := by
  obtain ⟨-, hname, hfound⟩ := swarmWorker_ok hworker
  have hrel := h.workerByName name
  rw [hfound] at hrel
  unfold swarmWorker
  rw [if_neg hname]
  cases hfound' : force'.workerByName name with
  | none =>
    rw [hfound'] at hrel
    cases hrel
  | some worker' => exact ⟨worker', rfl⟩

/-- Workers of one role find the same worker, up to its instructions. -/
theorem SameTeam.found (h : SameTeam force force') {name : String} {worker worker' : Worker}
    (hworker : swarmWorker force name = .ok worker) (hworker' : swarmWorker force' name = .ok worker') :
    SameRole worker worker' := by
  have hfound := h.workerByName name
  rw [(swarmWorker_ok hworker).2.2, (swarmWorker_ok hworker').2.2] at hfound
  cases hfound with
  | some hrole => exact hrole

/-! ### Stints side by side -/

/-- A worker's stint in each of two runs, after a number of handoffs. -/
structure StintPair where
  handoffs : ℕ
  left : Stint
  right : Stint

/-- The workers produce the same messages but for those of the system. -/
def StintPair.SaysSame (pair : StintPair) : Prop :=
  ∀ outcome outcome', pair.left.result = .ok outcome → pair.right.result = .ok outcome' →
    nonSystem outcome.1.messages = nonSystem outcome'.1.messages

/-- The same worker is answered alike in both runs. -/
def StintPair.HeardAlike (config : RunConfig) (pair : StintPair) (w v w₁ v₁ : World) : Prop :=
  pair.left.worker = pair.right.worker ∧ ∃ env side n,
    drive (S := sig) env side (pair.left.call.prog pair.left.worker config) n w =
      (pair.left.trace, pair.left.result, w₁) ∧
    drive (S := sig) env side (pair.right.call.prog pair.right.worker config) n v =
      (pair.right.trace, pair.right.result, v₁)

section

variable (force force' : Workforce) (ok : ∀ q, Answer q → Prop) (earlier : ℕ)

/-- A call of a worker in each of two runs: one of the earlier workers, which may differ in
their instructions but say the same, or one of the later ones. -/
structure CallPair (config : RunConfig) (w v : World) (pair : StintPair) (w₁ v₁ : World) : Prop where
  left : Runs (S := sig) ok (pair.left.call.prog pair.left.worker config) w pair.left.trace
    pair.left.result w₁
  right : Runs (S := sig) ok (pair.right.call.prog pair.right.worker config) v pair.right.trace
    pair.right.result v₁
  early : pair.handoffs < earlier → pair.SaysSame
  late : earlier ≤ pair.handoffs → pair.HeardAlike config w v w₁ v₁

/-- The chains of two calls side by side, as far as both go. -/
inductive ChainPair (config : RunConfig) (runId : RunId) (budget : ℕ) :
    ℕ → List Report → List Report → World → World → List StintPair → Outcome → Outcome → Prop
  | last {count history history' w v pair w₁ v₁ stints stints' r r' w' v'} :
    pair.handoffs = count → CallPair ok earlier config w v pair w₁ v₁ →
    Chain force config runId ok budget count history w (pair.left :: stints) r w' →
    Chain force' config runId ok budget count history' v (pair.right :: stints') r' v' →
    stints = [] ∨ stints' = [] →
    ChainPair config runId budget count history history' w v [pair] r r'
  | hand {count history history' w v pair w₁ v₁ next pairs r r'} :
    pair.handoffs = count → CallPair ok earlier config w v pair w₁ v₁ →
    pair.left.handsOver force = some (next.left.worker, next.left.job) →
    next.left.call = .run next.left.job →
    pair.right.handsOver force' = some (next.right.worker, next.right.job) →
    next.right.call = .run next.right.job → count < budget →
    ChainPair config runId budget (count + 1) (pair.left.added history) (pair.right.added history') w₁ v₁
      (next :: pairs) r r' →
    ChainPair config runId budget count history history' w v (pair :: next :: pairs) r r'

/-- Two paused workforces are stored alike. -/
inductive StoredAlike (state state' : WorkforceState) : WorkforceState → WorkforceState → Prop
  | same : StoredAlike state state' state state'
  | dumped {s s' d d'} : StoredAlike state state' s s' → s.persisted = some d → s'.persisted = some d' →
    StoredAlike state state' d d'
  | job {s s'} (job job' : Job) : SameTask job job' → StoredAlike state state' s s' →
    StoredAlike state state' { s with job := job } { s' with job := job' }

/-- Two runs of a swarm over their pauses, under the same configurations and decisions. -/
inductive SideBySide (kind : RunConfig → Prop) : List StintPair → Outcome → Outcome → Prop
  | run {config job job' w v pair pairs r r'} :
    kind config → SameTask job job' → SameFlows w v →
    pair.left.worker = manager force → pair.left.job = job → pair.left.call = .run job →
    pair.right.worker = manager force' → pair.right.job = job' → pair.right.call = .run job' →
    ChainPair force force' ok earlier config config.runId (swarmHandoffBudget config) 0 [] [] w v
      (pair :: pairs) r r' →
    SideBySide kind (pair :: pairs) r r'
  | resume {pairs report report' state state' s s' current current' count history history' ws ws' config
      decision w v pair more r r'} :
    SideBySide kind pairs (.ok (report, some state)) (.ok (report', some state')) →
    StoredAlike state state' s s' → s'.runId = s.runId →
    s.stage = .swarm current count history → s'.stage = .swarm current' count history' →
    s.workerState = some ws → s'.workerState = some ws' →
    resumedWorker force s ws = .ok pair.left.worker → resumedWorker force' s' ws' = .ok pair.right.worker →
    kind config → SameFlows w v → pair.left.job = s.job → pair.right.job = s'.job →
    pair.left.call = .resume ws decision → pair.right.call = .resume ws' decision →
    ChainPair force force' ok earlier (resumeConfig config s.runId) s.runId
      (swarmHandoffBudget (resumeConfig config s.runId)) count history history' w v (pair :: more) r r' →
    SideBySide kind (pairs ++ pair :: more) r r'

end

/-! ### What a handoff hands on -/

theorem resolveTools_alike {worker worker' : Worker} {job job' : Job} (hrole : SameRole worker worker')
    (hjob : SameTask job job') :
    resolveTools worker'.toolbelt job' = resolveTools worker.toolbelt job := by
  unfold resolveTools
  rw [hrole.toolbelt, hjob.toolsOverride]

/-- Reports whose conversations are the same but for the system's messages, waiting for the same. -/
structure AlikeReports (report report' : Report) : Prop where
  messages : nonSystem report.messages = nonSystem report'.messages
  pending : ∃ p p', report.pendingAction = some p ∧ report'.pendingAction = some p' ∧
    p'.toolCall = p.toolCall ∧ p'.type = p.type

theorem handoffJob_alike {report report' : Report} {job job' : Job}
    (hmessages : nonSystem report.messages = nonSystem report'.messages) (hjob : SameTask job job')
    (call : ToolCall) (target : String) :
    handoffJob report' job' call target = handoffJob report job call target := by
  have hhistory : handoffMessages report' target call.id = handoffMessages report target call.id := by
    have hmessages' : report'.messages.filter (·.role ≠ .system) =
        report.messages.filter (·.role ≠ .system) := hmessages.symm
    unfold handoffMessages
    rw [hmessages']
  unfold handoffJob
  rw [hhistory, hjob]

/-- Alike reports hand over to the same place with the same job. -/
theorem handoffTransition_alike (hteam : SameTeam force force') {report report' : Report}
    (halike : AlikeReports report report') {worker worker' next next' : Worker}
    {job job' nextJob nextJob' : Job} (hjob : SameTask job job')
    (h : handoffTransition force report job worker = .ok (some (next, nextJob)))
    (h' : handoffTransition force' report' job' worker' = .ok (some (next', nextJob'))) :
    SameRole next next' ∧ nextJob' = nextJob := by
  obtain ⟨p, p', hp, hp', hcall, htype⟩ := halike.pending
  unfold handoffTransition at h h'
  rw [hp] at h
  rw [hp'] at h'
  by_cases hhandoff : p.type = .handoff
  · rw [Option.filter_some, if_pos (by simpa using hhandoff)] at h
    rw [Option.filter_some, if_pos (by simpa [htype] using hhandoff)] at h'
    dsimp only at h h'
    rw [hcall] at h'
    cases htarget : ((p.toolCall.arguments.get "agent_name").bind Value.str?).filter (· ≠ "") with
    | none =>
      rw [htarget] at h
      cases h
    | some target =>
      rw [htarget] at h h'
      dsimp only at h h'
      split_ifs at h h'
      cases hfound : swarmWorker force target with
      | error e =>
        rw [hfound] at h
        cases h
      | ok found =>
        cases hfound' : swarmWorker force' target with
        | error e =>
          rw [hfound'] at h'
          cases h'
        | ok found' =>
          rw [hfound] at h
          rw [hfound'] at h'
          obtain ⟨rfl, rfl⟩ := Prod.mk.inj (Option.some.inj (Except.ok.inj h))
          obtain ⟨rfl, rfl⟩ := Prod.mk.inj (Option.some.inj (Except.ok.inj h'))
          exact ⟨hteam.found hfound hfound', handoffJob_alike halike.messages hjob _ _⟩
  · rw [Option.filter_some, if_neg (by simpa using hhandoff)] at h
    cases h

/-- A report that hands over for a worker hands over for one of its role too. -/
theorem handoffTransition_isSome (hteam : SameTeam force force') {report : Report}
    {worker worker' : Worker} {job job' : Job} (hrole : SameRole worker worker') (hjob : SameTask job job')
    {next : Worker × Job} (h : handoffTransition force report job worker = .ok (some next)) :
    ∃ next', handoffTransition force' report job' worker' = .ok (some next') := by
  have hallowed (name : String) :
      handoffAllowedAgents worker' job' name = handoffAllowedAgents worker job name := by
    unfold handoffAllowedAgents handoffTool
    rw [hrole.toolbelt, hjob.toolsOverride]
  unfold handoffTransition at h ⊢
  split at h
  · cases h
  · split at h
    · cases h
    · next target htarget =>
      rw [hallowed]
      split_ifs at h with hrefused
      cases hfound : swarmWorker force target with
      | error e =>
        rw [hfound] at h
        cases h
      | ok found =>
        obtain ⟨found', hfound'⟩ := hteam.registered hfound
        rw [if_neg hrefused, hfound']
        exact ⟨_, rfl⟩

/-- Stints of one role that come to the same hand over both or not at all. -/
theorem Stint.handsOver_isSome (hteam : SameTeam force force') {stint stint' : Stint}
    (hrole : SameRole stint.worker stint'.worker) (hjob : SameTask stint.job stint'.job)
    (hresult : stint.result = stint'.result) {next : Worker × Job}
    (h : stint.handsOver force = some next) : ∃ next', stint'.handsOver force' = some next' := by
  obtain ⟨next, nextJob⟩ := next
  obtain ⟨report, state, hleft, hpaused, ht⟩ := Stint.handsOver_some h
  obtain ⟨next', ht'⟩ := handoffTransition_isSome hteam hrole hjob ht
  refine ⟨next', ?_⟩
  rw [Stint.handsOver, ← hresult, hleft]
  exact SwarmTurn.handsOver_of hpaused ht'

section

variable {ok : ∀ q, Answer q → Prop} {earlier budget : ℕ} {kind : RunConfig → Prop}
  {config : RunConfig} {runId : RunId} {count : ℕ} {history history' : List Report} {w v w₁ v₁ : World}
  {pair : StintPair} {pairs : List StintPair} {r r' : Outcome}

/-! ### Each run is one of a swarm -/

theorem ChainPair.left
    (h : ChainPair force force' ok earlier config runId budget count history history' w v pairs r r') :
    ∃ stints w', Chain force config runId ok budget count history w stints r w' ∧
      pairs.map StintPair.left <+: stints := by
  induction h with
  | last _ _ hchain _ _ => exact ⟨_, _, hchain, by simp⟩
  | hand _ hcall hover hrun _ _ hcount _ ih =>
    obtain ⟨stints, w', hchain, hprefix⟩ := ih
    obtain ⟨rest, rfl⟩ := hprefix
    exact ⟨_, w', .hand hcall.left hover hrun hcount hchain, by simp⟩

theorem ChainPair.right
    (h : ChainPair force force' ok earlier config runId budget count history history' w v pairs r r') :
    ∃ stints w', Chain force' config runId ok budget count history' v stints r' w' ∧
      pairs.map StintPair.right <+: stints := by
  induction h with
  | last _ _ _ hchain _ => exact ⟨_, _, hchain, by simp⟩
  | hand _ hcall _ _ hover hrun hcount _ ih =>
    obtain ⟨stints, w', hchain, hprefix⟩ := ih
    obtain ⟨rest, rfl⟩ := hprefix
    exact ⟨_, w', .hand hcall.right hover hrun hcount hchain, by simp⟩

theorem StoredAlike.left {state state' s s' : WorkforceState} (h : StoredAlike state state' s s') :
    StoredForce state s := by
  induction h with
  | same => exact .same
  | dumped _ hd _ ih => exact .dumped ih hd
  | job job _ _ _ ih => exact .job job ih

theorem StoredAlike.right {state state' s s' : WorkforceState} (h : StoredAlike state state' s s') :
    StoredForce state' s' := by
  induction h with
  | same => exact .same
  | dumped _ _ hd ih => exact .dumped ih hd
  | job _ job' _ _ ih => exact .job job' ih

/-- Every stint of either run is in a pair. -/
structure AllPaired (force force' : Workforce) (ok : ∀ q, Answer q → Prop) (kind : RunConfig → Prop)
    (pairs : List StintPair) (r r' : Outcome) : Prop where
  left : ∃ chains, SwarmCalls ok force kind chains r ∧ chains.flatten = pairs.map StintPair.left
  right : ∃ chains, SwarmCalls ok force' kind chains r' ∧ chains.flatten = pairs.map StintPair.right

/-- The left run is a run of the swarm over its pauses. -/
theorem SideBySide.left (h : SideBySide force force' ok earlier kind pairs r r') :
    ∃ chains, SwarmCalls ok force kind chains r ∧ (pairs.map StintPair.left).Sublist chains.flatten := by
  induction h with
  | run hkind _ _ hworker hjob hcall _ _ _ hchain =>
    obtain ⟨stints, w', hleft, rest, rfl⟩ := hchain.left
    exact ⟨_, .run hkind hworker hjob hcall hleft, by simp⟩
  | resume _ hstored _ hstage _ hws _ hworker _ hkind _ hjob _ hcall _ hchain ih =>
    obtain ⟨chains, hcalls, hsub⟩ := ih
    obtain ⟨stints, w', hleft, rest, rfl⟩ := hchain.left
    refine ⟨_, .resume hcalls hstored.left hstage hws hworker hkind hjob hcall hleft, ?_⟩
    rw [List.map_append, List.flatten_append]
    refine hsub.append ?_
    simp

/-- The right one is too. -/
theorem SideBySide.right (h : SideBySide force force' ok earlier kind pairs r r') :
    ∃ chains, SwarmCalls ok force' kind chains r' ∧ (pairs.map StintPair.right).Sublist chains.flatten := by
  induction h with
  | run hkind _ _ _ _ _ hworker hjob hcall hchain =>
    obtain ⟨stints, w', hright, rest, rfl⟩ := hchain.right
    exact ⟨_, .run hkind hworker hjob hcall hright, by simp⟩
  | resume _ hstored hid _ hstage _ hws _ hworker hkind _ _ hjob _ hcall hchain ih =>
    obtain ⟨chains, hcalls, hsub⟩ := ih
    obtain ⟨stints, w', hright, rest, rfl⟩ := hchain.right
    rw [← hid] at hright
    refine ⟨_, .resume hcalls hstored.right hstage hws hworker hkind hjob hcall hright, ?_⟩
    rw [List.map_append, List.flatten_append]
    refine hsub.append ?_
    simp

end

end Blackgeorge.WorkforceRun
