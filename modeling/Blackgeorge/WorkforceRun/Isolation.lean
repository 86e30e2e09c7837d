import Blackgeorge.WorkerRunner.Waiting
import Blackgeorge.WorkforceRun.SideBySide

/-! What a later worker of a swarm is called with comes from the messages of the earlier ones
that are not the system's. In two runs side by side the later workers send the same calls
to their models. -/

namespace Blackgeorge.WorkforceRun

open Data Program Coroutine Coro WorkerRunner

variable {force force' : Workforce}

/-! ### One call -/

/-- What a worker sent to its models. -/
def modelCalls (t : Trace sig) : List Query := (t.filter isModelCall).map Sigma.fst

/-- One list begins with the other. -/
def Begins {α : Type} (l l' : List α) : Prop := l <+: l' ∨ l' <+: l

theorem modelCalls_append (t t' : Trace sig) : modelCalls (t ++ t') = modelCalls t ++ modelCalls t' := by
  simp [modelCalls]

theorem modelCalls_silent {t : Trace sig} (h : ∀ e ∈ t, isModelCall e = false) : modelCalls t = [] := by
  have hnone : t.filter isModelCall = [] := List.filter_eq_nil_iff.mpr (by simpa using h)
  rw [modelCalls, hnone]
  rfl

theorem paced_call (worker : Worker) (config : RunConfig) (call : Call) :
    Paced config (call.prog worker config) := by
  cases call with
  | run job => exact paced_arun _ _ _
  | resume state decision => exact paced_aresume _ _ _ _

/-- A run that ends where a budget is spent calls no model on the way and does not pause. -/
theorem ends_drive {c : Prog (Report × Option WorkerState)} (h : Ends c) (env : ℕ → ∀ q, Answer q)
    (side : ℕ → Bool) (n : ℕ) (w : World) :
    modelCalls (drive (S := sig) env side c n w).1 = [] ∧
      ∀ report state, (drive (S := sig) env side c n w).2.1 ≠ .ok (report, some state) := by
  have hok : ∀ n q, speechless.admits q (env n q) := fun _ _ => trivial
  obtain ⟨hevents, hresult⟩ := h.runs (drive_runs (S := sig) side hok c n w)
  refine ⟨modelCalls_silent hevents, fun report state hok => ?_⟩
  cases hresult _ hok

/-- What two calls that are answered alike have in common. -/
structure AgreeingCalls (config : RunConfig) (pair : StintPair) : Prop where
  calls : Begins (modelCalls pair.left.trace) (modelCalls pair.right.trace)
  same : config.maxCostUsd = none → modelCalls pair.left.trace = modelCalls pair.right.trace
  result : config.maxCostUsd = none → pair.left.result = pair.right.result
  paused : ∀ report state report' state', pair.left.result = .ok (report, some state) →
    pair.right.result = .ok (report', some state') → report = report' ∧ state = state'

theorem agreeingCalls_of_heard {config : RunConfig} {pair : StintPair} {w v w₁ v₁ : World}
    (hflows : SameFlows w v) (hcall : pair.left.call = pair.right.call)
    (h : pair.HeardAlike config w v w₁ v₁) : AgreeingCalls config pair := by
  obtain ⟨hworker, env, side, n, hleft, hright⟩ := h
  rw [← hworker, ← hcall] at hright
  have hpaced := paced_call pair.left.worker config pair.left.call
  rcases hpaced.drive n hflows with ⟨htrace, hresult, -⟩ | ⟨t, c, d, n', w', v', hparts, hc, hd⟩
  · rw [hleft, hright] at htrace hresult
    dsimp only at htrace hresult
    refine ⟨?_, fun _ => by rw [htrace], fun _ => hresult, ?_⟩
    · rw [htrace]
      exact .inl (List.prefix_refl _)
    · intro report state report' state' hl hr
      rw [hresult, hr] at hl
      obtain ⟨rfl, hstate⟩ := Prod.mk.inj (Except.ok.inj hl)
      exact ⟨rfl, (Option.some.inj hstate).symm⟩
  · rw [hleft] at hc
    rw [hright] at hd
    obtain ⟨htrace, hrest⟩ := Prod.mk.inj hc
    obtain ⟨htrace', hrest'⟩ := Prod.mk.inj hd
    have hresult : pair.left.result = (drive (S := sig) env side c n' w').2.1 := congrArg Prod.fst hrest
    have hresult' : pair.right.result = (drive (S := sig) env side d n' v').2.1 :=
      congrArg Prod.fst hrest'
    have hcalls := congrArg modelCalls htrace
    have hcalls' := congrArg modelCalls htrace'
    rw [modelCalls_append] at hcalls hcalls'
    have hset : config.maxCostUsd ≠ none := hparts.elim And.left And.left
    refine ⟨?_, fun hnone => absurd hnone hset, fun hnone => absurd hnone hset,
      fun report state report' state' hl hr => ?_⟩
    · -- the one that parts calls no model any more
      rcases hparts with ⟨-, hends⟩ | ⟨-, hends⟩
      · rw [(ends_drive hends env side n' w').1, List.append_nil] at hcalls
        rw [hcalls, hcalls']
        exact .inl (List.prefix_append _ _)
      · rw [(ends_drive hends env side n' v').1, List.append_nil] at hcalls'
        rw [hcalls, hcalls']
        exact .inr (List.prefix_append _ _)
    · rcases hparts with ⟨-, hends⟩ | ⟨-, hends⟩
      · exact absurd (hresult.symm.trans hl) ((ends_drive hends env side n' w').2 report state)
      · exact absurd (hresult'.symm.trans hr) ((ends_drive hends env side n' v').2 report' state')

/-- A worker's call leaves the flow objects alone. -/
theorem flows_call {ok : ∀ q, Answer q → Prop} {worker : Worker} {config : RunConfig} {call : Call}
    {w w' : World} {t : Trace sig} {r : Except Exn (Report × Option WorkerState)}
    (h : Runs (S := sig) ok (call.prog worker config) w t r w') : w'.flows = w.flows := by
  have hall : Each (quietLaw fun _ => True) (call.prog worker config) fun _ => True := by
    have hserves (tools : List Tool) : Serves (quietLaw fun _ => True) tools :=
      serves_quietLaw (fun _ _ => trivial) tools
    cases call with
    | run job => exact (serves_arun (hserves _) config).mono fun _ _ => trivial
    | resume state decision =>
      refine (decides_aresume (hserves _) (fun p _ => ?_) config).mono fun _ _ => trivial
      exact ⟨trivial, fun _ _ _ _ _ => trivial⟩
  have hadmits : Runs (S := sig) (quietLaw fun _ => True).admits (call.prog worker config) w t r w' :=
    h.mono fun _ _ _ => trivial
  exact (hall.runs_step Quiet.refl Quiet.trans hadmits).flows

/-- A call that pauses: its state has the call's job, and its action is the first waiting one of
its conversation. -/
theorem paused_call {ok : ∀ q, Answer q → Prop} {worker : Worker} {config : RunConfig} {call : Call}
    {w w' : World} {t : Trace sig} {report : Report} {state : WorkerState}
    (h : Runs (S := sig) ok (call.prog worker config) w t (.ok (report, some state)) w') :
    state.job = call.job ∧ ∃ p, report.pendingAction = some p ∧
      firstWaiting (allowedTools (resolveTools worker.toolbelt call.job)) (lastCalls report.messages) =
        some (p.toolCall, p.type) := by
  have hadmits : Runs (S := sig) anyLaw.admits (call.prog worker config) w t (.ok (report, some state)) w' :=
    h.mono fun _ _ _ => trivial
  have hpauses : PausesOn (resolveTools worker.toolbelt call.job) (report, some state) := by
    cases call with
    | run job => exact ((waiting_arun _ _ _).runs hadmits).2 _ rfl
    | resume state decision => exact ((waiting_aresume _ _ _ _).runs hadmits).2 _ rfl
  refine ⟨?_, hpauses rfl⟩
  cases call with
  | run job =>
    obtain ⟨registered, hfrom⟩ := ((serves_arun (serves_any _) config).runs hadmits).2 _ rfl
    exact (hfrom.paused state rfl).job_eq
  | resume state' decision =>
    have hd : ∀ p ∈ state'.pendingAction, Decides anyLaw worker state'.job p decision :=
      fun p _ => ⟨trivial, fun _ _ _ _ _ => trivial⟩
    obtain ⟨s, -, -, hfrom⟩ := ((decides_aresume (serves_any _) hd config).runs hadmits).2 _ rfl
    exact (hfrom.paused state rfl).job_eq

/-! ### One pair after the other -/

section

variable {ok : ∀ q, Answer q → Prop} {earlier budget : ℕ} {kind : RunConfig → Prop}
  {config : RunConfig} {runId : RunId} {count : ℕ} {history history' : List Report} {w v w₁ v₁ : World}
  {pair : StintPair} {pairs : List StintPair} {r r' : Outcome}

/-- Two calls that begin alike: from an earlier worker on, they are the same. -/
structure Matched (earlier : ℕ) (pair : StintPair) (w v : World) : Prop where
  flows : SameFlows w v
  role : SameRole pair.left.worker pair.right.worker
  job : SameTask pair.left.job pair.right.job
  task : SameTask pair.left.call.job pair.right.call.job
  call : earlier ≤ pair.handoffs → pair.left.call = pair.right.call

theorem CallPair.agrees (h : CallPair ok earlier config w v pair w₁ v₁) (hmatched : Matched earlier pair w v)
    (hlate : earlier ≤ pair.handoffs) : AgreeingCalls config pair :=
  agreeingCalls_of_heard hmatched.flows (hmatched.call hlate) (h.late hlate)

theorem CallPair.sameFlows (h : CallPair ok earlier config w v pair w₁ v₁)
    (hmatched : Matched earlier pair w v) : SameFlows w₁ v₁ := by
  have hflows := hmatched.flows
  unfold SameFlows at hflows ⊢
  rw [flows_call h.left, flows_call h.right, hflows]

/-- Calls that begin alike and both pause, pause alike. -/
theorem CallPair.paused (h : CallPair ok earlier config w v pair w₁ v₁) (hmatched : Matched earlier pair w v)
    {report report' : Report} {state state' : WorkerState}
    (hl : pair.left.result = .ok (report, some state))
    (hr : pair.right.result = .ok (report', some state')) :
    AlikeReports report report' ∧ SameTask state.job state'.job ∧
      (earlier ≤ pair.handoffs → state = state') := by
  obtain ⟨hjob, p, hp, hfirst⟩ := paused_call (hl ▸ h.left)
  obtain ⟨hjob', p', hp', hfirst'⟩ := paused_call (hr ▸ h.right)
  have htask : SameTask state.job state'.job := by
    rw [hjob, hjob']
    exact hmatched.task
  by_cases hlate : earlier ≤ pair.handoffs
  · obtain ⟨rfl, rfl⟩ := (h.agrees hmatched hlate).paused report state report' state' hl hr
    exact ⟨⟨rfl, p, p, hp, hp, rfl, rfl⟩, htask, fun _ => rfl⟩
  · have htold : nonSystem report.messages = nonSystem report'.messages :=
      h.early (not_le.mp hlate) _ _ hl hr
    have hcalls : lastCalls report'.messages = lastCalls report.messages := by
      rw [← lastCalls_nonSystem report'.messages, ← lastCalls_nonSystem report.messages]
      exact congrArg lastCalls htold.symm
    rw [resolveTools_alike hmatched.role hmatched.task, hcalls, hfirst] at hfirst'
    obtain ⟨hcall, htype⟩ := Prod.mk.inj (Option.some.inj hfirst')
    exact ⟨⟨htold, p, p', hp, hp', hcall.symm, htype.symm⟩, htask, fun hle => absurd hle hlate⟩

/-- A handoff of both leads to calls that begin alike. -/
theorem CallPair.handed (hteam : SameTeam force force') (h : CallPair ok earlier config w v pair w₁ v₁)
    (hmatched : Matched earlier pair w v) {next : StintPair}
    (hl : pair.left.handsOver force = some (next.left.worker, next.left.job))
    (hcall : next.left.call = .run next.left.job)
    (hr : pair.right.handsOver force' = some (next.right.worker, next.right.job))
    (hcall' : next.right.call = .run next.right.job) : Matched earlier next w₁ v₁ := by
  obtain ⟨report, state, hresult, -, ht⟩ := Stint.handsOver_some hl
  obtain ⟨report', state', hresult', -, ht'⟩ := Stint.handsOver_some hr
  obtain ⟨halike, -, -⟩ := h.paused hmatched hresult hresult'
  obtain ⟨hrole, hjob⟩ := handoffTransition_alike hteam halike hmatched.job ht ht'
  have hcalls : next.left.call = next.right.call := by rw [hcall, hcall', hjob]
  refine ⟨h.sameFlows hmatched, hrole, ?_, ?_, fun _ => hcalls⟩
  · rw [hjob]
    exact .refl _
  · rw [hcalls]
    exact .refl _

/-- What the runs have in common in a pair of stints. -/
structure Isolated (kind : RunConfig → Prop) (earlier : ℕ) (pair : StintPair) : Prop where
  name : pair.right.worker.name = pair.left.worker.name
  calls : earlier ≤ pair.handoffs → Begins (modelCalls pair.left.trace) (modelCalls pair.right.trace)
  same : earlier ≤ pair.handoffs → (∀ config, kind config → config.maxCostUsd = none) →
    modelCalls pair.left.trace = modelCalls pair.right.trace

theorem CallPair.isolated (hkind : (∀ config, kind config → config.maxCostUsd = none) → config.maxCostUsd = none)
    (h : CallPair ok earlier config w v pair w₁ v₁) (hmatched : Matched earlier pair w v) :
    Isolated kind earlier pair where
  name := hmatched.role.name
  calls hlate := (h.agrees hmatched hlate).calls
  same hlate hnone := (h.agrees hmatched hlate).same (hkind hnone)

theorem ChainPair.isolated (hteam : SameTeam force force')
    (hkind : (∀ config, kind config → config.maxCostUsd = none) → config.maxCostUsd = none)
    (h : ChainPair force force' ok earlier config runId budget count history history' w v pairs r r')
    (hmatched : ∀ pair ∈ pairs.head?, Matched earlier pair w v) :
    ∀ pair ∈ pairs, Isolated kind earlier pair := by
  induction h with
  | last _ hcall _ _ _ =>
    intro pair hmem
    obtain rfl := List.mem_singleton.mp hmem
    exact hcall.isolated hkind (hmatched _ rfl)
  | hand _ hcall hl hrun hr hrun' _ _ ih =>
    have hnext := hcall.handed hteam (hmatched _ rfl) hl hrun hr hrun'
    intro pair hmem
    rcases List.mem_cons.mp hmem with rfl | hmem
    · exact hcall.isolated hkind (hmatched _ rfl)
    · exact ih (by rintro _ ⟨⟩; exact hnext) pair hmem

/-! ### Pauses side by side -/

theorem SameTask.persisted {job job' dumped dumped' : Job} (h : SameTask job job')
    (hjob : job.persisted = some dumped) (hjob' : job'.persisted = some dumped') :
    SameTask dumped dumped' := by
  rw [h] at hjob'
  simp only [Job.persisted, Option.bind_eq_bind, Option.bind_eq_some_iff] at hjob hjob'
  obtain ⟨input, hinput, constraints, hconstraints, _, _, thinking, hthinking, body, hbody, hjob⟩ := hjob
  obtain ⟨input', hinput', constraints', hconstraints', _, _, thinking', hthinking', body', hbody',
    hjob'⟩ := hjob'
  obtain rfl := Option.some.inj (hinput.symm.trans hinput')
  obtain rfl := Option.some.inj (hconstraints.symm.trans hconstraints')
  obtain rfl := Option.some.inj (hthinking.symm.trans hthinking')
  obtain rfl := Option.some.inj (hbody.symm.trans hbody')
  obtain rfl := Option.some.inj hjob
  obtain rfl := Option.some.inj hjob'
  rfl

theorem workerState_persisted_job {state dumped : WorkerState} (h : state.persisted = some dumped) :
    state.job.persisted = some dumped.job := by
  simp only [WorkerState.persisted, StateCore.persisted, Option.bind_eq_bind,
    Option.bind_eq_some_iff] at h
  obtain ⟨core, ⟨job, hjob, messages, -, calls, -, pending, -, hcore⟩, h⟩ := h
  obtain rfl := Option.some.inj hcore
  obtain rfl := Option.some.inj h
  exact hjob

/-- The handoffs before the worker in which a swarm waits. -/
def waitCount (state : WorkforceState) : ℕ :=
  match state.stage with
  | .swarm _ count _ => count
  | _ => 0

/-- Two swarms wait in the same place: in a later worker, with the same state of it. -/
structure WaitsAlike (earlier : ℕ) (state state' : WorkforceState) : Prop where
  job : SameTask state.job state'.job
  stage : ∃ name history history', name ≠ "" ∧ state.stage = .swarm name (waitCount state) history ∧
    state'.stage = .swarm name (waitCount state') history'
  worker : ∃ ws ws', state.workerState = some ws ∧ state'.workerState = some ws' ∧ SameTask ws.job ws'.job ∧
    (earlier ≤ waitCount state → ws = ws')

theorem workforceState_persisted {state dumped : WorkforceState} (h : state.persisted = some dumped) :
    state.job.persisted = some dumped.job ∧ state.stage.persisted = some dumped.stage ∧
      state.workerState.mapM WorkerState.persisted = some dumped.workerState := by
  simp only [WorkforceState.persisted, StateCore.persisted, Option.bind_eq_bind,
    Option.bind_eq_some_iff] at h
  obtain ⟨core, ⟨job, hjob, messages, -, calls, -, pending, -, hcore⟩, stage, hstage, ws, hws, root, -, h⟩ := h
  obtain rfl := Option.some.inj hcore
  obtain rfl := Option.some.inj h
  exact ⟨hjob, hstage, hws⟩

theorem stage_persisted_swarm {name : String} {count : ℕ} {history : List Report} {stage : Stage}
    (h : (Stage.swarm name count history).persisted = some stage) :
    ∃ history', stage = .swarm name count history' := by
  simp only [Stage.persisted, Option.bind_eq_bind, Option.bind_eq_some_iff] at h
  obtain ⟨history', -, h⟩ := h
  exact ⟨history', (Option.some.inj h).symm⟩

theorem waitCount_of_stage {state : WorkforceState} {name : String} {count : ℕ} {history : List Report}
    (h : state.stage = .swarm name count history) : waitCount state = count := by
  rw [waitCount, h]

theorem WaitsAlike.persisted {s s' d d' : WorkforceState} (h : WaitsAlike earlier s s')
    (hd : s.persisted = some d) (hd' : s'.persisted = some d') : WaitsAlike earlier d d' := by
  obtain ⟨hjob, hstage, hws⟩ := workforceState_persisted hd
  obtain ⟨hjob', hstage', hws'⟩ := workforceState_persisted hd'
  obtain ⟨name, history, history', hname, hs, hs'⟩ := h.stage
  obtain ⟨ws, ws', hw, hw', htask, hlate⟩ := h.worker
  rw [hs] at hstage
  rw [hs'] at hstage'
  obtain ⟨dumpedHistory, hstage⟩ := stage_persisted_swarm hstage
  obtain ⟨dumpedHistory', hstage'⟩ := stage_persisted_swarm hstage'
  have hcount := waitCount_of_stage hstage
  have hcount' := waitCount_of_stage hstage'
  rw [hw] at hws
  rw [hw'] at hws'
  obtain ⟨dws, hdws, hws⟩ : ∃ dws, ws.persisted = some dws ∧ some dws = d.workerState := by
    simpa using hws
  obtain ⟨dws', hdws', hws'⟩ : ∃ dws', ws'.persisted = some dws' ∧ some dws' = d'.workerState := by
    simpa using hws'
  refine ⟨h.job.persisted hjob hjob', ⟨name, dumpedHistory, dumpedHistory', hname, ?_, ?_⟩, dws, dws',
    hws.symm, hws'.symm, ?_, fun hle => ?_⟩
  · rw [hstage, hcount]
  · rw [hstage', hcount']
  · exact htask.persisted (workerState_persisted_job hdws) (workerState_persisted_job hdws')
  · rw [hcount] at hle
    rw [hlate hle, hdws'] at hdws
    exact (Option.some.inj hdws).symm

theorem waitCount_persisted {state dumped : WorkforceState} (h : state.persisted = some dumped) :
    waitCount dumped = waitCount state := by
  have hstage := (workforceState_persisted h).2.1
  unfold waitCount
  cases hs : state.stage with
  | swarm name count history =>
    rw [hs] at hstage
    obtain ⟨history', hstage⟩ := stage_persisted_swarm hstage
    rw [hstage]
  | collaborate reports index =>
    rw [hs] at hstage
    simp only [Stage.persisted, Option.bind_eq_bind, Option.bind_eq_some_iff] at hstage
    obtain ⟨reports', -, hstage⟩ := hstage
    rw [← Option.some.inj hstage]
  | _ =>
    rw [hs] at hstage
    rw [← Option.some.inj hstage]

theorem StoredAlike.same_count {state state' s s' : WorkforceState} (h : StoredAlike state state' s s') :
    waitCount s = waitCount state ∧ waitCount s' = waitCount state' := by
  induction h with
  | same => exact ⟨rfl, rfl⟩
  | dumped _ hd hd' ih => rwa [waitCount_persisted hd, waitCount_persisted hd']
  | job _ _ _ _ ih => exact ih

/-- Swarms that wait alike, if they wait after as many handoffs, are stored alike. -/
theorem StoredAlike.waits {state state' s s' : WorkforceState} (hstored : StoredAlike state state' s s')
    (h : waitCount state = waitCount state' → WaitsAlike earlier state state') :
    waitCount s = waitCount s' → WaitsAlike earlier s s' := by
  induction hstored with
  | same => exact h
  | @dumped s s' d d' _ hd hd' ih =>
    intro hcount
    rw [waitCount_persisted hd, waitCount_persisted hd'] at hcount
    exact (ih hcount).persisted hd hd'
  | job job job' htask _ ih =>
    intro hcount
    exact ⟨htask, (ih hcount).stage, (ih hcount).worker⟩

/-- A paused chain's state is built around the outcome of its last stint. -/
theorem Chain.pausedAs {stints : List Stint} {report : Report} {state : WorkforceState} {w' : World}
    (h : Chain force config runId ok budget count history w stints (.ok (report, some state)) w') :
    ∃ stint paused history', stints.getLast? = some stint ∧ stint.result = .ok (report, some paused) ∧
      PausedAs stint.job paused (.swarm stint.worker.name (count + (stints.length - 1)) history') state := by
  generalize hr : (Except.ok (report, some state) : Outcome) = r at h
  induction h with
  | @last count history w stint w₁ r w' hcall hend hclose =>
    subst hr
    unfold Stint.close at hclose
    cases hresult : stint.result with
    | error e =>
      rw [hresult] at hclose
      cases hclose
    | ok outcome =>
      obtain ⟨report', workerState⟩ := outcome
      rw [hresult] at hclose
      have hclose' : Runs (S := sig) ok (swarmContinue force config runId (budget - count) count history
        stint.worker stint.job (report', workerState)) w₁ [] (.ok (report, some state)) w' := hclose
      have hover : stint.handsOver force =
          SwarmTurn.handsOver force ⟨stint.worker, stint.job, report', workerState⟩ := by
        rw [Stint.handsOver, hresult]
      unfold swarmContinue at hclose'
      cases workerState with
      | none => cases hclose'
      | some paused =>
        dsimp only at hclose'
        have hpause (hp : Runs (S := sig) ok (pauseWith force config runId stint.job report' paused
            (.swarm stint.worker.name count history)) w₁ [] (.ok (report, some state)) w') :
            ∃ stint' paused' history', [stint].getLast? = some stint' ∧
              stint'.result = .ok (report, some paused') ∧
              PausedAs stint'.job paused' (.swarm stint'.worker.name (count + ([stint].length - 1)) history')
                state := by
          obtain ⟨built, hout, hbuilt⟩ := pausedAs_pauseWith hp
          obtain ⟨rfl, hstate⟩ := Prod.mk.inj hout
          obtain rfl := Option.some.inj hstate
          exact ⟨stint, paused, history, rfl, hresult, hbuilt⟩
        by_cases hpaused : report'.status = .paused
        · rw [if_pos hpaused] at hclose'
          cases ht : handoffTransition force report' stint.job stint.worker with
          | error e =>
            rw [ht] at hclose'
            cases hclose'
          | ok next =>
            rw [ht] at hclose'
            cases next with
            | none => exact hpause hclose'
            | some next =>
              obtain ⟨next, nextJob⟩ := next
              rw [SwarmTurn.handsOver_of hpaused ht] at hover
              -- a handoff that the budget forbids fails
              have hspent : budget - count = 0 := by
                rcases hend with hnone | hle
                · rw [hnone] at hover
                  cases hover
                · omega
              rw [hspent] at hclose'
              cases hclose'
        · rw [if_neg hpaused] at hclose'
          exact hpause hclose'
  | @hand count history w stint w₁ next stints r w' hcall hover hnext hcount hrest ih =>
    obtain ⟨stint', paused, history', hlast, hresult, hpausedAs⟩ := ih hr
    refine ⟨stint', paused, history', by simpa using hlast, hresult, ?_⟩
    rwa [show count + 1 + ((next :: stints).length - 1) = count + ((stint :: next :: stints).length - 1) by
      simp only [List.length_cons]; omega] at hpausedAs

theorem CallPair.waits (h : CallPair ok earlier config w v pair w₁ v₁) (hmatched : Matched earlier pair w v)
    {report report' : Report} {paused paused' : WorkerState} {state state' : WorkforceState}
    (hl : pair.left.result = .ok (report, some paused))
    (hr : pair.right.result = .ok (report', some paused'))
    (hstate : PausedAs pair.left.job paused (.swarm pair.left.worker.name pair.handoffs history) state)
    (hstate' : PausedAs pair.right.job paused' (.swarm pair.right.worker.name pair.handoffs history') state') :
    WaitsAlike earlier state state' := by
  obtain ⟨-, htask, hlate⟩ := h.paused hmatched hl hr
  obtain ⟨stored, hstage⟩ := stage_persisted_swarm hstate.stage
  obtain ⟨stored', hstage'⟩ := stage_persisted_swarm hstate'.stage
  obtain ⟨dumped, hdumped, hws⟩ := hstate.workerState
  obtain ⟨dumped', hdumped', hws'⟩ := hstate'.workerState
  have hcount := waitCount_of_stage hstage
  refine ⟨?_, ⟨pair.left.worker.name, stored, stored', worker_name_ne _, ?_, ?_⟩, dumped, dumped', hws, hws',
    ?_, fun hle => ?_⟩
  · rw [hstate.job_eq, hstate'.job_eq]
    exact hmatched.job
  · rw [hstage, hcount]
  · rw [waitCount_of_stage hstage', hstage', hmatched.role.name]
  · exact htask.persisted (workerState_persisted_job hdumped) (workerState_persisted_job hdumped')
  · rw [hcount] at hle
    rw [hlate hle, hdumped'] at hdumped
    exact (Option.some.inj hdumped).symm

theorem nil_of_length_eq {a b : Stint} {l l' : List Stint} (h : (a :: l).length = (b :: l').length)
    (hnil : l = [] ∨ l' = []) : l = [] ∧ l' = [] := by
  have hlen : l.length = l'.length := Nat.succ.inj h
  rcases hnil with rfl | rfl
  · exact ⟨rfl, List.length_eq_zero_iff.mp hlen.symm⟩
  · exact ⟨List.length_eq_zero_iff.mp hlen, rfl⟩

/-- Chains that pause after as many handoffs have as many stints. -/
theorem Chain.length_eq {stints stints' : List Stint} {report report' : Report}
    {state state' : WorkforceState} {w' v' : World}
    (h : Chain force config runId ok budget count history w stints (.ok (report, some state)) w')
    (h' : Chain force' config runId ok budget count history' v stints' (.ok (report', some state')) v')
    (hcount : waitCount state = waitCount state') : stints.length = stints'.length := by
  obtain ⟨_, _, _, -, -, hpaused⟩ := h.pausedAs
  obtain ⟨_, _, _, -, -, hpaused'⟩ := h'.pausedAs
  obtain ⟨_, hstage⟩ := stage_persisted_swarm hpaused.stage
  obtain ⟨_, hstage'⟩ := stage_persisted_swarm hpaused'.stage
  rw [waitCount_of_stage hstage, waitCount_of_stage hstage'] at hcount
  have hpos := List.length_pos_iff.mpr h.ne_nil
  have hpos' := List.length_pos_iff.mpr h'.ne_nil
  omega

/-- Chains side by side that pause after as many handoffs wait alike. -/
theorem ChainPair.waits (hteam : SameTeam force force')
    (h : ChainPair force force' ok earlier config runId budget count history history' w v pairs r r')
    (hmatched : ∀ pair ∈ pairs.head?, Matched earlier pair w v) {report report' : Report}
    {state state' : WorkforceState} (hout : r = .ok (report, some state))
    (hout' : r' = .ok (report', some state')) (hcount : waitCount state = waitCount state') :
    WaitsAlike earlier state state' := by
  induction h with
  | @last count history history' w v pair w₁ v₁ stints stints' r r' w' v' hhandoffs hcall hchain hchain' hends =>
    subst hout hout'
    obtain ⟨rfl, rfl⟩ := nil_of_length_eq (hchain.length_eq hchain' hcount) hends
    obtain ⟨stint, paused, stored, hlast, hresult, hpaused⟩ := hchain.pausedAs
    obtain ⟨stint', paused', stored', hlast', hresult', hpaused'⟩ := hchain'.pausedAs
    obtain rfl := Option.some.inj hlast
    obtain rfl := Option.some.inj hlast'
    subst hhandoffs
    exact hcall.waits (hmatched pair rfl) hresult hresult' hpaused hpaused'
  | hand _ hcall hl hrun hr hrun' _ _ ih =>
    have hnext := hcall.handed hteam (hmatched _ rfl) hl hrun hr hrun'
    exact ih (by rintro _ ⟨⟩; exact hnext) hout hout'

/-! ### The last pair -/

theorem Chain.handsOver_last {stint : Stint} {w' : World}
    (h : Chain force config runId ok budget count history w [stint] r w') :
    stint.handsOver force = none ∨ budget ≤ count := by
  cases h with
  | last _ hend _ => exact hend

theorem Chain.handsOver_hand {stint next : Stint} {stints : List Stint} {w' : World}
    (h : Chain force config runId ok budget count history w (stint :: next :: stints) r w') :
    stint.handsOver force = some (next.worker, next.job) ∧ count < budget := by
  cases h with
  | hand _ hover _ hcount _ => exact ⟨hover, hcount⟩

/-- Where one chain ends, the other one does. -/
theorem Chain.ends_with {stint stint' : Stint} {stints : List Stint} {w' v' : World}
    (hteam : SameTeam force' force) (hrole : SameRole stint'.worker stint.worker)
    (hjob : SameTask stint'.job stint.job) (hresult : stint'.result = stint.result)
    (h : Chain force config runId ok budget count history w [stint] r w')
    (h' : Chain force' config runId ok budget count history' v (stint' :: stints) r' v') : stints = [] := by
  cases stints with
  | nil => rfl
  | cons next stints =>
    obtain ⟨hover', hcount⟩ := h'.handsOver_hand
    obtain ⟨next', hover⟩ := Stint.handsOver_isSome hteam hrole hjob hresult hover'
    rcases h.handsOver_last with hnone | hspent
    · rw [hover] at hnone
      cases hnone
    · omega

/-- Without a budget later workers that are answered alike come to the same. -/
theorem CallPair.ends_together (hteam : SameTeam force force') (h : CallPair ok earlier config w v pair w₁ v₁)
    (hmatched : Matched earlier pair w v) (hlate : earlier ≤ pair.handoffs)
    (hnone : config.maxCostUsd = none) {stints stints' : List Stint} {w' v' : World}
    (hchain : Chain force config runId ok budget count history w (pair.left :: stints) r w')
    (hchain' : Chain force' config runId ok budget count history' v (pair.right :: stints') r' v')
    (hends : stints = [] ∨ stints' = []) : stints = [] ∧ stints' = [] := by
  have hresult := (h.agrees hmatched hlate).result hnone
  rcases hends with rfl | rfl
  · exact ⟨rfl, hchain.ends_with hteam.symm hmatched.role.symm hmatched.job.symm hresult.symm hchain'⟩
  · exact ⟨hchain'.ends_with hteam hmatched.role hmatched.job hresult hchain, rfl⟩

/-- Two runs that stop after as many handoffs, or whose last workers no budget stops. -/
def StopTogether (earlier : ℕ) (unlimited : Prop) (pairs : List StintPair) (r r' : Outcome) : Prop :=
  (unlimited ∧ ∀ last ∈ pairs.getLast?, earlier ≤ last.handoffs) ∨
    ∃ report state report' state', r = .ok (report, some state) ∧ r' = .ok (report', some state') ∧
      waitCount state = waitCount state'

theorem StopTogether.imp {unlimited unlimited' : Prop} (h : StopTogether earlier unlimited pairs r r')
    (himp : unlimited → unlimited') : StopTogether earlier unlimited' pairs r r' :=
  h.imp_left fun hlate => ⟨himp hlate.1, hlate.2⟩

theorem ChainPair.paired (hteam : SameTeam force force')
    (h : ChainPair force force' ok earlier config runId budget count history history' w v pairs r r')
    (hmatched : ∀ pair ∈ pairs.head?, Matched earlier pair w v)
    (hstop : StopTogether earlier (config.maxCostUsd = none) pairs r r') :
    (∃ w', Chain force config runId ok budget count history w (pairs.map StintPair.left) r w') ∧
      ∃ v', Chain force' config runId ok budget count history' v (pairs.map StintPair.right) r' v' := by
  induction h with
  | @last count history history' w v pair w₁ v₁ stints stints' r r' w' v' _ hcall hchain hchain' hends =>
    obtain ⟨rfl, rfl⟩ : stints = [] ∧ stints' = [] := by
      rcases hstop with ⟨hnone, hlate⟩ | ⟨report, state, report', state', rfl, rfl, hcount⟩
      · exact hcall.ends_together hteam (hmatched _ rfl) (hlate _ rfl) hnone hchain hchain' hends
      · exact nil_of_length_eq (hchain.length_eq hchain' hcount) hends
    exact ⟨⟨w', hchain⟩, v', hchain'⟩
  | @hand count history history' w v pair w₁ v₁ next pairs r r' _ hcall hl hrun hr hrun' hcount _ ih =>
    have hnext := hcall.handed hteam (hmatched _ rfl) hl hrun hr hrun'
    have hstop' : StopTogether earlier (config.maxCostUsd = none) (next :: pairs) r r' := by
      unfold StopTogether at hstop
      rwa [List.getLast?_cons_cons] at hstop
    obtain ⟨⟨w', hchain⟩, v', hchain'⟩ := ih (by rintro _ ⟨⟩; exact hnext) hstop'
    exact ⟨⟨w', .hand hcall.left hl hrun hcount hchain⟩, v', .hand hcall.right hr hrun' hcount hchain'⟩

/-! ### The whole runs -/

theorem ChainPair.head_handoffs
    (h : ChainPair force force' ok earlier config runId budget count history history' w v pairs r r') :
    ∀ pair ∈ pairs.head?, pair.handoffs = count := by
  cases h <;> (rintro _ ⟨⟩; assumption)

/-- A resume of swarms that wait alike begins with calls that begin alike. -/
theorem WaitsAlike.matched (hteam : SameTeam force force') {s s' : WorkforceState}
    (h : WaitsAlike earlier s s') (hflows : SameFlows w v) {ws ws' : WorkerState} {decision : Value}
    (hcount : waitCount s = pair.handoffs) (hws : s.workerState = some ws) (hws' : s'.workerState = some ws')
    (hworker : resumedWorker force s ws = .ok pair.left.worker)
    (hworker' : resumedWorker force' s' ws' = .ok pair.right.worker) (hjob : pair.left.job = s.job)
    (hjob' : pair.right.job = s'.job) (hcall : pair.left.call = .resume ws decision)
    (hcall' : pair.right.call = .resume ws' decision) : Matched earlier pair w v := by
  obtain ⟨name, stored, stored', hname, hstage, hstage'⟩ := h.stage
  obtain ⟨left, right, hleft, hright, htask, hlate⟩ := h.worker
  obtain rfl := Option.some.inj (hws.symm.trans hleft)
  obtain rfl := Option.some.inj (hws'.symm.trans hright)
  have hfound : swarmWorker force name = .ok pair.left.worker := by
    unfold resumedWorker at hworker
    rw [hstage] at hworker
    dsimp only at hworker
    rw [if_neg hname] at hworker
    cases hf : swarmWorker force name with
    | error e => rw [hf] at hworker; cases hworker
    | ok found => rw [hf] at hworker; rw [Except.ok.inj hworker]
  have hfound' : swarmWorker force' name = .ok pair.right.worker := by
    unfold resumedWorker at hworker'
    rw [hstage'] at hworker'
    dsimp only at hworker'
    rw [if_neg hname] at hworker'
    cases hf : swarmWorker force' name with
    | error e => rw [hf] at hworker'; cases hworker'
    | ok found => rw [hf] at hworker'; rw [Except.ok.inj hworker']
  refine ⟨hflows, hteam.found hfound hfound', ?_, ?_, fun hle => ?_⟩
  · rw [hjob, hjob']
    exact h.job
  · rw [hcall, hcall']
    exact htask
  · rw [hcall, hcall', hlate (hcount ▸ hle)]

/-- Whatever the instructions of the earlier workers of a swarm are, through any handoffs,
compactions and pauses: as long as they say the same, the later workers call their models with
the same payloads, up to a point where a cost budget stops one of them. Without a budget both
runs end together once a later worker has its stint. -/
theorem swarm_isolated (hteam : SameTeam force force') (hearlier : 0 < earlier)
    (h : SideBySide force force' ok earlier kind pairs r r') :
    (∀ pair ∈ pairs, Isolated kind earlier pair) ∧
      ((∀ config, kind config → config.maxCostUsd = none) →
        (∀ last ∈ pairs.getLast?, earlier ≤ last.handoffs) → AllPaired force force' ok kind pairs r r') := by
  have hall : (∀ pair ∈ pairs, Isolated kind earlier pair) ∧ (∀ report state report' state',
      r = .ok (report, some state) → r' = .ok (report', some state') →
      waitCount state = waitCount state' → WaitsAlike earlier state state') ∧
      (StopTogether earlier (∀ config, kind config → config.maxCostUsd = none) pairs r r' →
        AllPaired force force' ok kind pairs r r') := by
    induction h with
    | @run config job job' w v pair pairs r r' hconfig hjob hflows hworker hstint hcall hworker' hstint' hcall'
        hchain =>
      have hmatched : Matched earlier pair w v := by
        have hfirst : pair.handoffs = 0 := hchain.head_handoffs pair rfl
        refine ⟨hflows, ?_, ?_, ?_, fun hle => absurd hle (by omega)⟩
        · rw [hworker, hworker']
          exact hteam.leader
        · rw [hstint, hstint']
          exact hjob
        · rw [hcall, hcall']
          exact hjob
      have hhead : ∀ p ∈ (pair :: pairs).head?, Matched earlier p w v := by
        rintro _ ⟨⟩
        exact hmatched
      refine ⟨hchain.isolated hteam (fun hnone => hnone _ hconfig) hhead, ?_, fun hstop => ?_⟩
      · intro report state report' state' hr hr' hcount
        exact hchain.waits hteam hhead hr hr' hcount
      · obtain ⟨⟨w', hleft⟩, v', hright⟩ :=
          hchain.paired hteam hhead (hstop.imp fun hnone => hnone _ hconfig)
        exact ⟨⟨_, .run hconfig hworker hstint hcall hleft, by simp⟩,
          _, .run hconfig hworker' hstint' hcall' hright, by simp⟩
    | @resume pairs report report' state state' s s' current current' count history history' ws ws' config
        decision w v pair more r r' _ hstored hid hstage hstage' hws hws' hworker hworker' hconfig hflows hjob
        hjob' hcall hcall' hchain ih =>
      have hcount : waitCount s = count := waitCount_of_stage hstage
      have hcount' : waitCount s' = count := waitCount_of_stage hstage'
      have hwaits : WaitsAlike earlier s s' :=
        hstored.waits (ih.2.1 report state report' state' rfl rfl) (hcount.trans hcount'.symm)
      have hhandoffs : pair.handoffs = count := hchain.head_handoffs pair rfl
      have hhead : ∀ p ∈ (pair :: more).head?, Matched earlier p w v := by
        rintro _ ⟨⟩
        exact hwaits.matched hteam hflows (hcount.trans hhandoffs.symm) hws hws' hworker hworker' hjob hjob'
          hcall hcall'
      have hkind : (∀ config, kind config → config.maxCostUsd = none) →
          (resumeConfig config s.runId).maxCostUsd = none := by
        intro hnone
        have hsame : (resumeConfig config s.runId).maxCostUsd = config.maxCostUsd := by
          unfold resumeConfig
          split_ifs <;> rfl
        rw [hsame, hnone config hconfig]
      refine ⟨fun p hmem => ?_, ?_, fun hstop => ?_⟩
      · rcases List.mem_append.mp hmem with hmem | hmem
        · exact ih.1 p hmem
        · exact hchain.isolated hteam hkind hhead p hmem
      · intro report state report' state' hr hr' hcount
        exact hchain.waits hteam hhead hr hr' hcount
      · have hpaused : waitCount state = waitCount state' := by
          rw [← hstored.same_count.1, ← hstored.same_count.2, hcount, hcount']
        obtain ⟨⟨chains, hcalls, hflat⟩, chains', hcalls', hflat'⟩ :=
          ih.2.2 (.inr ⟨report, state, report', state', rfl, rfl, hpaused⟩)
        have hlast : StopTogether earlier (∀ config, kind config → config.maxCostUsd = none)
            (pair :: more) r r' := by
          unfold StopTogether at hstop
          rwa [List.getLast?_append_cons] at hstop
        obtain ⟨⟨w', hleft⟩, v', hright⟩ := hchain.paired hteam hhead (hlast.imp hkind)
        rw [← hid] at hright
        exact ⟨⟨_, .resume hcalls hstored.left hstage hws hworker hconfig hjob hcall hleft, by simp [hflat]⟩,
          _, .resume hcalls' hstored.right hstage' hws' hworker' hconfig hjob' hcall' hright, by simp [hflat']⟩
  exact ⟨hall.1, fun hnone hlate => hall.2.2 (.inl ⟨hnone, hlate⟩)⟩

end

/-! ### Two concrete runs -/

def terseDispatcher : Worker := { dispatcher with instructions := some "Be terse." }

/-- The team whose dispatcher has other instructions. -/
def terseTeam : Workforce where
  workers := [terseDispatcher, helper]
  mode := .swarm
  workers_ne := by simp
  nodup := by decide
  manager_ok := by simp

theorem sameTeam_terse : SameTeam relayTeam terseTeam :=
  ⟨.cons rfl (.cons rfl .nil), .none⟩

/-- Hands over at once; what the call costs depends on the instructions. -/
def pricedTransfer (cost : ℚ) (n : ℕ) : ∀ q, Answer q
  | .complete .. => .ok (.response { transferModel 0 with usage := [("total_tokens", .int 1)] })
  | .usageCost .. => cost
  | q => plainAnswers transferModel n q

/-- The dispatcher's stint, at a price. -/
def dispatched (worker : Worker) (cost : ℚ) : Stint × World :=
  stintIn cappedConfig (pricedTransfer cost) worker plainJob (.run plainJob) {}

def helped (force : Workforce) (stint : Stint × World) : Stint × World :=
  stintIn cappedConfig (plainAnswers fun _ => { content := some "done" }) helper (handedJob force stint.1)
    (.run (handedJob force stint.1)) stint.2

def cheap : Stint × World := dispatched dispatcher 0

def costly : Stint × World := dispatched terseDispatcher 2

theorem handsOver_cheap : cheap.1.handsOver relayTeam = some (helper, handedJob relayTeam cheap.1) := rfl

theorem handsOver_costly : costly.1.handsOver terseTeam = some (helper, handedJob terseTeam costly.1) := rfl

def firstPair : StintPair := ⟨0, cheap.1, costly.1⟩

def secondPair : StintPair := ⟨1, (helped relayTeam cheap).1, (helped terseTeam costly).1⟩

theorem callPair_first : CallPair (fun _ _ => True) 1 cappedConfig {} {} firstPair cheap.2 costly.2 where
  left := runs_stintIn _ (pricedTransfer 0) dispatcher plainJob (.run plainJob) {}
  right := runs_stintIn _ (pricedTransfer 2) terseDispatcher plainJob (.run plainJob) {}
  early _ := by
    intro outcome outcome' h h'
    obtain rfl := Except.ok.inj h
    obtain rfl := Except.ok.inj h'
    rfl
  late h := absurd h (by decide)

theorem callPair_second : CallPair (fun _ _ => True) 1 cappedConfig cheap.2 costly.2 secondPair
    (helped relayTeam cheap).2 (helped terseTeam costly).2 where
  left := runs_stintIn _ _ helper (handedJob relayTeam cheap.1) _ cheap.2
  right := runs_stintIn _ _ helper (handedJob terseTeam costly.1) _ costly.2
  early h := absurd h (by decide)
  late _ := ⟨rfl, _, _, 0, rfl, rfl⟩

/-- What a swarm makes of the helper's stint. -/
def closedHelp (force : Workforce) (stint : Stint × World) : Trace sig × Outcome × World :=
  runIn (plainAnswers plainModel)
    ((helped force stint).1.close force cappedConfig "run" 10 1 (stint.1.added [])) (helped force stint).2

theorem chain_cheap : Chain relayTeam cappedConfig "run" (fun _ _ => True) 10 1 (cheap.1.added []) cheap.2
    [secondPair.left] (closedHelp relayTeam cheap).2.1 (closedHelp relayTeam cheap).2.2 := by
  have hsilent : (closedHelp relayTeam cheap).1 = [] := by decide +kernel
  have hclose : Runs (S := sig) (fun _ _ => True)
      ((helped relayTeam cheap).1.close relayTeam cappedConfig "run" 10 1 (cheap.1.added []))
      (helped relayTeam cheap).2 [] (closedHelp relayTeam cheap).2.1 (closedHelp relayTeam cheap).2.2 :=
    hsilent ▸ runIn_runs (fun _ _ => trivial) _ _
  have hends : secondPair.left.handsOver relayTeam = none :=
    Option.isNone_iff_eq_none.mp (by decide +kernel)
  exact .last callPair_second.left (.inl hends) hclose

theorem chain_costly : Chain terseTeam cappedConfig "run" (fun _ _ => True) 10 1 (costly.1.added []) costly.2
    [secondPair.right] (closedHelp terseTeam costly).2.1 (closedHelp terseTeam costly).2.2 := by
  have hsilent : (closedHelp terseTeam costly).1 = [] := by decide +kernel
  have hclose : Runs (S := sig) (fun _ _ => True)
      ((helped terseTeam costly).1.close terseTeam cappedConfig "run" 10 1 (costly.1.added []))
      (helped terseTeam costly).2 [] (closedHelp terseTeam costly).2.1 (closedHelp terseTeam costly).2.2 :=
    hsilent ▸ runIn_runs (fun _ _ => trivial) _ _
  have hends : secondPair.right.handsOver terseTeam = none :=
    Option.isNone_iff_eq_none.mp (by decide +kernel)
  exact .last callPair_second.right (.inl hends) hclose

theorem sideBySide_priced : SideBySide relayTeam terseTeam (fun _ _ => True) 1 (fun _ => True)
    [firstPair, secondPair] (closedHelp relayTeam cheap).2.1 (closedHelp terseTeam costly).2.1 :=
  .run trivial (SameTask.refl plainJob) rfl rfl rfl rfl rfl rfl rfl
    (.hand rfl callPair_first handsOver_cheap rfl handsOver_costly rfl (by decide)
      (.last rfl callPair_second chain_cheap chain_costly (.inl rfl)))

theorem swarm_isolated_priced : Isolated (fun _ => True) 1 firstPair ∧ Isolated (fun _ => True) 1 secondPair := by
  have hall := (swarm_isolated sameTeam_terse (by decide) sideBySide_priced).1
  exact ⟨hall firstPair (by simp), hall secondPair (by simp)⟩

/-- Where the other instructions make the dispatcher spend the budget, the helper is stopped. -/
theorem not_swarm_isolated : SideBySide relayTeam terseTeam (fun _ _ => True) 1 (fun _ => True)
    [firstPair, secondPair] (closedHelp relayTeam cheap).2.1 (closedHelp terseTeam costly).2.1 ∧
    ¬ ∀ pair ∈ [firstPair, secondPair], 1 ≤ pair.handoffs →
      modelCalls pair.left.trace = modelCalls pair.right.trace := by
  refine ⟨sideBySide_priced, fun h => ?_⟩
  have hcalls := congrArg List.length (h secondPair (by simp) le_rfl)
  exact absurd hcalls (by decide +kernel)

end Blackgeorge.WorkforceRun
