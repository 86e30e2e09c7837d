import Blackgeorge.WorkforceRun.Identity

/-! A swarm's run with the turns of its workers. The merged report is compared with theirs:
calls, errors and the conversation, each once and in order. -/

namespace Blackgeorge.WorkforceRun

open Data Program Coroutine Coro WorkerRunner

/-! ### The turns of a swarm -/

/-- A worker's turn in a swarm: its job, and the outcome that ended it. -/
structure SwarmTurn where
  worker : Worker
  job : Job
  outcome : Report × Option WorkerState

def SwarmTurn.report (turn : SwarmTurn) : Report := turn.outcome.1

/-- The worker that a turn hands over to, and its job. -/
def SwarmTurn.handsOver (force : Workforce) (turn : SwarmTurn) : Option (Worker × Job) :=
  if turn.outcome.2.isSome ∧ turn.report.status = .paused then
    match handoffTransition force turn.report turn.job turn.worker with
    | .ok next => next
    | .error _ => none
  else none

/-- The error of a swarm that cannot follow a turn's handoff. -/
def SwarmTurn.invalid (force : Workforce) (turn : SwarmTurn) : List String :=
  if turn.outcome.2.isSome ∧ turn.report.status = .paused then
    match handoffTransition force turn.report turn.job turn.worker with
    | .ok _ => []
    | .error e => [e.text]
  else []

section

variable (force : Workforce) (config : RunConfig)

/-- What a swarm does with a turn. -/
def SwarmTurn.next (runId : RunId) (left count : ℕ) (history : List Report) (turn : SwarmTurn) :
    Prog (Report × Option WorkforceState) :=
  swarmContinue force config runId left count history turn.worker turn.job turn.outcome

/-- `SwarmTurn.next`, with the turns from this one on. -/
def relay (runId : RunId) : ℕ → ℕ → List Report → SwarmTurn →
    Prog (List SwarmTurn × (Report × Option WorkforceState))
  | 0, count, history, turn => do
    pure ([turn], ← turn.next force config runId 0 count history)
  | left + 1, count, history, turn =>
    match turn.handsOver force with
    | none => do pure ([turn], ← turn.next force config runId (left + 1) count history)
    | some (next, job) => do
      let outcome ← arun next config job
      let (turns, out) ← relay runId left (count + 1)
        (history ++ [{ turn.report with pendingAction := none }]) ⟨next, job, outcome⟩
      pure (turn :: turns, out)

/-- The run of a swarm, with its turns. -/
def swarmRun (job : Job) : Prog (List SwarmTurn × (Report × Option WorkforceState)) := do
  config.emit "workforce.started" force.name []
  let outcome ← arun (manager force) config job
  let (turns, out) ← relay force config config.runId (swarmHandoffBudget config) 0 []
    ⟨manager force, job, outcome⟩
  let out ← withTotals config out
  config.emit "workforce.completed" force.name []
  pure (turns, out)

/-- The resume of a swarm that waits in `worker`, with the turns from the resumed one on. -/
def swarmResume (state : WorkforceState) (worker : Worker) (workerState : WorkerState)
    (count : ℕ) (history : List Report) (decision : Value) :
    Prog (List SwarmTurn × (Report × Option WorkforceState)) := do
  modifyTotals config.usageTotals fun totals => restoreTotals totals state.usageTotals
  let outcome ← aresume worker (resumeConfig config state.runId) workerState decision
  let (turns, out) ← relay force (resumeConfig config state.runId) state.runId
    (swarmHandoffBudget (resumeConfig config state.runId) - count) count history
    ⟨worker, state.job, outcome⟩
  pure (turns, ← withTotals config out)

end

variable {force : Workforce} {config : RunConfig}

theorem SwarmTurn.next_eq (runId : RunId) (left count : ℕ) (history : List Report)
    (worker : Worker) (job : Job) (outcome : Report × Option WorkerState) :
    SwarmTurn.next force config runId left count history ⟨worker, job, outcome⟩ =
      swarmContinue force config runId left count history worker job outcome := rfl

/-- A turn that hands over has a transition. -/
theorem SwarmTurn.handsOver_some {turn : SwarmTurn} {next : Worker} {job : Job}
    (h : turn.handsOver force = some (next, job)) :
    (∃ state, turn.outcome.2 = some state) ∧ turn.report.status = .paused ∧
      handoffTransition force turn.report turn.job turn.worker = .ok (some (next, job)) := by
  unfold handsOver at h
  split_ifs at h with hpaused
  refine ⟨Option.isSome_iff_exists.mp hpaused.1, hpaused.2, ?_⟩
  cases ht : handoffTransition force turn.report turn.job turn.worker with
  | error e => simp [ht] at h
  | ok next' =>
    simp only [ht] at h
    rw [h]

theorem SwarmTurn.next_handsOver {runId : RunId} {left count : ℕ} {history : List Report}
    {turn : SwarmTurn} {next : Worker} {job : Job} (h : turn.handsOver force = some (next, job)) :
    turn.next force config runId (left + 1) count history =
      arun next config job >>= fun outcome =>
        SwarmTurn.next force config runId left (count + 1)
          (history ++ [{ turn.report with pendingAction := none }]) ⟨next, job, outcome⟩ := by
  obtain ⟨worker, job', report, workerState⟩ := turn
  obtain ⟨⟨state, rfl⟩, hpaused, ht⟩ := handsOver_some h
  unfold SwarmTurn.next
  dsimp only [SwarmTurn.report] at hpaused ht ⊢
  conv_lhs => unfold swarmContinue
  rw [if_pos hpaused, ht]

theorem relay_snd (runId : RunId) (left : ℕ) : ∀ (count : ℕ) (history : List Report)
    (turn : SwarmTurn), Prod.snd <$> relay force config runId left count history turn =
      turn.next force config runId left count history := by
  induction left with
  | zero =>
    intro count history turn
    unfold relay
    simp
  | succ left ih =>
    intro count history turn
    unfold relay
    cases h : turn.handsOver force with
    | none => simp
    | some next =>
      obtain ⟨next, job⟩ := next
      rw [SwarmTurn.next_handsOver h]
      simp only [map_bind, map_pure]
      refine bind_congr fun outcome => ?_
      rw [← ih, map_eq_pure_bind]

/-- A swarm's run is a run of the workforce. -/
theorem swarmRun_snd (h : force.mode = .swarm) (job : Job) :
    Prod.snd <$> swarmRun force config job = arunWorkforce force config job := by
  unfold swarmRun arunWorkforce runMode runSwarmMode
  rw [h]
  simp only [map_bind, map_pure]
  refine bind_congr fun _ => ?_
  rw [LawfulMonad.bind_assoc]
  refine bind_congr fun outcome => ?_
  rw [← SwarmTurn.next_eq, ← relay_snd, map_eq_pure_bind, LawfulMonad.bind_assoc]
  rfl

/-- A swarm's resume is a resume of the workforce. -/
theorem swarmResume_snd {state : WorkforceState} {current : String} {count : ℕ}
    {history : List Report} {worker : Worker} {workerState : WorkerState}
    (hstage : state.stage = .swarm current count history)
    (hstate : state.workerState = some workerState)
    (hworker : resumedWorker force state workerState = .ok worker) (decision : Value) :
    Prod.snd <$> swarmResume force config state worker workerState count history decision =
      aresumeWorkforce force config state decision := by
  unfold swarmResume aresumeWorkforce
  simp only [map_bind, map_pure, hstate]
  refine bind_congr fun _ => ?_
  rw [if_neg (by simp [hstage]), resumeStage_eq, hworker]
  dsimp only
  rw [LawfulMonad.bind_assoc]
  refine bind_congr fun outcome => ?_
  unfold afterResumed
  rw [hstage]
  dsimp only
  rw [← SwarmTurn.next_eq, ← relay_snd, map_eq_pure_bind, LawfulMonad.bind_assoc]
  simp only [pure_bind, bind_pure]

/-! ### A swarm over its pauses -/

/-- What a store and the desk may make of a paused swarm before it is resumed. -/
inductive StoredForce (state : WorkforceState) : WorkforceState → Prop
  | same : StoredForce state state
  | dumped {s s'} : StoredForce state s → s.persisted = some s' → StoredForce state s'
  | job {s} (job : Job) : StoredForce state s → StoredForce state { s with job := job }

/-- The runs of a swarm over its pauses: the turns of its workers, and what the workforce
returned. A resume goes on with the turn that paused, whose outcome gives way to the next
one. -/
inductive SwarmRuns (ok : ∀ q, Answer q → Prop) (force : Workforce) :
    List SwarmTurn → Report × Option WorkforceState → Prop
  | run {config job w t turns out w'} :
    Runs (S := sig) ok (swarmRun force config job) w t (.ok (turns, out)) w' →
    SwarmRuns ok force turns out
  | resume {turns report state state' current count history workerState worker config decision w t
      more out w'} :
    SwarmRuns ok force turns (report, some state) → StoredForce state state' →
    state'.stage = .swarm current count history → state'.workerState = some workerState →
    resumedWorker force state' workerState = .ok worker →
    Runs (S := sig) ok (swarmResume force config state' worker workerState count history decision)
      w t (.ok (more, out)) w' →
    SwarmRuns ok force (turns.dropLast ++ more) out

variable {ok : ∀ q, Answer q → Prop}

/-- A paused swarm, after a number of handoffs, waits in a registered worker whose state it
has. -/
structure WaitsAfter (force : Workforce) (handoffs : ℕ) (state : WorkforceState) : Prop where
  stage : ∃ name history, state.stage = .swarm name handoffs history ∧ history.length = handoffs ∧
    ∃ worker, swarmWorker force name = .ok worker
  workerState : state.workerState.isSome

/-- A report with the calls, messages and errors of a turn's, and behind these the error of a
handoff that could not be followed. -/
structure EndsOf (force : Workforce) (turn : SwarmTurn) (final : Report) : Prop where
  toolCalls : final.toolCalls = turn.report.toolCalls
  messages : final.messages = turn.report.messages
  errors : final.errors = turn.report.errors ++ turn.invalid force

/-! ### One call -/

theorem runs_bind_ok {α β : Type} {c : Prog α} {g : α → Prog β} {w w' : World} {t : Trace sig} {b : β}
    (h : Runs (S := sig) ok (c >>= g) w t (.ok b) w') :
    ∃ a t₁ t₂ w₁, Runs (S := sig) ok c w t₁ (.ok a) w₁ ∧ Runs (S := sig) ok (g a) w₁ t₂ (.ok b) w' := by
  rcases runs_bind h with ⟨e, -, he⟩ | ⟨a, t₁, t₂, w₁, hc, hg, -⟩
  · cases he
  · exact ⟨a, t₁, t₂, w₁, hc, hg⟩

/-- What `pauseWith` builds. -/
structure PausedAs (job : Job) (workerState : WorkerState) (stage : Stage) (state : WorkforceState) : Prop where
  stage : stage.persisted = some state.stage
  root : ∃ root, job.persisted = some root ∧ state.rootJob = some root
  workerState : ∃ dumped, workerState.persisted = some dumped ∧ state.workerState = some dumped
  job_eq : state.job = job

theorem pausedAs_pauseWith {runId : RunId} {job : Job} {report : Report} {workerState : WorkerState}
    {stage : Stage} {w w' : World} {t : Trace sig} {out : Report × Option WorkforceState}
    (h : Runs (S := sig) ok (pauseWith force config runId job report workerState stage) w t (.ok out) w') :
    ∃ state, out = (report, some state) ∧ PausedAs job workerState stage state := by
  obtain ⟨totals, _, _, _, -, h⟩ := runs_bind_ok h
  obtain ⟨state, _, _, _, hbuilt, h⟩ := runs_bind_ok h
  cases h
  have hstate : buildWorkforceState force runId job job workerState stage totals = .ok state := by
    generalize buildWorkforceState force runId job job workerState stage totals = built at hbuilt
    cases hbuilt
    rfl
  obtain ⟨dumped, hdumped, hstate⟩ := ok_of_bind hstate
  obtain ⟨stage', hstage, hstate⟩ := ok_of_bind hstate
  obtain ⟨root, hroot, hstate⟩ := ok_of_bind hstate
  obtain rfl := Except.ok.inj hstate
  exact ⟨_, rfl, orSerializationError_ok hstage, ⟨root, orSerializationError_ok hroot, rfl⟩,
    ⟨dumped, orSerializationError_ok hdumped, rfl⟩, rfl⟩

/-- What a turn without a handoff leads to: an end, or a pause in the turn's worker. -/
theorem runs_next {runId : RunId} {left count : ℕ} {history : List Report} {turn : SwarmTurn}
    {w w' : World} {t : Trace sig} {out : Report × Option WorkforceState}
    (hworker : swarmWorker force turn.worker.name = .ok turn.worker)
    (hnone : turn.handsOver force = none) (hlen : history.length = count)
    (h : Runs (S := sig) ok (turn.next force config runId left count history) w t (.ok out) w') :
    (∃ final, out = (mergeSwarmReports history final, none) ∧ EndsOf force turn final) ∨
      ∃ state, out = (turn.report, some state) ∧ WaitsAfter force count state := by
  obtain ⟨worker, job, report, workerState⟩ := turn
  unfold SwarmTurn.next swarmContinue at h
  cases workerState with
  | none =>
    cases h
    exact .inl ⟨report, rfl, rfl, rfl, (List.append_nil _).symm⟩
  | some state =>
    dsimp only at h
    have hpause (h : Runs (S := sig) ok (pauseWith force config runId job report state
        (.swarm worker.name count history)) w t (.ok out) w') :
        ∃ state, out = (report, some state) ∧ WaitsAfter force count state := by
      obtain ⟨paused, rfl, hpausedAs⟩ := pausedAs_pauseWith h
      have hstage := hpausedAs.stage
      simp only [Stage.persisted, Option.bind_eq_bind, Option.bind_eq_some_iff] at hstage
      obtain ⟨history', hhistory, hstage⟩ := hstage
      have hpaused := (Option.some.inj hstage).symm
      have hstate : paused.workerState.isSome := by
        obtain ⟨dumped, -, hdumped⟩ := hpausedAs.workerState
        rw [hdumped]
        rfl
      have hlen' : history'.length = count := (forall₂_of_mapM hhistory).length_eq.symm.trans hlen
      exact ⟨paused, rfl, ⟨_, history', hpaused, hlen', worker, hworker⟩, hstate⟩
    by_cases hpaused : report.status = .paused
    · rw [if_pos hpaused] at h
      unfold SwarmTurn.handsOver at hnone
      rw [if_pos ⟨rfl, hpaused⟩] at hnone
      dsimp only [SwarmTurn.report] at hnone
      cases ht : handoffTransition force report job worker with
      | error e =>
        rw [ht] at h
        cases h
        have hinvalid : SwarmTurn.invalid force ⟨worker, job, report, some state⟩ = [e.text] := by
          unfold SwarmTurn.invalid
          rw [if_pos ⟨rfl, hpaused⟩]
          dsimp only [SwarmTurn.report]
          rw [ht]
        exact .inl ⟨_, rfl, rfl, rfl, by rw [hinvalid]; rfl⟩
      | ok next =>
        simp only [ht] at hnone
        subst hnone
        rw [ht] at h
        exact .inr (hpause h)
    · rw [if_neg hpaused] at h
      exact .inr (hpause h)

/-- What the turns of a call lead to. All but the last hand over. -/
structure Relayed (force : Workforce) (count : ℕ) (history : List Report) (turn : SwarmTurn)
    (turns : List SwarmTurn) (out : Report × Option WorkforceState) : Prop where
  head : turns.head? = some turn
  handed : ∀ turn ∈ turns.dropLast, (turn.handsOver force).isSome
  paused : ∀ state ∈ out.2, WaitsAfter force (count + turns.length - 1) state
  ended : (∀ turn ∈ turns, turn.handsOver force = none) → out.2 = none →
    turns = [turn] ∧ ∃ final, out.1 = mergeSwarmReports history final ∧ EndsOf force turn final

theorem relayed_single {count : ℕ} {history : List Report} {turn : SwarmTurn}
    {out : Report × Option WorkforceState}
    (h : (∃ final, out = (mergeSwarmReports history final, none) ∧ EndsOf force turn final) ∨
      ∃ state, out = (turn.report, some state) ∧ WaitsAfter force count state) :
    Relayed force count history turn [turn] out := by
  rcases h with ⟨final, rfl, hfinal⟩ | ⟨state, rfl, hwaits⟩
  · exact ⟨rfl, by simp, by simp, fun _ _ => ⟨rfl, final, rfl, hfinal⟩⟩
  · refine ⟨rfl, by simp, ?_, by simp⟩
    rintro _ ⟨⟩
    exact hwaits

theorem swarmWorker_handoffTransition {report : Report} {worker next : Worker} {job nextJob : Job}
    (h : handoffTransition force report job worker = .ok (some (next, nextJob))) :
    swarmWorker force next.name = .ok next := by
  unfold handoffTransition at h
  split at h
  · cases h
  · split at h
    · cases h
    · split_ifs at h
      split at h
      · cases h
      · next found hfound =>
        obtain ⟨rfl, rfl⟩ := Prod.mk.inj (Option.some.inj (Except.ok.inj h))
        rw [(swarmWorker_ok hfound).1]
        exact hfound

theorem runs_relay {runId : RunId} (left : ℕ) : ∀ {count : ℕ} {history : List Report}
    {turn : SwarmTurn} {w w' : World} {t : Trace sig} {turns : List SwarmTurn}
    {out : Report × Option WorkforceState},
    swarmWorker force turn.worker.name = .ok turn.worker → history.length = count →
    Runs (S := sig) ok (relay force config runId left count history turn) w t (.ok (turns, out)) w' →
    Relayed force count history turn turns out := by
  induction left with
  | zero =>
    intro count history turn w w' t turns out hworker hlen h
    unfold relay at h
    obtain ⟨out', _, _, _, hrun, hret⟩ := runs_bind_ok h
    cases hret
    cases hover : turn.handsOver force with
    | none => exact relayed_single (runs_next hworker hover hlen hrun)
    | some next =>
      -- the budget is spent
      obtain ⟨worker, job, report, workerState⟩ := turn
      obtain ⟨⟨state, rfl⟩, hpaused, ht⟩ := SwarmTurn.handsOver_some hover
      unfold SwarmTurn.next swarmContinue at hrun
      dsimp only [SwarmTurn.report] at hrun hpaused ht
      rw [if_pos hpaused, ht] at hrun
      cases hrun
      refine ⟨rfl, by simp, by simp, fun hstays => ?_⟩
      rw [hstays _ (List.mem_singleton_self _)] at hover
      cases hover
  | succ left ih =>
    intro count history turn w w' t turns out hworker hlen h
    unfold relay at h
    cases hover : turn.handsOver force with
    | none =>
      rw [hover] at h
      obtain ⟨out', _, _, _, hrun, hret⟩ := runs_bind_ok h
      cases hret
      exact relayed_single (runs_next hworker hover hlen hrun)
    | some next =>
      obtain ⟨next, job⟩ := next
      rw [hover] at h
      obtain ⟨outcome, _, _, _, -, h⟩ := runs_bind_ok h
      obtain ⟨⟨more, out'⟩, _, _, _, hrun, hret⟩ := runs_bind_ok h
      cases hret
      have hnext := swarmWorker_handoffTransition (SwarmTurn.handsOver_some hover).2.2
      obtain ⟨hhead, hhanded, hpaused, -⟩ := ih hnext (by simp [hlen]) hrun
      have hmore : more ≠ [] := by
        rintro rfl
        cases hhead
      refine ⟨rfl, fun turn' hmem => ?_, fun state hstate => ?_, fun hstays => ?_⟩
      · rw [List.dropLast_cons_of_ne_nil hmore] at hmem
        rcases List.mem_cons.mp hmem with rfl | hmem
        · rw [hover]
          rfl
        · exact hhanded turn' hmem
      · have hwaits := hpaused state hstate
        have hpos := List.length_pos_iff.mpr hmore
        rwa [show count + 1 + more.length - 1 = count + (turn :: more).length - 1 by
          rw [List.length_cons]; omega] at hwaits
      · rw [hstays turn (List.mem_cons_self)] at hover
        cases hover

/-! ### All calls -/

theorem waitsAfter_stored {handoffs : ℕ} {s s' : WorkforceState} (hs : StoredForce s s')
    (h : WaitsAfter force handoffs s) : WaitsAfter force handoffs s' := by
  induction hs with
  | same => exact h
  | @dumped s s' _ hdump ih =>
    obtain ⟨⟨name, history, hstage, hlen, hworker⟩, hstate⟩ := ih
    simp only [WorkforceState.persisted, hstage, Stage.persisted, Option.bind_eq_bind,
      Option.bind_eq_some_iff] at hdump
    obtain ⟨core, _, stage, ⟨history', hhistory, hstage'⟩, workerState, hdumped, root, _, hs⟩ := hdump
    obtain rfl := Option.some.inj hs
    obtain rfl := Option.some.inj hstage'
    refine ⟨⟨name, history', rfl, (forall₂_of_mapM hhistory).length_eq.symm.trans hlen, hworker⟩, ?_⟩
    obtain ⟨ws, hws⟩ := Option.isSome_iff_exists.mp hstate
    rw [hws] at hdumped
    simp only [Option.mapM_some, Option.map_eq_map, Option.map_eq_some_iff] at hdumped
    obtain ⟨ws', _, rfl⟩ := hdumped
    rfl
  | job _ _ ih => exact ⟨ih.stage, ih.workerState⟩

theorem worker_name_ne (worker : Worker) : worker.name ≠ "" := fun h =>
  worker.name_ne (by rw [h]; decide)

theorem swarmWorker_manager (force : Workforce) :
    swarmWorker force (manager force).name = .ok (manager force) := by
  have hfound : force.workerByName (manager force).name = some (manager force) := by
    unfold Workforce.workerByName manager
    cases hm : force.manager with
    | some m => simp
    | none =>
      obtain ⟨first, rest, hworkers⟩ := List.exists_cons_of_ne_nil force.workers_ne
      simp [Workforce.first, hworkers]
  unfold swarmWorker
  rw [if_neg (worker_name_ne _), hfound]

theorem runs_withTotals {out out' : Report × Option WorkforceState} {w w' : World} {t : Trace sig}
    (h : Runs (S := sig) ok (withTotals config out) w t (.ok out') w') :
    out'.2 = out.2 ∧ ∀ turn, EndsOf force turn out.1 → EndsOf force turn out'.1 := by
  obtain ⟨report, _ | state⟩ := out
  · cases h with
    | act h =>
      cases h
      exact ⟨rfl, fun _ h => ⟨h.toolCalls, h.messages, h.errors⟩⟩
  · cases h
    exact ⟨rfl, fun _ h => h⟩

/-- What a swarm has come to after its pauses so far. -/
structure Swarmed (force : Workforce) (turns : List SwarmTurn) (out : Report × Option WorkforceState) :
    Prop where
  ne : turns ≠ []
  handed : ∀ turn ∈ turns.dropLast, (turn.handsOver force).isSome
  paused : ∀ state ∈ out.2, WaitsAfter force (turns.length - 1) state
  ended : (∀ turn ∈ turns, turn.handsOver force = none) → out.2 = none →
    ∃ turn, turns = [turn] ∧ EndsOf force turn out.1

/-- The turns of a last call behind those that handed over to it. -/
theorem Relayed.swarmed {count : ℕ} {history : List Report} {earlier turns : List SwarmTurn}
    {turn : SwarmTurn} {out out' : Report × Option WorkforceState}
    (h : Relayed force count history turn turns out) (hearlier : earlier.length = count)
    (hhanded : ∀ turn ∈ earlier, (turn.handsOver force).isSome) (hhistory : history.length = count)
    (hsame : out'.2 = out.2) (hends : ∀ turn, EndsOf force turn out.1 → EndsOf force turn out'.1) :
    Swarmed force (earlier ++ turns) out' := by
  have hne : turns ≠ [] := by
    rintro rfl
    cases h.head
  refine ⟨fun hnil => hne (List.append_eq_nil_iff.mp hnil).2, ?_, ?_, ?_⟩
  · intro turn' hmem
    rw [List.dropLast_append_of_ne_nil hne] at hmem
    rcases List.mem_append.mp hmem with hmem | hmem
    · exact hhanded turn' hmem
    · exact h.handed turn' hmem
  · intro state hstate
    rw [hsame] at hstate
    rw [List.length_append, hearlier]
    exact h.paused state hstate
  · intro hstays hnone
    obtain rfl : earlier = [] := by
      cases earlier with
      | nil => rfl
      | cons first rest =>
        have hfirst := hhanded first (List.mem_cons_self)
        rw [hstays first (by simp)] at hfirst
        cases hfirst
    obtain rfl := List.length_eq_zero_iff.mp (hhistory.trans hearlier.symm)
    obtain ⟨rfl, final, hfinal, hof⟩ := h.ended hstays (hsame ▸ hnone)
    -- nothing is merged
    obtain rfl : out.1 = final := hfinal
    exact ⟨turn, rfl, hends _ hof⟩

theorem SwarmRuns.swarmed {turns : List SwarmTurn} {out : Report × Option WorkforceState}
    (h : SwarmRuns ok force turns out) : Swarmed force turns out := by
  induction h with
  | @run config job w t turns out w' h =>
    obtain ⟨_, _, _, _, -, h⟩ := runs_bind_ok h
    obtain ⟨outcome, _, _, _, -, h⟩ := runs_bind_ok h
    obtain ⟨⟨turns', out'⟩, _, _, _, hrelay, h⟩ := runs_bind_ok h
    obtain ⟨out'', _, _, _, htotals, h⟩ := runs_bind_ok h
    obtain ⟨_, _, _, _, -, h⟩ := runs_bind_ok h
    cases h
    obtain ⟨hsame, hends⟩ := runs_withTotals htotals
    have hnone : ([] : List Report).length = 0 := rfl
    have hrelayed := runs_relay _ (swarmWorker_manager force) hnone hrelay
    exact @Relayed.swarmed _ _ _ [] _ _ _ _ hrelayed rfl (by simp) hnone hsame hends
  | @resume turns report state state' current count history workerState worker config decision w t
      more out w' _ hstored hstage hstate hworker h ih =>
    obtain ⟨name, history', hstage', hlen, -⟩ := (waitsAfter_stored hstored (ih.paused state rfl)).stage
    rw [hstage] at hstage'
    obtain ⟨rfl, rfl, rfl⟩ := Stage.swarm.inj hstage'
    have hregistered : swarmWorker force worker.name = .ok worker := by
      unfold resumedWorker at hworker
      rw [hstage] at hworker
      dsimp only at hworker
      cases hfound : swarmWorker force (if current = "" then workerState.runnerName else current) with
      | error e => rw [hfound] at hworker; cases hworker
      | ok found =>
        rw [hfound] at hworker
        obtain rfl : found = worker := Except.ok.inj hworker
        rw [(swarmWorker_ok hfound).1]
        exact hfound
    obtain ⟨_, _, _, _, -, h⟩ := runs_bind_ok h
    obtain ⟨outcome, _, _, _, -, h⟩ := runs_bind_ok h
    obtain ⟨⟨turns', out'⟩, _, _, _, hrelay, h⟩ := runs_bind_ok h
    obtain ⟨out'', _, _, _, htotals, h⟩ := runs_bind_ok h
    cases h
    obtain ⟨hsame, hends⟩ := runs_withTotals htotals
    have hrelayed := runs_relay _ hregistered hlen hrelay
    exact hrelayed.swarmed (by simp) ih.handed hlen hsame hends

theorem runs_map_ok {α β : Type} {f : α → β} {c : Prog α} {w w' : World} {t : Trace sig} {b : β}
    (h : Runs (S := sig) ok (f <$> c) w t (.ok b) w') :
    ∃ a, f a = b ∧ Runs (S := sig) ok c w t (.ok a) w' := by
  rw [map_eq_pure_bind] at h
  rcases runs_bind h with ⟨e, -, he⟩ | ⟨a, t₁, t₂, w₁, hc, hret, rfl⟩
  · cases he
  · cases hret
    rw [List.append_nil]
    exact ⟨a, rfl, hc⟩

/-- Every run of a workforce in swarm mode is one of its runs. -/
theorem exists_swarmRuns (hmode : force.mode = .swarm) {job : Job} {w w' : World} {t : Trace sig}
    {out : Report × Option WorkforceState}
    (h : Runs (S := sig) ok (arunWorkforce force config job) w t (.ok out) w') :
    ∃ turns, SwarmRuns ok force turns out := by
  rw [← swarmRun_snd hmode] at h
  obtain ⟨⟨turns, out'⟩, rfl, hrun⟩ := runs_map_ok h
  exact ⟨turns, .run hrun⟩

/-- So is every resume of a paused one, which always goes on in a worker. -/
theorem SwarmRuns.exists_resume {turns : List SwarmTurn} {report : Report}
    {state state' : WorkforceState} (h : SwarmRuns ok force turns (report, some state))
    (hstored : StoredForce state state') {decision : Value} {w w' : World} {t : Trace sig}
    {out : Report × Option WorkforceState}
    (hr : Runs (S := sig) ok (aresumeWorkforce force config state' decision) w t (.ok out) w') :
    ∃ turns', SwarmRuns ok force turns' out := by
  obtain ⟨⟨name, history, hstage, -, worker, hworker⟩, hstate⟩ :=
    waitsAfter_stored hstored (h.swarmed.paused state rfl)
  obtain ⟨workerState, hstate⟩ := Option.isSome_iff_exists.mp hstate
  have hresumed : resumedWorker force state' workerState = .ok worker := by
    unfold resumedWorker
    rw [hstage]
    dsimp only
    rw [if_neg (swarmWorker_ok hworker).2.1, hworker]
    rfl
  rw [← swarmResume_snd hstage hstate hresumed] at hr
  obtain ⟨⟨more, out'⟩, rfl, hrun⟩ := runs_map_ok hr
  exact ⟨_, .resume h hstored hstage hstate hresumed hrun⟩

/-! ### The returned report -/

/-- What a swarm's report has to tell: the calls and errors of its workers' runs one after
the other, each with the error of a handoff that could not be followed, and one conversation
in which all messages of each run stand in order and none that no run needs. -/
structure TellsAll (force : Workforce) (turns : List SwarmTurn) (report : Report) : Prop where
  toolCalls : report.toolCalls = turns.flatMap fun turn => turn.report.toolCalls
  errors : report.errors = turns.flatMap fun turn => turn.report.errors ++ turn.invalid force
  messages : ∀ turn ∈ turns, turn.report.messages.Sublist report.messages
  once : ∀ messages : List Message, (∀ turn ∈ turns, turn.report.messages.Sublist messages) →
    report.messages.length ≤ messages.length

/-- A swarm in which no turn hands over returns a report that tells all. -/
theorem swarmRuns_tellsAll {turns : List SwarmTurn} {report : Report}
    (h : SwarmRuns ok force turns (report, none))
    (hstays : ∀ turn ∈ turns, turn.handsOver force = none) : TellsAll force turns report := by
  obtain ⟨turn, rfl, hcalls, hmessages, herrors⟩ := h.swarmed.ended hstays rfl
  refine ⟨by simpa using hcalls, by simpa using herrors, ?_, ?_⟩
  · simp only [List.mem_singleton, forall_eq]
    rw [hmessages]
  · intro messages hall
    have hsublist := hall turn (List.mem_singleton_self turn)
    rw [hmessages]
    exact hsublist.length_le

/-! ### A confirmation -/

def confirmTeam : Workforce := { collaborators with mode := .swarm }

/-- Calls a tool that runs at once and one that waits. -/
def confirmModel (_ : ℕ) : ModelResponse where
  content := none
  toolCalls := [{ id := "c1", name := "lookup", arguments := [] }, { deployCall with id := "c2" }]

/-- The swarm up to its pause. -/
@[irreducible] def confirmRun :=
  runIn (plainAnswers confirmModel) (swarmRun confirmTeam onceConfig plainJob) {}

def confirmOut : List SwarmTurn × (Report × Option WorkforceState) :=
  confirmRun.2.1.toOption.get (by decide +kernel)

def confirmState : WorkforceState := confirmOut.2.2.get (by decide +kernel)

def confirmWorkerState : WorkerState := confirmState.workerState.get (by decide +kernel)

/-- The swarm from its resume on: the call runs, and the iterations are used up. -/
@[irreducible] def confirmedRun :=
  runIn (plainAnswers confirmModel)
    (swarmResume confirmTeam onceConfig confirmState plainWorker confirmWorkerState 0 [] (.bool true)) {}

def confirmedOut : List SwarmTurn × (Report × Option WorkforceState) :=
  confirmedRun.2.1.toOption.get (by decide +kernel)

/-- The stage of a swarm without handoffs. -/
def isFirstStage : Stage → Bool
  | .swarm current 0 [] => current = "worker"
  | _ => false

theorem eq_of_isFirstStage {stage : Stage} (h : isFirstStage stage = true) :
    stage = .swarm "worker" 0 [] := by
  unfold isFirstStage at h
  split at h
  · rw [of_decide_eq_true h]
  · cases h

theorem swarmRuns_confirm :
    SwarmRuns (fun _ _ => True) confirmTeam confirmOut.1 (confirmOut.2.1, some confirmState) := by
  have hout : confirmRun.2.1 = .ok (confirmOut.1, (confirmOut.2.1, some confirmState)) := by
    rw [confirmState, Option.some_get]
    exact eq_ok_get _
  have hrun : Runs (S := sig) (fun _ _ => True) (swarmRun confirmTeam onceConfig plainJob) {}
      confirmRun.1 confirmRun.2.1 confirmRun.2.2 := by
    unfold confirmRun
    exact runIn_runs (fun _ _ => trivial) _ _
  exact .run (hout ▸ hrun)

theorem swarmRuns_confirmed :
    SwarmRuns (fun _ _ => True) confirmTeam (confirmOut.1.dropLast ++ confirmedOut.1)
      (confirmedOut.2.1, none) := by
  have hout : confirmedRun.2.1 = .ok (confirmedOut.1, (confirmedOut.2.1, none)) := by
    have hnone : confirmedOut.2.2 = none := Option.isNone_iff_eq_none.mp (by decide +kernel)
    rw [← hnone]
    exact eq_ok_get _
  have hrun : Runs (S := sig) (fun _ _ => True)
      (swarmResume confirmTeam onceConfig confirmState plainWorker confirmWorkerState 0 [] (.bool true))
      {} confirmedRun.1 confirmedRun.2.1 confirmedRun.2.2 := by
    unfold confirmedRun
    exact runIn_runs (fun _ _ => trivial) _ _
  have hstage : confirmState.stage = .swarm "worker" 0 [] :=
    eq_of_isFirstStage (by decide +kernel)
  have hstate : confirmState.workerState = some confirmWorkerState := (Option.some_get _).symm
  have hworker : resumedWorker confirmTeam confirmState confirmWorkerState = .ok plainWorker := by
    unfold resumedWorker
    rw [hstage]
    rfl
  exact .resume swarmRuns_confirm .same hstage hstate hworker (hout ▸ hrun)

/-- A run of two calls that pauses, is confirmed, and fails for want of iterations. -/
theorem swarmRuns_tellsAll_confirmed : ∃ paused state turns report,
    SwarmRuns (fun _ _ => True) confirmTeam paused (report, some state) ∧
      ∃ final, SwarmRuns (fun _ _ => True) confirmTeam turns (final, none) ∧
        final.toolCalls.length = 2 ∧ final.errors = ["Max iterations exceeded"] ∧
          TellsAll confirmTeam turns final := by
  refine ⟨_, _, _, _, swarmRuns_confirm, _, swarmRuns_confirmed, by decide +kernel,
    by decide +kernel, swarmRuns_tellsAll swarmRuns_confirmed fun turn hmem => ?_⟩
  have hstays : ∀ turn ∈ confirmOut.1.dropLast ++ confirmedOut.1,
      (turn.handsOver confirmTeam).isNone := by decide +kernel
  exact Option.isNone_iff_eq_none.mp (hstays turn hmem)

/-! ### A handoff -/

/-- A tool that hands over. -/
def transferTool : Tool where
  name := "transfer"
  description := "Hand over to another worker"
  callable := 4
  requiresHandoff := true

def dispatcher : Worker :=
  { plainWorker with
    name := "dispatcher", toolbelt := { tools := [transferTool] }, memoryScope := "worker:dispatcher", name_ne := by decide }

def relayTeam : Workforce where
  workers := [dispatcher, helper]
  mode := .swarm
  workers_ne := by simp
  nodup := by decide
  manager_ok := by simp

/-- Hands over to the helper first, and is done after it. -/
def transferModel (n : ℕ) : ModelResponse :=
  if n < 6 then
    { content := none
      toolCalls := [{ id := "c1", name := "transfer", arguments := [("agent_name", .str "helper")] }] }
  else { content := some "done" }

theorem swarmRuns_plain (model : ℕ → ModelResponse) {turns : List SwarmTurn}
    {out : Report × Option WorkforceState}
    (h : (runIn (plainAnswers model) (swarmRun relayTeam plainConfig plainJob) {}).2.1 =
      .ok (turns, out)) : SwarmRuns (fun _ _ => True) relayTeam turns out :=
  .run (h ▸ runIn_runs (fun _ _ => trivial) _ _)

/-- After a handoff the messages of the last worker are missing. -/
theorem not_tellsAll_handoff : ∃ turns report,
    SwarmRuns (fun _ _ => True) relayTeam turns (report, none) ∧ ¬ TellsAll relayTeam turns report := by
  refine ⟨_, _, swarmRuns_plain transferModel rfl, fun h => ?_⟩
  have hlen := (h.messages _ (List.mem_cons_of_mem _ (List.mem_singleton_self _))).length_le
  exact absurd hlen (by decide)

end Blackgeorge.WorkforceRun
