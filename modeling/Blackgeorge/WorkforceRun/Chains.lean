import Blackgeorge.WorkforceRun.Relay

/-! Swarms over their pauses, worker by worker. A call of a swarm is a chain of stints: all
but the last hand over to the next, whether or not the last one ends well. -/

namespace Blackgeorge.WorkforceRun

open Data Program Coroutine Coro WorkerRunner

/-- A worker's stint in a swarm: the job the swarm is at, the call it makes of the worker,
what was asked and answered, and how the call ended. -/
structure Stint where
  worker : Worker
  job : Job
  call : Call
  trace : Trace sig
  result : Except Exn (Report × Option WorkerState)

/-- What a swarm or a worker comes to. -/
abbrev Outcome := Except Exn (Report × Option WorkforceState)

/-- The worker that a stint hands over to, and its job. -/
def Stint.handsOver (force : Workforce) (stint : Stint) : Option (Worker × Job) :=
  match stint.result with
  | .ok outcome => SwarmTurn.handsOver force ⟨stint.worker, stint.job, outcome⟩
  | .error _ => none

section

variable (force : Workforce) (config : RunConfig) (runId : RunId)

/-- A worker's call and what the swarm makes of it, after a number of handoffs. -/
def callThenContinue (budget count : ℕ) (history : List Report) (worker : Worker) (job : Job)
    (call : Call) : Prog (Report × Option WorkforceState) := do
  let outcome ← call.prog worker config
  swarmContinue force config runId (budget - count) count history worker job outcome

/-- What the swarm makes of a stint. -/
def Stint.close (budget count : ℕ) (history : List Report) (stint : Stint) :
    Prog (Report × Option WorkforceState) := do
  let outcome ← Prog.ofExcept stint.result
  swarmContinue force config runId (budget - count) count history stint.worker stint.job outcome

/-- The history that the next worker's stint adds to. -/
def Stint.added (history : List Report) (stint : Stint) : List Report :=
  match stint.result with
  | .ok outcome => history ++ [{ outcome.1 with pendingAction := none }]
  | .error _ => history

/-- The chains of stints in a swarm, after a number of handoffs and the reports before them. -/
inductive Chain (ok : ∀ q, Answer q → Prop) (budget : ℕ) :
    ℕ → List Report → World → List Stint → Outcome → World → Prop
  | last {count history w stint w₁ r w'} :
    Runs (S := sig) ok (stint.call.prog stint.worker config) w stint.trace stint.result w₁ →
    (stint.handsOver force = none ∨ budget ≤ count) →
    Runs (S := sig) ok (stint.close force config runId budget count history) w₁ [] r w' →
    Chain ok budget count history w [stint] r w'
  | hand {count history w stint w₁ next stints r w'} :
    Runs (S := sig) ok (stint.call.prog stint.worker config) w stint.trace stint.result w₁ →
    stint.handsOver force = some (next.worker, next.job) → next.call = .run next.job →
    count < budget → Chain ok budget (count + 1) (stint.added history) w₁ (next :: stints) r w' →
    Chain ok budget count history w (stint :: next :: stints) r w'

end

variable {ok : ∀ q, Answer q → Prop} {force : Workforce} {config : RunConfig} {runId : RunId}
  {budget count : ℕ} {history : List Report} {w w' : World} {stints : List Stint} {r : Outcome}

theorem SwarmTurn.handsOver_of {worker : Worker} {job : Job} {report : Report} {state : WorkerState}
    {next : Worker × Job} (hpaused : report.status = .paused)
    (ht : handoffTransition force report job worker = .ok (some next)) :
    SwarmTurn.handsOver force ⟨worker, job, report, some state⟩ = some next := by
  unfold SwarmTurn.handsOver
  rw [if_pos ⟨rfl, hpaused⟩]
  dsimp only [SwarmTurn.report]
  rw [ht]

/-- What a swarm makes of a stint that does not hand over needs no answers. -/
theorem swarmContinue_silent {left : ℕ} {worker : Worker} {job : Job}
    {outcome : Report × Option WorkerState}
    (h : SwarmTurn.handsOver force ⟨worker, job, outcome⟩ = none ∨ left = 0) {t : Trace sig}
    (hr : Runs (S := sig) ok
      (swarmContinue force config runId left count history worker job outcome) w t r w') : t = [] := by
  obtain ⟨report, workerState⟩ := outcome
  have hpause {state : WorkerState} (hp : Runs (S := sig) ok (pauseWith force config runId job report state
      (.swarm worker.name count history)) w t r w') : t = [] := by
    cases hp with
    | act hp =>
      generalize hbuilt : (buildWorkforceState force runId job job state (.swarm worker.name count history)
        (w.totals config.usageTotals)) = built
      have hp' : Runs (S := sig) ok (Prog.ofExcept built >>= fun paused => pure (report, some paused))
          w t r w' := hbuilt ▸ hp
      cases built <;> cases hp' <;> rfl
  unfold swarmContinue at hr
  cases workerState with
  | none =>
    cases hr
    rfl
  | some state =>
    dsimp only at hr
    by_cases hpaused : report.status = .paused
    · rw [if_pos hpaused] at hr
      cases ht : handoffTransition force report job worker with
      | error e =>
        rw [ht] at hr
        cases hr
        rfl
      | ok next =>
        rw [ht] at hr
        cases next with
        | none => exact hpause hr
        | some next =>
          rw [SwarmTurn.handsOver_of hpaused ht] at h
          obtain rfl : left = 0 := by simpa using h
          cases hr
          rfl
    · rw [if_neg hpaused] at hr
      exact hpause hr

/-- Every run of a call and what the swarm makes of it is a chain. -/
theorem exists_chain (left : ℕ) : ∀ {count : ℕ} {history : List Report} {worker : Worker} {job : Job}
    {call : Call} {w : World} {t : Trace sig}, budget - count = left →
    Runs (S := sig) ok (callThenContinue force config runId budget count history worker job call)
      w t r w' →
    ∃ stint stints, stint.worker = worker ∧ stint.job = job ∧ stint.call = call ∧
      t = (stint :: stints).flatMap Stint.trace ∧
      Chain force config runId ok budget count history w (stint :: stints) r w' := by
  induction left with
  | zero =>
    intro count history worker job call w t hleft h
    rcases runs_bind h with ⟨e, hcall, rfl⟩ | ⟨outcome, t₁, t₂, w₁, hcall, hrest, rfl⟩
    · exact ⟨⟨worker, job, call, t, .error e⟩, [], rfl, rfl, rfl, by simp,
        .last hcall (.inl rfl) (.ret _ _)⟩
    · rw [hleft] at hrest
      obtain rfl := swarmContinue_silent (.inr rfl) hrest
      refine ⟨⟨worker, job, call, t₁, .ok outcome⟩, [], rfl, rfl, rfl, by simp, ?_⟩
      refine .last hcall (.inr (by omega)) ?_
      show Runs (S := sig) ok (swarmContinue _ _ _ (budget - count) _ _ _ _ _) _ _ _ _
      rwa [hleft]
  | succ left ih =>
    intro count history worker job call w t hleft h
    rcases runs_bind h with ⟨e, hcall, rfl⟩ | ⟨outcome, t₁, t₂, w₁, hcall, hrest, rfl⟩
    · exact ⟨⟨worker, job, call, t, .error e⟩, [], rfl, rfl, rfl, by simp,
        .last hcall (.inl rfl) (.ret _ _)⟩
    · cases hover : SwarmTurn.handsOver force ⟨worker, job, outcome⟩ with
      | none =>
        obtain rfl := swarmContinue_silent (.inl hover) hrest
        exact ⟨⟨worker, job, call, t₁, .ok outcome⟩, [], rfl, rfl, rfl, by simp,
          .last hcall (.inl hover) hrest⟩
      | some next =>
        obtain ⟨next, nextJob⟩ := next
        rw [hleft, ← SwarmTurn.next_eq, SwarmTurn.next_handsOver hover] at hrest
        have hleft' : budget - (count + 1) = left := by omega
        have hrest' : Runs (S := sig) ok (callThenContinue force config runId budget (count + 1)
            (history ++ [{ outcome.1 with pendingAction := none }]) next nextJob (.run nextJob))
            w₁ t₂ r w' := by
          unfold callThenContinue
          rw [hleft']
          exact hrest
        obtain ⟨stint, stints, rfl, rfl, hcall', rfl, hchain⟩ := ih hleft' hrest'
        exact ⟨⟨worker, job, call, t₁, .ok outcome⟩, stint :: stints, rfl, rfl, rfl, rfl,
          .hand hcall hover hcall' (by omega) hchain⟩

/-! ### Chains over pauses -/

/-- The calls of a swarm over its pauses under configurations of one kind: the chains of its
run and of its resumes so far, and what the last one came to. -/
inductive SwarmCalls (ok : ∀ q, Answer q → Prop) (force : Workforce) (kind : RunConfig → Prop) :
    List (List Stint) → Outcome → Prop
  | run {config job w stint stints r w'} :
    kind config → stint.worker = manager force → stint.job = job → stint.call = .run job →
    Chain force config config.runId ok (swarmHandoffBudget config) 0 [] w (stint :: stints) r w' →
    SwarmCalls ok force kind [stint :: stints] r
  | resume {chains report state state' current count history workerState config decision w stint
      stints r w'} :
    SwarmCalls ok force kind chains (.ok (report, some state)) → StoredForce state state' →
    state'.stage = .swarm current count history → state'.workerState = some workerState →
    resumedWorker force state' workerState = .ok stint.worker → kind config →
    stint.job = state'.job → stint.call = .resume workerState decision →
    Chain force (resumeConfig config state'.runId) state'.runId ok
      (swarmHandoffBudget (resumeConfig config state'.runId)) count history w (stint :: stints) r w' →
    SwarmCalls ok force kind (chains ++ [stint :: stints]) r

/-- What the caller gets of what the swarm's loop gives: the same state, and the same report
but for its metrics. -/
def Shown (r : Outcome) (out : Report × Option WorkforceState) : Prop :=
  ∃ report metrics, r = .ok (report, out.2) ∧ out.1 = { report with metrics := metrics }

theorem shown_withTotals {out out' : Report × Option WorkforceState} {t : Trace sig}
    (h : Runs (S := sig) ok (withTotals config out) w t (.ok out') w') : Shown (.ok out) out' := by
  obtain ⟨report, _ | state⟩ := out
  · cases h with
    | act h =>
      cases h
      exact ⟨report, _, rfl, rfl⟩
  · cases h
    exact ⟨report, report.metrics, rfl, rfl⟩

/-- Every run of a workforce in swarm mode is such a call. -/
theorem exists_swarmCalls {kind : RunConfig → Prop} (hkind : kind config) (hmode : force.mode = .swarm)
    {job : Job} {t : Trace sig} {out : Report × Option WorkforceState}
    (h : Runs (S := sig) ok (arunWorkforce force config job) w t (.ok out) w') :
    ∃ chains r, SwarmCalls ok force kind chains r ∧ Shown r out := by
  unfold arunWorkforce runMode at h
  rw [hmode] at h
  obtain ⟨_, _, _, _, -, h⟩ := runs_bind_ok h
  obtain ⟨out', _, _, _, hswarm, h⟩ := runs_bind_ok h
  obtain ⟨out'', _, _, _, htotals, h⟩ := runs_bind_ok h
  obtain ⟨_, _, _, _, -, h⟩ := runs_bind_ok h
  cases h
  have hcontinue : Runs (S := sig) ok (callThenContinue force config config.runId
    (swarmHandoffBudget config) 0 [] (manager force) job (.run job)) _ _ _ _ := hswarm
  obtain ⟨stint, stints, hworker, hjob, hcall, -, hchain⟩ := exists_chain _ rfl hcontinue
  exact ⟨_, _, .run hkind hworker hjob hcall hchain, shown_withTotals htotals⟩

/-! ### Where a chain ends -/

theorem Stint.handsOver_some {stint : Stint} {next : Worker} {job : Job}
    (h : stint.handsOver force = some (next, job)) :
    ∃ report state, stint.result = .ok (report, some state) ∧ report.status = .paused ∧
      handoffTransition force report stint.job stint.worker = .ok (some (next, job)) := by
  unfold Stint.handsOver at h
  split at h
  · next outcome hresult =>
    obtain ⟨⟨state, hstate⟩, hpaused, ht⟩ := SwarmTurn.handsOver_some h
    obtain ⟨report, workerState⟩ := outcome
    obtain rfl : workerState = some state := hstate
    exact ⟨report, state, hresult, hpaused, ht⟩
  · cases h

theorem Stint.length_added {stint : Stint} {next : Worker × Job} (h : stint.handsOver force = some next)
    (history : List Report) : (stint.added history).length = history.length + 1 := by
  obtain ⟨next, job⟩ := next
  obtain ⟨report, state, hresult, -, -⟩ := Stint.handsOver_some h
  simp [Stint.added, hresult]

theorem Chain.ne_nil (h : Chain force config runId ok budget count history w stints r w') : stints ≠ [] := by
  cases h <;> exact List.cons_ne_nil _ _

/-- A chain has one stint for each handoff that the budget still allows, and one more. -/
theorem Chain.length_le (h : Chain force config runId ok budget count history w stints r w') :
    stints.length ≤ budget - count + 1 := by
  induction h with
  | last _ _ _ => simp
  | hand _ _ _ hcount _ ih =>
    rw [List.length_cons]
    omega

/-- A paused chain waits in the worker of its last stint, and the state counts its handoffs. -/
theorem Chain.waits {out : Report × Option WorkforceState}
    (h : Chain force config runId ok budget count history w stints (.ok out) w')
    (hworker : ∀ stint ∈ stints.head?, swarmWorker force stint.worker.name = .ok stint.worker)
    (hlen : history.length = count) {state : WorkforceState} (hstate : out.2 = some state) :
    WaitsAfter force (count + (stints.length - 1)) state := by
  generalize hr : (Except.ok out : Outcome) = r at h
  induction h with
  | @last count history w stint w₁ r w' hcall hend hclose =>
    subst hr
    have hregistered := hworker stint rfl
    unfold Stint.close at hclose
    cases hresult : stint.result with
    | error e =>
      rw [hresult] at hclose
      cases hclose
    | ok outcome =>
      rw [hresult] at hclose
      have hclose' : Runs (S := sig) ok (SwarmTurn.next force config runId (budget - count) count history
        ⟨stint.worker, stint.job, outcome⟩) w₁ [] (.ok out) w' := hclose
      have hhands : stint.handsOver force =
          SwarmTurn.handsOver force ⟨stint.worker, stint.job, outcome⟩ := by
        rw [Stint.handsOver, hresult]
      cases hover : SwarmTurn.handsOver force ⟨stint.worker, stint.job, outcome⟩ with
      | none =>
        rcases runs_next hregistered hover hlen hclose' with ⟨final, rfl, -⟩ | ⟨state', rfl, hwaits⟩
        · cases hstate
        · obtain rfl := Option.some.inj hstate
          exact hwaits
      | some next =>
        -- the budget is spent
        have hspent : budget - count = 0 := by
          rcases hend with hnone | hle
          · rw [hhands, hover] at hnone
            cases hnone
          · omega
        obtain ⟨next, job⟩ := next
        obtain ⟨report, workerState⟩ := outcome
        obtain ⟨⟨_, rfl⟩, hpaused, ht⟩ := SwarmTurn.handsOver_some hover
        unfold SwarmTurn.next swarmContinue at hclose'
        dsimp only [SwarmTurn.report] at hclose' hpaused ht
        rw [if_pos hpaused, ht, hspent] at hclose'
        cases hclose'
        cases hstate
  | @hand count history w stint w₁ next stints r w' hcall hover hnext hcount hrest ih =>
    have hnext' := swarmWorker_handoffTransition (Stint.handsOver_some hover).choose_spec.choose_spec.2.2
    have hadded : (stint.added history).length = count + 1 := by
      rw [Stint.length_added hover, hlen]
    have hwaits := ih (by rintro _ ⟨⟩; exact hnext') hadded hr
    rwa [show count + 1 + ((next :: stints).length - 1) = count + ((stint :: next :: stints).length - 1) by
      simp only [List.length_cons]; omega] at hwaits

/-- The handoffs of a swarm so far. -/
def handoffs (chains : List (List Stint)) : ℕ := (chains.map fun chain => chain.length - 1).sum

theorem handoffs_append (chains : List (List Stint)) (chain : List Stint) :
    handoffs (chains ++ [chain]) = handoffs chains + (chain.length - 1) := by
  simp [handoffs]

theorem registered_of_resumed {state : WorkforceState} {workerState : WorkerState} {current : String}
    {worker : Worker} (hstage : state.stage = .swarm current count history)
    (h : resumedWorker force state workerState = .ok worker) :
    swarmWorker force worker.name = .ok worker := by
  unfold resumedWorker at h
  rw [hstage] at h
  dsimp only at h
  cases hfound : swarmWorker force (if current = "" then workerState.runnerName else current) with
  | error e =>
    rw [hfound] at h
    cases h
  | ok found =>
    rw [hfound] at h
    obtain rfl : found = worker := Except.ok.inj h
    rw [(swarmWorker_ok hfound).1]
    exact hfound

/-- The state of a paused swarm counts all its handoffs. -/
theorem SwarmCalls.waits {kind : RunConfig → Prop} {chains : List (List Stint)}
    (h : SwarmCalls ok force kind chains r) {out : Report × Option WorkforceState} (hr : r = .ok out)
    {state : WorkforceState} (hstate : out.2 = some state) : WaitsAfter force (handoffs chains) state := by
  induction h generalizing out state with
  | @run config job w stint stints r w' _ hworker _ _ hchain =>
    subst hr
    have hregistered : swarmWorker force stint.worker.name = .ok stint.worker := by
      rw [hworker]
      exact swarmWorker_manager force
    have hwaits := hchain.waits (by rintro _ ⟨⟩; exact hregistered) rfl hstate
    rwa [Nat.zero_add] at hwaits
  | @resume chains report state₀ state' current count history workerState config decision w stint stints
      r w' _ hstored hstage _ hworker _ _ _ hchain ih =>
    subst hr
    obtain ⟨name, history', hstage', hlen, -⟩ := (waitsAfter_stored hstored (ih rfl rfl)).stage
    rw [hstage] at hstage'
    obtain ⟨rfl, rfl, rfl⟩ := Stage.swarm.inj hstage'
    have hregistered := registered_of_resumed hstage hworker
    have hwaits := hchain.waits (by rintro _ ⟨⟩; exact hregistered) hlen hstate
    rwa [handoffs_append]

/-- So is every resume of a paused swarm. -/
theorem SwarmCalls.exists_resume {kind : RunConfig → Prop} {chains : List (List Stint)} {report : Report}
    {state state' : WorkforceState} (h : SwarmCalls ok force kind chains (.ok (report, some state)))
    (hstored : StoredForce state state') (hkind : kind config) {decision : Value} {t : Trace sig}
    {out : Report × Option WorkforceState}
    (hr : Runs (S := sig) ok (aresumeWorkforce force config state' decision) w t (.ok out) w') :
    ∃ chain r, SwarmCalls ok force kind (chains ++ [chain]) r ∧ Shown r out := by
  obtain ⟨⟨name, history, hstage, -, worker, hworker⟩, hstate⟩ := waitsAfter_stored hstored (h.waits rfl rfl)
  obtain ⟨workerState, hstate⟩ := Option.isSome_iff_exists.mp hstate
  have hresumed : resumedWorker force state' workerState = .ok worker := by
    unfold resumedWorker
    rw [hstage]
    dsimp only
    rw [if_neg (swarmWorker_ok hworker).2.1, hworker]
    rfl
  unfold aresumeWorkforce at hr
  obtain ⟨_, _, _, _, -, hr⟩ := runs_bind_ok hr
  rw [hstate] at hr
  dsimp only at hr
  rw [if_neg (by simp [hstage]), resumeStage_eq, hresumed] at hr
  obtain ⟨out', _, _, _, hrun, htotals⟩ := runs_bind_ok hr
  unfold afterResumed at hrun
  rw [hstage] at hrun
  have hcontinue : Runs (S := sig) ok (callThenContinue force (resumeConfig config state'.runId) state'.runId
    (swarmHandoffBudget (resumeConfig config state'.runId)) (handoffs chains) history worker state'.job
    (.resume workerState decision)) _ _ _ _ := hrun
  obtain ⟨stint, stints, hstint, hjob, hcall, -, hchain⟩ := exists_chain _ rfl hcontinue
  exact ⟨_, _, .resume h hstored hstage hstate (by rw [hstint, hresumed]) hkind hjob hcall hchain,
    shown_withTotals htotals⟩

/-! ### The bound on handoffs -/

/-- The `while True` of a swarm's run and resume for a number of rounds; nothing is what a
loop gives that is still going. -/
def swarmLoop (force : Workforce) (config : RunConfig) (runId : RunId) (budget : ℕ) :
    ℕ → ℕ → List Report → Worker → Job → Report × Option WorkerState →
      Prog (Option (Report × Option WorkforceState))
  | 0, _, _, _, _, _ => pure none
  | rounds + 1, count, history, worker, job, (report, workerState) =>
    match workerState with
    | none => pure (some (mergeSwarmReports history report, none))
    | some state =>
      let handoff :=
        if report.status = .paused then handoffTransition force report job worker else .ok none
      match handoff with
      | .error e => pure (some (mergeSwarmReports history (handoffFailedReport report e.text), none))
      | .ok none =>
        some <$> pauseWith force config runId job report state (.swarm worker.name count history)
      | .ok (some (nextWorker, nextJob)) =>
        let history := history ++ [{ report with pendingAction := none }]
        if budget < count + 1 then
          pure (some (mergeSwarmReports history
            (handoffFailedReport report "Max handoff transitions exceeded."), none))
        else do
          let turn ← arun nextWorker config nextJob
          swarmLoop force config runId budget rounds (count + 1) history nextWorker nextJob turn

/-- The loop ends within as many rounds as the budget still allows handoffs, and one more. -/
theorem swarmLoop_eq (rounds : ℕ) : ∀ (count : ℕ) (history : List Report) (worker : Worker) (job : Job)
    (outcome : Report × Option WorkerState), budget - count < rounds →
    swarmLoop force config runId budget rounds count history worker job outcome =
      some <$> swarmContinue force config runId (budget - count) count history worker job outcome := by
  induction rounds with
  | zero =>
    intro count history worker job outcome h
    omega
  | succ rounds ih =>
    intro count history worker job outcome h
    obtain ⟨report, workerState⟩ := outcome
    unfold swarmLoop
    conv_rhs => unfold swarmContinue
    cases workerState with
    | none => rfl
    | some state =>
      dsimp only
      generalize (if report.status = .paused then handoffTransition force report job worker
        else .ok none) = handoff
      cases handoff with
      | error e => rfl
      | ok next =>
        cases next with
        | none => rfl
        | some next =>
          obtain ⟨nextWorker, nextJob⟩ := next
          dsimp only
          cases hleft : budget - count with
          | zero =>
            rw [if_pos (by omega)]
            rfl
          | succ left =>
            rw [if_neg (by omega)]
            simp only [map_bind]
            refine bind_congr fun turn => ?_
            rw [ih _ _ _ _ _ (by omega), show budget - (count + 1) = left by omega]

/-- A report that no handoff may follow any more. -/
def Refused (r : Outcome) : Prop :=
  ∃ report, r = .ok (report, none) ∧ report.status = .failed ∧
    "Max handoff transitions exceeded." ∈ report.errors

theorem refused_merge (history : List Report) (report : Report) :
    Refused (.ok (mergeSwarmReports history
      (handoffFailedReport report "Max handoff transitions exceeded."), none)) := by
  refine ⟨_, rfl, ?_, ?_⟩
  · unfold mergeSwarmReports
    split_ifs <;> rfl
  · unfold mergeSwarmReports handoffFailedReport
    split_ifs <;> simp

/-- A chain whose last stint would hand over has spent the budget. -/
theorem Chain.refused (h : Chain force config runId ok budget count history w stints r w')
    (hlast : ∃ stint ∈ stints.getLast?, (stint.handsOver force).isSome) : Refused r := by
  induction h with
  | @last count history w stint w₁ r w' hcall hend hclose =>
    rw [List.getLast?_singleton] at hlast
    obtain ⟨_, ⟨⟩, hsome⟩ := hlast
    obtain ⟨⟨next, job⟩, hover⟩ := Option.isSome_iff_exists.mp hsome
    have hspent : budget - count = 0 := by
      rcases hend with hnone | hle
      · rw [hover] at hnone
        cases hnone
      · omega
    obtain ⟨report, state, hresult, hpaused, ht⟩ := Stint.handsOver_some hover
    unfold Stint.close at hclose
    rw [hresult, hspent] at hclose
    have hclose' : Runs (S := sig) ok (swarmContinue force config runId 0 count history stint.worker
      stint.job (report, some state)) w₁ [] r w' := hclose
    unfold swarmContinue at hclose'
    dsimp only at hclose'
    rw [if_pos hpaused, ht] at hclose'
    cases hclose'
    exact refused_merge _ report
  | hand _ _ _ _ _ ih =>
    rw [List.getLast?_cons_cons] at hlast
    exact ih hlast

/-- The configurations with the limits of a first one. -/
def SameLimits (base config : RunConfig) : Prop :=
  config.maxIterations = base.maxIterations ∧ config.maxToolCalls = base.maxToolCalls

theorem SameLimits.budget_eq {base : RunConfig} (h : SameLimits base config) :
    swarmHandoffBudget config = max 1 (min base.maxIterations base.maxToolCalls) := by
  rw [swarmHandoffBudget, h.1, h.2]

theorem SameLimits.resume {base : RunConfig} (h : SameLimits base config) (runId : RunId) :
    SameLimits base (resumeConfig config runId) := by
  unfold resumeConfig
  split_ifs
  · exact h
  · exact h

theorem SwarmCalls.handoffs_le {base : RunConfig} {chains : List (List Stint)}
    (h : SwarmCalls ok force (SameLimits base) chains r) :
    handoffs chains ≤ max 1 (min base.maxIterations base.maxToolCalls) ∧
      ∀ chain ∈ chains, chain.length ≤ max 1 (min base.maxIterations base.maxToolCalls) + 1 := by
  induction h with
  | @run config job w stint stints r w' hkind _ _ _ hchain =>
    have hlen := hchain.length_le
    rw [hkind.budget_eq] at hlen
    constructor
    · simp only [handoffs, List.map_cons, List.map_nil, List.sum_cons, List.sum_nil]
      omega
    · intro chain hmem
      obtain rfl := List.mem_singleton.mp hmem
      omega
  | @resume chains report state state' current count history workerState config decision w stint stints
      r w' hcalls hstored hstage _ _ hkind _ _ hchain ih =>
    obtain ⟨name, history', hstage', -, -⟩ := (waitsAfter_stored hstored (hcalls.waits rfl rfl)).stage
    rw [hstage] at hstage'
    obtain ⟨rfl, rfl, rfl⟩ := Stage.swarm.inj hstage'
    have hlen := hchain.length_le
    rw [(hkind.resume state'.runId).budget_eq] at hlen
    constructor
    · rw [handoffs_append]
      omega
    · intro chain hmem
      rcases List.mem_append.mp hmem with hmem | hmem
      · exact ih.2 chain hmem
      · obtain rfl := List.mem_singleton.mp hmem
        omega

theorem SwarmCalls.refused {kind : RunConfig → Prop} {chains : List (List Stint)}
    (h : SwarmCalls ok force kind chains r)
    (hlast : ∃ chain ∈ chains.getLast?, ∃ stint ∈ chain.getLast?, (stint.handsOver force).isSome) :
    Refused r := by
  cases h with
  | run _ _ _ _ hchain =>
    obtain ⟨_, ⟨⟩, hstint⟩ := hlast
    exact hchain.refused hstint
  | resume _ _ _ _ _ _ _ _ hchain =>
    rw [List.getLast?_concat] at hlast
    obtain ⟨_, ⟨⟩, hstint⟩ := hlast
    exact hchain.refused hstint

/-- Over any pauses under the same limits a swarm takes no more handoffs than its budget, in
no call more worker runs than one for each and one more, fails where one handoff more would
follow, and its loop ends within as many rounds. -/
theorem swarm_handoffs_bounded (ok : ∀ q, Answer q → Prop) (force : Workforce) (base : RunConfig) :
    (∀ chains r, SwarmCalls ok force (SameLimits base) chains r →
      handoffs chains ≤ max 1 (min base.maxIterations base.maxToolCalls) ∧
      (∀ chain ∈ chains, chain.length ≤ max 1 (min base.maxIterations base.maxToolCalls) + 1) ∧
      ((∃ chain ∈ chains.getLast?, ∃ stint ∈ chain.getLast?, (stint.handsOver force).isSome) →
        Refused r)) ∧
    ∀ config, SameLimits base config → ∀ runId rounds count history worker job outcome,
      max 1 (min base.maxIterations base.maxToolCalls) < rounds →
      swarmLoop force config runId (swarmHandoffBudget config) rounds count history worker job outcome =
        some <$> swarmContinue force config runId (swarmHandoffBudget config - count) count history worker
          job outcome := by
  constructor
  · intro chains r h
    exact ⟨h.handoffs_le.1, h.handoffs_le.2, h.refused⟩
  · intro config hlimits runId rounds count history worker job outcome hrounds
    rw [← hlimits.budget_eq] at hrounds
    exact swarmLoop_eq rounds count history worker job outcome (by omega)

/-! ### One handoff too many -/

/-- Hands over to an agent. -/
def handingModel (agent : String) (_ : ℕ) : ModelResponse :=
  { content := none
    toolCalls := [{ id := "c2", name := "transfer", arguments := [("agent_name", .str agent)] }] }

/-- A stint in an environment, and the world it leaves. -/
def stintIn (config : RunConfig) (answers : ℕ → ∀ q, Answer q) (worker : Worker) (job : Job)
    (call : Call) (w : World) : Stint × World :=
  let d := runIn answers (call.prog worker config) w
  (⟨worker, job, call, d.1, d.2.1⟩, d.2.2)

theorem runs_stintIn (config : RunConfig) (answers : ℕ → ∀ q, Answer q) (worker : Worker) (job : Job)
    (call : Call) (w : World) :
    Runs (S := sig) (fun _ _ => True) (call.prog worker config) w
      (stintIn config answers worker job call w).1.trace
      (stintIn config answers worker job call w).1.result
      (stintIn config answers worker job call w).2 :=
  runIn_runs (fun _ _ => trivial) _ _

/-- The job that a stint hands over. -/
def handedJob (force : Workforce) (stint : Stint) : Job :=
  ((stint.handsOver force).map Prod.snd).getD plainJob

/-- A helper that hands over as well. -/
def returner : Worker := { helper with toolbelt := dispatcher.toolbelt }

def bounceTeam : Workforce where
  workers := [dispatcher, returner]
  mode := .swarm
  workers_ne := by simp
  nodup := by decide
  manager_ok := by simp

/-- The dispatcher hands over to the helper, and the helper hands back. -/
def sentStint : Stint × World :=
  stintIn onceConfig (plainAnswers (handingModel "helper")) dispatcher plainJob (.run plainJob) {}

def returnedStint : Stint × World :=
  stintIn onceConfig (plainAnswers (handingModel "dispatcher")) returner
    (handedJob bounceTeam sentStint.1) (.run (handedJob bounceTeam sentStint.1)) sentStint.2

/-- What the swarm makes of the helper's stint; its budget is one handoff. -/
def closedReturn : Trace sig × Outcome × World :=
  runIn (plainAnswers plainModel)
    (returnedStint.1.close bounceTeam onceConfig "run" 1 1 (sentStint.1.added [])) returnedStint.2

theorem handsOver_sent :
    sentStint.1.handsOver bounceTeam = some (returner, handedJob bounceTeam sentStint.1) := rfl

theorem swarmCalls_bounce : SwarmCalls (fun _ _ => True) bounceTeam (SameLimits onceConfig)
    [[sentStint.1, returnedStint.1]] closedReturn.2.1 := by
  have hsilent : closedReturn.1 = [] := by decide +kernel
  have hclose : Runs (S := sig) (fun _ _ => True)
      (returnedStint.1.close bounceTeam onceConfig "run" 1 1 (sentStint.1.added [])) returnedStint.2 []
      closedReturn.2.1 closedReturn.2.2 :=
    hsilent ▸ runIn_runs (fun _ _ => trivial) _ _
  have hlast : Chain bounceTeam onceConfig "run" (fun _ _ => True) 1 1 (sentStint.1.added []) sentStint.2
      [returnedStint.1] closedReturn.2.1 closedReturn.2.2 :=
    .last (runs_stintIn _ _ _ _ _ _) (.inr le_rfl) hclose
  have hchain : Chain bounceTeam onceConfig "run" (fun _ _ => True) 1 0 [] {}
      [sentStint.1, returnedStint.1] closedReturn.2.1 closedReturn.2.2 :=
    .hand (runs_stintIn _ _ _ _ _ _) handsOver_sent rfl one_pos hlast
  exact .run ⟨rfl, rfl⟩ rfl rfl rfl hchain

/-- The one handoff that the budget allows is taken, and the run fails at the next one. -/
theorem swarm_handoffs_bounded_bounce : ∃ chains r,
    SwarmCalls (fun _ _ => True) bounceTeam (SameLimits onceConfig) chains r ∧ handoffs chains = 1 ∧
      handoffs chains ≤ max 1 (min onceConfig.maxIterations onceConfig.maxToolCalls) ∧ Refused r := by
  obtain ⟨hbound, -, hrefused⟩ :=
    (swarm_handoffs_bounded _ bounceTeam onceConfig).1 _ _ swarmCalls_bounce
  have hback : (returnedStint.1.handsOver bounceTeam).isSome := by decide +kernel
  exact ⟨_, _, swarmCalls_bounce, rfl, hbound, hrefused ⟨_, rfl, _, rfl, hback⟩⟩

end Blackgeorge.WorkforceRun
