import Blackgeorge.WorkerRunner.Limits
import Blackgeorge.WorkforceRun.Calls

/-! A worker's run over its pauses. Its first leg is a run of the job, each further one the
resume of the state that the last one paused in, as it was or as a store gave it back. -/

namespace Blackgeorge.WorkforceRun

open Data Program Coroutine Coro WorkerRunner

/-- The call up to its loop. -/
def Call.openCall (worker : Worker) (config : RunConfig) : Call → Prog Entered
  | run job => openRun worker config job
  | resume state decision => openResume worker config state decision

theorem Call.prog_eq (worker : Worker) (config : RunConfig) (call : Call) :
    call.prog worker config = call.openCall worker config >>= Entered.prog := by
  cases call with
  | run job => exact arun_eq worker config job
  | resume state decision => exact aresume_eq worker config state decision

/-- One call of a run: its worker, what it asked before its loop and in all, and its
iterations. -/
structure Leg where
  worker : Worker
  call : Call
  opening : Trace sig
  passes : List Pass
  trace : Trace sig

/-- The runs of a call, iteration by iteration. -/
inductive LegRuns (ok : ∀ q, Answer q → Prop) (worker : Worker) (config : RunConfig) (call : Call)
    (w : World) : Leg → Except Exn (Report × Option WorkerState) → World → Prop
  | raised {t e w'} : Runs (S := sig) ok (call.openCall worker config) w t (.error e) w' →
    LegRuns ok worker config call w ⟨worker, call, t, [], t⟩ (.error e) w'
  | finished {t out w'} : Runs (S := sig) ok (call.openCall worker config) w t (.ok (.finished out)) w' →
    LegRuns ok worker config call w ⟨worker, call, t, [], t⟩ (.ok out) w'
  | loop {t ctx job tools left state w₁ passes t' r w'} :
    Runs (S := sig) ok (call.openCall worker config) w t (.ok (.loop ctx job tools left state)) w₁ →
    LoopRuns ok ctx job tools left state w₁ passes t' r w' →
    LegRuns ok worker config call w ⟨worker, call, t, passes, t ++ t'⟩ r w'

variable {ok : ∀ q, Answer q → Prop} {worker : Worker} {config : RunConfig} {call : Call} {limit : ℕ}

/-- A run of a call is a run of its iterations. -/
theorem exists_legRuns {w w' : World} {t : Trace sig} {r : Except Exn (Report × Option WorkerState)}
    (h : Runs (S := sig) ok (call.prog worker config) w t r w') :
    ∃ leg : Leg, leg.trace = t ∧ LegRuns ok worker config call w leg r w' := by
  rw [Call.prog_eq] at h
  rcases runs_bind h with ⟨e, hopen, rfl⟩ | ⟨entered, t₁, t₂, w₁, hopen, hrest, rfl⟩
  · exact ⟨_, rfl, .raised hopen⟩
  · cases entered with
    | finished out =>
      cases hrest
      exact ⟨⟨worker, call, t₁, [], t₁⟩, (List.append_nil t₁).symm, .finished hopen⟩
    | loop ctx job tools left state =>
      obtain ⟨passes, hpasses⟩ := exists_loopRuns hrest
      exact ⟨_, rfl, .loop hopen hpasses⟩

theorem LegRuns.runs {w w' : World} {leg : Leg} {r : Except Exn (Report × Option WorkerState)}
    (h : LegRuns ok worker config call w leg r w') :
    Runs (S := sig) ok (call.prog worker config) w leg.trace r w' := by
  rw [Call.prog_eq]
  cases h with
  | raised h => exact h.bind_error _
  | @finished t out w' h =>
    rw [← List.append_nil t]
    exact h.bind (.ret _ _)
  | loop h hloop => exact h.bind hloop.runs

/-- The runs of a worker over its pauses, leg by leg, under configurations of a kind. Each
paused state is resumed once. -/
inductive RunLegs (ok : ∀ q, Answer q → Prop) (allowed : RunConfig → Prop) :
    List Leg → Except Exn (Report × Option WorkerState) → Prop
  | run {worker config job w leg r w'} : allowed config →
    LegRuns ok worker config (.run job) w leg r w' → RunLegs ok allowed [leg] r
  | resume {legs report state state' worker config decision w leg r w'} :
    RunLegs ok allowed legs (.ok (report, some state)) → Stored state state' → allowed config →
    LegRuns ok worker config (.resume state' decision) w leg r w' →
    RunLegs ok allowed (legs ++ [leg]) r

/-! ### Restored states -/

/-- What the limits see of a state is the same when it is restored. -/
structure SameCounts (s s' : WorkerState) : Prop where
  iteration : s'.iteration = s.iteration
  toolCalls : s'.toolCalls.length = s.toolCalls.length

theorem sameCounts_persisted {s s' : WorkerState} (h : s.persisted = some s') :
    SameCounts s s' := by
  simp only [WorkerState.persisted, StateCore.persisted, Option.bind_eq_bind,
    Option.bind_eq_some_iff] at h
  obtain ⟨core, ⟨job, _, messages, _, toolCalls, hcalls, pending, _, hcore⟩, hs⟩ := h
  obtain rfl := Option.some.inj hcore
  obtain rfl := Option.some.inj hs
  exact ⟨rfl, (forall₂_of_mapM hcalls).length_eq.symm⟩

theorem sameCounts_stored {s s' : WorkerState} (h : Stored s s') : SameCounts s s' := by
  induction h with
  | same => exact ⟨rfl, rfl⟩
  | dumped _ hdump ih =>
    obtain ⟨hiteration, hcalls⟩ := sameCounts_persisted hdump
    exact ⟨hiteration.trans ih.iteration, hcalls.trans ih.toolCalls⟩
  | job _ _ ih => exact ⟨ih.iteration, ih.toolCalls⟩

/-! ### A whole run -/

def iterationsStarted (legs : List Leg) : ℕ := (legs.map fun leg => leg.passes.length).sum

def toolsExecuted (legs : List Leg) : ℕ := (legs.map fun leg => (executions leg.trace).length).sum

/-- What a leg may do, from the iterations and the recorded calls before it, when it opens
with so many executions at most. -/
structure LegWithin (limit maxIterations iteration recorded answers : ℕ) (leg : Leg)
    (r : Except Exn (Report × Option WorkerState)) : Prop where
  iterations : iteration + leg.passes.length ≤ maxIterations
  executed : (executions leg.trace).length + recorded ≤ limit + answers
  toolCalls : ∀ out, r = .ok out → out.1.toolCalls.length ≤ limit
  paused : ∀ report state, r = .ok (report, some state) →
    state.iteration = iteration + leg.passes.length ∧ state.toolCalls.length ≤ limit ∧
      (executions leg.trace).length + 1 + recorded ≤ state.toolCalls.length + answers
  passes : ∀ pass ∈ leg.passes, pass.recorded.length ≤ limit ∧ FailsBeyond limit pass r

theorem LegRuns.within {w w' : World} {leg : Leg} {r : Except Exn (Report × Option WorkerState)}
    {iteration answers : ℕ} {recorded : List ToolCall}
    (hlimit : config.maxToolCalls = limit) (hiteration : iteration ≤ config.maxIterations)
    (hrecorded : recorded.length ≤ limit)
    (hopen : Executes (call.openCall worker config) fun r l => l.length ≤ answers ∧
      ∀ entered, r = .ok entered → Opened config iteration recorded entered)
    (h : LegRuns ok worker config call w leg r w') :
    LegWithin limit config.maxIterations iteration recorded.length answers leg r := by
  cases h with
  | raised h =>
    obtain ⟨hexecuted, -⟩ := hopen.runs (h.mono fun _ _ _ => trivial)
    exact ⟨hiteration, by dsimp only; omega, by simp, by simp, by simp⟩
  | @finished t out w' h =>
    obtain ⟨hexecuted, hopened⟩ := hopen.runs (h.mono fun _ _ _ => trivial)
    obtain ⟨hnone, hcalls⟩ := (hopened _ rfl).finished out rfl
    refine ⟨hiteration, by dsimp only; omega, ?_, ?_, by simp⟩
    · rintro _ ⟨⟩
      exact hcalls.trans hrecorded
    · rintro report state ⟨⟩
      cases hnone
  | loop h hloop =>
    obtain ⟨hexecuted, hopened⟩ := hopen.runs (h.mono fun _ _ _ => trivial)
    obtain ⟨hctx, rfl, hstate, hcalls⟩ := (hopened _ rfl).loop _ _ _ _ _ rfl
    have hwithin := hloop.within (hctx.trans hlimit) (hcalls ▸ hrecorded)
    rw [hstate, hcalls] at hwithin
    have hloopExecuted := hwithin.executed
    have hiterations := hwithin.iterations
    refine ⟨?_, ?_, hwithin.toolCalls, ?_, hwithin.passes⟩
    · dsimp only
      omega
    · rw [executions_append, List.length_append]
      omega
    · intro report paused hout
      obtain ⟨hpaused, hlen, hheld⟩ := hwithin.paused report paused hout
      rw [executions_append, List.length_append]
      exact ⟨hpaused, hlen, by omega⟩

@[simp] theorem iterationsStarted_append (legs : List Leg) (leg : Leg) :
    iterationsStarted (legs ++ [leg]) = iterationsStarted legs + leg.passes.length := by
  simp [iterationsStarted]

@[simp] theorem toolsExecuted_append (legs : List Leg) (leg : Leg) :
    toolsExecuted (legs ++ [leg]) = toolsExecuted legs + (executions leg.trace).length := by
  simp [toolsExecuted]

/-- What a run has counted so far. A paused one has a call in its records that no tool was
run for yet. -/
structure RunWithin (maxIterations limit : ℕ) (legs : List Leg)
    (r : Except Exn (Report × Option WorkerState)) : Prop where
  iterations : iterationsStarted legs ≤ maxIterations
  executed : toolsExecuted legs ≤ limit
  toolCalls : ∀ out, r = .ok out → out.1.toolCalls.length ≤ limit
  paused : ∀ report state, r = .ok (report, some state) →
    state.iteration = iterationsStarted legs ∧ state.toolCalls.length ≤ limit ∧
      toolsExecuted legs + 1 ≤ state.toolCalls.length
  passes : ∀ leg ∈ legs, ∀ pass ∈ leg.passes, pass.recorded.length ≤ limit ∧ FailsBeyond limit pass r

theorem RunLegs.within {maxIterations limit : ℕ} {legs : List Leg}
    {r : Except Exn (Report × Option WorkerState)}
    (h : RunLegs ok
      (fun config => config.maxIterations = maxIterations ∧ config.maxToolCalls = limit) legs r) :
    RunWithin maxIterations limit legs r := by
  induction h with
  | @run worker config job w leg r w' hconfig hleg =>
    obtain ⟨rfl, hlimit⟩ := hconfig
    have hopen : Executes ((Call.run job).openCall worker config) fun r l => l.length ≤ 0 ∧
        ∀ entered, r = .ok entered → Opened config 0 [] entered := by
      refine (executes_free (opened_openRun worker config job)).mono ?_
      rintro r l ⟨rfl, hr⟩
      exact ⟨Nat.le_refl _, hr⟩
    have hnone : ([] : List ToolCall).length ≤ limit := Nat.zero_le _
    have hwithin := hleg.within hlimit (Nat.zero_le _) hnone hopen
    have hiterations := hwithin.iterations
    have hexecuted := hwithin.executed
    refine ⟨?_, ?_, hwithin.toolCalls, ?_, ?_⟩
    · simpa [iterationsStarted] using hiterations
    · simpa [toolsExecuted] using hexecuted
    · intro report state hr
      simpa [iterationsStarted, toolsExecuted] using hwithin.paused report state hr
    · simpa using hwithin.passes
  | @resume legs report state state' worker config decision w leg r w' _ hstored hconfig hleg ih =>
    obtain ⟨rfl, hlimit⟩ := hconfig
    obtain ⟨hiteration, hcalls⟩ := sameCounts_stored hstored
    obtain ⟨hstarted, hlen, hheld⟩ := ih.paused report state rfl
    have hopen : Executes ((Call.resume state' decision).openCall worker config) fun r l =>
        l.length ≤ 1 ∧ ∀ entered, r = .ok entered →
          Opened config state'.iteration state'.toolCalls entered := by
      refine (executes_openResume worker config state' decision).mono fun r l h => ⟨?_, h.opened⟩
      exact h.executed.trans Option.length_toList_le
    have hstate : state'.iteration ≤ config.maxIterations := by
      rw [hiteration, hstarted]
      exact ih.iterations
    have hwithin := hleg.within hlimit hstate (by rw [hcalls]; exact hlen) hopen
    have hiterations := hwithin.iterations
    have hexecuted := hwithin.executed
    refine ⟨?_, ?_, hwithin.toolCalls, ?_, ?_⟩
    · rw [iterationsStarted_append]
      omega
    · rw [toolsExecuted_append]
      omega
    · intro report' paused hr
      obtain ⟨hpaused, hlen', hheld'⟩ := hwithin.paused report' paused hr
      rw [iterationsStarted_append, toolsExecuted_append]
      exact ⟨by omega, hlen', by omega⟩
    · intro leg' hmem pass hpass
      rcases List.mem_append.mp hmem with hmem | hmem
      · obtain ⟨hrecorded, hfails⟩ := ih.passes leg' hmem pass hpass
        refine ⟨hrecorded, fun hlt => ?_⟩
        obtain ⟨-, hnone⟩ := hfails hlt _ rfl
        cases hnone
      · obtain rfl := List.mem_singleton.mp hmem
        exact hwithin.passes pass hpass

/-- A run may pause and be resumed any number of times: in all it starts no more iterations
and executes no more tools than its limits allow, it never records more calls, and a turn
whose calls exceed the limit ends it as failed and never as paused. -/
theorem runLegs_within_limits {maxIterations limit : ℕ} {legs : List Leg}
    {r : Except Exn (Report × Option WorkerState)}
    (h : RunLegs ok
      (fun config => config.maxIterations = maxIterations ∧ config.maxToolCalls = limit) legs r) :
    iterationsStarted legs ≤ maxIterations ∧ toolsExecuted legs ≤ limit ∧
      (∀ out, r = .ok out → out.1.toolCalls.length ≤ limit ∧
        ∀ state ∈ out.2, state.toolCalls.length ≤ limit) ∧
      ∀ leg ∈ legs, ∀ pass ∈ leg.passes,
        pass.recorded.length ≤ limit ∧ FailsBeyond limit pass r := by
  have hwithin := h.within
  refine ⟨hwithin.iterations, hwithin.executed, ?_, hwithin.passes⟩
  rintro ⟨report, paused⟩ hout
  refine ⟨hwithin.toolCalls _ hout, ?_⟩
  rintro state ⟨⟩
  exact (hwithin.paused report state hout).2.1

/-! ### A guarded run -/

def deployCall : ToolCall where
  id := "c1"
  name := "deploy"
  arguments := []

/-- The state of the plain worker that the guarded run pauses in. -/
def pausedWorker : WorkerState where
  runId := "run"
  status := .paused
  runnerName := "worker"
  job := plainJob
  messages := [{ role := .user, content := .text "go" },
    { role := .assistant, content := .text "", toolCalls := [deployCall] }]
  toolCalls := [deployCall]
  pendingAction := some (pendingActionFor "1" .confirmation guardedTool deployCall)
  iteration := 1

/-- A part of a plain run with the model, from its `n`-th request on. -/
def plainPart (model : ℕ → ModelResponse) {α : Type} (c : Prog α) (n : ℕ) (w : World) :
    Trace sig × Except Exn α × World :=
  Coro.drive (S := sig) (plainAnswers model) (fun _ => false) c n w

theorem plainPart_runs {model : ℕ → ModelResponse} {α : Type} {c : Prog α} {n : ℕ} {w : World}
    {r : Except Exn α} (h : (plainPart model c n w).2.1 = r) :
    Runs (S := sig) (fun _ _ => True) c w (plainPart model c n w).1 r (plainPart model c n w).2.2 :=
  h ▸ Coro.drive_runs (S := sig) _ (fun _ _ => trivial) c n w

/-- A leg of one pass, whose parts each begin with the `n`-th request. -/
theorem exists_plain_leg (model : ℕ → ModelResponse) (n : ℕ) (call : Call) (out : Report × Option WorkerState)
    {ctx : RunContext} {job : Job} {tools : List Tool} {left : ℕ} {state : LoopState}
    {acquired : Acquired × LoopState} {turn : TurnEnd}
    (hopen : (plainPart model (call.openCall plainWorker plainConfig) n {}).2.1 =
      .ok (.loop ctx job tools (left + 1) state))
    (hbegin : (plainPart model (beginPass ctx job tools state) n
      (plainPart model (call.openCall plainWorker plainConfig) n {}).2.2).2.1 = .ok acquired)
    (hend : (plainPart model (endPass ctx job tools acquired) n
      (plainPart model (beginPass ctx job tools state) n
        (plainPart model (call.openCall plainWorker plainConfig) n {}).2.2).2.2).2.1 = .ok turn)
    (hout : turn.outcome = some out) :
    ∃ leg w, LegRuns (fun _ _ => True) plainWorker plainConfig call {} leg (.ok out) w ∧
      leg.opening = (plainPart model (call.openCall plainWorker plainConfig) n {}).1 ∧
        ∃ t, leg.passes =
          [⟨t, tools, state.toolCalls, acquired.1.asked, ctx.config.maxToolCalls⟩] := by
  have hpass := PassRuns.answered (plainPart_runs hbegin) (plainPart_runs hend)
  exact ⟨_, _, .loop (plainPart_runs hopen) (.ended hpass hout), rfl, _, rfl⟩

/-- The guarded run pauses after its first iteration, is approved, and ends in its second. -/
theorem runLegs_within_limits_guarded :
    ∃ (legs : List Leg) (out : Report × Option WorkerState), iterationsStarted legs = 2 ∧
      iterationsStarted legs ≤ 10 ∧ toolsExecuted legs ≤ 20 ∧ out.1.toolCalls.length ≤ 20 := by
  obtain ⟨leg, w, hleg, -, t, hpasses⟩ := exists_plain_leg guardedModel 0 (.run plainJob)
    (_, some pausedWorker) rfl rfl rfl rfl
  obtain ⟨leg', w', hleg', -, t', hpasses'⟩ := exists_plain_leg guardedModel 4
    (.resume pausedWorker (.bool true)) _ rfl rfl rfl rfl
  have hlegs : RunLegs (fun _ _ => True)
      (fun config => config.maxIterations = 10 ∧ config.maxToolCalls = 20) ([leg] ++ [leg']) _ :=
    .resume (.run ⟨rfl, rfl⟩ hleg) .same ⟨rfl, rfl⟩ hleg'
  obtain ⟨hiterations, hexecuted, hout, -⟩ := runLegs_within_limits hlegs
  refine ⟨_, _, ?_, hiterations, hexecuted, (hout _ rfl).1⟩
  simp [iterationsStarted, hpasses, hpasses']

end Blackgeorge.WorkforceRun
