import Blackgeorge.WorkerRunner.Passes

/-! The limits of a worker's loop. It starts no more iterations than are left, and every
tool it executes and every call it holds back is among the recorded calls, which stay
within the limit. -/

namespace Blackgeorge.WorkerRunner

open Data Program Coroutine Coro

/-- A pass whose calls exceed the limit ends the run as failed. -/
def FailsBeyond (limit : ℕ) (pass : Pass) (r : Except Exn (Report × Option WorkerState)) : Prop :=
  limit < pass.recorded.length + pass.asked.length →
    ∀ out, r = .ok out → out.1.status = .failed ∧ out.2 = none

/-- What a loop may do with so many iterations left and so many calls recorded. -/
structure LoopWithin (limit left iteration recorded : ℕ) (passes : List Pass) (t : Trace sig)
    (r : Except Exn (Report × Option WorkerState)) : Prop where
  iterations : passes.length ≤ left
  executed : (executions t).length + recorded ≤ limit
  toolCalls : ∀ out, r = .ok out → out.1.toolCalls.length ≤ limit
  paused : ∀ report state, r = .ok (report, some state) →
    state.iteration = iteration + passes.length ∧ state.toolCalls.length ≤ limit ∧
      (executions t).length + 1 + recorded ≤ state.toolCalls.length
  passes : ∀ pass ∈ passes, pass.recorded.length ≤ limit ∧ FailsBeyond limit pass r

variable {ok : ∀ q, Answer q → Prop} {ctx : RunContext} {job : Job} {tools : List Tool} {limit : ℕ}

/-- What a pass counts, within the limit. -/
theorem TurnRows.counts {allowed : String → Option Tool} {state : LoopState}
    {asked : List ToolCall} {turn : TurnEnd} {l : List (ToolCall × Except Exn ToolResult)}
    {rows : List Row} (h : TurnRows allowed limit state asked turn l rows)
    (hrecorded : state.toolCalls.length ≤ limit) :
    turn.toolCalls.length ≤ limit ∧
      l.length + (heldCalls rows).length + state.toolCalls.length ≤ turn.toolCalls.length := by
  have hexecuted := h.executed
  have hwithin := h.within
  have hlength := executablesOf_length_le rows
  rw [h.recorded]
  omega

/-- A pass that ends the loop. -/
theorem LoopWithin.of_last {state : LoopState} {w w' : World} {pass : Pass}
    {r : Except Exn TurnEnd} {out : Except Exn (Report × Option WorkerState)} (left : ℕ)
    (hlimit : ctx.config.maxToolCalls = limit) (hrecorded : state.toolCalls.length ≤ limit)
    (hpass : PassRuns ok ctx job tools state w pass r w')
    (hout : ∀ o, out = .ok o → ∃ turn, r = .ok turn ∧ turn.outcome = some o) :
    LoopWithin limit (left + 1) state.iteration state.toolCalls.length [pass] pass.trace out := by
  obtain ⟨-, hpass, -, hexecuted, hturn⟩ := hpass.within
  rw [hlimit, max_eq_left hrecorded] at hexecuted
  rw [hlimit] at hturn
  refine ⟨Nat.succ_le_succ (Nat.zero_le left), hexecuted, ?_, ?_, ?_⟩
  · rintro o rfl
    obtain ⟨turn, rfl, houtcome⟩ := hout o rfl
    obtain ⟨⟨rows, hrows⟩, -⟩ := hturn turn rfl
    obtain ⟨hcalls, -⟩ := hrows.counts hrecorded
    cases turn with
    | next s => cases houtcome
    | report report =>
      cases houtcome
      exact hcalls
    | paused report s =>
      cases houtcome
      rw [hrows.leaves.2.1]
      exact hcalls
  · rintro report paused rfl
    obtain ⟨turn, rfl, houtcome⟩ := hout _ rfl
    obtain ⟨⟨rows, hrows⟩, -⟩ := hturn turn rfl
    obtain ⟨hcalls, hcount⟩ := hrows.counts hrecorded
    cases turn with
    | next s => cases houtcome
    | report report => cases houtcome
    | paused report s =>
      cases houtcome
      obtain ⟨hiteration, -, p, -, -, hheld⟩ := hrows.leaves
      rw [hheld] at hcount
      exact ⟨hiteration, hcalls, hcount⟩
  · intro pass' hmem
    obtain rfl := List.mem_singleton.mp hmem
    rw [hpass]
    refine ⟨hrecorded, ?_⟩
    rintro hlt o rfl
    rw [hpass] at hlt
    obtain ⟨turn, rfl, houtcome⟩ := hout o rfl
    obtain ⟨report, rfl, hstatus⟩ := (hturn turn rfl).2 hrecorded hlt
    cases houtcome
    exact ⟨hstatus, rfl⟩

/-- A loop stays within the limits, iteration by iteration. -/
theorem LoopRuns.within {left : ℕ} {state : LoopState} {w w' : World} {passes : List Pass}
    {t : Trace sig} {r : Except Exn (Report × Option WorkerState)}
    (h : LoopRuns ok ctx job tools left state w passes t r w')
    (hlimit : ctx.config.maxToolCalls = limit) (hrecorded : state.toolCalls.length ≤ limit) :
    LoopWithin limit left state.iteration state.toolCalls.length passes t r := by
  induction h with
  | @exhausted state w t r w' h =>
    have hfail := failedReport_failReport toolFreeLaw_permits ctx state "Max iterations exceeded"
    obtain ⟨hnil, hreport⟩ := (executes_free hfail).runs (h.mono fun _ _ _ => trivial)
    refine ⟨Nat.le_refl _, by rw [hnil]; simpa using hrecorded, ?_, ?_, by simp⟩
    · intro out hout
      cases r with
      | error e => cases hout
      | ok report =>
        cases hout
        rw [(hreport report rfl).2]
        exact hrecorded
    · intro report paused hout
      cases r <;> cases hout
  | raised h => exact .of_last _ hlimit hrecorded h fun _ h => nomatch h
  | @ended left state w pass turn out w' h hout =>
    refine .of_last _ hlimit hrecorded h ?_
    rintro _ ⟨⟩
    exact ⟨turn, rfl, hout⟩
  | @next left state w pass state' w₁ passes t r w' h _ ih =>
    obtain ⟨-, hpass, -, -, hturn⟩ := h.within
    rw [hlimit] at hturn
    obtain ⟨⟨rows, hrows⟩, hfails⟩ := hturn _ rfl
    obtain ⟨hcalls, hcount⟩ := hrows.counts hrecorded
    obtain ⟨hiteration, -⟩ := hrows.leaves
    dsimp only [TurnEnd.toolCalls] at hcalls hcount hiteration
    have hrest := ih hcalls
    have hexecuted := hrest.executed
    refine ⟨Nat.succ_le_succ hrest.iterations, ?_, hrest.toolCalls, ?_, ?_⟩
    · rw [executions_append, List.length_append]
      omega
    · intro report paused hout
      obtain ⟨hiterations, hlen, hheld⟩ := hrest.paused report paused hout
      rw [executions_append, List.length_append, List.length_cons]
      refine ⟨?_, hlen, ?_⟩
      · rw [hiterations, hiteration]
        omega
      · omega
    · rintro pass' (_ | ⟨_, hmem⟩)
      · rw [hpass]
        refine ⟨hrecorded, fun hlt => ?_⟩
        rw [hpass] at hlt
        obtain ⟨report, hreport, -⟩ := hfails hrecorded hlt
        cases hreport
      · exact hrest.passes pass' hmem

end Blackgeorge.WorkerRunner
