import Blackgeorge.WorkerRunner.Passes
import Mathlib.Logic.Relation

/-! The ledger of a run: one account for each recorded call, in order. A turn adds accounts
and leaves the old ones alone, an answer settles the one that was held back. Where no id is
recorded twice, the entries of the recorded calls follow the ledger. -/

namespace Blackgeorge.WorkerRunner

open Data Program Coroutine Coro

/-! ### Ledgers -/

/-- The entry of an account, as it is or as a store gave it back. -/
def Fits (entry : ToolCall) (account : Account) : Prop :=
  Relation.ReflTransGen (fun c c' => ToolCall.persisted c = some c') account.entry entry

/-- The accounts that a turn adds: calls that the model asked for in it, executed by its own
executions, refused by their own verdicts, and at most one held back. -/
structure Adds (pass : Pass) (added : List Account) : Prop where
  calls : added.map Prod.fst <+: pass.asked
  executed : (executions pass.trace).Perm (added.filterMap Account.execution)
  accounted : Accounted (allowedTools pass.tools) added

/-- What the turns of a loop make of a ledger: none of them touches an old account, and only
the last one may hold a call back. -/
inductive AddsAll : List Pass → List Account → List Account → Prop
  | nil {accounts} : AddsAll [] accounts accounts
  | last {pass before added} : Adds pass added → AddsAll [pass] before (before ++ added)
  | cons {pass passes before added after} : Adds pass added →
    (∀ account ∈ added, account.2.result.isSome) → AddsAll passes (before ++ added) after →
    AddsAll (pass :: passes) before after

/-- The accounts that are held back. -/
def openAccounts (accounts : List Account) : List Account :=
  accounts.filter fun account => account.2.result.isNone

/-- The recorded calls follow the ledger, each under an id of its own. -/
structure Follows (accounts : List Account) (toolCalls : List ToolCall) : Prop where
  fits : List.Forall₂ Fits toolCalls accounts
  nodup : (toolCalls.map ToolCall.id).Nodup

/-- No call that a pass records has the id of a call recorded before. -/
def Pass.Fresh (pass : Pass) : Prop := FreshIds pass.recorded pass.taken

theorem FreshIds.of_prefix {front calls calls' : List ToolCall} (h : FreshIds front calls)
    (hcalls : calls' <+: calls) : FreshIds front calls' := by
  have hids : (calls'.map ToolCall.id).Sublist (calls.map ToolCall.id) := hcalls.sublist.map _
  exact ⟨h.1.sublist hids, fun c hc hmem => h.2 c hc (hids.mem hmem)⟩

@[simp] theorem openAccounts_append (accounts added : List Account) :
    openAccounts (accounts ++ added) = openAccounts accounts ++ openAccounts added :=
  List.filter_append ..

theorem openAccounts_eq_nil {accounts : List Account}
    (h : ∀ account ∈ accounts, account.2.result.isSome) : openAccounts accounts = [] := by
  refine List.filter_eq_nil_iff.mpr fun account hmem => ?_
  simpa [Option.isSome_iff_ne_none] using h account hmem

/-- Settling the one account that is held back leaves none. -/
theorem openAccounts_settle {front back : List Account} {call : ToolCall} {account : Account}
    (h : (openAccounts (front ++ (call, .held) :: back)).length ≤ 1)
    (haccount : account.2.result.isSome) : openAccounts (front ++ account :: back) = [] := by
  have hheld : openAccounts ((call, .held) :: back) = (call, .held) :: openAccounts back := rfl
  rw [openAccounts_append, hheld, List.length_append, List.length_cons] at h
  have hfront : openAccounts front = [] := List.eq_nil_of_length_eq_zero (by omega)
  have hback : openAccounts back = [] := List.eq_nil_of_length_eq_zero (by omega)
  have hsettled : openAccounts (account :: back) = openAccounts back :=
    List.filter_cons_of_neg (by simp [Option.isSome_iff_ne_none.mp haccount])
  rw [openAccounts_append, hfront, hsettled, hback, List.append_nil]

theorem Accounted.openAccounts_le {allowed : String → Option Tool} {added : List Account}
    (h : Accounted allowed added) : (openAccounts added).length ≤ 1 := by
  induction h with
  | nil => exact Nat.zero_le _
  | executed _ _ ih => exact ih
  | refused _ _ ih => exact ih
  | @held call skipped _ =>
    have hskipped : openAccounts (skipped.map fun c => (c, .refused skippedError)) = [] := by
      apply openAccounts_eq_nil
      intro account hmem
      obtain ⟨c, -, rfl⟩ := List.mem_map.mp hmem
      rfl
    exact (congrArg Nat.succ (congrArg List.length hskipped)).le

@[simp] theorem Account.entry_id (account : Account) : account.entry.id = account.1.id := by
  obtain ⟨call, _ | error | result⟩ := account <;> rfl

theorem settle_held {rows : List Row} (results : List ToolResult) {call : ToolCall}
    (h : call ∈ heldCalls rows) : (call, Settlement.held) ∈ settle rows results := by
  induction rows generalizing results with
  | nil => cases h
  | cons row rows ih =>
    obtain ⟨c, _ | tool | e⟩ := row
    · rcases List.mem_cons.mp h with rfl | h
      · exact List.mem_cons_self
      · exact List.mem_cons_of_mem _ (ih results h)
    · cases results <;> exact List.mem_cons_of_mem _ (ih _ h)
    · exact List.mem_cons_of_mem _ (ih results h)

/-- A turn that records fresh ids adds its accounts to the ledger. -/
theorem TurnRows.adds {limit : ℕ} {state : LoopState} {turn : TurnEnd} {pass : Pass}
    {rows : List Row} {accounts : List Account}
    (h : TurnRows (allowedTools pass.tools) limit state pass.asked turn (executions pass.trace) rows)
    (hrecorded : pass.recorded = state.toolCalls) (hlimit : pass.limit = limit)
    (hfresh : pass.Fresh) (hfollows : Follows accounts state.toolCalls) :
    ∃ added, Adds pass added ∧ Follows (accounts ++ added) turn.toolCalls ∧
      (∀ call ∈ heldCalls rows, (call, Settlement.held) ∈ added) ∧
        (heldCalls rows = [] → ∀ account ∈ added, account.2.result.isSome) := by
  have htaken : rows.map Prod.fst <+: pass.taken := by
    refine List.prefix_take_iff.mpr ⟨h.calls, ?_⟩
    have := h.within
    rw [List.length_map, hrecorded, hlimit]
    omega
  have hids := hfresh.of_prefix htaken
  rw [hrecorded] at hids
  obtain ⟨results, hlen, hperm, hentries⟩ := h.filled hids
  have hcalls := settle_calls rows results
  refine ⟨settle rows results, ⟨?_, hperm, h.judged.accounted hlen⟩, ⟨?_, ?_⟩,
    fun call hcall => settle_held _ hcall, fun hheld => settle_isSome hheld hlen⟩
  · rw [hcalls]
    exact h.calls
  · rw [hentries]
    refine List.rel_append hfollows.fits ?_
    rw [List.forall₂_map_left_iff, List.forall₂_same]
    exact fun account _ => .refl
  · have hnewIds : ((settle rows results).map Account.entry).map ToolCall.id =
        (rows.map Prod.fst).map ToolCall.id := by
      rw [← hcalls, List.map_map, List.map_map]
      exact List.map_congr_left fun account _ => account.entry_id
    rw [hentries, List.map_append, hnewIds, List.nodup_append]
    refine ⟨hfollows.nodup, hids.1, ?_⟩
    rintro _ hold _ hnew rfl
    obtain ⟨c, hc, heq⟩ := List.mem_map.mp hold
    exact hids.2 c hc (heq ▸ hnew)

/-- How the outcome of a loop follows a ledger. At most one account is held back, and a
paused run waits for the answer to it. -/
structure OutcomeFollows (accounts : List Account) (out : Report × Option WorkerState) : Prop where
  report : Follows accounts out.1.toolCalls
  held : (openAccounts accounts).length ≤ 1
  paused : ∀ state ∈ out.2, state.toolCalls = out.1.toolCalls ∧
    ∃ p, state.pendingAction = some p ∧ (p.toolCall, Settlement.held) ∈ accounts

variable {ok : ∀ q, Answer q → Prop} {ctx : RunContext} {job : Job} {tools : List Tool}

/-- Where no id is recorded twice, a loop keeps the ledger of the run. -/
theorem LoopRuns.follows {left : ℕ} {state : LoopState} {w w' : World} {passes : List Pass}
    {t : Trace sig} {r : Except Exn (Report × Option WorkerState)}
    (h : LoopRuns ok ctx job tools left state w passes t r w')
    (hfresh : ∀ pass ∈ passes, pass.Fresh) {accounts : List Account}
    (hfollows : Follows accounts state.toolCalls) (hopen : openAccounts accounts = []) :
    ∀ out, r = .ok out → ∃ after, AddsAll passes accounts after ∧ OutcomeFollows after out := by
  induction h generalizing accounts with
  | @exhausted state w t r w' h =>
    have hfail := failedReport_failReport toolFreeLaw_permits ctx state "Max iterations exceeded"
    obtain ⟨-, hreport⟩ := (executes_free hfail).runs (h.mono fun _ _ _ => trivial)
    intro out hout
    cases r with
    | error e => cases hout
    | ok report =>
      cases hout
      refine ⟨accounts, .nil, ?_, by simp [hopen], fun _ h => nomatch h⟩
      rw [(hreport report rfl).2]
      exact hfollows
  | raised h => exact fun _ h => nomatch h
  | @ended left state w pass turn out w' h hout =>
    rintro _ ⟨⟩
    obtain ⟨htools, hrecorded, hlimit, -, hturn⟩ := h.within
    obtain ⟨⟨rows, hrows⟩, -⟩ := hturn turn rfl
    rw [← htools] at hrows
    obtain ⟨added, hadds, hafter, hheld, -⟩ :=
      hrows.adds hrecorded hlimit (hfresh pass List.mem_cons_self) hfollows
    refine ⟨accounts ++ added, .last hadds, ?_⟩
    have hheldBack : (openAccounts (accounts ++ added)).length ≤ 1 := by
      rw [openAccounts_append, hopen]
      exact hadds.accounted.openAccounts_le
    cases turn with
    | next s => cases hout
    | report report =>
      cases hout
      exact ⟨hafter, hheldBack, fun _ h => nomatch h⟩
    | paused report paused =>
      cases hout
      obtain ⟨-, hcalls, p, hpending, -, hp⟩ := hrows.leaves
      refine ⟨hcalls ▸ hafter, hheldBack, ?_⟩
      rintro _ ⟨⟩
      refine ⟨hcalls.symm, p, hpending, List.mem_append_right _ (hheld _ ?_)⟩
      rw [hp]
      exact List.mem_cons_self
  | @next left state w pass state' w₁ passes t r w' h _ ih =>
    obtain ⟨htools, hrecorded, hlimit, -, hturn⟩ := h.within
    obtain ⟨⟨rows, hrows⟩, -⟩ := hturn _ rfl
    rw [← htools] at hrows
    obtain ⟨added, hadds, hafter, -, hsettled⟩ :=
      hrows.adds hrecorded hlimit (hfresh pass List.mem_cons_self) hfollows
    have hadded := hsettled hrows.leaves.2
    have hopen' : openAccounts (accounts ++ added) = [] := by
      rw [openAccounts_append, hopen, openAccounts_eq_nil hadded, List.nil_append]
    intro out hout
    obtain ⟨after, hall, hfinal⟩ :=
      ih (fun pass' hmem => hfresh pass' (List.mem_cons_of_mem _ hmem)) hafter hopen' out hout
    exact ⟨after, .cons hadds hadded hall, hfinal⟩

end Blackgeorge.WorkerRunner
