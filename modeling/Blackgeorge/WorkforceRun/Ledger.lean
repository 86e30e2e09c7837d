import Blackgeorge.WorkerRunner.Ledger
import Blackgeorge.WorkforceRun.Legs

/-! The ledger of a run over its pauses. A resume settles the account that was held back,
its loop adds further ones, and the recorded calls follow. -/

namespace Blackgeorge.WorkforceRun

open Data Program Coroutine Coro WorkerRunner

/-! ### Ledgers of runs -/

/-- The answer to a pending action settles the account that was held back, and no other. -/
inductive Answered (leg : Leg) : List Account → List Account → Prop
  | settle {front back call account state decision pending} :
    leg.call = .resume state decision → state.pendingAction = some pending →
    call.id = pending.toolCall.id → AnswerSettles leg.worker state.job pending decision account →
    executions leg.opening = account.execution.toList →
    Answered leg (front ++ (call, .held) :: back) (front ++ account :: back)

/-- The ledgers of a run, leg by leg. -/
inductive Settles : List Leg → List Account → Prop
  | run {leg after} : AddsAll leg.passes [] after → Settles [leg] after
  | resume {legs leg before middle after} : Settles legs before →
    Answered leg before middle → AddsAll leg.passes middle after →
    Settles (legs ++ [leg]) after

/-! ### Restored states -/

theorem fits_id {entry : ToolCall} {account : Account} (h : Fits entry account) :
    entry.id = account.1.id := by
  induction h with
  | refl => exact account.entry_id
  | tail _ hdump ih => exact (persisted_id hdump).trans ih

/-- A paused state that waits for an answer to the account held back. -/
structure Waits (accounts : List Account) (state : WorkerState) : Prop where
  follows : Follows accounts state.toolCalls
  single : (openAccounts accounts).length ≤ 1
  held : ∃ p, state.pendingAction = some p ∧
    ∃ call, (call, Settlement.held) ∈ accounts ∧ call.id = p.toolCall.id

theorem fits_persisted {accounts : List Account} {calls calls' : List ToolCall}
    (hdump : List.Forall₂ (fun c c' => ToolCall.persisted c = some c') calls calls')
    (h : List.Forall₂ Fits calls accounts) : List.Forall₂ Fits calls' accounts := by
  induction hdump generalizing accounts with
  | nil => exact h
  | cons hc _ ih =>
    cases h with
    | cons hfits hrest => exact .cons (hfits.tail hc) (ih hrest)

theorem waits_persisted {accounts : List Account} {s s' : WorkerState} (hs : s.persisted = some s')
    (h : Waits accounts s) : Waits accounts s' := by
  simp only [WorkerState.persisted, StateCore.persisted, Option.bind_eq_bind,
    Option.bind_eq_some_iff] at hs
  obtain ⟨core, ⟨job, _, messages, _, toolCalls, hcalls, pending, hpending, hcore⟩, hs⟩ := hs
  obtain rfl := Option.some.inj hcore
  obtain rfl := Option.some.inj hs
  obtain ⟨⟨hfits, hnodup⟩, hsingle, p, hp, call, hheld, hid⟩ := h
  obtain ⟨p', hp', rfl⟩ : ∃ p', p.persisted = some p' ∧ some p' = pending := by
    simpa [hp] using hpending
  simp only [PendingAction.persisted, Option.bind_eq_bind, Option.bind_eq_some_iff] at hp'
  obtain ⟨c, hc, _, _, hp'⟩ := hp'
  obtain rfl := Option.some.inj hp'
  refine ⟨⟨fits_persisted (forall₂_of_mapM hcalls) hfits, ?_⟩, hsingle, _, rfl, call, hheld, ?_⟩
  · rw [map_eq_of_mapM (fun _ _ => persisted_id) hcalls]
    exact hnodup
  · exact hid.trans (persisted_id hc).symm

theorem waits_stored {accounts : List Account} {s s' : WorkerState} (hs : Stored s s')
    (h : Waits accounts s) : Waits accounts s' := by
  induction hs with
  | same => exact h
  | dumped _ hdump ih => exact waits_persisted hdump ih
  | job _ _ ih => exact ⟨ih.follows, ih.single, ih.held⟩

/-! ### Resumes -/

/-- The answer replaces the entry that was held back, and no other. -/
theorem Waits.answered {accounts : List Account} {state : WorkerState} (h : Waits accounts state)
    {leg : Leg} {decision : Value} (hcall : leg.call = .resume state decision)
    {toolCalls : List ToolCall}
    (hanswer : AnsweredFrom leg.worker state decision toolCalls (executions leg.opening)) :
    ∃ middle, Answered leg accounts middle ∧ Follows middle toolCalls ∧
      openAccounts middle = [] := by
  obtain ⟨⟨hfits, hnodup⟩, hsingle, p, hp, call, hheld, hid⟩ := h
  obtain ⟨pending, ⟨call', settlement⟩, result, hpending, hsettled, hresult, hexec, hreplace⟩ := hanswer
  obtain rfl := Option.some.inj (hp.symm.trans hpending)
  obtain ⟨front, back, rfl⟩ := List.append_of_mem hheld
  have hid'' : call'.id = call.id := hsettled.id_eq.trans hid.symm
  refine ⟨_, .settle hcall hpending hid hsettled hexec, ?_,
    openAccounts_settle hsingle (Option.isSome_of_mem hresult)⟩
  have hfront := List.forall₂_take_append _ _ _ hfits
  have hback := List.forall₂_drop_append _ _ _ hfits
  have hsplit := List.take_append_drop front.length state.toolCalls
  generalize state.toolCalls.take front.length = before at hfront hsplit
  generalize state.toolCalls.drop front.length = rest at hback hsplit
  cases hback with
  | @cons entry _ after _ hentry hback =>
    have hentryId : entry.id = (toolCallWithResult call' result).id :=
      (fits_id hentry).trans hid''.symm
    have hbefore : ∀ c ∈ before, c.id ≠ (toolCallWithResult call' result).id := by
      intro c hc heq
      rw [← hsplit, List.map_append, List.nodup_append] at hnodup
      exact hnodup.2.2 _ (List.mem_map_of_mem hc) _ List.mem_cons_self (heq.trans hentryId.symm)
    rw [← hsplit, replaceToolCall_append hentryId hbefore] at hreplace
    obtain rfl := Except.ok.inj hreplace
    constructor
    · refine List.rel_append hfront (.cons ?_ hback)
      have hfilled : Account.entry (call', settlement) = toolCallWithResult call' result := by
        simp [Account.entry, hresult]
      rw [Fits, hfilled]
    · have hids : (before ++ toolCallWithResult call' result :: after).map ToolCall.id =
          state.toolCalls.map ToolCall.id := by
        rw [← hsplit]
        simp [hentryId]
      rw [hids]
      exact hnodup

/-! ### Runs -/

/-- What a run leaves: an outcome that follows its ledger, or a report without recorded
calls. -/
def LeavesLedger (legs : List Leg) (out : Report × Option WorkerState) : Prop :=
  (∃ accounts, Settles legs accounts ∧ OutcomeFollows accounts out) ∨
    out.1.toolCalls = [] ∧ out.2 = none

theorem waits_of_follows {accounts : List Account} {report : Report} {state : WorkerState}
    (h : OutcomeFollows accounts (report, some state)) : Waits accounts state := by
  obtain ⟨hcalls, p, hp, hheld⟩ := h.paused state rfl
  exact ⟨hcalls ▸ h.report, h.held, p, hp, _, hheld, rfl⟩

theorem Waits.pending_isSome {accounts : List Account} {state : WorkerState}
    (h : Waits accounts state) : state.pendingAction.isSome := by
  obtain ⟨p, hp, -⟩ := h.held
  rw [hp]
  rfl

/-- Whatever the worker, its configuration and the answers, a run in which no id is recorded
twice leaves the entries of its ledger. -/
theorem RunLegs.leavesLedger {ok : ∀ q, Answer q → Prop} {allowed : RunConfig → Prop}
    {legs : List Leg} {r : Except Exn (Report × Option WorkerState)} (h : RunLegs ok allowed legs r)
    (hfresh : ∀ leg ∈ legs, ∀ pass ∈ leg.passes, pass.Fresh) :
    ∀ out, r = .ok out → LeavesLedger legs out := by
  induction h with
  | @run worker config job w leg r w' _ hleg =>
    have hopen := executes_free (opened_openRun worker config job)
    have hpasses := hfresh leg List.mem_cons_self
    intro out hout
    cases hleg with
    | raised h => cases hout
    | @finished t o w' h =>
      cases hout
      obtain ⟨-, hopened⟩ := hopen.runs (h.mono fun _ _ _ => trivial)
      obtain ⟨hnone, hcalls⟩ := (hopened _ rfl).finished out rfl
      exact .inr ⟨List.length_eq_zero_iff.mp (Nat.le_zero.mp hcalls), hnone⟩
    | @loop t ctx job' tools left state w₁ passes t' r w' h hloop =>
      obtain ⟨-, hopened⟩ := hopen.runs (h.mono fun _ _ _ => trivial)
      obtain ⟨-, -, -, hcalls⟩ := (hopened _ rfl).loop _ _ _ _ _ rfl
      have hnil : state.toolCalls = [] := List.length_eq_zero_iff.mp hcalls
      have hstart : Follows [] state.toolCalls := by
        rw [hnil]
        exact ⟨.nil, List.nodup_nil⟩
      obtain ⟨after, hall, hfollows⟩ := hloop.follows hpasses hstart rfl out hout
      exact .inl ⟨after, .run hall, hfollows⟩
  | @resume legs report state state' worker config decision w leg r w' _ hstored _ hleg ih =>
    have hbefore := ih (fun leg' hmem => hfresh leg' (List.mem_append_left _ hmem)) _ rfl
    rcases hbefore with ⟨accounts, hsettles, hout'⟩ | ⟨-, hnone⟩
    · have hwaits := waits_stored hstored (waits_of_follows hout')
      have hopen := executes_openResume worker config state' decision
      have hpasses := hfresh leg (List.mem_append_right _ List.mem_cons_self)
      intro out hout
      cases hleg with
      | raised h => cases hout
      | @finished t o w' h =>
        cases hout
        obtain ⟨hnone, hcalls⟩ := (hopen.runs (h.mono fun _ _ _ => trivial)).finished out rfl
        exact .inr ⟨hcalls hwaits.pending_isSome, hnone⟩
      | @loop t ctx job' tools left s w₁ passes t' r w' h hloop =>
        have hanswer := (hopen.runs (h.mono fun _ _ _ => trivial)).answered _ _ _ _ _ rfl
        let leg : Leg := ⟨worker, .resume state' decision, t, passes, t ++ t'⟩
        have hcall : leg.call = .resume state' decision := rfl
        obtain ⟨middle, hmiddle, hfollows, hsettled⟩ := hwaits.answered hcall hanswer
        obtain ⟨after, hall, hfinal⟩ := hloop.follows hpasses hfollows hsettled out hout
        exact .inl ⟨after, .resume hsettles hmiddle hall, hfinal⟩
    · cases hnone

/-- In every run whose turns record no id twice, however often it pauses, each recorded call
carries the result and the error of its own execution or refusal. A report without recorded
calls may also be that of a run whose worker has no model. -/
theorem runLegs_follow_ledger {ok : ∀ q, Answer q → Prop} {allowed : RunConfig → Prop}
    {legs : List Leg} {r : Except Exn (Report × Option WorkerState)} (h : RunLegs ok allowed legs r)
    (hfresh : ∀ leg ∈ legs, ∀ pass ∈ leg.passes, pass.Fresh) :
    ∀ out, r = .ok out → out.1.toolCalls = [] ∧ out.2 = none ∨
      ∃ accounts, Settles legs accounts ∧ OutcomeFollows accounts out :=
  fun out hout => (h.leavesLedger hfresh out hout).symm

/-- Calls of one response: of no tool, of one that runs at once, of one that waits, and behind it. -/
def mixedCalls : List ToolCall :=
  [{ id := "c1", name := "search", arguments := [] },
    { id := "c2", name := "lookup", arguments := [] }, { deployCall with id := "c3" },
    { id := "c4", name := "lookup", arguments := [] }]

def mixedModel (n : ℕ) : ModelResponse :=
  if n < 4 then { content := none, toolCalls := mixedCalls } else { content := some "done" }

/-- What becomes of the calls before the pending one is answered. -/
def mixedAccounts : List Account :=
  mixedCalls.zip [.refused "Tool not found: search", .executed { content := some "ok" }, .held,
    .refused skippedError]

/-- The state of the plain worker that waits for the third call. -/
def mixedPaused : WorkerState :=
  { pausedWorker with
    messages := [{ role := .user, content := .text "go" },
      { role := .assistant, content := .text "", toolCalls := mixedCalls }] ++
        mixedAccounts.filterMap fun account => account.2.result.map (toolMessage · account.1)
    toolCalls := mixedAccounts.map Account.entry
    pendingAction := some
      (pendingActionFor "1" .confirmation guardedTool { deployCall with id := "c3" }) }

/-- A run that refuses, executes, holds back and skips, and whose pending call is declined. -/
theorem runLegs_follow_ledger_mixed :
    ∃ (legs : List Leg) (out : Report × Option WorkerState), legs.length = 2 ∧
      out.1.toolCalls.map ToolCall.error = [some "Tool not found: search", none,
        some "Tool execution declined", some skippedError] ∧
          (out.1.toolCalls = [] ∧ out.2 = none ∨
            ∃ accounts, Settles legs accounts ∧ OutcomeFollows accounts out) := by
  obtain ⟨leg, w, hleg, -, t, hpasses⟩ := exists_plain_leg mixedModel 0 (.run plainJob)
    (_, some mixedPaused) rfl rfl rfl rfl
  obtain ⟨leg', w', hleg', -, t', hpasses'⟩ := exists_plain_leg mixedModel 4
    (.resume mixedPaused (.bool false)) _ rfl rfl rfl rfl
  have hlegs : RunLegs (fun _ _ => True) (fun _ => True) ([leg] ++ [leg']) _ :=
    .resume (.run trivial hleg) .same trivial hleg'
  have hfresh : ∀ l ∈ [leg] ++ [leg'], ∀ pass ∈ l.passes, pass.Fresh := by
    simp only [List.singleton_append, List.mem_cons, List.not_mem_nil, or_false, forall_eq_or_imp,
      forall_eq, hpasses, hpasses', Pass.Fresh, FreshIds, Pass.taken]
    decide
  exact ⟨_, _, rfl, by decide, runLegs_follow_ledger hlegs hfresh _ rfl⟩

/-! ### Ids that recur -/

/-- Two turns that call the same tool under the same id. -/
def recurringModel (n : ℕ) : ModelResponse :=
  if n < 9 then
    { content := none, toolCalls := [{ id := "c1", name := "lookup", arguments := [] }] }
  else { content := some "done" }

/-- Tools that tell their executions apart. -/
def recurringAnswers (n : ℕ) (q : Query) : Answer q :=
  match q with
  | .runTool .. => .ok { content := some (if n < 6 then "first" else "second") }
  | q => plainAnswers recurringModel n q

def recurringRun : Trace sig × Except Exn (Report × Option WorkerState) × World :=
  runIn recurringAnswers ((Call.run plainJob).prog plainWorker plainConfig) {}

/-- The text of a recorded result. -/
def recordedText (call : ToolCall) : Option String :=
  call.result.bind fun result => match result with
    | .live r => r.content
    | .dumped _ => none

theorem fits_executed {entry call : ToolCall} {result : ToolResult}
    (h : Fits entry (call, .executed result)) : entry.result.isSome := by
  induction h with
  | refl => rfl
  | @tail c c' _ hdump ih =>
    simp only [ToolCall.persisted, Option.bind_eq_bind, Option.bind_eq_some_iff] at hdump
    obtain ⟨_, _, r, hr, hdump⟩ := hdump
    obtain rfl := Option.some.inj hdump
    cases hc : c.result with
    | none => rw [hc] at ih; cases ih
    | some result =>
      rw [hc] at hr
      cases hresult : result.persisted with
      | none => simp [hresult] at hr
      | some dumped =>
        obtain rfl : some dumped = r := by simpa [hresult] using hr
        rfl

/-- Entries that account for as many executions as there are entries all have a result. -/
theorem isSome_of_executed {entries : List ToolCall} {accounts : List Account}
    (h : List.Forall₂ Fits entries accounts)
    (hlen : entries.length ≤ (accounts.filterMap Account.execution).length) :
    ∀ entry ∈ entries, entry.result.isSome := by
  induction h with
  | nil => simp
  | @cons entry account entries accounts hfits hrest ih =>
    have hle := List.length_filterMap_le Account.execution accounts
    rw [← hrest.length_eq] at hle
    rw [List.filterMap_cons] at hlen
    obtain ⟨call, _ | error | result⟩ := account
    · exact absurd (hlen.trans hle) (Nat.not_succ_le_self _)
    · exact absurd (hlen.trans hle) (Nat.not_succ_le_self _)
    · rintro e (_ | ⟨_, hmem⟩)
      · exact fits_executed hfits
      · exact ih (Nat.le_of_succ_le_succ hlen) e hmem

/-- The second execution's result lands in the entry of the first call. -/
theorem not_follows_recurring :
    (executions recurringRun.1).length = 2 ∧
      ∃ report, recurringRun.2.1 = .ok (report, none) ∧
        report.toolCalls.map recordedText = [some "second", none] ∧
          ¬ ∃ accounts, (executions recurringRun.1).Perm (accounts.filterMap Account.execution) ∧
            List.Forall₂ Fits report.toolCalls accounts := by
  refine ⟨by decide, _, rfl, by decide, ?_⟩
  rintro ⟨accounts, hperm, hfits⟩
  have hlen : (executions recurringRun.1).length = 2 := by decide
  rw [hperm.length_eq] at hlen
  have hall := isSome_of_executed hfits (by rw [hlen]; decide)
  revert hall
  decide

end Blackgeorge.WorkforceRun
