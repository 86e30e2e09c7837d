import Blackgeorge.WorkerRunner.Plans

/-! What becomes of the recorded calls of a response: an executed call is filled with the
result of its own execution, a refused one with its error, and the one held back stays
open. -/

namespace Blackgeorge.WorkerRunner

open Data Program Coroutine Coro

/-! ### Executions -/

/-- The calls that tools were run for, with their outcomes. -/
def executions (t : Trace sig) : List (ToolCall × Except Exn ToolResult) :=
  t.filterMap fun e => match e with
    | ⟨.runTool _ call _, r⟩ => some (call, r)
    | _ => none

@[simp] theorem executions_nil : executions [] = [] := rfl

@[simp] theorem executions_append (t t' : Trace sig) :
    executions (t ++ t') = executions t ++ executions t' :=
  List.filterMap_append

/-- The law of programs that run no tool. -/
def toolFreeLaw : Law sig where
  step _ _ := True
  admits _ _ := True
  event e := executions [e] = []

theorem toolFreeLaw_bills : Bills toolFreeLaw where
  refl _ := trivial
  eventLists _ _ := trivial
  storedEvents _ _ := trivial
  routine q a hq := by
    cases q <;> first | exact rfl | exact False.elim hq
  totals _ _ := trivial
  usageCost _ _ _ := rfl

theorem toolFreeLaw_permits : Permits toolFreeLaw := toolFreeLaw_bills.toPermits

theorem toolFreeLaw_requests (tools : List Tool) : Requests toolFreeLaw tools where
  toPermits := toolFreeLaw_permits
  free q a hq := by
    cases q <;> first | exact rfl | exact False.elim hq
  complete _ _ _ _ := rfl

theorem executions_eq_nil {t : Trace sig} (h : ∀ e ∈ t, toolFreeLaw.event e) :
    executions t = [] := by
  induction t with
  | nil => rfl
  | cons e t ih =>
    rw [← List.singleton_append, executions_append, h e (by simp), ih fun e' he' => h e' (by simp [he'])]
    rfl

section

variable {α β : Type}

/-- What a program's tools did goes with its outcome. -/
def Executes (c : Prog α) (Q : Except Exn α → List (ToolCall × Except Exn ToolResult) → Prop) :
    Prop :=
  Tells (S := sig) (fun _ _ => True) c fun t r => Q r (executions t)

variable {Q Q' : Except Exn α → List (ToolCall × Except Exn ToolResult) → Prop}

theorem Executes.mono {c : Prog α} (h : Executes c Q) (hQ : ∀ r l, Q r l → Q' r l) :
    Executes c Q' :=
  Tells.mono h fun _ r ht => hQ r _ ht

theorem executes_pure {a : α} (h : Q (.ok a) []) : Executes (pure a) Q := tells_pure h

theorem executes_ofExcept {r : Except Exn α} (h : Q r []) : Executes (Prog.ofExcept r) Q :=
  tells_ofExcept h

theorem executes_bind {c : Prog α} {g : α → Prog β}
    {Q' : Except Exn β → List (ToolCall × Except Exn ToolResult) → Prop} (hc : Executes c Q)
    (hraise : ∀ e l, Q (.error e) l → Q' (.error e) l)
    (hg : ∀ a l, Q (.ok a) l → Executes (g a) fun r l' => Q' r (l ++ l')) :
    Executes (c >>= g) Q' := by
  refine tells_bind hc (fun t e h => hraise e _ h) fun t a h => ?_
  refine Tells.mono (hg a _ h) fun t' r hQ => ?_
  rw [executions_append]
  exact hQ

/-- A program that runs no tool. -/
theorem executes_free {c : Prog α} {P : α → Prop} (h : Each toolFreeLaw c P) :
    Executes c fun r l => l = [] ∧ ∀ a, r = .ok a → P a := by
  refine (Each.tells h).mono ?_
  rintro t r ⟨ht, hr⟩
  exact ⟨executions_eq_nil ht, hr⟩

/-- A program that runs no tool in front. -/
theorem executes_free_bind {c : Prog α} {g : α → Prog β} {P : α → Prop}
    {Q : Except Exn β → List (ToolCall × Except Exn ToolResult) → Prop}
    (hc : Each toolFreeLaw c P) (hraise : ∀ e, Q (.error e) [])
    (hg : ∀ a, P a → Executes (g a) Q) : Executes (c >>= g) Q := by
  refine executes_bind (executes_free hc) ?_ ?_
  · rintro e l ⟨rfl, -⟩
    exact hraise e
  · rintro a l ⟨rfl, ha⟩
    exact hg a (ha a rfl)

theorem executes_executeTool (tool : Tool) (call : ToolCall) (approved : Option String) :
    Executes (executeTool tool call approved) fun r l => l = [(call, r)] := by
  have hask : Executes (Prog.ask (.runTool tool call approved)) fun r l =>
      ∃ answer, r = .ok answer ∧ l = [(call, answer)] :=
    tells_query fun answer _ => ⟨answer, rfl, rfl⟩
  refine executes_bind hask ?_ ?_
  · rintro e l ⟨_, ⟨⟩, -⟩
  · rintro _ l ⟨answer, ⟨⟩, rfl⟩
    exact executes_ofExcept rfl

end

theorem forall₂_executions {calls : List (ToolCall × Tool)}
    {outcomes : List (Trace sig × Except Exn ToolResult)}
    (h : List.Forall₂ (fun c o => executions o.1 = [(c.1, o.2)]) calls outcomes) :
    executions (outcomes.flatMap Prod.fst) = (calls.map Prod.fst).zip (outcomes.map Prod.snd) := by
  induction h with
  | nil => rfl
  | cons hc _ ih => rw [List.flatMap_cons, executions_append, hc, ih]; rfl

/-- Every call of a gathering is executed once. -/
theorem executes_gather (calls : List (ToolCall × Tool)) :
    Executes (Prog.gather (calls.map fun (call, tool) => executeTool tool call none)) fun r l =>
      l.length = calls.length ∧ ∀ results, r = .ok results →
        results.length = calls.length ∧
          l.Perm ((calls.map Prod.fst).zip (results.map Except.ok)) := by
  have hall := tells_parAll fun (c : ToolCall × Tool) (_ : c ∈ calls) =>
    executes_executeTool c.2 c.1 none
  refine tells_bind hall ?_ ?_
  · rintro t e ⟨_, ⟨⟩, -⟩
  · rintro t _ ⟨outcomes, ⟨⟩, hperm, hcalls⟩
    have hexec : (executions t).Perm ((calls.map Prod.fst).zip (outcomes.map Prod.snd)) := by
      rw [← forall₂_executions hcalls]
      exact hperm.filterMap _
    have hlen : (executions t).length = calls.length := by
      rw [hexec.length_eq, List.length_zip, List.length_map, List.length_map, hcalls.length_eq,
        Nat.min_self]
    cases hresults : (outcomes.map Prod.snd).mapM id with
    | error e => exact tells_raise ⟨by simpa using hlen, fun _ h => nomatch h⟩
    | ok results =>
      have heq := mapM_id_ok hresults
      refine tells_pure ⟨by simpa using hlen, ?_⟩
      rintro _ ⟨⟩
      rw [List.append_nil, ← heq]
      refine ⟨?_, hexec⟩
      have := congrArg List.length heq
      simp only [List.length_map] at this
      rw [← this, hcalls.length_eq]

/-! ### Rows -/

/-- A recorded call with the verdict on it; the call held back has none. -/
abbrev Row := ToolCall × Option Verdict

/-- The recorded calls of a plan, in order. -/
def planRows (decided : List (ToolCall × Verdict)) (held : Option PendingAction)
    (skipped : List ToolCall) : List Row :=
  decided.map (fun v => (v.1, some v.2)) ++
    ((held.map fun p => (p.toolCall, none)).toList ++
      skipped.map fun call => (call, some (.refuse skippedError)))

/-- The rows with a verdict. -/
def verdictsOf (rows : List Row) : List (ToolCall × Verdict) :=
  rows.filterMap fun row => row.2.map (row.1, ·)

/-- The calls to execute. -/
def executablesOf (verdicts : List (ToolCall × Verdict)) : List (ToolCall × Tool) :=
  verdicts.filterMap fun v => match v.2 with
    | .execute tool => some (v.1, tool)
    | .refuse _ => none

theorem planRows_calls (decided : List (ToolCall × Verdict)) (held : Option PendingAction)
    (skipped : List ToolCall) : (planRows decided held skipped).map Prod.fst =
      decided.map Prod.fst ++ ((held.map PendingAction.toolCall).toList ++ skipped) := by
  cases held <;> simp [planRows, Function.comp_def]

theorem verdictsOf_planRows (decided : List (ToolCall × Verdict)) (held : Option PendingAction)
    (skipped : List ToolCall) :
    verdictsOf (planRows decided held skipped) = decided ++ skippedCalls skipped := by
  cases held <;> simp [verdictsOf, planRows, skippedCalls, List.filterMap_append]

/-! ### What a plan holds -/

theorem foldl_add_orderedCalls (verdicts : List (ToolCall × Verdict)) (plan : ToolPlan) :
    (verdicts.foldl ToolPlan.add plan).orderedCalls =
      plan.orderedCalls ++ verdicts.map Prod.fst := by
  induction verdicts generalizing plan with
  | nil => simp
  | cons v verdicts ih =>
    obtain ⟨call, tool | error⟩ := v
    · rw [List.foldl_cons, ih]
      simp [ToolPlan.add]
    · rw [List.foldl_cons, ih]
      simp [ToolPlan.add, ToolPlan.immediate]

theorem foldl_add_executableCalls (verdicts : List (ToolCall × Verdict)) (plan : ToolPlan) :
    (verdicts.foldl ToolPlan.add plan).executableCalls =
      plan.executableCalls ++ executablesOf verdicts := by
  induction verdicts generalizing plan with
  | nil => simp [executablesOf]
  | cons v verdicts ih =>
    obtain ⟨call, tool | error⟩ := v
    · rw [List.foldl_cons, ih]
      simp [ToolPlan.add, executablesOf]
    · rw [List.foldl_cons, ih]
      simp [ToolPlan.add, ToolPlan.immediate, executablesOf]

/-- A refused call finds its own error under its id, if no other call has that id. -/
theorem foldl_add_immediateResults {verdicts : List (ToolCall × Verdict)} (plan : ToolPlan)
    (hnodup : (verdicts.map fun v => v.1.id).Nodup) :
    (∀ id, id ∉ verdicts.map (fun v => v.1.id) →
      (verdicts.foldl ToolPlan.add plan).immediateResults id = plan.immediateResults id) ∧
    ∀ call error, (call, Verdict.refuse error) ∈ verdicts →
      (verdicts.foldl ToolPlan.add plan).immediateResults call.id =
        some { error := some error } := by
  induction verdicts generalizing plan with
  | nil => simp
  | cons v verdicts ih =>
    rw [List.map_cons, List.nodup_cons] at hnodup
    obtain ⟨hother, hrefused⟩ := ih (plan.add v) hnodup.2
    constructor
    · intro id hid
      rw [List.map_cons, List.mem_cons, not_or] at hid
      rw [List.foldl_cons, hother id hid.2]
      obtain ⟨call, tool | error⟩ := v
      · rfl
      · exact Function.update_of_ne hid.1 _ _
    · rintro call error (_ | ⟨_, hmem⟩)
      · rw [List.foldl_cons, hother call.id hnodup.1]
        exact Function.update_self _ _ _
      · exact hrefused call error hmem

/-! ### Settlements -/

/-- What became of a recorded call. -/
inductive Settlement where
  | held
  | refused (error : String)
  | executed (result : ToolResult)

/-- The result a settled call is filled with. -/
def Settlement.result : Settlement → Option ToolResult
  | held => none
  | refused error => some { error := some error }
  | executed result => some result

/-- A recorded call and what became of it. -/
abbrev Account := ToolCall × Settlement

/-- The entry of the call in the list of recorded calls. -/
def Account.entry (account : Account) : ToolCall :=
  account.2.result.elim account.1 (toolCallWithResult account.1)

/-- The execution an account stands for. -/
def Account.execution : Account → Option (ToolCall × Except Exn ToolResult)
  | (call, .executed result) => some (call, .ok result)
  | _ => none

/-- The accounts of the rows, given the results of the executed calls in order. -/
def settle : List Row → List ToolResult → List Account
  | [], _ => []
  | (call, some (.refuse error)) :: rows, results => (call, .refused error) :: settle rows results
  | (call, some (.execute _)) :: rows, result :: results =>
    (call, .executed result) :: settle rows results
  | (call, _) :: rows, results => (call, .held) :: settle rows results

/-- The calls of the settled accounts. -/
def settledCalls (accounts : List Account) : List ToolCall :=
  accounts.filterMap fun account => account.2.result.map fun _ => account.1

theorem settle_calls (rows : List Row) (results : List ToolResult) :
    (settle rows results).map Prod.fst = rows.map Prod.fst := by
  induction rows generalizing results with
  | nil => rfl
  | cons row rows ih =>
    obtain ⟨call, _ | tool | error⟩ := row
    · exact congrArg (call :: ·) (ih results)
    · cases results with
      | nil => exact congrArg (call :: ·) (ih [])
      | cons result results => exact congrArg (call :: ·) (ih results)
    · exact congrArg (call :: ·) (ih results)

/-- With a result for each executed call, the accounts stand for their executions. -/
theorem settle_spec (rows : List Row) (results : List ToolResult)
    (hlen : results.length = (executablesOf (verdictsOf rows)).length) :
    (settle rows results).filterMap Account.execution =
        ((executablesOf (verdictsOf rows)).map Prod.fst).zip (results.map Except.ok) ∧
      settledCalls (settle rows results) = (verdictsOf rows).map Prod.fst := by
  induction rows generalizing results with
  | nil => exact ⟨rfl, rfl⟩
  | cons row rows ih =>
    obtain ⟨call, _ | tool | error⟩ := row
    · exact ih results hlen
    · cases results with
      | nil => simp [verdictsOf, executablesOf] at hlen
      | cons result results =>
        obtain ⟨hexec, hcalls⟩ := ih results (Nat.succ.inj hlen)
        refine ⟨?_, congrArg (call :: ·) hcalls⟩
        exact congrArg ((call, (.ok result : Except Exn ToolResult)) :: ·) hexec
    · obtain ⟨hexec, hcalls⟩ := ih results hlen
      exact ⟨hexec, congrArg (call :: ·) hcalls⟩

theorem collectResults_of_notMem {id : String} (calls : List (ToolCall × Tool))
    (results : List ToolResult) (known : String → Option ToolResult)
    (h : id ∉ calls.map fun c => c.1.id) : collectResults calls results known id = known id := by
  induction calls generalizing results known with
  | nil => rfl
  | cons c calls ih =>
    cases results with
    | nil => rfl
    | cons result results =>
      rw [List.map_cons, List.mem_cons, not_or] at h
      rw [collectResults, ih _ _ h.2, Function.update_of_ne h.1]

theorem executablesOf_sublist (rows : List Row) :
    ((executablesOf (verdictsOf rows)).map fun c => c.1.id).Sublist
      (rows.map fun row => row.1.id) := by
  induction rows with
  | nil => exact .slnil
  | cons row rows ih =>
    obtain ⟨call, _ | tool | error⟩ := row
    · exact ih.cons _
    · exact ih.cons_cons _
    · exact ih.cons _

/-- Each account finds its own result under its id, if no other call has that id. -/
theorem settle_results {rows : List Row} {results : List ToolResult}
    {known : String → Option ToolResult} (hnodup : (rows.map fun row => row.1.id).Nodup)
    (hlen : results.length = (executablesOf (verdictsOf rows)).length)
    (hknown : ∀ call error, (call, some (Verdict.refuse error)) ∈ rows →
      known call.id = some { error := some error }) :
    ∀ account ∈ settle rows results, ∀ result, account.2.result = some result →
      collectResults (executablesOf (verdictsOf rows)) results known account.1.id = some result := by
  induction rows generalizing results known with
  | nil => simp [settle]
  | cons row rows ih =>
    rw [List.map_cons, List.nodup_cons] at hnodup
    have hfresh : row.1.id ∉ (executablesOf (verdictsOf rows)).map fun c => c.1.id :=
      fun hmem => hnodup.1 ((executablesOf_sublist rows).mem hmem)
    have htail := fun call error hmem => hknown call error (List.mem_cons_of_mem row hmem)
    obtain ⟨call, _ | tool | error⟩ := row
    · rintro account (_ | ⟨_, hmem⟩) result hresult
      · cases hresult
      · exact ih hnodup.2 hlen htail account hmem result hresult
    · cases results with
      | nil => simp [verdictsOf, executablesOf] at hlen
      | cons r results =>
        have hknown' (c : ToolCall) (error : String)
            (hmem : (c, some (Verdict.refuse error)) ∈ rows) :
            Function.update known call.id (some r) c.id = some { error := some error } := by
          have hne : c.id ≠ call.id := fun heq =>
            hnodup.1 (List.mem_map.mpr ⟨_, hmem, heq⟩)
          rw [Function.update_of_ne hne, htail c error hmem]
        rintro account (_ | ⟨_, hmem⟩) result hresult
        · obtain rfl : r = result := Option.some.inj hresult
          have hhead := collectResults_of_notMem _ results (Function.update known call.id (some r))
            hfresh
          exact hhead.trans (Function.update_self _ _ _)
        · exact ih hnodup.2 (Nat.succ.inj hlen) hknown' account hmem result hresult
    · rintro account (_ | ⟨_, hmem⟩) result hresult
      · obtain rfl := Option.some.inj hresult
        exact (collectResults_of_notMem _ results known hfresh).trans
          (hknown call error List.mem_cons_self)
      · exact ih hnodup.2 hlen htail account hmem result hresult

/-! ### Filling the results in -/

theorem replaceToolCall_append {front back : List ToolCall} {call updated : ToolCall}
    (hid : call.id = updated.id) (hfront : ∀ c ∈ front, c.id ≠ updated.id) :
    replaceToolCall updated (front ++ call :: back) = .ok (front ++ updated :: back) := by
  induction front with
  | nil => simp [replaceToolCall, hid]
  | cons c front ih =>
    have htail := ih fun c' hc' => hfront c' (List.mem_cons_of_mem c hc')
    simp [replaceToolCall, hfront c (by simp), htail]

theorem replaceToolCall_length {updated : ToolCall} {calls calls' : List ToolCall}
    (h : replaceToolCall updated calls = .ok calls') : calls'.length = calls.length := by
  induction calls generalizing calls' with
  | nil => cases h
  | cons call calls ih =>
    unfold replaceToolCall at h
    split_ifs at h
    · obtain rfl := Except.ok.inj h
      rfl
    · cases hrest : replaceToolCall updated calls with
      | error e => rw [hrest] at h; cases h
      | ok rest =>
        rw [hrest] at h
        obtain rfl := Except.ok.inj h
        exact congrArg Nat.succ (ih hrest)

section

variable {L : Law sig} (hL : Permits L)

include hL

theorem keepsLength_appendResults (config : RunConfig) (results : String → Option ToolResult)
    (calls : List ToolCall) (messages : List Message) (toolCalls : List ToolCall) :
    Each L (appendResults config results calls messages toolCalls) fun r =>
      r.2.length = toolCalls.length := by
  induction calls generalizing messages toolCalls with
  | nil => exact each_pure rfl
  | cons call calls ih =>
    apply each_bind (each_emitToolResult hL _ _ _ _)
    intro _ _
    refine each_bind (each_ofExcept fun _ h => replaceToolCall_length h) fun toolCalls' hlen => ?_
    exact (ih _ toolCalls').mono fun r hr => hr.trans hlen

/-- Where ids are distinct, every account's entry ends up in the place of its call. -/
theorem fills_appendResults (config : RunConfig) {results : String → Option ToolResult}
    {accounts : List Account} (messages : List Message) {front : List ToolCall}
    (hnodup : (accounts.map fun account => account.1.id).Nodup)
    (hfront : ∀ c ∈ front, c.id ∉ accounts.map fun account => account.1.id)
    (hresults : ∀ account ∈ accounts, ∀ result, account.2.result = some result →
      results account.1.id = some result) :
    Each L (appendResults config results (settledCalls accounts) messages
      (front ++ accounts.map Prod.fst)) fun r =>
        r.2 = front ++ accounts.map Account.entry := by
  induction accounts generalizing messages front with
  | nil => exact each_pure (by simp)
  | cons account accounts ih =>
    rw [List.map_cons, List.nodup_cons] at hnodup
    have htail := fun a ha => hresults a (List.mem_cons_of_mem account ha)
    have hfront' (entry : ToolCall) (hentry : entry.id = account.1.id) :
        ∀ c ∈ front ++ [entry], c.id ∉ accounts.map fun account => account.1.id := by
      intro c hc hmem
      rcases List.mem_append.mp hc with hc | hc
      · exact hfront c hc (List.mem_cons_of_mem _ hmem)
      · obtain rfl := List.mem_singleton.mp hc
        rw [hentry] at hmem
        exact hnodup.1 hmem
    obtain ⟨call, settlement⟩ := account
    cases hresult : settlement.result with
    | none =>
      have hih := ih messages hnodup.2 (hfront' call rfl) htail
      simpa [settledCalls, Account.entry, hresult] using hih
    | some result =>
      have hih := ih (messages ++ [toolMessage result call]) hnodup.2
        (hfront' (toolCallWithResult call result) rfl) htail
      have hreplace : replaceToolCall (toolCallWithResult call result)
          (front ++ call :: accounts.map Prod.fst) =
            .ok (front ++ toolCallWithResult call result :: accounts.map Prod.fst) :=
        replaceToolCall_append rfl fun c hc heq =>
          hfront c hc (by rw [heq]; exact List.mem_cons_self)
      have hlookup : results call.id = some result := hresults _ List.mem_cons_self result hresult
      have hcalls : settledCalls ((call, settlement) :: accounts) = call :: settledCalls accounts := by
        simp [settledCalls, hresult]
      rw [hcalls, appendResults, hlookup]
      refine each_bind (each_emitToolResult hL _ _ _ _) fun _ _ => ?_
      have hfilled : Each L (Prog.ofExcept (replaceToolCall (toolCallWithResult call result)
          (front ++ List.map Prod.fst ((call, settlement) :: accounts)))) fun toolCalls =>
            toolCalls = front ++ [toolCallWithResult call result] ++ accounts.map Prod.fst := by
        apply each_ofExcept
        intro toolCalls h
        obtain rfl := Except.ok.inj (hreplace.symm.trans h)
        simp
      refine each_bind hfilled ?_
      rintro _ rfl
      simpa [Account.entry, hresult] using hih

end

/-! ### Executing a plan -/

/-- The plan that the rows make. -/
structure ToolPlan.Of (plan : ToolPlan) (rows : List Row) : Prop where
  orderedCalls : plan.orderedCalls = (verdictsOf rows).map Prod.fst
  executableCalls : plan.executableCalls = executablesOf (verdictsOf rows)
  refused : (rows.map fun row => row.1.id).Nodup → ∀ call error,
    (call, some (Verdict.refuse error)) ∈ rows →
      plan.immediateResults call.id = some { error := some error }

theorem verdictsOf_sublist (rows : List Row) :
    ((verdictsOf rows).map fun v => v.1.id).Sublist (rows.map fun row => row.1.id) := by
  induction rows with
  | nil => exact .slnil
  | cons row rows ih =>
    obtain ⟨call, _ | verdict⟩ := row
    · exact ih.cons _
    · exact ih.cons_cons _

theorem Planned.of_rows {allowed : String → Option Tool} {maxToolCalls : ℕ} {calls toolCalls : List ToolCall}
    {r : ToolPlan × List ToolCall} {decided : List (ToolCall × Verdict)}
    {held : Option PendingAction} {skipped rest : List ToolCall}
    (h : Planned allowed maxToolCalls calls toolCalls {} r decided held skipped rest) :
    r.1.Of (planRows decided held skipped) where
  orderedCalls := by
    rw [h.orderedCalls, foldl_add_orderedCalls, verdictsOf_planRows]
    rfl
  executableCalls := by
    rw [h.executableCalls, foldl_add_executableCalls, verdictsOf_planRows]
    rfl
  refused := by
    intro hnodup call error hmem
    rw [h.immediateResults, ← verdictsOf_planRows decided held skipped]
    have hverdicts := hnodup.sublist (verdictsOf_sublist (planRows decided held skipped))
    refine (foldl_add_immediateResults {} hverdicts).2 call error ?_
    exact List.mem_filterMap.mpr ⟨_, hmem, rfl⟩

/-- The executions are those of the rows' accounts, whose entries are the recorded calls. -/
def Filled (rows : List Row) (front : List ToolCall) (l : List (ToolCall × Except Exn ToolResult))
    (entries : List ToolCall) : Prop :=
  ∃ results : List ToolResult, results.length = (executablesOf (verdictsOf rows)).length ∧
    l.Perm ((settle rows results).filterMap Account.execution) ∧
      entries = front ++ (settle rows results).map Account.entry

/-- Distinct ids that no call recorded before has. -/
def FreshIds (front calls : List ToolCall) : Prop :=
  (calls.map ToolCall.id).Nodup ∧ ∀ c ∈ front, c.id ∉ calls.map ToolCall.id

theorem executes_executeToolCalls (config : RunConfig) {plan : ToolPlan} {rows : List Row}
    (h : plan.Of rows) (messages : List Message) (front : List ToolCall) :
    Executes (executeToolCalls config plan messages (front ++ rows.map Prod.fst)) fun r l =>
      l.length ≤ (executablesOf (verdictsOf rows)).length ∧ ∀ out, r = .ok out →
        l.length = (executablesOf (verdictsOf rows)).length ∧
          out.2.length = front.length + rows.length ∧
            (FreshIds front (rows.map Prod.fst) → Filled rows front l out.2) := by
  have hfree := toolFreeLaw_permits
  unfold executeToolCalls
  refine executes_free_bind (each_forM fun _ _ => each_emit hfree _ _ _ _) (fun _ => ?_) fun _ _ => ?_
  · exact ⟨Nat.zero_le _, fun _ h => nomatch h⟩
  rw [h.executableCalls]
  refine executes_bind (executes_gather _) ?_ ?_
  · rintro e l ⟨hlen, -⟩
    exact ⟨hlen.le, fun _ h => nomatch h⟩
  rintro results l ⟨hlen, hall⟩
  obtain ⟨hresults, hperm⟩ := hall results rfl
  by_cases hfresh : FreshIds front (rows.map Prod.fst)
  · have hids : (settle rows results).map (fun account => account.1.id) =
        rows.map fun row => row.1.id := by
      simpa [List.map_map, Function.comp_def] using
        congrArg (List.map ToolCall.id) (settle_calls rows results)
    have hnodup : (rows.map fun row => row.1.id).Nodup := by
      simpa [List.map_map, Function.comp_def] using hfresh.1
    obtain ⟨hexec, hcalls⟩ := settle_spec rows results hresults
    rw [h.orderedCalls, ← hcalls, ← settle_calls rows results]
    have hfront : ∀ c ∈ front, c.id ∉ (settle rows results).map fun account => account.1.id := by
      intro c hc
      rw [hids]
      simpa [List.map_map, Function.comp_def] using hfresh.2 c hc
    have hfills := fills_appendResults hfree config messages (hids ▸ hnodup) hfront
      (settle_results hnodup hresults (h.refused hnodup))
    refine (executes_free hfills).mono ?_
    rintro r l' ⟨rfl, hr⟩
    rw [List.append_nil]
    refine ⟨hlen.le, fun out hout => ⟨hlen, ?_, fun _ => ⟨results, hresults, ?_, hr out hout⟩⟩⟩
    · have := congrArg List.length hids
      simp only [List.length_map] at this
      rw [hr out hout, List.length_append, List.length_map, this]
    · rw [hexec]
      exact hperm
  · have hkeeps := keepsLength_appendResults hfree config
      (collectResults (executablesOf (verdictsOf rows)) results plan.immediateResults)
      plan.orderedCalls messages (front ++ rows.map Prod.fst)
    refine (executes_free hkeeps).mono ?_
    rintro r l' ⟨rfl, hr⟩
    rw [List.append_nil]
    refine ⟨hlen.le, fun out hout => ⟨hlen, ?_, fun h => absurd h hfresh⟩⟩
    simpa using hr out hout

end Blackgeorge.WorkerRunner
