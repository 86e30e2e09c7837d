import Blackgeorge.Workflow.Approvals
import Blackgeorge.Workflow.Flow
import Blackgeorge.Workflow.Paths

/-! What a stored run waits for. A paused flow keeps the credits of the action that its step
waits for and of those that its continuations hold, through JSON and back. -/

namespace Blackgeorge.Workflow

open Data Program Coroutine Coro WorkerRunner WorkforceRun Desk

/-! ### Stored continuations -/

mutual

/-- The credits of the states in a stored continuation. -/
def storedCredits (a : String) : StoredContinuation → ℕ
  | .sequence .. => 0
  | .loop .. => 0
  | .outputs outputs => storedOutputsCredits a outputs

def storedOutputsCredits (a : String) :
    List (Pos × Report × Option StepState × List StoredContinuation) → ℕ
  | [] => 0
  | (_, _, state, continuations) :: outputs =>
    state.elim 0 (stepCredits a) + allStoredCredits a continuations + storedOutputsCredits a outputs

def allStoredCredits (a : String) : List StoredContinuation → ℕ
  | [] => 0
  | s :: ss => storedCredits a s + allStoredCredits a ss

end

mutual

/-- Every state in a stored continuation comes with its paused report. -/
def StoredOk : StoredContinuation → Prop
  | .sequence .. => True
  | .loop .. => True
  | .outputs outputs => StoredOutputsOk outputs

def StoredOutputsOk : List (Pos × Report × Option StepState × List StoredContinuation) → Prop
  | [] => True
  | (_, report, state, continuations) :: outputs =>
    ((∀ s, state = some s → Carries report (stepAction s)) ∧ AllStoredOk continuations) ∧
      StoredOutputsOk outputs

def AllStoredOk : List StoredContinuation → Prop
  | [] => True
  | s :: ss => StoredOk s ∧ AllStoredOk ss

end

variable {a : String}

/-! ### Through JSON -/

theorem stepAction_persisted {s s' : StepState} (h : s.persisted = some s') :
    stepAction s' = stepAction s := by
  rcases s with s | s
  · simp only [StepState.persisted, Option.bind_eq_bind, Option.bind_eq_some_iff] at h
    obtain ⟨t, ht, h⟩ := h
    obtain rfl := Option.some.inj h
    exact workerAction_persisted ht
  · simp only [StepState.persisted, Option.bind_eq_bind, Option.bind_eq_some_iff] at h
    obtain ⟨t, ht, h⟩ := h
    obtain rfl := Option.some.inj h
    simp only [WorkforceState.persisted, Option.bind_eq_bind, Option.bind_eq_some_iff] at ht
    obtain ⟨_, _, _, _, worker, hworker, _, _, ht⟩ := ht
    obtain rfl := Option.some.inj ht
    cases hs : s.workerState with
    | none =>
      obtain rfl : none = worker := by simpa [hs] using hworker
      simp [stepAction, hs]
    | some ws =>
      obtain ⟨ws', hws, rfl⟩ : ∃ ws', ws.persisted = some ws' ∧ some ws' = worker := by
        simpa [hs] using hworker
      simp [stepAction, hs, workerAction_persisted hws]

theorem report_persisted {report report' : Report} (h : report.persisted = some report') :
    report'.status = report.status ∧ reportAction report' = reportAction report := by
  simp only [Report.persisted, Option.bind_eq_bind, Option.bind_eq_some_iff] at h
  obtain ⟨pending, hpending, _, _, _, _, _, _, h⟩ := h
  obtain rfl := Option.some.inj h
  refine ⟨rfl, ?_⟩
  cases hp : report.pendingAction with
  | none =>
    obtain rfl : none = pending := by simpa [hp] using hpending
    simp [reportAction, hp]
  | some p =>
    obtain ⟨p', hp', rfl⟩ : ∃ p', p.persisted = some p' ∧ some p' = pending := by
      simpa [hp] using hpending
    simp [reportAction, hp, pendingAction_persisted hp']

theorem carries_persisted {report report' : Report} {action : Option Awaited}
    (h : report.persisted = some report') (hcarries : Carries report action) :
    Carries report' action := by
  obtain ⟨hstatus, x, hx, hreport⟩ := hcarries
  obtain ⟨hstatus', haction'⟩ := report_persisted h
  exact ⟨hstatus'.trans hstatus, x, hx, haction'.trans hreport⟩

/-- A dumped state has the credits and the report's action of the live one. -/
theorem state_persisted {report report' : Report} {state state' : Option StepState}
    (hreport : report.persisted = some report') (hstate : state.mapM StepState.persisted = some state') :
    state'.elim 0 (stepCredits a) = state.elim 0 (stepCredits a) ∧
      ((∀ s, state = some s → Carries report (stepAction s)) →
        ∀ s, state' = some s → Carries report' (stepAction s)) := by
  cases state with
  | none =>
    obtain rfl : none = state' := by simpa using hstate
    exact ⟨rfl, fun _ s h => nomatch h⟩
  | some s =>
    obtain ⟨s', hs', rfl⟩ : ∃ s', s.persisted = some s' ∧ some s' = state' := by simpa using hstate
    have haction := stepAction_persisted hs'
    refine ⟨by simp [stepCredits, haction], fun hcarries s'' hs'' => ?_⟩
    obtain rfl := Option.some.inj hs''
    exact haction ▸ carries_persisted hreport (hcarries s rfl)

/-! ### Storing and restoring -/

mutual

theorem serialize_waits (steps : List Node) : ∀ (k : Continuation) {s : StoredContinuation},
    serialize steps k = .ok s →
    storedCredits a s = continuationCredits a k ∧ (ContinuationOk k → StoredOk s)
  | .sequence nodes pos first, s, h => by
    obtain ⟨paths, _, hs⟩ := ok_of_bind h
    obtain rfl := Except.ok.inj hs
    exact ⟨rfl, fun _ => trivial⟩
  | .loop loop startIndex previousName pos round, s, h => by
    obtain ⟨path, _, hs⟩ := ok_of_bind h
    obtain rfl := Except.ok.inj hs
    exact ⟨rfl, fun _ => trivial⟩
  | .outputs outputs, s, h => by
    obtain ⟨stored, houtputs, hs⟩ := ok_of_bind h
    obtain rfl := Except.ok.inj hs
    exact serializeOutputs_waits steps outputs houtputs

theorem serializeOutputs_waits (steps : List Node) : ∀ (outputs : List StepOutput)
    {stored : List (Pos × Report × Option StepState × List StoredContinuation)},
    serializeOutputs steps outputs = .ok stored →
    storedOutputsCredits a stored = outputsCredits a outputs ∧
      (OutputsOk outputs → StoredOutputsOk stored)
  | [], stored, h => by
    obtain rfl : [] = stored := Except.ok.inj h
    exact ⟨rfl, fun _ => trivial⟩
  | .bare held :: outputs, stored, h => by
    obtain ⟨report, _, h⟩ := ok_of_bind h
    obtain ⟨rest, hrest, h⟩ := ok_of_bind h
    obtain rfl := Except.ok.inj h
    obtain ⟨hcredits, hok⟩ := serializeOutputs_waits steps outputs hrest
    refine ⟨?_, fun h => ⟨⟨by simp, trivial⟩, hok h.2⟩⟩
    rw [storedOutputsCredits, outputsCredits, resultCredits, hcredits]
    rfl
  | .result held state continuations :: outputs, stored, h => by
    obtain ⟨report, hreport, h⟩ := ok_of_bind h
    obtain ⟨state', hstate', h⟩ := ok_of_bind h
    obtain ⟨all, hall, h⟩ := ok_of_bind h
    obtain ⟨rest, hrest, h⟩ := ok_of_bind h
    obtain rfl := Except.ok.inj h
    obtain ⟨hcredits, hok⟩ :=
      state_persisted (a := a) (orSerializationError_ok hreport) (orSerializationError_ok hstate')
    obtain ⟨hcredits', hok'⟩ := serializeAll_waits steps continuations hall
    obtain ⟨hcredits'', hok''⟩ := serializeOutputs_waits steps outputs hrest
    refine ⟨?_, fun h => ⟨⟨hok h.1.1, hok' h.1.2⟩, hok'' h.2⟩⟩
    rw [storedOutputsCredits, outputsCredits, resultCredits, hcredits, hcredits', hcredits'']

theorem serializeAll_waits (steps : List Node) : ∀ (ks : List Continuation)
    {stored : List StoredContinuation}, serializeAll steps ks = .ok stored →
    allStoredCredits a stored = continuationsCredits a ks ∧ (ContinuationsOk ks → AllStoredOk stored)
  | [], stored, h => by
    obtain rfl : [] = stored := Except.ok.inj h
    exact ⟨rfl, fun _ => trivial⟩
  | k :: ks, stored, h => by
    obtain ⟨s, hs, h⟩ := ok_of_bind h
    obtain ⟨rest, hrest, h⟩ := ok_of_bind h
    obtain rfl := Except.ok.inj h
    obtain ⟨hcredits, hok⟩ := serialize_waits steps k hs
    obtain ⟨hcredits', hok'⟩ := serializeAll_waits steps ks hrest
    refine ⟨?_, fun h => ⟨hok h.1, hok' h.2⟩⟩
    rw [allStoredCredits, continuationsCredits, hcredits, hcredits']

end

mutual

theorem stored_persisted : ∀ (s : StoredContinuation) {s' : StoredContinuation},
    s.persisted = some s' → storedCredits a s' = storedCredits a s ∧ (StoredOk s → StoredOk s')
  | .sequence paths pos first, s', h => by
    obtain rfl := Option.some.inj h
    exact ⟨rfl, id⟩
  | .loop path startIndex loopName pos round, s', h => by
    obtain rfl := Option.some.inj h
    exact ⟨rfl, id⟩
  | .outputs outputs, s', h => by
    simp only [StoredContinuation.persisted, Option.bind_eq_bind, Option.bind_eq_some_iff] at h
    obtain ⟨outputs', houtputs, h⟩ := h
    obtain rfl := Option.some.inj h
    exact storedOutputs_persisted outputs houtputs

theorem storedOutputs_persisted :
    ∀ (outputs : List (Pos × Report × Option StepState × List StoredContinuation))
    {outputs' : List (Pos × Report × Option StepState × List StoredContinuation)},
    persistedOutputs outputs = some outputs' →
    storedOutputsCredits a outputs' = storedOutputsCredits a outputs ∧
      (StoredOutputsOk outputs → StoredOutputsOk outputs')
  | [], outputs', h => by
    obtain rfl := Option.some.inj h
    exact ⟨rfl, id⟩
  | (pos, report, state, continuations) :: outputs, outputs', h => by
    simp only [persistedOutputs, Option.bind_eq_bind, Option.bind_eq_some_iff] at h
    obtain ⟨report', hreport, state', hstate', continuations', hcontinuations, rest, hrest, h⟩ := h
    obtain rfl := Option.some.inj h
    obtain ⟨hcredits, hok⟩ := state_persisted (a := a) hreport hstate'
    obtain ⟨hcredits', hok'⟩ := allStored_persisted continuations hcontinuations
    obtain ⟨hcredits'', hok''⟩ := storedOutputs_persisted outputs hrest
    refine ⟨?_, fun h => ⟨⟨hok h.1.1, hok' h.1.2⟩, hok'' h.2⟩⟩
    rw [storedOutputsCredits, storedOutputsCredits, hcredits, hcredits', hcredits'']

theorem allStored_persisted : ∀ (stored : List StoredContinuation) {stored' : List StoredContinuation},
    persistedContinuations stored = some stored' →
    allStoredCredits a stored' = allStoredCredits a stored ∧ (AllStoredOk stored → AllStoredOk stored')
  | [], stored', h => by
    obtain rfl := Option.some.inj h
    exact ⟨rfl, id⟩
  | s :: stored, stored', h => by
    simp only [persistedContinuations, Option.bind_eq_bind, Option.bind_eq_some_iff] at h
    obtain ⟨s', hs, rest, hrest, h⟩ := h
    obtain rfl := Option.some.inj h
    obtain ⟨hcredits, hok⟩ := stored_persisted s hs
    obtain ⟨hcredits', hok'⟩ := allStored_persisted stored hrest
    refine ⟨?_, fun h => ⟨hok h.1, hok' h.2⟩⟩
    rw [allStoredCredits, allStoredCredits, hcredits, hcredits']

end

mutual

theorem restore_waits (steps : List Node) : ∀ (s : StoredContinuation) {ref : Ref}
    {r : Continuation × Ref}, restore steps s ref = .ok r →
    continuationCredits a r.1 = storedCredits a s ∧ (StoredOk s → ContinuationOk r.1)
  | .sequence paths pos first, ref, r, h => by
    obtain ⟨nodes, _, hr⟩ := ok_of_bind h
    obtain rfl := Except.ok.inj hr
    exact ⟨rfl, fun _ => trivial⟩
  | .loop path startIndex loopName pos round, ref, r, h => by
    obtain ⟨node, _, hr⟩ := ok_of_bind h
    obtain ⟨k, hk, hr⟩ := ok_of_bind hr
    obtain rfl := Except.ok.inj hr
    obtain ⟨loop, _, rfl⟩ := restoredLoop_ok hk
    exact ⟨rfl, fun _ => trivial⟩
  | .outputs outputs, ref, r, h => by
    obtain ⟨restored, houtputs, hr⟩ := ok_of_bind h
    obtain rfl := Except.ok.inj hr
    exact restoreOutputs_waits steps outputs houtputs

theorem restoreOutputs_waits (steps : List Node) :
    ∀ (stored : List (Pos × Report × Option StepState × List StoredContinuation)) {ref : Ref}
    {r : List StepOutput × Ref}, restoreOutputs steps stored ref = .ok r →
    outputsCredits a r.1 = storedOutputsCredits a stored ∧ (StoredOutputsOk stored → OutputsOk r.1)
  | [], ref, r, h => by
    obtain rfl := Except.ok.inj h
    exact ⟨rfl, fun _ => trivial⟩
  | (pos, report, state, continuations) :: stored, ref, r, h => by
    obtain ⟨all, hall, h⟩ := ok_of_bind h
    obtain ⟨rest, hrest, h⟩ := ok_of_bind h
    obtain rfl := Except.ok.inj h
    obtain ⟨hcredits, hok⟩ := restoreAll_waits steps continuations hall
    obtain ⟨hcredits', hok'⟩ := restoreOutputs_waits steps stored hrest
    refine ⟨?_, fun h => ⟨⟨h.1.1, hok h.1.2⟩, hok' h.2⟩⟩
    rw [outputsCredits, resultCredits, storedOutputsCredits, hcredits, hcredits']

theorem restoreAll_waits (steps : List Node) : ∀ (stored : List StoredContinuation) {ref : Ref}
    {r : List Continuation × Ref}, restoreAll steps stored ref = .ok r →
    continuationsCredits a r.1 = allStoredCredits a stored ∧ (AllStoredOk stored → ContinuationsOk r.1)
  | [], ref, r, h => by
    obtain rfl := Except.ok.inj h
    exact ⟨rfl, fun _ => trivial⟩
  | s :: stored, ref, r, h => by
    obtain ⟨first, hfirst, h⟩ := ok_of_bind h
    obtain ⟨rest, hrest, h⟩ := ok_of_bind h
    obtain rfl := Except.ok.inj h
    obtain ⟨hcredits, hok⟩ := restore_waits steps s hfirst
    obtain ⟨hcredits', hok'⟩ := restoreAll_waits steps stored hrest
    refine ⟨?_, fun h => ⟨hok h.1, hok' h.2⟩⟩
    rw [continuationsCredits, allStoredCredits, hcredits, hcredits']

end

/-! ### Stored states -/

/-- The action that a stored run waits for. -/
def runAction : RunState → Option Awaited
  | .worker state => workerAction state
  | .workforce state => stepAction (.workforce state)
  | .flow state => state.stepState.bind stepAction

/-- The credits of a stored run. -/
def runCredits (a : String) : RunState → ℕ
  | .worker state => stepCredits a (.worker state)
  | .workforce state => stepCredits a (.workforce state)
  | .flow state =>
    state.stepState.elim 0 (stepCredits a) + allStoredCredits a (state.continuations.getD [])

def recordCredits (a : String) (record : Option RunRecord) : ℕ :=
  (record.bind RunRecord.state).elim 0 (runCredits a)

/-- The report of a step that the flow goes on after. -/
def Fine (report : Report) : Prop := report.status ≠ .paused ∧ report.status ≠ .failed

/-- A flow's state is filed under its own run, with the reports of the steps it went on after
and states that come with their paused reports. -/
def RunOk (runId : RunId) : RunState → Prop
  | .flow state => state.runId = runId ∧ AllStoredOk (state.continuations.getD []) ∧
      ∀ o ∈ state.outputs, Fine o.2
  | _ => True

/-- A run's state waits for the action of its paused report. -/
def Waits (runId : RunId) (report : Report) (state : RunState) : Prop :=
  Carries report (runAction state) ∧ RunOk runId state

theorem fine_persisted {report report' : Report} (h : report.persisted = some report') (hfine : Fine report) :
    Fine report' := by
  unfold Fine at hfine ⊢
  rwa [(report_persisted h).1]

theorem stepState_persisted {state state' : Option StepState}
    (h : state.mapM StepState.persisted = some state') :
    state'.bind stepAction = state.bind stepAction ∧
      state'.elim 0 (stepCredits a) = state.elim 0 (stepCredits a) := by
  cases state with
  | none =>
    obtain rfl : none = state' := by simpa using h
    exact ⟨rfl, rfl⟩
  | some s =>
    obtain ⟨s', hs', rfl⟩ : ∃ s', s.persisted = some s' ∧ some s' = state' := by simpa using h
    have haction := stepAction_persisted hs'
    exact ⟨haction, by simp [stepCredits, haction]⟩

/-- A state waits for the same after its way through JSON. -/
theorem run_persisted {s s' : RunState} (h : s.persisted = some s') :
    runAction s' = runAction s ∧ runCredits a s' = runCredits a s ∧
      ∀ runId, RunOk runId s → RunOk runId s' := by
  cases s with
  | worker s =>
    simp only [RunState.persisted, Option.bind_eq_bind, Option.bind_eq_some_iff] at h
    obtain ⟨t, ht, h⟩ := h
    obtain rfl := Option.some.inj h
    have haction : stepAction (.worker t) = stepAction (.worker s) := workerAction_persisted ht
    exact ⟨haction, by simp [runCredits, stepCredits, haction], fun _ _ => trivial⟩
  | workforce s =>
    simp only [RunState.persisted, Option.bind_eq_bind, Option.bind_eq_some_iff] at h
    obtain ⟨t, ht, h⟩ := h
    obtain rfl := Option.some.inj h
    have hstep : (StepState.workforce s).persisted = some (.workforce t) := by
      simp [StepState.persisted, ht]
    have haction := stepAction_persisted hstep
    exact ⟨haction, by simp [runCredits, stepCredits, haction], fun _ _ => trivial⟩
  | flow s =>
    simp only [RunState.persisted, Option.bind_eq_bind, Option.bind_eq_some_iff] at h
    obtain ⟨t, ht, h⟩ := h
    obtain rfl := Option.some.inj h
    simp only [FlowState.persisted, Option.bind_eq_bind, Option.bind_eq_some_iff] at ht
    obtain ⟨core, hcore, outputs, houtputs, stepState, hstepState, context, _, continuations,
      hcontinuations, ht⟩ := ht
    obtain rfl := Option.some.inj ht
    obtain ⟨haction, hcredits⟩ := stepState_persisted (a := a) hstepState
    have hstored : allStoredCredits a (continuations.getD []) = allStoredCredits a (s.continuations.getD []) ∧
        (AllStoredOk (s.continuations.getD []) → AllStoredOk (continuations.getD [])) := by
      cases hc : s.continuations with
      | none =>
        obtain rfl : none = continuations := by simpa [hc] using hcontinuations
        exact ⟨rfl, id⟩
      | some stored =>
        obtain ⟨stored', hstored', rfl⟩ : ∃ stored', persistedContinuations stored = some stored' ∧
            some stored' = continuations := by
          simpa [hc] using hcontinuations
        exact allStored_persisted stored hstored'
    refine ⟨haction, ?_, ?_⟩
    · simp [runCredits, hcredits, hstored.1]
    · rintro runId ⟨hrunId, hok, hfine⟩
      have hsame : core.runId = s.runId := by
        simp only [StateCore.persisted, Option.bind_eq_bind, Option.bind_eq_some_iff] at hcore
        obtain ⟨_, _, _, _, _, _, _, _, hcore⟩ := hcore
        obtain rfl := Option.some.inj hcore
        rfl
      refine ⟨hsame.trans hrunId, hstored.2 hok, fun o' ho' => ?_⟩
      obtain ⟨o, ho, h⟩ := exists_of_mem_right (forall₂_of_mapM houtputs) ho'
      simp only [Option.bind_eq_some_iff] at h
      obtain ⟨report, hreport, h⟩ := h
      obtain rfl := Option.some.inj h
      exact fine_persisted hreport (hfine o ho)

/-- What a record keeps of the state it is written with. -/
theorem storedRecord_waits {desk : DeskSettings} {status : RunStatus} {output : Option String}
    {outputJson : Value} {state : Option RunState} {record : RunRecord}
    (h : storedRecord desk status output outputJson state = .ok record) :
    (∀ s', record.state = some s' → ∃ s, state = some s ∧ runAction s' = runAction s ∧
        runCredits a s' = runCredits a s ∧ ∀ runId, RunOk runId s → RunOk runId s') ∧
      recordCredits a (some record) = state.elim 0 (runCredits a) := by
  rcases storedRecord_ok h with hsame | hpersisted
  · refine ⟨fun s' hs' => ⟨s', hsame ▸ hs', rfl, rfl, fun _ h => h⟩, ?_⟩
    simp [recordCredits, hsame]
  · cases state with
    | none =>
      obtain hnone : none = record.state := by simpa using hpersisted
      exact ⟨fun s' hs' => by simp [← hnone] at hs', by simp [recordCredits, ← hnone]⟩
    | some s =>
      obtain ⟨s', hs', hrecord⟩ : ∃ s', s.persisted = some s' ∧ some s' = record.state := by
        simpa using hpersisted
      obtain ⟨haction, hcredits, hok⟩ := run_persisted (a := a) hs'
      refine ⟨fun s'' hs'' => ?_, by simp [recordCredits, ← hrecord, hcredits]⟩
      obtain rfl := Option.some.inj (hrecord.trans hs'')
      exact ⟨s, rfl, haction, hcredits, hok⟩

end Blackgeorge.Workflow
