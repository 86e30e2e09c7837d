import Blackgeorge.Data.Plain
import Blackgeorge.WorkforceRun.Calls
import Blackgeorge.WorkforceRun.Outcome
import Blackgeorge.Workflow.Rounds

/-! What a resume finds of the reports and artifacts from before the pause: their JSON
form, which is what they were for plain values only. -/

namespace Blackgeorge.Workflow

open Data Program WorkforceRun

/-! ### Reports that wait in continuations -/

mutual

/-- The reports of the siblings behind a paused branch. -/
def waitingReports : Continuation → List Report
  | .sequence .. => []
  | .loop .. => []
  | .outputs outputs => outputsReports outputs

def outputsReports : List StepOutput → List Report
  | [] => []
  | .bare held :: outputs => held.report :: outputsReports outputs
  | .result held _ continuations :: outputs =>
    held.report :: (allWaitingReports continuations ++ outputsReports outputs)

def allWaitingReports : List Continuation → List Report
  | [] => []
  | k :: ks => waitingReports k ++ allWaitingReports ks

end

mutual

def storedReports : StoredContinuation → List Report
  | .sequence .. => []
  | .loop .. => []
  | .outputs outputs => storedOutputsReports outputs

def storedOutputsReports : List (Pos × Report × Option StepState × List StoredContinuation) → List Report
  | [] => []
  | (_, report, _, continuations) :: outputs =>
    report :: (allStoredReports continuations ++ storedOutputsReports outputs)

def allStoredReports : List StoredContinuation → List Report
  | [] => []
  | s :: ss => storedReports s ++ allStoredReports ss

end

mutual

theorem serialize_reports (steps : List Node) : ∀ (k : Continuation) {s : StoredContinuation},
    serialize steps k = .ok s → List.Forall₂ JsonForm (waitingReports k) (storedReports s)
  | .sequence nodes pos first, s, h => by
    obtain ⟨paths, _, hs⟩ := ok_of_bind h
    obtain rfl := Except.ok.inj hs
    exact .nil
  | .loop loop startIndex previousName pos round, s, h => by
    obtain ⟨path, _, hs⟩ := ok_of_bind h
    obtain rfl := Except.ok.inj hs
    exact .nil
  | .outputs outputs, s, h => by
    obtain ⟨stored, houtputs, hs⟩ := ok_of_bind h
    obtain rfl := Except.ok.inj hs
    exact serializeOutputs_reports steps outputs houtputs

theorem serializeOutputs_reports (steps : List Node) : ∀ (outputs : List StepOutput)
    {stored : List (Pos × Report × Option StepState × List StoredContinuation)},
    serializeOutputs steps outputs = .ok stored →
    List.Forall₂ JsonForm (outputsReports outputs) (storedOutputsReports stored)
  | [], stored, h => by
    obtain rfl : [] = stored := Except.ok.inj h
    exact .nil
  | .bare held :: outputs, stored, h => by
    obtain ⟨report, hreport, h⟩ := ok_of_bind h
    obtain ⟨rest, hrest, h⟩ := ok_of_bind h
    obtain rfl := Except.ok.inj h
    exact .cons (orSerializationError_ok hreport) (serializeOutputs_reports steps outputs hrest)
  | .result held state continuations :: outputs, stored, h => by
    obtain ⟨report, hreport, h⟩ := ok_of_bind h
    obtain ⟨state', _, h⟩ := ok_of_bind h
    obtain ⟨all, hall, h⟩ := ok_of_bind h
    obtain ⟨rest, hrest, h⟩ := ok_of_bind h
    obtain rfl := Except.ok.inj h
    exact .cons (orSerializationError_ok hreport) (List.rel_append (serializeAll_reports steps continuations hall)
      (serializeOutputs_reports steps outputs hrest))

theorem serializeAll_reports (steps : List Node) : ∀ (ks : List Continuation)
    {stored : List StoredContinuation}, serializeAll steps ks = .ok stored →
    List.Forall₂ JsonForm (allWaitingReports ks) (allStoredReports stored)
  | [], stored, h => by
    obtain rfl : [] = stored := Except.ok.inj h
    exact .nil
  | k :: ks, stored, h => by
    obtain ⟨s, hs, h⟩ := ok_of_bind h
    obtain ⟨rest, hrest, h⟩ := ok_of_bind h
    obtain rfl := Except.ok.inj h
    exact List.rel_append (serialize_reports steps k hs) (serializeAll_reports steps ks hrest)

end

mutual

theorem storedReports_persisted : ∀ (s : StoredContinuation) {s' : StoredContinuation},
    s.persisted = some s' → List.Forall₂ JsonForm (storedReports s) (storedReports s')
  | .sequence paths pos first, s', h => by
    obtain rfl := Option.some.inj h
    exact .nil
  | .loop path startIndex loopName pos round, s', h => by
    obtain rfl := Option.some.inj h
    exact .nil
  | .outputs outputs, s', h => by
    simp only [StoredContinuation.persisted, Option.bind_eq_bind, Option.bind_eq_some_iff] at h
    obtain ⟨outputs', houtputs, h⟩ := h
    obtain rfl := Option.some.inj h
    exact storedOutputsReports_persisted outputs houtputs

theorem storedOutputsReports_persisted :
    ∀ (outputs : List (Pos × Report × Option StepState × List StoredContinuation))
    {outputs' : List (Pos × Report × Option StepState × List StoredContinuation)},
    persistedOutputs outputs = some outputs' →
    List.Forall₂ JsonForm (storedOutputsReports outputs) (storedOutputsReports outputs')
  | [], outputs', h => by
    obtain rfl := Option.some.inj h
    exact .nil
  | (pos, report, state, continuations) :: outputs, outputs', h => by
    simp only [persistedOutputs, Option.bind_eq_bind, Option.bind_eq_some_iff] at h
    obtain ⟨report', hreport, state', _, continuations', hcontinuations, rest, hrest, h⟩ := h
    obtain rfl := Option.some.inj h
    exact .cons hreport (List.rel_append (allStoredReports_persisted continuations hcontinuations)
      (storedOutputsReports_persisted outputs hrest))

theorem allStoredReports_persisted : ∀ (stored : List StoredContinuation)
    {stored' : List StoredContinuation}, persistedContinuations stored = some stored' →
    List.Forall₂ JsonForm (allStoredReports stored) (allStoredReports stored')
  | [], stored', h => by
    obtain rfl := Option.some.inj h
    exact .nil
  | s :: stored, stored', h => by
    simp only [persistedContinuations, Option.bind_eq_bind, Option.bind_eq_some_iff] at h
    obtain ⟨s', hs, rest, hrest, h⟩ := h
    obtain rfl := Option.some.inj h
    exact List.rel_append (storedReports_persisted s hs) (allStoredReports_persisted stored hrest)

end

mutual

theorem restore_reports (steps : List Node) : ∀ (s : StoredContinuation) {ref : Ref}
    {r : Continuation × Ref}, restore steps s ref = .ok r → waitingReports r.1 = storedReports s
  | .sequence paths pos first, ref, r, h => by
    obtain ⟨nodes, _, hr⟩ := ok_of_bind h
    obtain rfl := Except.ok.inj hr
    rfl
  | .loop path startIndex loopName pos round, ref, r, h => by
    obtain ⟨node, _, hr⟩ := ok_of_bind h
    obtain ⟨k, hk, hr⟩ := ok_of_bind hr
    obtain rfl := Except.ok.inj hr
    obtain ⟨loop, _, rfl⟩ := restoredLoop_ok hk
    rfl
  | .outputs outputs, ref, r, h => by
    obtain ⟨restored, houtputs, hr⟩ := ok_of_bind h
    obtain rfl := Except.ok.inj hr
    exact restoreOutputs_reports steps outputs houtputs

theorem restoreOutputs_reports (steps : List Node) :
    ∀ (stored : List (Pos × Report × Option StepState × List StoredContinuation)) {ref : Ref}
    {r : List StepOutput × Ref}, restoreOutputs steps stored ref = .ok r →
    outputsReports r.1 = storedOutputsReports stored
  | [], ref, r, h => by
    obtain rfl := Except.ok.inj h
    rfl
  | (pos, report, state, continuations) :: stored, ref, r, h => by
    obtain ⟨all, hall, h⟩ := ok_of_bind h
    obtain ⟨rest, hrest, h⟩ := ok_of_bind h
    obtain rfl := Except.ok.inj h
    rw [outputsReports, storedOutputsReports, restoreAll_reports steps continuations hall,
      restoreOutputs_reports steps stored hrest]

theorem restoreAll_reports (steps : List Node) : ∀ (stored : List StoredContinuation) {ref : Ref}
    {r : List Continuation × Ref}, restoreAll steps stored ref = .ok r →
    allWaitingReports r.1 = allStoredReports stored
  | [], ref, r, h => by
    obtain rfl := Except.ok.inj h
    rfl
  | s :: stored, ref, r, h => by
    obtain ⟨first, hfirst, h⟩ := ok_of_bind h
    obtain ⟨rest, hrest, h⟩ := ok_of_bind h
    obtain rfl := Except.ok.inj h
    rw [allWaitingReports, allStoredReports, restore_reports steps s hfirst,
      restoreAll_reports steps stored hrest]

end

/-! ### What a resume finds -/

/-- A report as it was, but for values that are no JSON values. -/
structure Kept (report report' : Report) : Prop where
  jsonForm : JsonForm report report'
  eq_iff : report' = report ↔ report.Plain

theorem kept_of_jsonForm {report report' : Report} (h : JsonForm report report') : Kept report report' :=
  ⟨h, h.eq_iff⟩

/-- An artifact under its key, with what `to_json_value` makes of its value. -/
structure KeptArtifact (artifact artifact' : String × Value) : Prop where
  key : artifact'.1 = artifact.1
  jsonForm : artifact'.2 = artifact.2.toJsonValue
  eq_iff : artifact' = artifact ↔ artifact.2.plain = true

theorem keptArtifact_of_plain {key : String} {v : Value} (h : v.toJsonValue.plain = true) :
    KeptArtifact (key, v) (key, v.toJsonValue) := by
  refine ⟨rfl, rfl, ?_⟩
  rw [Prod.mk.injEq, eq_self_iff_true, true_and]
  exact ⟨fun heq => heq ▸ h, Value.toJsonValue_of_plain⟩

theorem keptArtifacts_of_fields : ∀ {fields : Dict}, Value.plainFields (Value.toJsonFields fields) = true →
    List.Forall₂ KeptArtifact fields (Value.toJsonFields fields)
  | [], _ => .nil
  | (key, v) :: fields, h => by
    rw [Value.toJsonFields, Value.plainFields, Bool.and_eq_true] at h
    exact .cons (keptArtifact_of_plain h.1) (keptArtifacts_of_fields h.2)

/-- A snapshot is taken of JSON values only. -/
theorem contextSnapshot_artifacts {c : Context} {snapshot : ContextSnapshot}
    (h : contextSnapshot c = .ok snapshot) :
    snapshot.artifacts.Plain ∧ List.Forall₂ KeptArtifact c.artifacts snapshot.artifacts := by
  unfold contextSnapshot at h
  split_ifs at h with hplain
  obtain rfl := Except.ok.inj h
  exact ⟨(Dict.plain_iff _).mpr hplain, keptArtifacts_of_fields hplain⟩

/-- What a resume finds of the reports, of those that wait in continuations and of the
artifacts. -/
structure KeptFlow (paused : PausedFlow) (context : Context) (restored : Restored) : Prop where
  reports : List.Forall₂ (fun held held' => Kept held.report held'.report) paused.allReports
    restored.allReports
  outputs : restored.context.outputs = restored.allReports
  waiting : List.Forall₂ Kept (allWaitingReports paused.continuations)
    (allWaitingReports restored.continuations)
  artifacts : List.Forall₂ KeptArtifact context.artifacts restored.context.artifacts

/-- What a store keeps of a state that a pause builds. -/
structure KeptState (paused : PausedFlow) (context : Context) (state : FlowState) : Prop where
  reports : List.Forall₂ (fun held output => JsonForm held.report output.2) paused.allReports state.outputs
  waiting : List.Forall₂ JsonForm (allWaitingReports paused.continuations)
    (allStoredReports (state.continuations.getD []))
  artifacts : ∃ snapshot, state.context = some snapshot ∧ snapshot.artifacts.Plain ∧
    List.Forall₂ KeptArtifact context.artifacts snapshot.artifacts

theorem keptState_of_build {flow : Flow} {runId : RunId} {totals : UsageTotals} {c : Context}
    {paused : PausedFlow} {state : FlowState}
    (h : buildFlowState flow runId totals c paused = .ok state) : KeptState paused c state := by
  obtain ⟨outputs, houtputs, h⟩ := ok_of_bind h
  obtain ⟨stepState, _, h⟩ := ok_of_bind h
  obtain ⟨snapshot, hsnapshot, h⟩ := ok_of_bind h
  obtain ⟨stored, hstored, h⟩ := ok_of_bind h
  obtain rfl := Except.ok.inj h
  constructor
  · refine (forall₂_of_mapM (orSerializationError_ok houtputs)).imp fun held output hheld => ?_
    simp only [Option.bind_eq_bind, Option.bind_eq_some_iff] at hheld
    obtain ⟨report, hreport, hheld⟩ := hheld
    obtain rfl := Option.some.inj hheld
    exact hreport
  · exact serializeAll_reports flow.steps paused.continuations hstored
  · exact ⟨snapshot, rfl, contextSnapshot_artifacts hsnapshot⟩

theorem KeptState.persisted {paused : PausedFlow} {c : Context} {state state' : FlowState}
    (h : KeptState paused c state) (hstate : state.persisted = some state') : KeptState paused c state' := by
  simp only [FlowState.persisted, Option.bind_eq_bind, Option.bind_eq_some_iff] at hstate
  obtain ⟨core, _, outputs, houtputs, stepState, _, context, hcontext, continuations, hcontinuations,
    hstate⟩ := hstate
  obtain rfl := Option.some.inj hstate
  constructor
  · refine forall₂_comp (fun held output output' hheld houtput => ?_) h.reports (forall₂_of_mapM houtputs)
    simp only [Option.bind_eq_some_iff] at houtput
    obtain ⟨report, hreport, houtput⟩ := houtput
    obtain rfl := Option.some.inj houtput
    exact hheld.trans hreport
  · have hwaiting := h.waiting
    cases hc : state.continuations with
    | none =>
      obtain rfl : none = continuations := by simpa [hc] using hcontinuations
      rwa [hc] at hwaiting
    | some stored =>
      obtain ⟨stored', hstored, rfl⟩ : ∃ stored', persistedContinuations stored = some stored' ∧
          some stored' = continuations := by
        simpa [hc] using hcontinuations
      rw [hc] at hwaiting
      exact forall₂_comp (r := JsonForm) (s := JsonForm) (fun _ _ _ => JsonForm.trans) hwaiting (allStoredReports_persisted stored hstored)
  · obtain ⟨snapshot, hsnapshot, hplain, hartifacts⟩ := h.artifacts
    have hkeep : snapshot.artifacts.persisted = some snapshot.artifacts := fixes_dict.keep _ hplain
    obtain rfl : some snapshot = context := by
      simpa [hsnapshot, hkeep] using hcontext
    exact ⟨snapshot, rfl, hplain, hartifacts⟩

theorem KeptState.restored {paused : PausedFlow} {c : Context} {state : FlowState}
    (h : KeptState paused c state) {flow : Flow} {ref : Ref} {r : Restored × Ref}
    (hr : restoreFlow flow state ref = .ok r) : KeptFlow paused c r.1 := by
  obtain ⟨continuations, hcontinuations, hr⟩ := ok_of_bind hr
  obtain rfl := Except.ok.inj hr
  obtain ⟨snapshot, hsnapshot, _, hartifacts⟩ := h.artifacts
  constructor
  · have hreports := h.reports
    rw [← List.zipIdx_map_fst 0 state.outputs, List.forall₂_map_right_iff] at hreports
    dsimp only
    rw [restoreReports, List.forall₂_map_right_iff]
    exact hreports.imp fun _ _ => kept_of_jsonForm
  · dsimp only
    rw [hsnapshot]
    rfl
  · dsimp only
    rw [restoreAll_reports flow.steps _ hcontinuations]
    exact h.waiting.imp fun _ _ => kept_of_jsonForm
  · dsimp only
    rw [hsnapshot]
    exact hartifacts

theorem keptReports_of_stage {reports : List Report} {index : ℕ} {stage : Stage}
    (h : (Stage.collaborate reports index).persisted = some stage) :
    ∃ reports', stage = .collaborate reports' index ∧ List.Forall₂ JsonForm reports reports' := by
  simp only [Stage.persisted, Option.bind_eq_bind, Option.bind_eq_some_iff] at h
  obtain ⟨reports', hreports, h⟩ := h
  exact ⟨reports', (Option.some.inj h).symm, forall₂_of_mapM hreports⟩

theorem keptReports_of_build {force : Workforce} {runId : RunId} {job root : Job} {workerState : WorkerState}
    {reports : List Report} {index : ℕ} {totals : UsageTotals} {state : WorkforceState}
    (h : buildWorkforceState force runId job root workerState (.collaborate reports index) totals = .ok state) :
    ∃ reports', state.stage = .collaborate reports' index ∧ List.Forall₂ JsonForm reports reports' := by
  obtain ⟨dumped, _, h⟩ := ok_of_bind h
  obtain ⟨stage, hstage, h⟩ := ok_of_bind h
  obtain ⟨root', _, h⟩ := ok_of_bind h
  obtain rfl := Except.ok.inj h
  exact keptReports_of_stage (orSerializationError_ok hstage)

/-- Whatever a store keeps of the state of a paused flow or collaboration, the reports and
artifacts that a resume finds are the JSON forms of those from before the pause. -/
theorem kept_through_pause :
    (∀ (flow flow' : Flow) (runId : RunId) (totals : UsageTotals) (c : Context) (paused : PausedFlow)
      (state stored : FlowState) (ref : Ref) (r : Restored × Ref),
      buildFlowState flow runId totals c paused = .ok state →
      (stored = state ∨ state.persisted = some stored) → restoreFlow flow' stored ref = .ok r →
      KeptFlow paused c r.1) ∧
    ∀ (force : Workforce) (runId : RunId) (job root : Job) (workerState : WorkerState)
      (reports : List Report) (index : ℕ) (totals : UsageTotals) (state stored : WorkforceState),
      buildWorkforceState force runId job root workerState (.collaborate reports index) totals = .ok state →
      (stored = state ∨ state.persisted = some stored) →
      ∃ reports', stored.stage = .collaborate reports' index ∧ List.Forall₂ Kept reports reports' := by
  constructor
  · intro flow flow' runId totals c paused state stored ref r hstate hstored hr
    have hkept := keptState_of_build hstate
    rcases hstored with rfl | hstored
    · exact hkept.restored hr
    · exact (hkept.persisted hstored).restored hr
  · intro force runId job root workerState reports index totals state stored hstate hstored
    obtain ⟨reports', hstage, hreports⟩ := keptReports_of_build hstate
    rcases hstored with rfl | hstored
    · exact ⟨reports', hstage, hreports.imp fun _ _ => kept_of_jsonForm⟩
    · simp only [WorkforceState.persisted, Option.bind_eq_bind, Option.bind_eq_some_iff] at hstored
      obtain ⟨core, _, stage, hstage', worker, _, rootJob, _, hstored⟩ := hstored
      obtain rfl := Option.some.inj hstored
      rw [hstage] at hstage'
      obtain ⟨reports'', hstage'', hreports'⟩ := keptReports_of_stage hstage'
      exact ⟨reports'', hstage'', forall₂_comp (r := JsonForm) (s := JsonForm)
        (fun _ _ _ h h' => kept_of_jsonForm (h.trans h')) hreports hreports'⟩

/-! ### A step whose report has a model -/

def planReport (data : Value) : Report where
  runId := "run"
  status := .completed
  content := some "plan"
  data := data

/-- The second step of a flow pauses when the first one has answered with `data`. -/
def pausedAfterPlan (data : Value) : PausedFlow where
  job := { id := "job", input := .str "go" }
  stepIndex := 1
  allReports := [⟨0, [.seq 0], planReport data⟩]
  stepState := .worker
    { runId := "worker"
      status := .paused
      runnerName := "reviewer"
      job := { id := "step", input := .str "review" } }
  stepPos := [.seq 1]
  stream := false
  continuations := []

def planFlow : Flow where
  id := 0
  steps := [.step 1 (.worker plainWorker) "plan" none, .step 2 (.worker plainWorker) "review" none]
  name := "flow"

def planData : List (String × Value) := [("title", .str "launch")]

theorem kept_dictionary : ∃ state stored r, buildFlowState planFlow "run" {}
    { artifacts := planData } (pausedAfterPlan (.dict planData)) = .ok state ∧
    state.persisted = some stored ∧ restoreFlow planFlow stored 7 = .ok r ∧
    KeptFlow (pausedAfterPlan (.dict planData)) { artifacts := planData } r.1 := by
  refine ⟨_, _, _, rfl, rfl, rfl, ?_⟩
  exact kept_through_pause.1 planFlow planFlow "run" {} _ _ _ _ 7 _ rfl (.inr rfl) rfl

/-- A model in a report's data comes back as a dictionary. -/
theorem not_kept_model : ∃ state r, buildFlowState planFlow "run" {} {}
    (pausedAfterPlan (.model "Plan" "title='launch'" planData)) = .ok state ∧
    restoreFlow planFlow state 7 = .ok r ∧
    r.1.allReports.map (fun held => held.report) ≠
      (pausedAfterPlan (.model "Plan" "title='launch'" planData)).allReports.map fun held => held.report := by
  refine ⟨_, _, rfl, rfl, fun h => ?_⟩
  have hdata := congrArg Report.data (List.cons.inj h).1
  cases hdata

end Blackgeorge.Workflow
