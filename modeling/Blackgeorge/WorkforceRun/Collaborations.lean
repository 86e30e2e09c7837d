import Blackgeorge.Data.Plain
import Blackgeorge.WorkforceRun.Chains

/-! Collaborations over their pauses. A run and its resumes go through the workers one after
the other; each has one run and the resumes of the states in which that run paused. The
reports are combined as if no worker had paused. -/

namespace Blackgeorge.WorkforceRun

open Data Program Coroutine Coro WorkerRunner

/-! ### Combining reports that say the same -/

/-- Reports that say the same, of workers of one name. -/
def SamePart (part part' : Worker × Report) : Prop :=
  part'.1.name = part.1.name ∧ SameReport part.2 part'.2

theorem map_eq_of_forall₂ {α β γ : Type} {r : α → β → Prop} {f : α → γ} {g : β → γ}
    (hfg : ∀ a b, r a b → g b = f a) {l : List α} {l' : List β} (h : List.Forall₂ r l l') :
    l'.map g = l.map f := by
  induction h with
  | nil => rfl
  | cons hfirst _ ih => rw [List.map_cons, List.map_cons, hfg _ _ hfirst, ih]

theorem forall₂_flatMap {α β γ δ : Type} {r : α → β → Prop} {s : γ → δ → Prop} {f : α → List γ}
    {g : β → List δ} (hfg : ∀ a b, r a b → List.Forall₂ s (f a) (g b)) {l : List α} {l' : List β}
    (h : List.Forall₂ r l l') : List.Forall₂ s (l.flatMap f) (l'.flatMap g) := by
  induction h with
  | nil => exact .nil
  | cons hfirst _ ih =>
    rw [List.flatMap_cons, List.flatMap_cons]
    exact List.rel_append (hfg _ _ hfirst) ih

theorem any_eq_of_forall₂ {α β : Type} {r : α → β → Prop} {f : α → Bool} {g : β → Bool}
    (hfg : ∀ a b, r a b → g b = f a) {l : List α} {l' : List β} (h : List.Forall₂ r l l') :
    l'.any g = l.any f := by
  induction h with
  | nil => rfl
  | cons hfirst _ ih => rw [List.any_cons, List.any_cons, hfg _ _ hfirst, ih]

theorem isNone_dumped (v : Value) : v.dumped.isNone = v.isNone := by
  cases v with
  | native _ _ form => cases form <;> rfl
  | _ => rfl

theorem isNone_of_same {report report' : Report} (h : SameReport report report') :
    report'.data.isNone = report.data.isNone := by
  rw [← isNone_dumped, h.data, isNone_dumped]

/-- The entry of a worker in the combined data. -/
def partData (part : Worker × Report) : Value :=
  .dict [("worker", .str part.1.name), ("data", part.2.data), ("content", optionText part.2.content)]

theorem dumpedItems_partData {l l' : List (Worker × Report)} (h : List.Forall₂ SamePart l l') :
    Value.dumpedItems (l'.map partData) = Value.dumpedItems (l.map partData) := by
  induction h with
  | nil => rfl
  | @cons part part' _ _ hfirst _ ih =>
    obtain ⟨hname, hsame⟩ := hfirst
    have hentry : (partData part').dumped = (partData part).dumped := by
      unfold partData
      simp only [Value.dumped, Value.dumpedFields, hname, hsame.data, hsame.content]
    rw [List.map_cons, List.map_cons, Value.dumpedItems, Value.dumpedItems, hentry, ih]

theorem sameReport_aggregate {l l' : List (Worker × Report)} (h : List.Forall₂ SamePart l l')
    (runId runId' : RunId) (status : RunStatus) :
    SameReport (aggregateReports l runId status) (aggregateReports l' runId' status) := by
  have hany : (l'.any fun r => !r.2.data.isNone) = l.any fun r => !r.2.data.isNone :=
    any_eq_of_forall₂ (fun part part' hpart => by rw [isNone_of_same hpart.2]) h
  constructor
  · rfl
  · unfold aggregateReports
    dsimp only
    rw [map_eq_of_forall₂ (fun part part' hpart => by rw [hpart.1, hpart.2.content]) h]
  · unfold aggregateReports
    dsimp only
    rw [List.flatMap_def, List.flatMap_def,
      map_eq_of_forall₂ (fun part part' (hpart : SamePart part part') => hpart.2.errors) h]
  · exact forall₂_flatMap (fun part part' hpart => hpart.2.toolCalls) h
  · exact forall₂_flatMap (fun part part' hpart => hpart.2.messages) h
  · unfold aggregateReports
    dsimp only
    rw [hany]
    split_ifs
    · have hitems := dumpedItems_partData h
      unfold partData at hitems
      rw [Value.dumped, Value.dumped, hitems]
    · rfl

theorem sameReport_defaultReducer {l l' : List (Worker × Report)} (h : List.Forall₂ SamePart l l')
    (runId runId' : RunId) : SameReport (defaultReducer l runId) (defaultReducer l' runId') := by
  have hany : (l'.any fun r => r.2.status = .failed) = l.any fun r => r.2.status = .failed :=
    any_eq_of_forall₂ (fun part part' hpart => by rw [hpart.2.status]) h
  unfold defaultReducer
  rw [hany]
  exact sameReport_aggregate h runId runId' _

/-! ### The calls of a collaboration -/

/-- A worker's part in a collaboration: its calls so far, the states of those in which it
paused, the last one first, and what the current one came to. -/
structure Part where
  worker : Worker
  paused : List (Call × WorkerState) := []
  call : Call
  outcome : Report × Option WorkerState

def Part.told (part : Part) : Worker × Report := (part.worker, part.outcome.1)

/-- The part after one more call. -/
def Part.resumed (part : Part) (state : WorkerState) (call : Call) (outcome : Report × Option WorkerState) :
    Part where
  worker := part.worker
  paused := (part.call, state) :: part.paused
  call := call
  outcome := outcome

section

variable (ok : ∀ q, Answer q → Prop) (force : Workforce) (config : RunConfig) (runId : RunId) (job : Job)

/-- The workers' runs one after the other, behind the reports there are, and what they lead to. -/
inductive Sweep : List Worker → List (Worker × Report) → World → List Part →
    Report × Option WorkforceState → Prop
  | reduced {reports w t report w'} :
    Runs (S := sig) ok (reduceReports force reports runId) w t (.ok report) w' →
    Sweep [] reports w [] (report, none)
  | paused {worker workers reports w t report state w₁ t' out w'} :
    Runs (S := sig) ok (arun worker config job) w t (.ok (report, some state)) w₁ →
    Runs (S := sig) ok (pauseWith force config runId job report state
      (.collaborate (reports.map Prod.snd) reports.length)) w₁ t' (.ok out) w' →
    Sweep (worker :: workers) reports w
      [{ worker := worker, call := .run job, outcome := (report, some state) }] out
  | failed {worker workers reports w t report w₁} :
    Runs (S := sig) ok (arun worker config job) w t (.ok (report, none)) w₁ → report.status = .failed →
    Sweep (worker :: workers) reports w [{ worker := worker, call := .run job, outcome := (report, none) }]
      (aggregateReports (reports ++ [(worker, report)]) runId .failed, none)
  | next {worker workers reports w t report w₁ parts out} :
    Runs (S := sig) ok (arun worker config job) w t (.ok (report, none)) w₁ → report.status ≠ .failed →
    Sweep workers (reports ++ [(worker, report)]) w₁ parts out →
    Sweep (worker :: workers) reports w
      ({ worker := worker, call := .run job, outcome := (report, none) } :: parts) out

end

/-- How a collaboration goes on after the resumed call of the worker it waits in. -/
inductive AfterPending (ok : ∀ q, Answer q → Prop) (force : Workforce) (config : RunConfig)
    (state : WorkforceState) (completed : List Report) (index : ℕ) (worker : Worker) :
    Report × Option WorkerState → World → List Part → Report × Option WorkforceState → Prop
  | paused {report next w t out w'} :
    Runs (S := sig) ok (pauseWith force config state.runId (rootJob state) report next
      (.collaborate completed index)) w t (.ok out) w' →
    AfterPending ok force config state completed index worker (report, some next) w [] out
  | failed {report w} : report.status = .failed →
    AfterPending ok force config state completed index worker (report, none) w []
      (aggregateReports ((force.workers.take (index + 1)).zip completed ++ [(worker, report)])
        state.runId .failed, none)
  | next {report w parts out} : report.status ≠ .failed →
    Sweep ok force config state.runId (rootJob state) (force.workers.drop (index + 1))
      ((force.workers.take (index + 1)).zip (completed ++ [report])) w parts out →
    AfterPending ok force config state completed index worker (report, none) w parts out

/-- The calls of a collaboration over its pauses: the workers' parts so far, and what the last
call came to. -/
inductive CollaborateCalls (ok : ∀ q, Answer q → Prop) (force : Workforce) (job : Job) :
    List Part → Report × Option WorkforceState → Prop
  | run {config w parts out} :
    Sweep ok force config config.runId job force.workers [] w parts out →
    CollaborateCalls ok force job parts out
  | resume {parts part paused report state state' completed index workerState decision config w t outcome
      w₁ more out} :
    CollaborateCalls ok force job (parts ++ [part]) (report, some state) → part.outcome.2 = some paused →
    StoredForce state state' → state'.stage = .collaborate completed index →
    state'.workerState = some workerState → force.workers[index]? = some part.worker →
    Runs (S := sig) ok (aresume part.worker (resumeConfig config state'.runId) workerState decision) w t
      (.ok outcome) w₁ →
    AfterPending ok force (resumeConfig config state'.runId) state' completed index part.worker outcome w₁
      more out →
    CollaborateCalls ok force job (parts ++ part.resumed paused (.resume workerState decision) outcome :: more)
      out

variable {ok : ∀ q, Answer q → Prop} {force : Workforce} {config : RunConfig} {runId : RunId} {job : Job}
  {w w' : World}

/-- Every run of the workers one after the other is a sweep. -/
theorem exists_sweep (workers : List Worker) : ∀ {reports : List (Worker × Report)} {w : World} {t : Trace sig}
    {out : Report × Option WorkforceState},
    Runs (S := sig) ok (runCollaborateFrom force config runId job workers reports) w t (.ok out) w' →
    ∃ parts, Sweep ok force config runId job workers reports w parts out := by
  induction workers with
  | nil =>
    intro reports w t out h
    obtain ⟨report, _, _, _, hreduce, h⟩ := runs_bind_ok h
    cases h
    exact ⟨[], .reduced hreduce⟩
  | cons worker workers ih =>
    intro reports w t out h
    obtain ⟨⟨report, workerState⟩, _, _, _, hrun, h⟩ := runs_bind_ok h
    cases workerState with
    | some state => exact ⟨_, .paused hrun h⟩
    | none =>
      dsimp only at h
      by_cases hfailed : report.status = .failed
      · rw [if_pos hfailed] at h
        cases h
        exact ⟨_, .failed hrun hfailed⟩
      · rw [if_neg hfailed] at h
        obtain ⟨parts, hparts⟩ := ih h
        exact ⟨_, .next hrun hfailed hparts⟩

/-- Every run of a workforce that collaborates one worker after the other is such a call. -/
theorem exists_collaborateCalls (hmode : force.mode = .collaborate)
    (hsequential : canParallelizeCollaborate force job = false) {t : Trace sig}
    {out : Report × Option WorkforceState}
    (h : Runs (S := sig) ok (arunWorkforce force config job) w t (.ok out) w') :
    ∃ parts out', CollaborateCalls ok force job parts out' ∧ Shown (.ok out') out := by
  unfold arunWorkforce runMode runCollaborateMode at h
  rw [hmode] at h
  obtain ⟨_, _, _, _, -, h⟩ := runs_bind_ok h
  obtain ⟨out', _, _, _, hsweep, h⟩ := runs_bind_ok h
  obtain ⟨out'', _, _, _, htotals, h⟩ := runs_bind_ok h
  obtain ⟨_, _, _, _, -, h⟩ := runs_bind_ok h
  cases h
  dsimp only at hsweep
  rw [if_neg (by simp [hsequential])] at hsweep
  obtain ⟨parts, hparts⟩ := exists_sweep force.workers hsweep
  exact ⟨parts, out', .run hparts, shown_withTotals htotals⟩

/-! ### What a sweep does -/

/-- The report of the force's reducer. -/
def Reduces (ok : ∀ q, Answer q → Prop) (force : Workforce) (runId : RunId)
    (reports : List (Worker × Report)) (report : Report) : Prop :=
  match force.reducer with
  | some fn => ok (.reduce fn (reports.map Prod.snd)) (.ok report)
  | none => report = defaultReducer reports runId

theorem runs_reduceReports {reports : List (Worker × Report)} {t : Trace sig} {report : Report}
    (h : Runs (S := sig) ok (reduceReports force reports runId) w t (.ok report) w') :
    Reduces ok force runId reports report := by
  unfold reduceReports at h
  unfold Reduces
  cases hreducer : force.reducer with
  | none =>
    rw [hreducer] at h
    cases h
    rfl
  | some fn =>
    rw [hreducer] at h
    cases h with
    | @ask _ _ a _ _ _ _ ha h =>
      cases a with
      | error e => cases h
      | ok answer =>
        cases h
        exact ha

/-- The worker has come to a report that does not fail. -/
def Part.Done (part : Part) : Prop := part.outcome.2 = none ∧ part.outcome.1.status ≠ .failed

/-- How the workers' reports so far end a collaboration: with the first failure, or all
reduced. -/
def Concludes (ok : ∀ q, Answer q → Prop) (force : Workforce) (runId : RunId) (reports : List (Worker × Report))
    (complete : Prop) (last : Option Part) (report : Report) : Prop :=
  (∃ part ∈ last, part.outcome.1.status = .failed ∧ report = aggregateReports reports runId .failed) ∨
    complete ∧ Reduces ok force runId reports report

/-- What a sweep over `workers` behind `reports` comes to. -/
structure Swept (ok : ∀ q, Answer q → Prop) (force : Workforce) (runId : RunId) (job : Job)
    (workers : List Worker) (reports : List (Worker × Report)) (parts : List Part)
    (out : Report × Option WorkforceState) : Prop where
  order : parts.map Part.worker = workers.take parts.length
  begun : ∀ part ∈ parts, part.paused = [] ∧ part.call = .run job
  ended : ∀ part ∈ parts.dropLast, part.Done
  concluded : out.2 = none → Concludes ok force runId (reports ++ parts.map Part.told)
    (parts.length = workers.length ∧ ∀ part ∈ parts, part.Done) parts.getLast? out.1
  waits : ∀ state, out.2 = some state → ∃ earlier part paused, parts = earlier ++ [part] ∧
    part.outcome.2 = some paused ∧ PausedAs job paused
      (.collaborate ((reports ++ earlier.map Part.told).map Prod.snd) (reports.length + earlier.length)) state

theorem Sweep.swept {workers : List Worker} {reports : List (Worker × Report)} {parts : List Part}
    {out : Report × Option WorkforceState} (h : Sweep ok force config runId job workers reports w parts out) :
    Swept ok force runId job workers reports parts out := by
  induction h with
  | @reduced reports w t report w' hreduce =>
    refine ⟨rfl, by simp, by simp, fun _ => .inr ⟨⟨rfl, by simp⟩, ?_⟩,
      fun _ hstate => absurd hstate (by simp)⟩
    rw [List.map_nil, List.append_nil]
    exact runs_reduceReports hreduce
  | @paused worker workers reports w t report state w₁ t' out w' hrun hpause =>
    obtain ⟨paused, rfl, hpaused⟩ := pausedAs_pauseWith hpause
    refine ⟨by simp, by simp, by simp, fun hnone => absurd hnone (by simp), fun state' hstate => ?_⟩
    obtain rfl := Option.some.inj hstate
    refine ⟨[], _, state, rfl, rfl, ?_⟩
    rw [List.map_nil, List.append_nil]
    exact hpaused
  | @failed worker workers reports w t report w₁ hrun hfailed =>
    exact ⟨by simp, by simp, by simp, fun _ => .inl ⟨_, rfl, hfailed, rfl⟩,
      fun _ hstate => absurd hstate (by simp)⟩
  | @next worker workers reports w t report w₁ parts out hrun hdone hrest ih =>
    have hpart : Part.Done { worker := worker, call := .run job, outcome := (report, none) } := ⟨rfl, hdone⟩
    have hreports : reports ++ [(worker, report)] ++ parts.map Part.told =
        reports ++ List.map Part.told
          ({ worker := worker, call := .run job, outcome := (report, none) } :: parts) := by
      simp [Part.told]
    constructor
    · simp [ih.order]
    · intro part hmem
      rcases List.mem_cons.mp hmem with rfl | hmem
      · exact ⟨rfl, rfl⟩
      · exact ih.begun part hmem
    · cases parts with
      | nil => simp
      | cons first rest =>
        intro part hmem
        rw [List.dropLast_cons_of_ne_nil (List.cons_ne_nil _ _)] at hmem
        rcases List.mem_cons.mp hmem with rfl | hmem
        · exact hpart
        · exact ih.ended part hmem
    · intro hnone
      have hconcluded := ih.concluded hnone
      rw [hreports] at hconcluded
      rcases hconcluded with ⟨part, hlast, hfailed, hreport⟩ | ⟨⟨hlen, hall⟩, hreduces⟩
      · refine .inl ⟨part, ?_, hfailed, hreport⟩
        rw [List.getLast?_cons, Option.mem_def.mp hlast]
        rfl
      · refine .inr ⟨⟨by simp [hlen], fun part hmem => ?_⟩, hreduces⟩
        rcases List.mem_cons.mp hmem with rfl | hmem
        · exact hpart
        · exact hall part hmem
    · intro state hstate
      obtain ⟨earlier, part, paused, rfl, hpaused, hstored⟩ := ih.waits state hstate
      refine ⟨_ :: earlier, part, paused, rfl, hpaused, ?_⟩
      rw [List.length_append, List.length_singleton] at hstored
      rw [List.map_cons, List.length_cons, show reports.length + (earlier.length + 1) =
        reports.length + 1 + earlier.length by omega]
      simpa [Part.told] using hstored

/-! ### What all calls do -/

/-- A worker's calls so far: one run, of the job or its JSON form, and behind it the resumes of
the states in which it paused. -/
def Begun (job : Job) : List (Call × WorkerState) → Call → Prop
  | [], call => ∃ job', UpToJson Job.persisted job job' ∧ call = .run job'
  | (before, state) :: paused, call =>
    (∃ state' decision, Stored state state' ∧ call = .resume state' decision) ∧ Begun job paused before

/-- The collaboration waits in the last worker it has come to. -/
structure WaitsIn (job : Job) (earlier : List Part) (paused : WorkerState) (state : WorkforceState) : Prop where
  stage : ∃ completed, state.stage = .collaborate completed earlier.length ∧
    List.Forall₂ (UpToJson Report.persisted) (earlier.map fun part => part.outcome.1) completed
  root : ∃ root, state.rootJob = some root ∧ UpToJson Job.persisted job root
  workerState : ∃ workerState, state.workerState = some workerState ∧ Stored paused workerState

theorem WaitsIn.of_pausedAs {job root : Job} {earlier : List Part} {paused : WorkerState} {reports : List Report}
    {state : WorkforceState} (h : PausedAs root paused (.collaborate reports earlier.length) state)
    (hroot : UpToJson Job.persisted job root)
    (hreports : List.Forall₂ (UpToJson Report.persisted) (earlier.map fun part => part.outcome.1) reports) :
    WaitsIn job earlier paused state := by
  have hstage := h.stage
  simp only [Stage.persisted, Option.bind_eq_bind, Option.bind_eq_some_iff] at hstage
  obtain ⟨completed, hcompleted, hstage⟩ := hstage
  obtain ⟨root', hroot', hstored⟩ := h.root
  obtain ⟨dumped, hdumped, hworker⟩ := h.workerState
  constructor
  · refine ⟨completed, (Option.some.inj hstage).symm, ?_⟩
    exact forall₂_comp (fun _ _ _ h h' => h.dump settles_report h') hreports (forall₂_of_mapM hcompleted)
  · exact ⟨root', hstored, hroot.dump settles_job hroot'⟩
  · exact ⟨dumped, hworker, .dumped .same hdumped⟩

theorem WaitsIn.stored {job : Job} {earlier : List Part} {paused : WorkerState} {state state' : WorkforceState}
    (hs : StoredForce state state') (h : WaitsIn job earlier paused state) :
    WaitsIn job earlier paused state' := by
  induction hs with
  | same => exact h
  | @dumped s s' _ hdump ih =>
    obtain ⟨completed, hstage, hcompleted⟩ := ih.stage
    obtain ⟨root, hroot, hjob⟩ := ih.root
    obtain ⟨workerState, hworker, hstored⟩ := ih.workerState
    simp only [WorkforceState.persisted, hstage, hroot, hworker, Stage.persisted, Option.bind_eq_bind,
      Option.bind_eq_some_iff] at hdump
    obtain ⟨core, _, stage, ⟨completed', hcompleted', hstage'⟩, dumped, hdumped, root', hroot', hs⟩ := hdump
    obtain rfl := Option.some.inj hs
    obtain rfl := Option.some.inj hstage'
    constructor
    · exact ⟨completed', rfl, forall₂_comp (fun _ _ _ h h' => h.dump settles_report h') hcompleted
        (forall₂_of_mapM hcompleted')⟩
    · obtain ⟨root'', hroot'', rfl⟩ : ∃ root'', root.persisted = some root'' ∧ some root'' = root' := by
        simpa using hroot'
      exact ⟨root'', rfl, hjob.dump settles_job hroot''⟩
    · obtain ⟨state'', hstate'', rfl⟩ : ∃ state'', workerState.persisted = some state'' ∧
          some state'' = dumped := by
        simpa using hdumped
      exact ⟨state'', rfl, .dumped hstored hstate''⟩
  | job _ _ ih => exact ⟨ih.stage, ih.root, ih.workerState⟩

/-- What a collaboration has come to after its pauses so far. -/
structure Collaborated (ok : ∀ q, Answer q → Prop) (force : Workforce) (job : Job) (parts : List Part)
    (out : Report × Option WorkforceState) : Prop where
  order : parts.map Part.worker = force.workers.take parts.length
  begun : ∀ part ∈ parts, Begun job part.paused part.call
  ended : ∀ part ∈ parts.dropLast, part.Done
  concluded : out.2 = none → ∃ finals runId, List.Forall₂ SamePart (parts.map Part.told) finals ∧
    Concludes ok force runId finals (parts.length = force.workers.length ∧ ∀ part ∈ parts, part.Done)
      parts.getLast? out.1
  waits : ∀ state, out.2 = some state → ∃ earlier part paused, parts = earlier ++ [part] ∧
    part.outcome.2 = some paused ∧ WaitsIn job earlier paused state

theorem samePart_refl (part : Worker × Report) : SamePart part part := ⟨rfl, .refl _⟩

/-- The stored reports, put together with the workers again. -/
theorem samePart_zip : ∀ {parts : List Part} {completed : List Report},
    List.Forall₂ (UpToJson Report.persisted) (parts.map fun part => part.outcome.1) completed →
    List.Forall₂ SamePart (parts.map Part.told) ((parts.map Part.worker).zip completed)
  | [], completed, h => by
    cases h
    exact .nil
  | part :: parts, completed, h => by
    cases h with
    | cons hfirst hrest => exact .cons ⟨rfl, same_of_upToJson hfirst⟩ (samePart_zip hrest)

theorem Sweep.collaborated {parts : List Part} {out : Report × Option WorkforceState}
    (h : Sweep ok force config runId job force.workers [] w parts out) :
    Collaborated ok force job parts out := by
  have hswept := h.swept
  refine ⟨hswept.order, fun part hmem => ?_, hswept.ended, fun hnone => ?_, fun state hstate => ?_⟩
  · obtain ⟨hpaused, hcall⟩ := hswept.begun part hmem
    rw [hpaused]
    exact ⟨job, .inl rfl, hcall⟩
  · refine ⟨parts.map Part.told, runId, forall₂_refl samePart_refl _, ?_⟩
    have hconcluded := hswept.concluded hnone
    rwa [List.nil_append] at hconcluded
  · obtain ⟨earlier, part, paused, rfl, hpaused, hstored⟩ := hswept.waits state hstate
    rw [List.nil_append, List.length_nil, Nat.zero_add] at hstored
    refine ⟨earlier, part, paused, rfl, hpaused, .of_pausedAs hstored (.inl rfl) ?_⟩
    rw [List.map_map]
    exact forall₂_refl (.refl _) _

/-- The worker that was resumed, behind those that are done. -/
theorem Begun.resumed {part : Part} {paused workerState : WorkerState} {decision : Value}
    {outcome : Report × Option WorkerState} (h : Begun job part.paused part.call)
    (hstored : Stored paused workerState) :
    Begun job (part.resumed paused (.resume workerState decision) outcome).paused
      (part.resumed paused (.resume workerState decision) outcome).call :=
  ⟨⟨workerState, decision, hstored, rfl⟩, h⟩

/-- What a resume finds: the workers that are done, with their reports, and the pending one. -/
structure Found (force : Workforce) (job : Job) (parts : List Part) (part : Part) (completed : List Report)
    (root : Job) : Prop where
  order : force.workers.take (parts.length + 1) = parts.map Part.worker ++ [part.worker]
  begun : ∀ p ∈ parts, Begun job p.paused p.call
  done : ∀ p ∈ parts, p.Done
  completed : List.Forall₂ (UpToJson Report.persisted) (parts.map fun p => p.outcome.1) completed
  root : UpToJson Job.persisted job root

theorem Found.length {parts : List Part} {part : Part} {completed : List Report} {root : Job}
    (h : Found force job parts part completed root) : (parts.map Part.worker).length = completed.length := by
  rw [← h.completed.length_eq, List.length_map, List.length_map]

/-- All reports with their workers, the resumed worker's last. -/
theorem Found.zip_next {parts : List Part} {part : Part} {completed : List Report} {root : Job}
    (h : Found force job parts part completed root) (report : Report) :
    (force.workers.take (parts.length + 1)).zip (completed ++ [report]) =
      (parts.map Part.worker).zip completed ++ [(part.worker, report)] := by
  rw [h.order, List.zip_append h.length]
  rfl

theorem Found.zip_failed {parts : List Part} {part : Part} {completed : List Report} {root : Job}
    (h : Found force job parts part completed root) :
    (force.workers.take (parts.length + 1)).zip completed = (parts.map Part.worker).zip completed := by
  have hzip : (parts.map Part.worker ++ [part.worker]).zip (completed ++ []) =
      (parts.map Part.worker).zip completed ++ [part.worker].zip [] := List.zip_append h.length
  rw [h.order]
  simpa using hzip

theorem length_of_order {parts : List Part} {workers : List Worker}
    (h : parts.map Part.worker = workers.take parts.length) : parts.length ≤ workers.length := by
  have hlen := congrArg List.length h
  rw [List.length_map, List.length_take] at hlen
  omega

theorem AfterPending.collaborated {parts : List Part} {part : Part} {completed : List Report}
    {state : WorkforceState} {paused workerState : WorkerState} {decision : Value}
    {outcome : Report × Option WorkerState} {more : List Part} {out : Report × Option WorkforceState}
    (hfound : Found force job parts part completed (rootJob state)) (hbegun : Begun job part.paused part.call)
    (hstored : Stored paused workerState)
    (h : AfterPending ok force config state completed parts.length part.worker outcome w more out) :
    Collaborated ok force job
      (parts ++ part.resumed paused (.resume workerState decision) outcome :: more) out := by
  have hresumed := @Begun.resumed job part paused workerState decision outcome hbegun hstored
  generalize hlast : part.resumed paused (.resume workerState decision) outcome = last at hresumed ⊢
  have hworker : last.worker = part.worker := by rw [← hlast]; rfl
  have houtcome : last.outcome = outcome := by rw [← hlast]; rfl
  have horder : (parts ++ [last]).map Part.worker = force.workers.take (parts ++ [last]).length := by
    rw [List.length_append, List.length_singleton, hfound.order, List.map_append, List.map_singleton, hworker]
  have hall : ∀ p ∈ parts ++ [last], Begun job p.paused p.call := by
    intro p hmem
    rcases List.mem_append.mp hmem with hmem | hmem
    · exact hfound.begun p hmem
    · obtain rfl := List.mem_singleton.mp hmem
      exact hresumed
  have hdone : ∀ p ∈ (parts ++ [last]).dropLast, p.Done := by
    rw [List.dropLast_concat]
    exact hfound.done
  have hsame := samePart_zip hfound.completed
  have htold (report : Report) (hreport : outcome.1 = report) :
      List.Forall₂ SamePart ((parts ++ [last]).map Part.told)
        ((parts.map Part.worker).zip completed ++ [(part.worker, report)]) := by
    rw [List.map_append, List.map_singleton, Part.told, houtcome, hworker, hreport]
    exact List.rel_append hsame (.cons (samePart_refl _) .nil)
  cases h with
  | @paused report next _ t out w' hpause =>
    obtain ⟨state', rfl, hpaused⟩ := pausedAs_pauseWith hpause
    refine ⟨horder, hall, hdone, fun hnone => absurd hnone (by simp), fun state'' hstate => ?_⟩
    obtain rfl := Option.some.inj hstate
    exact ⟨parts, last, next, rfl, by rw [houtcome], .of_pausedAs hpaused hfound.root hfound.completed⟩
  | @failed report _ hfailed =>
    refine ⟨horder, hall, hdone, fun _ => ⟨_, state.runId, htold report rfl, .inl ⟨last, ?_, ?_, ?_⟩⟩,
      fun _ hstate => absurd hstate (by simp)⟩
    · simp
    · rw [houtcome]
      exact hfailed
    · rw [hfound.zip_failed]
  | @next report _ more out hsucceeded hsweep =>
    have hswept := hsweep.swept
    rw [hfound.zip_next] at hswept
    have hlastDone : last.Done := by
      rw [Part.Done, houtcome]
      exact ⟨rfl, hsucceeded⟩
    have hle : parts.length + 1 ≤ force.workers.length := by
      have hlen := length_of_order horder
      rwa [List.length_append] at hlen
    have hsplit : parts ++ last :: more = (parts ++ [last]) ++ more := by simp
    constructor
    · have hlen : (parts ++ [last] ++ more).length = parts.length + 1 + more.length := by
        simp only [List.length_append, List.length_singleton]
      have horder' : (parts ++ [last]).map Part.worker = force.workers.take (parts.length + 1) := by
        simpa using horder
      rw [hsplit, List.map_append, horder', hswept.order, hlen]
      exact List.take_add.symm
    · intro p hmem
      rw [hsplit] at hmem
      rcases List.mem_append.mp hmem with hmem | hmem
      · exact hall p hmem
      · obtain ⟨hpaused, hcall⟩ := hswept.begun p hmem
        rw [hpaused]
        exact ⟨_, hfound.root, hcall⟩
    · intro p hmem
      rw [List.dropLast_append_of_ne_nil (List.cons_ne_nil _ _)] at hmem
      rcases List.mem_append.mp hmem with hmem | hmem
      · exact hfound.done p hmem
      · cases more with
        | nil => cases hmem
        | cons first rest =>
          rcases List.mem_cons.mp hmem with rfl | hmem
          · exact hlastDone
          · exact hswept.ended p hmem
    · intro hnone
      refine ⟨(parts.map Part.worker).zip completed ++ [(part.worker, report)] ++ more.map Part.told,
        state.runId, ?_, ?_⟩
      · rw [hsplit, List.map_append]
        exact List.rel_append (htold report rfl) (forall₂_refl samePart_refl _)
      · rcases hswept.concluded hnone with ⟨p, hp, hfailed, hreport⟩ | ⟨⟨hlen, hdones⟩, hreduces⟩
        · refine .inl ⟨p, ?_, hfailed, hreport⟩
          rw [List.getLast?_append, List.getLast?_cons, Option.mem_def.mp hp]
          rfl
        · refine .inr ⟨⟨?_, fun p hmem => ?_⟩, hreduces⟩
          · rw [List.length_drop] at hlen
            simp only [List.length_append, List.length_cons]
            omega
          · rw [hsplit] at hmem
            rcases List.mem_append.mp hmem with hmem | hmem
            · rcases List.mem_append.mp hmem with hmem | hmem
              · exact hfound.done p hmem
              · obtain rfl := List.mem_singleton.mp hmem
                exact hlastDone
            · exact hdones p hmem
    · intro state' hstate
      obtain ⟨earlier, p, paused', rfl, hpaused, hwaits⟩ := hswept.waits state' hstate
      have hlen : ((parts.map Part.worker).zip completed ++ [(part.worker, report)]).length + earlier.length =
          (parts ++ last :: earlier).length := by
        rw [List.length_append, List.length_zip, ← hfound.length]
        simp only [List.length_map, List.length_append, List.length_cons, List.length_nil]
        omega
      rw [hlen] at hwaits
      refine ⟨parts ++ last :: earlier, p, paused', by simp, hpaused, .of_pausedAs hwaits hfound.root ?_⟩
      have hsnd : ((parts.map Part.worker).zip completed).map Prod.snd = completed :=
        List.map_snd_zip hfound.length.ge
      have hreport : last.outcome.1 = report := by rw [houtcome]
      simp only [List.map_append, hsnd, List.map_cons, List.append_assoc,
        List.singleton_append, List.map_map, hreport]
      exact List.rel_append hfound.completed (.cons (.inl rfl) (forall₂_refl (.refl _) _))

theorem CollaborateCalls.collaborated {parts : List Part} {out : Report × Option WorkforceState}
    (h : CollaborateCalls ok force job parts out) : Collaborated ok force job parts out := by
  induction h with
  | run hsweep => exact hsweep.collaborated
  | @resume parts part paused report state state' completed index workerState decision config w t outcome w₁
      more out _ hpaused hstored hstage hworkerState hworker _ hafter ih =>
    obtain ⟨earlier, last, paused', heq, hpaused', hwaits⟩ := ih.waits state rfl
    obtain ⟨rfl, hlast⟩ := List.append_inj' heq rfl
    obtain rfl : part = last := List.head_eq_of_cons_eq hlast
    obtain rfl := Option.some.inj (hpaused.symm.trans hpaused')
    have hwaits' := hwaits.stored hstored
    obtain ⟨completed', hstage', hcompleted⟩ := hwaits'.stage
    obtain ⟨root, hroot, hjob⟩ := hwaits'.root
    obtain ⟨workerState', hworkerState', hfrom⟩ := hwaits'.workerState
    rw [hstage] at hstage'
    obtain ⟨rfl, rfl⟩ := Stage.collaborate.inj hstage'
    obtain rfl := Option.some.inj (hworkerState.symm.trans hworkerState')
    have horder := ih.order
    rw [List.length_append, List.length_singleton, List.map_append, List.map_singleton] at horder
    have hdone := ih.ended
    rw [List.dropLast_concat] at hdone
    have hfound : Found force job parts part completed (rootJob state') := by
      refine ⟨horder.symm, fun p hmem => ih.begun p (List.mem_append_left _ hmem), hdone, hcompleted, ?_⟩
      unfold rootJob
      rw [hroot]
      exact hjob
    exact hafter.collaborated hfound (ih.begun part (by simp)) hfrom

/-- Every resume of a paused collaboration is such a call. -/
theorem CollaborateCalls.exists_resume {parts : List Part} {report : Report} {state state' : WorkforceState}
    (h : CollaborateCalls ok force job parts (report, some state)) (hstored : StoredForce state state')
    {decision : Value} {t : Trace sig} {out : Report × Option WorkforceState}
    (hr : Runs (S := sig) ok (aresumeWorkforce force config state' decision) w t (.ok out) w') :
    ∃ parts' out', CollaborateCalls ok force job parts' out' ∧ Shown (.ok out') out := by
  obtain ⟨earlier, part, paused, rfl, hpaused, hwaits⟩ := h.collaborated.waits state rfl
  have hwaits' := hwaits.stored hstored
  obtain ⟨completed, hstage, -⟩ := hwaits'.stage
  obtain ⟨workerState, hworkerState, -⟩ := hwaits'.workerState
  have hworker : force.workers[earlier.length]? = some part.worker := by
    have horder := congrArg (fun l => l[earlier.length]?) h.collaborated.order
    simpa [List.getElem?_take] using horder.symm
  unfold aresumeWorkforce at hr
  obtain ⟨_, _, _, _, -, hr⟩ := runs_bind_ok hr
  rw [hworkerState] at hr
  dsimp only at hr
  rw [if_neg (by simp [hstage])] at hr
  obtain ⟨out', _, _, w₁, hrun, htotals⟩ := runs_bind_ok hr
  unfold resumeStage at hrun
  rw [hstage] at hrun
  dsimp only at hrun
  unfold resumeCollaborateStage at hrun
  rw [hworker] at hrun
  dsimp only at hrun
  obtain ⟨⟨report', next⟩, _, _, w₂, hresume, hrun⟩ := runs_bind_ok hrun
  have hafter : ∃ more, AfterPending ok force (resumeConfig config state'.runId) state' completed earlier.length
      part.worker (report', next) w₂ more out' := by
    cases next with
    | some next => exact ⟨[], .paused hrun⟩
    | none =>
      dsimp only at hrun
      by_cases hfailed : report'.status = .failed
      · rw [if_pos hfailed] at hrun
        cases hrun
        exact ⟨[], .failed hfailed⟩
      · rw [if_neg hfailed] at hrun
        obtain ⟨more, hmore⟩ := exists_sweep _ hrun
        exact ⟨more, .next hfailed hmore⟩
  obtain ⟨more, hmore⟩ := hafter
  exact ⟨_, out', .resume h hpaused hstored hstage hworkerState hworker hresume hmore, shown_withTotals htotals⟩

/-! ### The same report -/

/-- A reducer that says the same of reports that say the same. -/
def Settled (ok : ∀ q, Answer q → Prop) (fn : FnId) : Prop :=
  ∀ reports reports' report report', List.Forall₂ SameReport reports reports' →
    ok (.reduce fn reports) (.ok report) → ok (.reduce fn reports') (.ok report') → SameReport report report'

/-- Each worker is run once, in list order up to the first failure, and each resume takes up
the state in which its worker paused. -/
structure InOrder (force : Workforce) (job : Job) (parts : List Part) (out : Report × Option WorkforceState) :
    Prop where
  order : parts.map Part.worker = force.workers.take parts.length
  begun : ∀ part ∈ parts, Begun job part.paused part.call
  ended : ∀ part ∈ parts.dropLast, part.Done
  complete : out.2 = none → (∃ part ∈ parts.getLast?, part.outcome.1.status = .failed) ∨
    parts.length = force.workers.length ∧ ∀ part ∈ parts, part.Done

theorem Collaborated.inOrder {parts : List Part} {out : Report × Option WorkforceState}
    (h : Collaborated ok force job parts out) : InOrder force job parts out := by
  refine ⟨h.order, h.begun, h.ended, fun hnone => ?_⟩
  obtain ⟨finals, runId, -, hconcludes⟩ := h.concluded hnone
  rcases hconcludes with ⟨part, hlast, hfailed, -⟩ | ⟨hcomplete, -⟩
  · exact .inl ⟨part, hlast, hfailed⟩
  · exact .inr hcomplete

theorem sameReport_reduces {force₀ : Workforce} (hreducer : force₀.reducer = force.reducer)
    (hsettled : ∀ fn, force.reducer = some fn → Settled ok fn) {reports reports' : List (Worker × Report)}
    (hsame : List.Forall₂ SamePart reports reports') {runId₀ : RunId} {report report' : Report}
    (h : Reduces ok force₀ runId₀ reports report) (h' : Reduces ok force runId reports' report') :
    SameReport report report' := by
  unfold Reduces at h h'
  rw [hreducer] at h
  cases hfn : force.reducer with
  | none =>
    rw [hfn] at h h'
    dsimp only at h h'
    rw [h, h']
    exact sameReport_defaultReducer hsame runId₀ runId
  | some fn =>
    rw [hfn] at h h'
    dsimp only at h h'
    refine hsettled fn hfn _ _ _ _ ?_ h h'
    rw [List.forall₂_map_left_iff, List.forall₂_map_right_iff]
    exact hsame.imp fun _ _ hpart => hpart.2

/-- Without a pause the workers' own reports are combined. -/
theorem CollaborateCalls.concludes_unpaused {parts : List Part} {out : Report}
    (h : CollaborateCalls ok force job parts (out, none)) (hunpaused : ∀ part ∈ parts, part.paused = []) :
    ∃ runId, Concludes ok force runId (parts.map Part.told)
      (parts.length = force.workers.length ∧ ∀ part ∈ parts, part.Done) parts.getLast? out := by
  cases h with
  | @run config _ _ _ hsweep => exact ⟨config.runId, hsweep.swept.concluded rfl⟩
  | @resume _ part paused _ _ _ _ _ workerState decision _ _ _ outcome =>
    have hpaused := hunpaused (part.resumed paused (.resume workerState decision) outcome) (by simp)
    cases hpaused

theorem SamePart.trans {part part' part'' : Worker × Report} (h : SamePart part part')
    (h' : SamePart part' part'') : SamePart part part'' := ⟨h'.1.trans h.1, h.2.trans h'.2⟩

/-- A worker fails in both or in none of two collaborations whose parts say the same. -/
theorem failed_iff {parts₀ parts : List Part}
    (h : List.Forall₂ SamePart (parts₀.map Part.told) (parts.map Part.told)) :
    (∃ part ∈ parts₀, part.outcome.1.status = .failed) ↔
      ∃ part ∈ parts, part.outcome.1.status = .failed := by
  have hany : ((parts.map Part.told).any fun r => r.2.status = .failed) =
      (parts₀.map Part.told).any fun r => r.2.status = .failed :=
    any_eq_of_forall₂ (fun part part' hpart => by rw [hpart.2.status]) h
  have hiff := Bool.eq_iff_iff.mp hany.symm
  simp only [List.any_map, List.any_eq_true, Function.comp_apply, decide_eq_true_eq] at hiff
  exact hiff

theorem not_done_of_failed {parts : List Part}
    (h : ∃ part ∈ parts, part.outcome.1.status = .failed) : ¬ ∀ part ∈ parts, part.Done := by
  obtain ⟨part, hmem, hfailed⟩ := h
  exact fun hdone => (hdone part hmem).2 hfailed

/-- A collaboration runs each worker once and in list order up to the first failure, however
often workers pause. It returns what one without pauses returns whose workers come to reports
that say the same, but for values in their JSON form. -/
theorem collaborate_resumed (ok : ∀ q, Answer q → Prop) (force : Workforce) (job : Job)
    (hsettled : ∀ fn, force.reducer = some fn → Settled ok fn) :
    (∀ parts out, CollaborateCalls ok force job parts out → InOrder force job parts out) ∧
    ∀ (force₀ : Workforce) (job₀ : Job) parts₀ out₀ parts out, force₀.reducer = force.reducer →
      CollaborateCalls ok force₀ job₀ parts₀ (out₀, none) → (∀ part ∈ parts₀, part.paused = []) →
      CollaborateCalls ok force job parts (out, none) →
      List.Forall₂ SamePart (parts₀.map Part.told) (parts.map Part.told) → SameReport out₀ out := by
  refine ⟨fun parts out h => h.collaborated.inOrder, ?_⟩
  intro force₀ job₀ parts₀ out₀ parts out hreducer h₀ hunpaused h hparts
  obtain ⟨runId₀, hconcludes₀⟩ := h₀.concludes_unpaused hunpaused
  obtain ⟨finals, runId, hfinals, hconcludes⟩ := h.collaborated.concluded rfl
  have hsame := forall₂_comp (fun _ _ _ h h' => h.trans h') hparts hfinals
  rcases hconcludes₀ with ⟨part₀, hlast₀, hfailed₀, hout₀⟩ | ⟨⟨-, hdone₀⟩, hreduces₀⟩
  · rcases hconcludes with ⟨part, hlast, hfailed, hout⟩ | ⟨⟨-, hdone⟩, -⟩
    · dsimp only at hout
      rw [hout₀, hout]
      exact sameReport_aggregate hsame runId₀ runId .failed
    · have hfails := (failed_iff hparts).mp ⟨part₀, List.mem_of_getLast? hlast₀, hfailed₀⟩
      exact absurd hdone (not_done_of_failed hfails)
  · rcases hconcludes with ⟨part, hlast, hfailed, -⟩ | ⟨-, hreduces⟩
    · have hfails := (failed_iff hparts).mpr ⟨part, List.mem_of_getLast? hlast, hfailed⟩
      exact absurd hdone₀ (not_done_of_failed hfails)
    · exact sameReport_reduces hreducer hsettled hsame hreduces₀ hreduces

/-! ### A scout and a deployer -/

def scout : Worker :=
  { plainWorker with
    name := "scout", toolbelt := { tools := [plainTool] }, memoryScope := "worker:scout", name_ne := by decide }

def deployer : Worker :=
  { plainWorker with
    name := "deployer", memoryScope := "worker:deployer", name_ne := by decide }

/-- The tool that waits, without waiting. -/
def hastyTool : Tool :=
  { plainTool with
    name := "deploy", description := "Deploy the release", callable := 2
    name_ne := guardedTool.name_ne }

/-- The deployer whose tool runs at once. -/
def hastyDeployer : Worker :=
  { plainWorker with
    name := "deployer", toolbelt := { tools := [plainTool, hastyTool] }, memoryScope := "worker:deployer"
    name_ne := by decide }

def rolloutTeam (last : Worker) (h : ["scout", last.name].Nodup) : Workforce where
  workers := [scout, last]
  mode := .collaborate
  workers_ne := by simp
  nodup := h
  manager_ok := by simp

def carefulTeam : Workforce := rolloutTeam deployer (by decide)

def hastyTeam : Workforce := rolloutTeam hastyDeployer (by decide)

/-- Calls a tool that runs at once and the deployment, and is done after them. -/
def rolloutModel (n : ℕ) : ModelResponse :=
  if n < 4 then
    { content := none
      toolCalls := [{ id := "c1", name := "lookup", arguments := [] }, { deployCall with id := "c2" }] }
  else { content := some "done" }

def scoutRun := runIn (plainAnswers plainModel) (arun scout plainConfig plainJob) {}

def hastyRun := runIn (plainAnswers rolloutModel) (arun hastyDeployer plainConfig plainJob) scoutRun.2.2

def deployerRun := runIn (plainAnswers rolloutModel) (arun deployer plainConfig plainJob) scoutRun.2.2

def reportOf {α : Type} : Except Exn (Report × α) → Report
  | .ok (report, _) => report
  | .error _ => { runId := "", status := .failed }

def scoutReport : Report := reportOf scoutRun.2.1

def deployerState : WorkerState :=
  match deployerRun.2.1 with
  | .ok (_, some state) => state
  | _ => { runId := "", status := .paused, runnerName := "", job := plainJob }

def pausedRun :=
  runIn (plainAnswers plainModel) (pauseWith carefulTeam plainConfig "run" plainJob (reportOf deployerRun.2.1)
    deployerState (.collaborate [scoutReport] 1)) deployerRun.2.2

def stateOfPause : Except Exn (Report × Option WorkforceState) → WorkforceState
  | .ok (_, some state) => state
  | _ =>
    { runId := "", status := .paused, runnerName := "", job := plainJob, stage := .unknown, workerState := none
      usageTotals := {}, rootJob := none }

def rolloutState : WorkforceState := stateOfPause pausedRun.2.1

/-- The stored state of the deployer. -/
def storedDeployer : WorkerState := rolloutState.workerState.getD deployerState

def resumedRun :=
  runIn (plainAnswers fun _ => { content := some "done" })
    (aresume deployer plainConfig storedDeployer (.bool true)) {}

def hastyParts : List Part :=
  [{ worker := scout, call := .run plainJob, outcome := (scoutReport, none) },
    { worker := hastyDeployer, call := .run plainJob, outcome := (reportOf hastyRun.2.1, none) }]

def deployerPart : Part where
  worker := deployer
  call := .run plainJob
  outcome := (reportOf deployerRun.2.1, some deployerState)

def carefulParts : List Part :=
  [{ worker := scout, call := .run plainJob, outcome := (scoutReport, none) },
    deployerPart.resumed deployerState (.resume storedDeployer (.bool true)) (reportOf resumedRun.2.1, none)]

def hastyReport : Report :=
  defaultReducer [(scout, scoutReport), (hastyDeployer, reportOf hastyRun.2.1)] "run"

def completedReports : Stage → List Report
  | .collaborate completed _ => completed
  | _ => []

def carefulReport : Report :=
  defaultReducer ((carefulTeam.workers.take 2).zip
    (completedReports rolloutState.stage ++ [reportOf resumedRun.2.1])) "run"

theorem runs_of {α : Type} {answers : ℕ → ∀ q, Answer q} {c : Prog α} {w : World} {r : Except Exn α}
    (h : (runIn answers c w).2.1 = r) :
    Runs (S := sig) (fun _ _ => True) c w (runIn answers c w).1 r (runIn answers c w).2.2 :=
  h ▸ runIn_runs (fun _ _ => trivial) c w

theorem collaborateCalls_hasty :
    CollaborateCalls (fun _ _ => True) hastyTeam plainJob hastyParts (hastyReport, none) := by
  have hscout : scoutRun.2.1 = .ok (scoutReport, none) := rfl
  have hhasty : hastyRun.2.1 = .ok (reportOf hastyRun.2.1, none) := rfl
  have hreduced : Sweep (fun _ _ => True) hastyTeam plainConfig "run" plainJob []
      [(scout, scoutReport), (hastyDeployer, reportOf hastyRun.2.1)] hastyRun.2.2 [] (hastyReport, none) :=
    .reduced (.ret _ _)
  exact @CollaborateCalls.run _ _ _ plainConfig {} _ _
    (.next (runs_of hscout) (by decide +kernel) (.next (runs_of hhasty) (by decide +kernel) hreduced))

theorem collaborateCalls_waiting :
    CollaborateCalls (fun _ _ => True) carefulTeam plainJob
      [{ worker := scout, call := .run plainJob, outcome := (scoutReport, none) }, deployerPart]
      (reportOf deployerRun.2.1, some rolloutState) := by
  have hscout : scoutRun.2.1 = .ok (scoutReport, none) := rfl
  have hdeployer : deployerRun.2.1 = .ok (reportOf deployerRun.2.1, some deployerState) := rfl
  have hpaused : pausedRun.2.1 = .ok (reportOf deployerRun.2.1, some rolloutState) := rfl
  exact @CollaborateCalls.run _ _ _ plainConfig {} _ _
    (.next (runs_of hscout) (by decide +kernel) (.paused (runs_of hdeployer) (runs_of hpaused)))

theorem collaborateCalls_careful :
    CollaborateCalls (fun _ _ => True) carefulTeam plainJob carefulParts (carefulReport, none) := by
  have hresumed : resumedRun.2.1 = .ok (reportOf resumedRun.2.1, none) := rfl
  have hstage : rolloutState.stage = .collaborate (completedReports rolloutState.stage) 1 := rfl
  have hreduced : Sweep (fun _ _ => True) carefulTeam plainConfig "run" (rootJob rolloutState) []
      ((carefulTeam.workers.take 2).zip (completedReports rolloutState.stage ++ [reportOf resumedRun.2.1]))
      resumedRun.2.2 [] (carefulReport, none) :=
    .reduced (.ret _ _)
  exact @CollaborateCalls.resume _ _ _ [_] deployerPart _ _ _ _ _ _ _ _ plainConfig {} _ _ _ _ _
    collaborateCalls_waiting rfl .same hstage rfl rfl (runs_of hresumed) (.next (by decide +kernel) hreduced)

/-- The deployer that pauses tells the result of its first call as a dictionary. -/
theorem samePart_rollout :
    List.Forall₂ SamePart (hastyParts.map Part.told) (carefulParts.map Part.told) := by
  have hcalls : List.Forall₂ (UpToJson ToolCall.persisted) (reportOf hastyRun.2.1).toolCalls
      (reportOf resumedRun.2.1).toolCalls := .cons (.inr rfl) (.cons (.inl rfl) .nil)
  have hmessages : (reportOf resumedRun.2.1).messages = (reportOf hastyRun.2.1).messages := rfl
  have hdeployer : SameReport (reportOf hastyRun.2.1) (reportOf resumedRun.2.1) :=
    ⟨rfl, rfl, rfl, hcalls, hmessages ▸ forall₂_refl (.refl _) _, rfl⟩
  exact .cons (samePart_refl _) (.cons ⟨rfl, hdeployer⟩ .nil)

theorem collaborate_resumed_careful :
    CollaborateCalls (fun _ _ => True) carefulTeam plainJob carefulParts (carefulReport, none) ∧
      SameReport hastyReport carefulReport := by
  refine ⟨collaborateCalls_careful, ?_⟩
  exact (collaborate_resumed (fun _ _ => True) carefulTeam plainJob nofun).2 hastyTeam plainJob hastyParts
    hastyReport carefulParts carefulReport rfl collaborateCalls_hasty (by simp [hastyParts])
    collaborateCalls_careful samePart_rollout

/-- The result of the scout's tool call comes back as a dictionary. -/
theorem not_same_toolCalls :
    CollaborateCalls (fun _ _ => True) hastyTeam plainJob hastyParts (hastyReport, none) ∧
      CollaborateCalls (fun _ _ => True) carefulTeam plainJob carefulParts (carefulReport, none) ∧
      List.Forall₂ SamePart (hastyParts.map Part.told) (carefulParts.map Part.told) ∧
        carefulReport.toolCalls ≠ hastyReport.toolCalls := by
  refine ⟨collaborateCalls_hasty, collaborateCalls_careful, samePart_rollout, fun h => ?_⟩
  have hresults := congrArg (fun calls => calls.map fun call : ToolCall =>
    call.result.map fun result => result matches .live _) h
  exact absurd hresults (by decide +kernel)

end Blackgeorge.WorkforceRun
