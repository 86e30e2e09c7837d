import Blackgeorge.Desk.Runners
import Blackgeorge.Session.History
import Blackgeorge.WorkerRunner.Opening

/-! The turns of a session. A run and its resumes carry the conversation of the turn through
the run store; only a completed report replaces the history. -/

namespace Blackgeorge.Session

open Data Program WorkerRunner Coroutine Coro

/-! ### The run's records -/

variable (before : List Message) (job : Job)

/-- A stored state of the run is its worker's, in the course of the turn. -/
def InCourse (runId : RunId) (records : RunId → Option RunRecord) : Prop :=
  ∀ record state, records runId = some record → record.state = some state →
    ∃ s, state = .worker s ∧ s.runId = runId ∧ InTurn before job s.messages s.metrics

/-- A step that leaves histories and the records of other runs as they are, and the run's record in
the course of the turn. -/
structure CourseStep (runId : RunId) (w w' : World) : Prop where
  histories : w'.histories = w.histories
  others : ∀ r, r ≠ runId → w'.records r = w.records r
  course : InCourse before job runId w.records → InCourse before job runId w'.records

def courseLaw (runId : RunId) (event : Event sig → Prop) : Law sig where
  step := CourseStep before job runId
  admits _ _ := True
  event := event

/-- No model is called. -/
abbrev Silent (e : Event sig) : Prop := isModelCall e = false

variable {before job} {runId : RunId}

/-- A step that concerns neither histories nor records. -/
theorem courseStep_same {w w' : World} (hhistories : w'.histories = w.histories)
    (hrecords : w'.records = w.records) : CourseStep before job runId w w' :=
  ⟨hhistories, fun _ _ => by rw [hrecords], fun h => hrecords ▸ h⟩

theorem CourseStep.trans {u v w : World} (h : CourseStep before job runId u v)
    (h' : CourseStep before job runId v w) : CourseStep before job runId u w where
  histories := h'.histories.trans h.histories
  others r hr := (h'.others r hr).trans (h.others r hr)
  course hcourse := h'.course (h.course hcourse)

theorem permits_course : Permits (courseLaw before job runId Silent) where
  refl _ := courseStep_same rfl rfl
  eventLists _ _ := courseStep_same rfl rfl
  storedEvents _ _ := courseStep_same rfl rfl
  routine q a hq := by
    cases q <;> first | rfl | exact False.elim hq

theorem serves_course (before : List Message) (job : Job) (runId : RunId) (tools : List Tool) :
    Serves (courseLaw before job runId fun _ => True) tools where
  refl := fun _ => courseStep_same rfl rfl
  eventLists := fun _ _ => courseStep_same rfl rfl
  storedEvents := fun _ _ => courseStep_same rfl rfl
  routine := fun _ _ _ => trivial
  free := fun _ _ _ => trivial
  complete := fun _ _ _ _ => trivial
  newId := fun _ => trivial
  runTool := fun _ _ _ _ _ => trivial
  totals := fun _ _ => courseStep_same rfl rfl
  usageCost := fun _ _ _ => trivial

/-- What a program under the law does alone. -/
theorem after_course {α : Type} {event : Event sig → Prop} {c : Prog α} {P : α → Prop}
    (h : Each (courseLaw before job runId event) c P) (w : World) :
    After (S := sig) (fun _ _ => True) c w fun t r w' => w'.histories = w.histories ∧
      (InCourse before job runId w.records → InCourse before job runId w'.records) ∧
      (∀ e ∈ t, event e) ∧ ∀ a, r = .ok a → P a := by
  intro t r w' hr
  have hrefl : ∀ w, (courseLaw before job runId event).step w w := fun _ => courseStep_same rfl rfl
  have htrans : ∀ u v w, (courseLaw before job runId event).step u v →
      (courseLaw before job runId event).step v w → (courseLaw before job runId event).step u w :=
    fun _ _ _ h h' => CourseStep.trans h h'
  obtain ⟨hstep, hevents, hP⟩ := h.after hrefl htrans t r w' hr
  exact ⟨hstep.histories, hstep.course, hevents, hP⟩

/-! ### The desk's steps -/

abbrev Course {α : Type} (before : List Message) (job : Job) (runId : RunId) (c : Prog α)
    (P : α → Prop) : Prop :=
  Each (courseLaw before job runId Silent) c P

theorem course_ask {q : Query} (h : ∀ a, Silent ⟨q, a⟩) :
    Course before job runId (Prog.ask q) fun _ => True :=
  each_query fun a _ => ⟨h a, trivial⟩

theorem course_store (op : StoreOp) : Course before job runId (Prog.store op) fun _ => True :=
  each_bind (course_ask fun _ => rfl) fun _ _ => each_ofExcept fun _ _ => trivial

/-- A change that concerns neither histories nor records. -/
theorem course_modify {f : World → World}
    (h : ∀ w, (f w).histories = w.histories ∧ (f w).records = w.records) :
    Course before job runId (Prog.modify f) fun _ => True :=
  each_update (fun w => courseStep_same (h w).1 (h w).2) trivial

theorem course_get {α : Type} (g : World → α) : Course before job runId (Prog.get g) fun _ => True :=
  each_look (fun _ => courseStep_same rfl rfl) fun _ => trivial

theorem course_newEventList (events : List Event) :
    Course before job runId (Desk.newEventList events) fun _ => True :=
  each_exchange (fun _ => courseStep_same rfl rfl) fun _ => trivial

theorem course_newTotals (totals : UsageTotals) :
    Course before job runId (Desk.newTotals totals) fun _ => True :=
  each_exchange (fun _ => courseStep_same rfl rfl) fun _ => trivial

theorem course_registerRunner (runner : Runner) :
    Course before job runId (Desk.registerRunner runner) fun _ => True := by
  apply course_modify
  intro w
  cases runner <;> exact ⟨rfl, rfl⟩

theorem course_modifyOverride (r : RunId) (f : Option (List Tool) → Option (List Tool)) :
    Course before job runId (Desk.modifyOverride r f) fun _ => True :=
  course_modify fun _ => ⟨rfl, rfl⟩

/-- A state that is stored for the run is a worker's, in the course of the turn. -/
def Storable (before : List Message) (job : Job) (runId : RunId) (state : Option RunState) : Prop :=
  ∀ st, state = some st → ∃ s, st = .worker s ∧ s.runId = runId ∧ InTurn before job s.messages s.metrics

theorem workerState_persisted {s s' : WorkerState} (h : s.persisted = some s') :
    s.messages.mapM Message.persisted = some s'.messages ∧ s'.runId = s.runId ∧
      s'.metrics = s.metrics := by
  simp only [WorkerState.persisted, StateCore.persisted, Option.bind_eq_bind,
    Option.bind_eq_some_iff] at h
  obtain ⟨core, ⟨jobCopy, -, messages, hmessages, toolCalls, -, pending, -, hcore⟩, h⟩ := h
  obtain rfl := Option.some.inj hcore
  obtain rfl := Option.some.inj h
  exact ⟨hmessages, rfl, rfl⟩

theorem storable_stored (hsettled : Settled before) {desk : DeskSettings} {status : RunStatus}
    {output : Option String} {outputJson : Value} {state : Option RunState} {record : RunRecord}
    (h : Storable before job runId state)
    (hrecord : Desk.storedRecord desk status output outputJson state = .ok record) :
    Storable before job runId record.state := by
  intro st hst
  rcases Desk.storedRecord_ok hrecord with hsame | hpersisted
  · exact h st (hsame ▸ hst)
  · rw [hst] at hpersisted
    cases state with
    | none => simp at hpersisted
    | some state =>
      obtain ⟨s, rfl, hrunId, hturn⟩ := h state rfl
      have hp : (RunState.worker s).persisted = some st := by simpa using hpersisted
      obtain ⟨s', hs', rfl⟩ : ∃ s', s.persisted = some s' ∧ RunState.worker s' = st := by
        simpa [RunState.persisted, Option.bind_eq_some_iff] using hp
      obtain ⟨hmessages, hrunId', hmetrics⟩ := workerState_persisted hs'
      exact ⟨s', rfl, hrunId'.trans hrunId, hmetrics ▸ hturn.persisted hsettled hmessages⟩

theorem course_updateRun (hsettled : Settled before) (desk : DeskSettings) (status : RunStatus)
    (output : Option String) (outputJson : Value) {state : Option RunState}
    (h : Storable before job runId state) :
    Course before job runId (Desk.updateRun desk runId status output outputJson state) fun _ => True := by
  have hrecord : Course before job runId
      (Prog.ofExcept (Desk.storedRecord desk status output outputJson state)) fun record =>
        Storable before job runId record.state :=
    each_ofExcept fun record hrecord => storable_stored hsettled h hrecord
  apply each_bind hrecord
  intro record hstorable
  apply each_bind (course_store _)
  intro _ _
  refine each_update (fun w => ?_) trivial
  by_cases hwrite : (desk.inMemoryStore || (w.records runId).isSome) = true
  · rw [if_pos hwrite]
    refine ⟨rfl, fun r hr => Function.update_of_ne hr _ _, fun _ record' state' hrecord' hstate' => ?_⟩
    obtain rfl : record = record' := by simpa using hrecord'
    exact hstorable state' hstate'
  · rw [if_neg hwrite]
    exact courseStep_same rfl rfl

theorem storable_none : Storable before job runId none := fun _ h => nomatch h

theorem course_recordMemory (runner : Option Runner) (report : Report) :
    Course before job runId (Desk.recordMemory runner report) fun _ => True := by
  unfold Desk.recordMemory
  split
  · split_ifs
    · split
      · exact each_pure trivial
      · exact course_store _
      · exact each_bind (each_ofExcept fun _ _ => trivial) fun _ _ => course_store _
      · exact course_store _
    · exact each_pure trivial
  · exact each_pure trivial

/-- The last message is a final answer. -/
def Answered (messages : List Message) : Prop :=
  ∃ ms m, messages = ms ++ [m] ∧ m.role = .assistant ∧ m.toolCalls = []

/-- A runner's outcome in a turn: a report that has ended, in the course of the turn if it
completed, or a paused one of the run with a state in the course of the turn. -/
structure StepOut (before : List Message) (job : Job) (runId : RunId) (o : Report × Option StepState) :
    Prop where
  ended : o.2 = none → o.1.status ≠ .paused ∧
    (o.1.status = .completed → InTurn before job o.1.messages o.1.metrics ∧
      (o.1.metrics.contextSummaries = none → Answered o.1.messages))
  paused : ∀ st, o.2 = some st → o.1.status = .paused ∧ o.1.runId = runId ∧
    Storable before job runId (some st.toRunState)

theorem storable_setStream {state : RunState} (h : Storable before job runId (some state))
    (stream : Bool) : Storable before job runId (some (state.setStream stream)) := by
  rintro _ ⟨⟩
  obtain ⟨s, rfl, hrunId, hturn⟩ := h state rfl
  exact ⟨{ s with stream := some stream }, rfl, hrunId, hturn⟩

theorem course_finalizeRun (hsettled : Settled before) (desk : DeskSettings) (runner : Option Runner)
    {o : Report × Option StepState} (h : StepOut before job runId o) (events : Ref) (stream : Bool) :
    Course before job runId (Desk.finalizeRun desk runner o.1 o.2 runId events stream)
      fun report => report = o.1 := by
  obtain ⟨report, state⟩ := o
  have hrecord : Course before job runId
      (Desk.recordFinal desk runner report state runId events stream) fun _ => True := by
    unfold Desk.recordFinal
    split
    · next state hstatus =>
      have hstorable := (h.paused state rfl).2.2
      apply each_bind (course_modifyOverride _ _)
      intro _ _
      apply each_bind (each_deskEmit permits_course _ _ _ _ _)
      intro _ _
      exact course_updateRun hsettled desk _ _ _ (storable_setStream hstorable stream)
    · apply each_bind (course_modifyOverride _ _)
      intro _ _
      apply each_bind (each_deskEmit permits_course _ _ _ _ _)
      intro _ _
      apply each_bind (course_updateRun hsettled desk _ _ _ storable_none)
      intro _ _
      exact course_recordMemory _ _
    · apply each_bind (course_modifyOverride _ _)
      intro _ _
      apply each_bind (each_deskEmit permits_course _ _ _ _ _)
      intro _ _
      exact course_updateRun hsettled desk _ _ _ storable_none
  exact each_bind hrecord fun _ _ => each_pure rfl

theorem course_recordUnexpectedFailure (hsettled : Settled before) (desk : DeskSettings)
    (events : Ref) (e : Exn) :
    Course before job runId (Desk.recordUnexpectedFailure desk runId events e) fun _ => True := by
  apply each_bind (each_attempt (each_deskEmit permits_course _ _ _ _ _))
  intro emitted _
  have hrecord : Course before job runId (Desk.recordFailure desk runId e) fun _ => True := by
    apply each_bind (course_modifyOverride _ _)
    intro _ _
    exact course_updateRun hsettled desk _ _ _ storable_none
  apply each_bind hrecord
  intro _ _
  exact each_ofExcept fun _ _ => trivial

theorem course_failResume (hsettled : Settled before) (desk : DeskSettings) (report : Report)
    (events : Ref) (message : String) :
    Course before job report.runId (Desk.failResume desk report events message)
      fun failed => failed.status = .failed := by
  apply each_bind (each_deskEmit permits_course _ _ _ _ _)
  intro _ _
  apply each_bind (course_updateRun hsettled desk _ _ _ storable_none)
  intro _ _
  apply each_bind (course_modifyOverride _ _)
  intro _ _
  exact each_pure rfl

/-! ### The worker's part -/

theorem Grown.trans {l₁ l₂ l₃ : List Message} {m₁ m₂ m₃ : Metrics} (h : Grown l₁ m₁ l₂ m₂)
    (h' : Grown l₂ m₂ l₃ m₃) : Grown l₁ m₁ l₃ m₃ := by
  intro hnone
  obtain ⟨hnone₂, hmessages'⟩ := h' hnone
  obtain ⟨hnone₁, hmessages⟩ := h hnone₂
  exact ⟨hnone₁, hmessages.trans hmessages'⟩

theorem stepOut_of {tools : List Tool} {job' : Job} {s : LoopState} {start : List Message}
    {metrics : Metrics} {o : Report × Option WorkerState} (hturn : InTurn before job start metrics)
    (hgrown : Grown start metrics s.messages s.metrics) (hrunId : s.runId = runId)
    (hfrom : OutcomeFrom tools job' s o) (hunled : UnledOutcome start o) :
    StepOut before job runId (Desk.workerOutcome o) := by
  obtain ⟨report, _ | paused⟩ := o
  · refine ⟨fun _ => ?_, fun _ h => nomatch h⟩
    have hended := hfrom.ended rfl
    refine ⟨?_, fun hcompleted => ?_⟩
    · rcases hended.status with hstatus | hstatus
      · exact fun h => nomatch hstatus.symm.trans h
      · exact fun h => nomatch hstatus.symm.trans h
    · refine ⟨hturn.grow hunled.1 (Grown.trans hgrown (grown_of_ended hended hcompleted)), fun hnone => ?_⟩
      obtain ⟨-, ms, m, hmessages, hanswer⟩ := hended.answered hcompleted hnone
      exact ⟨s.messages ++ ms, m, hmessages, hanswer⟩
  · refine ⟨fun h => (nomatch h), ?_⟩
    rintro _ ⟨⟩
    have hpaused := hfrom.paused paused rfl
    obtain ⟨hmessages, hreportId⟩ := hunled.2 paused rfl
    have hpausedId : paused.runId = runId := hpaused.runId_eq.trans hrunId
    refine ⟨hpaused.status, hreportId.trans hpausedId, ?_⟩
    rintro _ ⟨⟩
    refine ⟨paused, rfl, hpausedId, hturn.grow ?_ (Grown.trans hgrown hpaused.grown)⟩
    exact hmessages ▸ hunled.1

theorem course_worker {c : Prog (Report × Option WorkerState)}
    {P : Report × Option WorkerState → Prop}
    (h : Each (courseLaw before job runId fun _ => True) c P)
    (hP : ∀ o, P o → StepOut before job runId (Desk.workerOutcome o)) :
    Each (courseLaw before job runId fun _ => True) (Desk.workerOutcome <$> c)
      (StepOut before job runId) := by
  rw [map_eq_pure_bind]
  exact each_bind h fun o ho => each_pure (hP o ho)

/-- A worker's run in a turn. -/
theorem course_arun (hsettled : Settled before) (worker : Worker) (config : RunConfig) {job' : Job}
    (memory : Option Value)
    (hbegin : buildMessages worker.instructions job' = opening worker.instructions memory job before) :
    Each (courseLaw before job config.runId fun _ => True)
      (Desk.runners.arun (.worker worker) config job' []) (StepOut before job config.runId) := by
  have hserves := serves_arun
    (serves_course before job config.runId (resolveTools worker.toolbelt job')) config
  have hboth := hserves.and (unled_arun worker config job') fun _ _ _ => trivial
  rw [hbegin] at hboth
  refine course_worker hboth ?_
  rintro o ⟨⟨registered, hfrom⟩, hunled⟩
  have hgrown : Grown (opening worker.instructions memory job before) {}
      (startState worker config job' registered).messages
      (startState worker config job' registered).metrics := by
    rw [← hbegin]
    exact fun hnone => ⟨hnone, List.prefix_rfl⟩
  exact stepOut_of (inTurn_opening hsettled _ _ _ _) hgrown rfl hfrom hunled

/-- A resume from a state in the course of the turn. -/
theorem course_aresume (worker : Worker) (config : RunConfig) {s : WorkerState} (decision : Value)
    (hrunId : s.runId = runId) (hturn : InTurn before job s.messages s.metrics) :
    Each (courseLaw before job runId fun _ => True)
      (Desk.runners.aresume (.worker worker) config (.worker s) decision [])
      (StepOut before job runId) := by
  have hdecides : ∀ p ∈ s.pendingAction,
      Decides (courseLaw before job runId fun _ => True) worker s.job p decision :=
    fun _ _ => ⟨trivial, fun _ _ _ _ _ => trivial⟩
  have hresumes := decides_aresume
    (serves_course before job runId (resolveTools worker.toolbelt s.job)) hdecides config
  have hboth := hresumes.and (unled_aresume worker config s decision) fun _ _ _ => trivial
  refine course_worker hboth ?_
  rintro o ⟨⟨s', hs', hgrown, hfrom⟩, hunled⟩
  exact stepOut_of hturn hgrown (hs'.trans hrunId) hfrom hunled

/-! ### The desk's runs and resumes -/

/-- What a report in a turn says of the turn. -/
structure Reported (before : List Message) (job : Job) (runId : RunId) (report : Report) : Prop where
  completed : report.status = .completed → InTurn before job report.messages report.metrics
  answered : report.status = .completed → report.metrics.contextSummaries = none → Answered report.messages
  paused : report.status = .paused → report.runId = runId

theorem StepOut.reported {o : Report × Option StepState} (h : StepOut before job runId o) :
    Reported before job runId o.1 := by
  cases hstate : o.2 with
  | none =>
    have hended := h.ended hstate
    exact ⟨fun h => (hended.2 h).1, fun h => (hended.2 h).2, fun hpaused => absurd hpaused hended.1⟩
  | some state =>
    obtain ⟨hpaused, hrunId, -⟩ := h.paused state hstate
    have hnot : ¬ o.1.status = .completed := fun hcompleted => nomatch hpaused.symm.trans hcompleted
    exact ⟨fun h => absurd h hnot, fun h => absurd h hnot, fun _ => hrunId⟩

theorem reported_failed {report : Report} (h : report.status = .failed) :
    Reported before job runId report :=
  have hnot : ¬ report.status = .completed := fun h' => nomatch h.symm.trans h'
  ⟨fun h' => absurd h' hnot, fun h' => absurd h' hnot, fun h' => nomatch h.symm.trans h'⟩

theorem Course.any {α : Type} {c : Prog α} {P : α → Prop} (h : Course before job runId c P) :
    Each (courseLaw before job runId fun _ => True) c P :=
  fun w => wp_post (fun _ _ _ hr => ⟨fun _ _ => trivial, hr.2⟩) (h w)

theorem course_resumeRun (hsettled : Settled before) (desk : DeskSettings) (report : Report)
    (events : Ref) {s : WorkerState} (hrunId : s.runId = report.runId)
    (hturn : InTurn before job s.messages s.metrics) (decision : Value) (stream : Option Bool) :
    Each (courseLaw before job report.runId fun _ => True)
      (Desk.resumeRun desk Desk.runners report events (.worker s) decision stream)
      (Reported before job report.runId) := by
  apply each_bind (each_deskEmit (serves_course _ _ _ []).toPermits _ _ _ _ _)
  intro _ _
  apply each_bind (course_newTotals _).any
  intro totals _
  have hregistered : Each (courseLaw before job report.runId fun _ => True)
      (Prog.get fun w => Desk.registeredRunner w (.worker s)) fun runner =>
        ∀ r, runner = some r → ∃ worker, r = .worker worker := by
    refine each_look (fun _ => courseStep_same rfl rfl) fun w r hr => ?_
    obtain ⟨worker, -, rfl⟩ := Option.map_eq_some_iff.mp hr
    exact ⟨worker, rfl⟩
  apply each_bind hregistered
  rintro (_ | runner) hrunner
  · exact (course_failResume hsettled desk report events _).any.mono fun _ => reported_failed
  · obtain ⟨worker, rfl⟩ := hrunner runner rfl
    apply each_bind (course_aresume worker _ decision hrunId hturn)
    intro o ho
    refine (course_finalizeRun hsettled desk _ ho events _).any.mono ?_
    rintro _ rfl
    exact ho.reported

theorem course_resumeState (hsettled : Settled before) (desk : DeskSettings) (report : Report)
    (events : Ref) {s : WorkerState} (hrunId : s.runId = report.runId)
    (hturn : InTurn before job s.messages s.metrics) (decision : Value) (stream : Option Bool) :
    Each (courseLaw before job report.runId fun _ => True)
      (Desk.resumeState desk Desk.runners report events (.worker s) decision stream)
      (Reported before job report.runId) := by
  apply each_bind (course_get _).any
  intro known _
  exact course_resumeRun (s := { s with job := Desk.restoredJob known s.job }) hsettled desk report
    events hrunId hturn decision stream

/-- The rest of a resume once the record has been read. -/
theorem course_resumeRecord (hsettled : Settled before) (desk : DeskSettings) (report : Report)
    (decision : Value) (stream : Option Bool) (record : Option RunRecord)
    (hcourse : ∀ stored state, record = some stored → stored.state = some state →
      ∃ s, state = .worker s ∧ s.runId = report.runId ∧ InTurn before job s.messages s.metrics) :
    Each (courseLaw before job report.runId fun _ => True)
      (match record with
        | none => pure (Workflow.failedFrom report.runId report "No stored state")
        | some record => do
          let events ← Desk.getEvents report.runId
          match record.state with
          | none => Desk.failResume desk report events "No stored state"
          | some state => Desk.resumeState desk Desk.runners report events state decision stream)
      (Reported before job report.runId) := by
  cases record with
  | none => exact each_pure (reported_failed rfl)
  | some record =>
    refine each_bind (each_bind (course_store _).any fun _ _ => each_bind (course_get _).any fun _ _ =>
      (course_newEventList _).any) fun events _ => ?_
    cases hstate : record.state with
    | none => exact (course_failResume hsettled desk report events _).any.mono fun _ => reported_failed
    | some state =>
      obtain ⟨s, rfl, hrunId, hturn⟩ := hcourse record state rfl hstate
      exact course_resumeState hsettled desk report events hrunId hturn decision stream

theorem after_deskOpen (w : World) :
    After (S := sig) (fun _ _ => True) Workflow.deskOpen w fun t _ w' => t = [] ∧ w' = w := by
  apply after_bind
  apply after_look
  show After (S := sig) _ (if w.closed then _ else _) w _
  split_ifs
  · exact after_raise ⟨rfl, rfl⟩
  · exact after_pure ⟨rfl, rfl⟩

theorem after_store (op : StoreOp) (w : World) :
    After (S := sig) (fun _ _ => True) (Prog.store op) w fun t r w' =>
      t = [⟨.store op, r⟩] ∧ w' = w :=
  after_bind (after_query fun _ _ => after_ofExcept ⟨rfl, rfl⟩)

/-- What a resume of the turn's paused report leaves. -/
theorem after_aresume (hsettled : Settled before) (desk : DeskSettings) (report : Report)
    (decision : Value) (stream : Option Bool) {w : World}
    (hcourse : InCourse before job report.runId w.records) :
    After (S := sig) (fun _ _ => True) (Desk.aresume desk Desk.runners report decision stream) w
      fun _ r w' => w'.histories = w.histories ∧ InCourse before job report.runId w'.records ∧
        ∀ report', r = .ok report' → Reported before job report.runId report' := by
  have hlaw {c : Prog Report} (v : World) (hv : v.histories = w.histories ∧ v.records = w.records)
      (hc : Each (courseLaw before job report.runId fun _ => True) c
        (Reported before job report.runId)) :
      After (S := sig) (fun _ _ => True) c v fun _ r w' => w'.histories = w.histories ∧
        InCourse before job report.runId w'.records ∧
        ∀ report', r = .ok report' → Reported before job report.runId report' := by
    refine (after_course hc v).mono fun t r w' hr => ?_
    exact ⟨hr.1.trans hv.1, hr.2.1 (hv.2 ▸ hcourse), hr.2.2.2⟩
  apply after_bind
  refine (after_deskOpen w).mono ?_
  rintro _ (e | _) w ⟨rfl, rfl⟩
  · exact ⟨rfl, hcourse, fun _ h => nomatch h⟩
  apply after_bind
  have hrecord : After (S := sig) (fun _ _ => True) (Desk.getRun report.runId) w
      fun _ r w' => w' = w ∧ ∀ record, r = .ok record → record = w.records report.runId := by
    apply after_bind
    refine (after_store _ w).mono ?_
    rintro _ (e | _) _ ⟨-, rfl⟩
    · exact ⟨rfl, fun _ h => nomatch h⟩
    · refine after_look ⟨rfl, ?_⟩
      rintro _ ⟨⟩
      rfl
  refine hrecord.mono ?_
  rintro _ (e | record) w ⟨rfl, hread⟩
  · exact ⟨rfl, hcourse, fun _ h => nomatch h⟩
  obtain rfl := hread record rfl
  exact hlaw w ⟨rfl, rfl⟩ (course_resumeRecord hsettled desk report decision stream _ hcourse)

theorem Course.speechless {α : Type} {c : Prog α} {P : α → Prop} (h : Course before job runId c P) :
    Each speechless c P :=
  fun w => wp_mono (fun _ _ _ => trivial) (fun _ _ _ => trivial) (fun _ _ _ => trivial)
    (fun _ _ _ hr => hr) (h w)

/-- The run, once its record is written. -/
def recordedRun (desk : DeskSettings) (runner : Runner) (job : Job) (runId : RunId) (events : Ref)
    (stream : Bool) : Prog Report := do
  deskEmit events runId "run.started" "desk" [("job_id", .str job.id)]
  let totals ← Desk.newTotals {}
  let config := Desk.makeRunConfig desk (.desk events runId) runId totals stream
  match ← (Desk.registeredRun Desk.runners runner config job).attempt with
  | .error e => do
    Desk.recordUnexpectedFailure desk runId events e
    Prog.raise e
  | .ok (report, state) => Desk.finalizeRun desk (some runner) report state runId events stream

/-- The report is not paused. -/
abbrev Done (report : Report) : Prop := report.status ≠ .paused

section

variable (hsettled : Settled before) (desk : DeskSettings) (worker : Worker) {job' : Job}
  (memory : Option Value)
  (hbegin : buildMessages worker.instructions job' = opening worker.instructions memory job before)
  (events : Ref) (stream : Bool)

include hsettled hbegin

theorem course_registeredRun (config : RunConfig) :
    Each (courseLaw before job config.runId fun _ => True)
      (Desk.registeredRun Desk.runners (.worker worker) config job')
      (StepOut before job config.runId) :=
  each_bind (course_registerRunner _).any fun _ _ =>
    course_arun hsettled worker config memory hbegin

theorem course_recordedRun :
    Each (courseLaw before job runId fun _ => True)
      (recordedRun desk (.worker worker) job' runId events stream) (Reported before job runId) := by
  apply each_bind (each_deskEmit (serves_course _ _ _ []).toPermits _ _ _ _ _)
  intro _ _
  apply each_bind (course_newTotals _).any
  intro totals _
  have hrun : Each (courseLaw before job runId fun _ => True)
      (Desk.registeredRun Desk.runners (.worker worker)
        (Desk.makeRunConfig desk (.desk events runId) runId totals stream) job')
      (StepOut before job runId) :=
    course_registeredRun hsettled worker memory hbegin
      (Desk.makeRunConfig desk (.desk events runId) runId totals stream)
  apply each_bind (each_attempt hrun)
  rintro (e | o) ho
  · exact each_bind (course_recordUnexpectedFailure hsettled desk events e).any fun _ _ => each_raise
  · refine (course_finalizeRun hsettled desk _ (ho o rfl) events stream).any.mono ?_
    rintro _ rfl
    exact (ho o rfl).reported

omit hsettled in
theorem opens_registeredRun (config : RunConfig)
    (hfits : FitsLimit config.maxContextMessages (opening worker.instructions memory job before)) :
    Tells (S := sig) (fun _ _ => True) (Desk.registeredRun Desk.runners (.worker worker) config job')
      (Opens (opening worker.instructions memory job before) fun o => o.2 = none) := by
  have hregister : Course before job config.runId (Desk.registerRunner (.worker worker))
      fun _ => True := course_registerRunner _
  refine opens_bind hregister.speechless fun _ _ => ?_
  rw [← hbegin] at hfits ⊢
  show Tells (S := sig) _ (Desk.workerOutcome <$> WorkerRunner.arun worker config job') _
  rw [map_eq_pure_bind]
  refine tells_bind (opens_arun worker config job' hfits) (fun t e h => ?_) fun t o h => ?_
  · exact h.mono fun _ _ h => nomatch h
  · refine tells_pure (h.before_none (by simp) fun hended _ ho => ?_)
    obtain rfl := Except.ok.inj ho
    exact congrArg (Option.map StepState.worker) (hended o rfl)

theorem opens_recordedRun (runId : RunId)
    (hfits : FitsLimit desk.maxContextMessages (opening worker.instructions memory job before)) :
    Tells (S := sig) (fun _ _ => True) (recordedRun desk (.worker worker) job' runId events stream)
      (Opens (opening worker.instructions memory job before) Done) := by
  have hemit : Course before job runId
      (deskEmit events runId "run.started" "desk" [("job_id", .str job'.id)]) fun _ => True :=
    each_deskEmit permits_course _ _ _ _ _
  refine opens_bind hemit.speechless fun _ _ => ?_
  have htotals : Course before job runId (Desk.newTotals {}) fun _ => True := course_newTotals _
  refine opens_bind htotals.speechless fun totals _ => ?_
  generalize hconfig : Desk.makeRunConfig desk (.desk events runId) runId totals stream = config
  obtain rfl : config.runId = runId := hconfig ▸ rfl
  have hlimit : config.maxContextMessages = desk.maxContextMessages := hconfig ▸ rfl
  have hopens := opens_registeredRun worker memory hbegin config (hlimit ▸ hfits)
  have hends : Each (courseLaw before job config.runId fun _ => True)
      (Desk.registeredRun Desk.runners (.worker worker) config job')
      (StepOut before job config.runId) :=
    course_registeredRun hsettled worker memory hbegin config
  have hrun : Tells (S := sig) (fun _ _ => True)
      (Desk.registeredRun Desk.runners (.worker worker) config job').attempt fun t r' => ∃ r,
        r' = .ok r ∧ Opens (opening worker.instructions memory job before) (fun o => o.2 = none) t r ∧
          ∀ o, r = .ok o → StepOut before job config.runId o :=
    tells_attempt ((hopens.and hends.tells).mono fun t r h => ⟨r, rfl, h.1, h.2.2⟩)
  refine tells_bind hrun (fun t e h => ?_) ?_
  · obtain ⟨_, h, -⟩ := h
    cases h
  rintro t _ ⟨e | o, ⟨⟩, hopens, hout⟩
  · have hfailure : Course before job config.runId (do
        Desk.recordUnexpectedFailure desk config.runId events e
        (Prog.raise e : Prog Report)) fun _ => False :=
      each_bind (course_recordUnexpectedFailure hsettled desk events e) fun _ _ => each_raise
    refine hfailure.tells.mono fun t' r' h => hopens.before_none h.1 fun _ b hb => (h.2 b hb).elim
  · refine (course_finalizeRun hsettled desk _ (hout o rfl) events stream).tells.mono ?_
    intro t' r' h
    refine hopens.before_none h.1 fun hended report hreport => ?_
    obtain rfl := h.2 report hreport
    exact ((hout o rfl).ended (hended o rfl)).1

end

/-- A new record has no state. -/
theorem after_createRun (desk : DeskSettings) (runId : RunId) (job' : Job) (w : World) :
    After (S := sig) (fun _ _ => True) (Desk.createRun desk runId job') w fun t r w' =>
      (∀ e ∈ t, Silent e) ∧ w'.histories = w.histories ∧
        (r = .ok () → InCourse before job runId w'.records) := by
  apply after_bind
  apply after_ofExcept
  cases orSerializationError job'.persisted with
  | error e => exact ⟨by simp, rfl, fun h => nomatch h⟩
  | ok _ =>
    apply after_bind
    apply after_look
    show After (S := sig) _ (if (w.records runId).isSome then _ else _) w _
    by_cases hknown : (w.records runId).isSome = true
    · rw [if_pos hknown]
      exact after_raise ⟨by simp, rfl, fun h => nomatch h⟩
    · rw [if_neg hknown]
      apply after_bind
      refine (after_store _ w).mono ?_
      rintro _ (e | _) w ⟨rfl, rfl⟩
      · exact ⟨List.forall_mem_singleton.mpr rfl, rfl, fun h => nomatch h⟩
      · refine after_update ⟨List.forall_mem_singleton.mpr rfl, rfl, fun _ record state hrecord hstate => ?_⟩
        obtain rfl : ({ status := .running } : RunRecord) = record := by simpa using hrecord
        cases hstate

/-- The job with the desk's mode of structured streams, if it has none. -/
def withMode (desk : DeskSettings) (job : Job) : Job :=
  { job with structuredStreamMode := job.structuredStreamMode.or (some desk.structuredStreamMode) }

/-- A history has no leading system messages: the memory goes before all of it. -/
theorem memory_first (hsettled : Settled before) {initial : Option (List Message)}
    (hinitial : initial = if before.isEmpty then none else some before) (memory : Message) :
    (initial.getD []).takeWhile (fun m => decide (m.role = .system)) ++ [memory] ++
      (initial.getD []).dropWhile (fun m => decide (m.role = .system)) = memory :: before := by
  have hmessages : initial.getD [] = before := by
    rw [hinitial]
    cases before <;> rfl
  rw [hmessages]
  cases before with
  | nil => rfl
  | cons m _ => simp [(hsettled.conversation m List.mem_cons_self).1]

/-- The memory is read once and goes before the history. -/
theorem after_prepareJob (hsettled : Settled before) (desk : DeskSettings) (worker : Worker)
    (job' : Job) (hinitial : job'.initialMessages = if before.isEmpty then none else some before)
    (w : World) :
    After (S := sig) (fun _ _ => True) (Desk.prepareJob desk (.worker worker) job') w fun t r w' =>
      (∀ e ∈ t, Silent e) ∧ w' = w ∧ ∀ prepared, r = .ok prepared → ∃ memory,
        (⟨.readMemory worker.memoryScope, .ok memory⟩ : Event sig) ∈ t ∧
          prepared = rememberedJob memory (withMode desk job') before := by
  apply after_bind
  refine after_query fun answer _ => ?_
  apply after_bind
  apply after_ofExcept
  rcases answer with e | (_ | value)
  · exact ⟨List.forall_mem_singleton.mpr rfl, rfl, fun _ h => nomatch h⟩
  · refine after_pure ⟨List.forall_mem_singleton.mpr rfl, rfl, ?_⟩
    rintro _ ⟨⟩
    exact ⟨none, List.mem_singleton_self _, by rw [rememberedJob, ← hinitial]; rfl⟩
  · refine after_pure ⟨List.forall_mem_singleton.mpr rfl, rfl, ?_⟩
    rintro _ ⟨⟩
    refine ⟨some value, List.mem_singleton_self _, ?_⟩
    dsimp only
    rw [memory_first hsettled hinitial]
    cases value <;> rfl

/-- The first model call of a turn sends the opening with the memory that was read, unless that
opening has to be compacted first. Without a model call the run does not pause. -/
def Led (desk : DeskSettings) (worker : Worker) (before : List Message) (job : Job) (t : Trace sig)
    (r : Except Exn Report) : Prop :=
  (∃ memory, (⟨.readMemory worker.memoryScope, .ok memory⟩ : Event sig) ∈ t ∧
    (FitsLimit desk.maxContextMessages (opening worker.instructions memory job before) →
      Opens (opening worker.instructions memory job before) Done t r)) ∨
  ((∀ e ∈ t, Silent e) ∧ ∀ report, r ≠ .ok report)

/-- What a turn's run leaves. -/
structure Ran (desk : DeskSettings) (worker : Worker) (before : List Message) (job : Job) (w : World)
    (t : Trace sig) (r : Except Exn Report) (w' : World) : Prop where
  histories : w'.histories = w.histories
  led : Led desk worker before job t r
  completed : ∀ report, r = .ok report → report.status = .completed →
    InTurn before job report.messages report.metrics
  paused : ∀ report, r = .ok report → report.status = .paused →
    InCourse before job report.runId w'.records

variable {desk : DeskSettings} {worker : Worker} {w w₁ w' : World} {t t' : Trace sig}
  {r : Except Exn Report}

theorem ran_raise {e : Exn} (ht : ∀ e ∈ t, Silent e) (hw : w'.histories = w.histories) :
    Ran desk worker before job w t (.error e) w' :=
  ⟨hw, .inr ⟨ht, fun _ h => nomatch h⟩, fun _ h => (nomatch h), fun _ h => (nomatch h)⟩

theorem Ran.after_silent (ht : ∀ e ∈ t, Silent e) (hw : w₁.histories = w.histories)
    (h : Ran desk worker before job w₁ t' r w') : Ran desk worker before job w (t ++ t') r w' := by
  refine ⟨h.histories.trans hw, ?_, h.completed, h.paused⟩
  rcases h.led with ⟨memory, hmemory, hopens⟩ | ⟨ht', hr⟩
  · refine .inl ⟨memory, List.mem_append_right _ hmemory, fun hfits => ?_⟩
    exact (hopens hfits).after_none ht
  · refine .inr ⟨fun e he => ?_, hr⟩
    rcases List.mem_append.mp he with he | he
    · exact ht e he
    · exact ht' e he

theorem ran_bind {α : Type} {c : Prog α} {g : α → Prog Report}
    (h : After (S := sig) (fun _ _ => True) c w fun t r w₁ => (∀ e ∈ t, Silent e) ∧
      w₁.histories = w.histories ∧
      ∀ a, r = .ok a → After (S := sig) (fun _ _ => True) (g a) w₁ (Ran desk worker before job w₁)) :
    After (S := sig) (fun _ _ => True) (c >>= g) w (Ran desk worker before job w) := by
  apply after_bind
  refine h.mono ?_
  rintro t (e | a) w₁ ⟨ht, hw, hg⟩
  · exact ran_raise ht hw
  · exact (hg a rfl).mono fun t' r w' h => h.after_silent ht hw

/-- A run from its opening. -/
theorem after_recordedRun (hsettled : Settled before) (desk : DeskSettings) (worker : Worker)
    {job' : Job} (memory : Option Value)
    (hbegin : buildMessages worker.instructions job' = opening worker.instructions memory job before)
    (runId : RunId) (events : Ref) (stream : Bool) (w : World)
    (hcourse : InCourse before job runId w.records) :
    After (S := sig) (fun _ _ => True)
      (recordedRun desk (.worker worker) job' runId events stream) w fun t r w' =>
      w'.histories = w.histories ∧
        (FitsLimit desk.maxContextMessages (opening worker.instructions memory job before) →
          Opens (opening worker.instructions memory job before) Done t r) ∧
        ∀ report, r = .ok report → Reported before job runId report ∧
          InCourse before job runId w'.records := by
  intro t r w' hr
  have hcourse' : Each (courseLaw before job runId fun _ => True)
      (recordedRun desk (.worker worker) job' runId events stream) (Reported before job runId) :=
    course_recordedRun hsettled desk worker memory hbegin events stream
  obtain ⟨hhistories, hrecords, -, hreported⟩ := after_course hcourse' w t r w' hr
  refine ⟨hhistories, fun hfits => ?_, fun report hreport => ⟨hreported report hreport, hrecords hcourse⟩⟩
  have hopens := @opens_recordedRun before job hsettled desk worker job' memory hbegin events stream runId
  exact (hopens hfits).runs hr

/-- A turn's run, from the history the store keeps. -/
theorem after_arun (hsettled : Settled before) (desk : DeskSettings) (worker : Worker) (job : Job)
    (stream : Option Bool) (w : World) (job' : Job)
    (hjob : job' = { job with initialMessages := if before.isEmpty then none else some before }) :
    After (S := sig) (fun _ _ => True)
      (Desk.arun desk Desk.runners (.worker worker) job' stream none) w
      (Ran desk worker before job w) := by
  refine ran_bind ((after_deskOpen w).mono ?_)
  rintro _ _ w ⟨rfl, rfl⟩
  refine ⟨by simp, rfl, fun _ _ => ?_⟩
  refine ran_bind (after_query fun runId _ => ⟨List.forall_mem_singleton.mpr rfl, rfl, ?_⟩)
  rintro _ ⟨⟩
  refine ran_bind (after_exchange ⟨by simp, rfl, ?_⟩)
  rintro events -
  apply after_bind
  refine (after_prepareJob hsettled desk worker job' (hjob ▸ rfl) _).mono ?_
  rintro t (e | prepared) _ ⟨ht, rfl, hprepared⟩
  · exact ran_raise ht rfl
  obtain ⟨memory, hmemory, rfl⟩ := hprepared prepared rfl
  have hbegin : buildMessages worker.instructions (rememberedJob memory (withMode desk job') before) =
      opening worker.instructions memory job before := by
    subst hjob
    exact buildMessages_remembered hsettled _ _ _
  apply after_bind
  refine (@after_createRun before job desk runId _ _).mono ?_
  rintro t₁ (e | _) w₁ ⟨ht₁, hw₁, hcourse⟩
  · exact (ran_raise ht₁ hw₁).after_silent ht rfl
  · refine (after_recordedRun hsettled desk worker memory hbegin runId events _ w₁ (hcourse rfl)).mono ?_
    rintro t₂ r w₂ ⟨hw₂, hopens, hreported⟩
    refine ⟨hw₂.trans hw₁, .inl ⟨memory, List.mem_append_left _ hmemory, fun hfits => ?_⟩, ?_, ?_⟩
    · exact ((hopens hfits).after_none ht₁).after_none ht
    · exact fun report hreport => (hreported report hreport).1.completed
    · intro report hreport hpaused
      have hrunId := (hreported report hreport).1.paused hpaused
      exact hrunId ▸ (hreported report hreport).2

end Blackgeorge.Session
