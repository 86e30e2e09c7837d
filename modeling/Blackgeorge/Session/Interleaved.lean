import Blackgeorge.Coroutine.Steps
import Blackgeorge.Desk.Whole
import Blackgeorge.Session.Whole

/-! Turns of one session that overlap. Calls of any number of turns go on at the same time, and any
paused report is resumed at any time. A turn that completes puts the history it has read when it
began, with its own messages behind it, in the place of whatever the history is by then. -/

namespace Blackgeorge.Session

open Data Program WorkerRunner Coroutine Coro

variable {before : List Message} {job : Job} {ids : Set RunId} {runId : RunId} {w w' : World} {α : Type}

/-! ### Calls among others -/

/-- What the store holds of the turn's runs is in the course of the turn. -/
def AllInCourse (before : List Message) (job : Job) (ids : Set RunId) (w : World) : Prop :=
  ∀ id ∈ ids, InCourse before job id w.records

theorem AllInCourse.congr (h : AllInCourse before job ids w) (hsame : Set.EqOn w'.records w.records ids) :
    AllInCourse before job ids w' :=
  fun id hid => (h id hid).congr (hsame hid)

/-- New ids are taken from these. -/
def Mints (ids : Set RunId) : ∀ q, Answer q → Prop
  | .newId, id => id ∈ ids
  | _, _ => True

/-- A call of a turn writes no history and no record but those of the turn, and whoever else is at
work leaves these in the course of the turn. -/
def turnRules (before : List Message) (job : Job) (ids : Set RunId) : Rules sig where
  rely w w' := AllInCourse before job ids w → AllInCourse before job ids w'
  guar w w' := w'.histories = w.histories ∧ Set.EqOn w'.records w.records idsᶜ ∧
    (AllInCourse before job ids w → AllInCourse before job ids w')
  admits := Mints ids

theorem turn_refl (w : World) : (turnRules before job ids).rely w w := fun h => h

theorem turn_trans (u v w : World) (huv : (turnRules before job ids).rely u v)
    (hvw : (turnRules before job ids).rely v w) : (turnRules before job ids).rely u w :=
  fun h => hvw (huv h)

theorem CourseStep.guar (h : CourseStep before job runId w w') (hid : runId ∈ ids) :
    (turnRules before job ids).guar w w' := by
  refine ⟨h.histories, fun r hr => h.others r fun hrunId => hr (hrunId ▸ hid), fun hcourse id hmem => ?_⟩
  by_cases hrunId : id = runId
  · subst hrunId
    exact h.course (hcourse id hmem)
  · exact (hcourse id hmem).congr (h.others id hrunId)

/-- What a call of a turn leaves. -/
def callPost (before : List Message) (job : Job) (ids : Set RunId) : Post sig Report :=
  fun _ r w => AllInCourse before job ids w ∧
    ∀ report, r = .ok report → ∃ runId ∈ ids, Reported before job runId report

theorem wp_course {event : Event sig → Prop} {c : Prog α} {Φ : α → Prop} (hid : runId ∈ ids)
    (hc : Each (courseLaw before job runId event) c Φ) (hw : AllInCourse before job ids w) :
    wp (turnRules before job ids)
      (fun _ r w' => (∀ x, r = .ok x → Φ x) ∧ AllInCourse before job ids w') c w := by
  have hturn : wp (turnRules before job ids) (fun _ r _ => ∀ x, r = .ok x → Φ x) c w :=
    wp_mono (fun _ _ _ => trivial) (fun _ _ h => CourseStep.guar h hid) (fun _ _ _ => trivial)
      (fun _ _ _ h => h.2) (hc w)
  have hrely : ∀ w w', (turnRules before job ids).rely w w' → AllInCourse before job ids w →
      AllInCourse before job ids w' := fun _ _ hrely h => hrely h
  have hguar : ∀ w w', (turnRules before job ids).guar w w' → AllInCourse before job ids w →
      AllInCourse before job ids w' := fun _ _ hguar h => hguar.2.2 h
  exact wp_keep hrely hguar hturn hw

theorem wp_report {c : Prog Report} (hid : runId ∈ ids)
    (hc : Each (courseLaw before job runId fun _ => True) c (Reported before job runId))
    (hw : AllInCourse before job ids w) :
    wp (turnRules before job ids) (callPost before job ids) c w :=
  wp_post (fun _ _ _ h => ⟨h.2, fun report hreport => ⟨runId, hid, h.1 report hreport⟩⟩) (wp_course hid hc hw)

theorem wp_deskOpen (hw : AllInCourse before job ids w) :
    wp (turnRules before job ids) (fun _ _ w' => AllInCourse before job ids w') Workflow.deskOpen w := by
  intro w₁ hrely
  refine ⟨⟨rfl, Set.eqOn_refl _ _, fun h => h⟩, ?_⟩
  change wp _ _ (if w₁.closed then _ else _ : Prog Unit) w₁
  split_ifs
  · exact fun w₂ hrely₂ => hrely₂ (hrely hw)
  · exact fun w₂ hrely₂ => hrely₂ (hrely hw)

theorem course_createRun (desk : DeskSettings) (job' : Job) :
    Course before job runId (Desk.createRun desk runId job') fun _ => True := by
  apply each_bind (each_ofExcept (P := fun _ => True) fun _ _ => trivial)
  intro _ _
  refine each_bind (course_get fun w => (w.records runId).isSome) fun known _ => ?_
  cases known with
  | true => exact each_raise
  | false =>
    refine each_bind (course_store _) fun _ _ => each_update (fun w => ?_) trivial
    refine ⟨rfl, fun r hr => Function.update_of_ne hr _ _, fun _ record state hrecord hstate => ?_⟩
    obtain rfl : ({ status := .running } : RunRecord) = record := by simpa using hrecord
    cases hstate

theorem course_prepareJob (hsettled : Settled before) (desk : DeskSettings) (worker : Worker) (job' : Job)
    (hinitial : job'.initialMessages = if before.isEmpty then none else some before) :
    Course before job runId (Desk.prepareJob desk (.worker worker) job') fun prepared =>
      ∃ memory, prepared = rememberedJob memory (withMode desk job') before := by
  refine each_bind (course_ask fun _ => rfl) fun answer _ => ?_
  refine each_bind (each_ofExcept (P := fun _ => True) fun _ _ => trivial) fun memory _ => ?_
  cases memory with
  | none => exact each_pure ⟨none, by rw [rememberedJob, ← hinitial]; rfl⟩
  | some value =>
    refine each_pure ⟨some value, ?_⟩
    dsimp only
    rw [memory_first hsettled hinitial]
    cases value <;> rfl

/-- A turn's run among others. -/
theorem wp_turnRun (hsettled : Settled before) (desk : DeskSettings) (worker : Worker) (job' : Job)
    (stream : Option Bool) (hjob : job' = { job with initialMessages := if before.isEmpty then none else some before })
    (hw : AllInCourse before job ids w) :
    wp (turnRules before job ids) (callPost before job ids)
      (Desk.arun desk Desk.runners (.worker worker) job' stream none) w := by
  rw [Desk.arun_runAs]
  refine wp_bind turn_refl (wp_post ?_ (wp_deskOpen hw))
  rintro t (e | _) w₁ hw₁
  · exact ⟨hw₁, fun _ h => nomatch h⟩
  intro id hid
  have hrun : Each (courseLaw before job id fun _ => True)
      (Desk.runAs desk Desk.runners (.worker worker) job' stream id) (Reported before job id) := ?_
  · exact wp_report hid hrun hw₁
  unfold Desk.runAs
  refine each_bind (course_newEventList _).any fun events _ => ?_
  refine each_bind (course_prepareJob hsettled desk worker job' (hjob ▸ rfl)).any ?_
  rintro _ ⟨memory, rfl⟩
  refine each_bind (course_createRun desk _).any fun _ _ => ?_
  have hbegin : buildMessages worker.instructions (rememberedJob memory (withMode desk job') before) =
      opening worker.instructions memory job before := by
    subst hjob
    exact buildMessages_remembered hsettled _ _ _
  exact course_recordedRun hsettled desk worker memory hbegin events _

theorem wp_getRun (hid : runId ∈ ids) (hw : AllInCourse before job ids w) :
    wp (turnRules before job ids) (fun _ r w' => AllInCourse before job ids w' ∧
        ∀ record, r = .ok record → ∀ stored state, record = some stored → stored.state = some state →
          ∃ s, state = .worker s ∧ s.runId = runId ∧ InTurn before job s.messages s.metrics)
      (Desk.getRun runId) w := by
  intro answer _
  cases answer with
  | error e => exact fun w₁ hrely => ⟨hrely hw, fun _ h => nomatch h⟩
  | ok _ =>
    intro w₁ hrely
    have hw₁ := hrely hw
    refine ⟨⟨rfl, Set.eqOn_refl _ _, fun h => h⟩, fun w₂ hrely₂ => ⟨hrely₂ hw₁, ?_⟩⟩
    rintro _ ⟨⟩
    exact hw₁ runId hid

/-- A turn's resume among others. -/
theorem wp_turnResume (hsettled : Settled before) (desk : DeskSettings) (report : Report) (decision : Value)
    (stream : Option Bool) (hid : report.runId ∈ ids) (hw : AllInCourse before job ids w) :
    wp (turnRules before job ids) (callPost before job ids)
      (Desk.aresume desk Desk.runners report decision stream) w := by
  unfold Desk.aresume
  refine wp_bind turn_refl (wp_post ?_ (wp_deskOpen hw))
  rintro t (e | _) w₁ hw₁
  · exact ⟨hw₁, fun _ h => nomatch h⟩
  refine wp_bind turn_refl (wp_post ?_ (wp_getRun hid hw₁))
  rintro t (e | record) w₂ ⟨hw₂, hcourse⟩
  · exact ⟨hw₂, fun _ h => nomatch h⟩
  exact wp_report hid (course_resumeRecord hsettled desk report decision stream record (hcourse record rfl)) hw₂

/-! ### Overlapping turns -/

/-- A turn that has begun: the history it has read, and how many turns had been stored by then. -/
structure OpenTurn where
  job : Job
  before : List Message
  read : ℕ

/-- A turn with the report that was stored of it, and the history it left. -/
structure StoredTurn extends OpenTurn where
  report : Report
  after : List Message

/-- A session in the middle of its turns: its calls, each with its turn and what is left of its call
on the desk, and the paused reports that calls of its turns have returned. -/
structure Progress where
  world : World
  turns : ℕ → Option OpenTurn
  calls : ℕ → Option (ℕ × Prog Report)
  paused : List (ℕ × Report)
  stored : List StoredTurn

/-- Runs and resumes of one session, with any sessions of its id. What stands between two awaits is
one step: reading the history when a turn begins, and storing its report. -/
inductive Move (desk : DeskSettings) (sessionId : String) (own : ℕ → Set RunId) : Progress → Progress → Prop
  | begin {s n k worker job stream t job' w'} (hturn : s.turns n = none) (hcall : s.calls k = none)
      (hread : Runs (S := sig) (fun _ _ => True) (buildJob ⟨sessionId, worker⟩ job) s.world t (.ok job') w') :
      Move desk sessionId own s { s with
        world := w'
        turns := Function.update s.turns n (some ⟨job, s.world.histories sessionId, s.stored.length⟩)
        calls := Function.update s.calls k
          (some (n, Desk.arun desk Desk.runners (.worker worker) job' (some stream) none)) }
  | resume {s n k report decision stream} (hpaused : (n, report) ∈ s.paused) (hcall : s.calls k = none) :
      Move desk sessionId own s { s with
        calls := Function.update s.calls k
          (some (n, Desk.aresume desk Desk.runners report decision stream)) }
  | advance {s n k c t c' w'} (hcall : s.calls k = some (n, c))
      (hstep : Advance (S := sig) (Mints (own n)) c s.world t c' w') :
      Move desk sessionId own s { s with
        world := w'
        calls := Function.update s.calls k (some (n, c')) }
  | raise {s n k e} (hcall : s.calls k = some (n, .ret (.error e))) :
      Move desk sessionId own s { s with calls := Function.update s.calls k none }
  | finish {s n k worker report t r w'} (hcall : s.calls k = some (n, .ret (.ok report)))
      (hpersist : Runs (S := sig) (fun _ _ => True) (persistReport ⟨sessionId, worker⟩ report) s.world t r w')
      (hkept : ∀ e ∈ t, ¬ Replaces e) :
      Move desk sessionId own s { s with
        world := w'
        calls := Function.update s.calls k none
        paused := if report.status = .paused then s.paused ++ [(n, report)] else s.paused }
  | store {s n k worker turn report t r w'} (hturn : s.turns n = some turn)
      (hcall : s.calls k = some (n, .ret (.ok report)))
      (hpersist : Runs (S := sig) (fun _ _ => True) (persistReport ⟨sessionId, worker⟩ report) s.world t r w')
      (hreplaced : ∃ e ∈ t, Replaces e) :
      Move desk sessionId own s { s with
        world := w'
        calls := Function.update s.calls k none
        stored := s.stored ++ [⟨turn, report, w'.histories sessionId⟩] }
  | other {s w'} (hhistory : w'.histories sessionId = s.world.histories sessionId)
      (hrecords : ∀ n, Set.EqOn w'.records s.world.records (own n)) :
      Move desk sessionId own s { s with world := w' }

/-- The history once so many turns have been stored. -/
def version (start : List Message) (stored : List StoredTurn) (k : ℕ) : List Message :=
  (stored.take k).getLast?.elim start StoredTurn.after

/-- Before the first turn. New ids are no run's yet, and no two turns get the same. -/
structure Start (sessionId : String) (own : ℕ → Set RunId) (start : List Message) (s : Progress) : Prop where
  disjoint : Pairwise fun m n => Disjoint (own m) (own n)
  history : s.world.histories sessionId = start
  settled : Settled start
  new : ∀ n, ∀ id ∈ own n, s.world.records id = none
  turns : ∀ n, s.turns n = none
  calls : ∀ k, s.calls k = none
  paused : s.paused = []
  stored : s.stored = []

/-- A stored turn has put its messages behind the history that it had read. -/
structure StoredTurn.Sound (start : List Message) (stored : List StoredTurn) (k : ℕ) (x : StoredTurn) : Prop where
  read_le : x.read ≤ k
  before_eq : x.before = version start stored x.read
  completed : x.report.status = .completed
  appended : x.report.metrics.contextSummaries = none → Appends x.before x.job x.report.messages x.after
  answered : x.report.metrics.contextSummaries = none → Answered x.report.messages

/-- What holds in the middle of overlapping turns. -/
structure Overlapping (sessionId : String) (own : ℕ → Set RunId) (start : List Message) (s : Progress) : Prop where
  unused : ∀ n, s.turns n = none → ∀ id ∈ own n, s.world.records id = none
  begun : ∀ n turn, s.turns n = some turn → Settled turn.before ∧ turn.read ≤ s.stored.length ∧
    turn.before = version start s.stored turn.read
  course : ∀ n turn, s.turns n = some turn → AllInCourse turn.before turn.job (own n) s.world
  calls : ∀ k n c, s.calls k = some (n, c) → ∃ turn, s.turns n = some turn ∧
    wp (turnRules turn.before turn.job (own n)) (callPost turn.before turn.job (own n)) c s.world
  paused : ∀ x ∈ s.paused, (∃ turn, s.turns x.1 = some turn) ∧ x.2.runId ∈ own x.1
  settled : Settled (s.world.histories sessionId)
  history : s.world.histories sessionId = version start s.stored s.stored.length
  stored : ∀ k (x : StoredTurn), s.stored[k]? = some x → x.Sound start s.stored k

variable {desk : DeskSettings} {sessionId : String} {own : ℕ → Set RunId} {start : List Message}
  {s s' : Progress} {stored : List StoredTurn} {x : StoredTurn}

/-! ### Versions of the history -/

theorem version_append {k : ℕ} (h : k ≤ stored.length) (more : List StoredTurn) :
    version start (stored ++ more) k = version start stored k := by
  rw [version, List.take_append_of_le_length h, version]

theorem version_last : version start (stored ++ [x]) (stored.length + 1) = x.after := by
  rw [version, List.take_of_length_le (by simp), List.getLast?_concat]
  rfl

theorem version_succ {k : ℕ} (h : stored[k]? = some x) : version start stored (k + 1) = x.after := by
  rw [version, List.take_add_one, h, Option.toList_some, List.getLast?_concat]
  rfl

theorem StoredTurn.Sound.append {k : ℕ} (h : x.Sound start stored k) (hk : k < stored.length)
    (more : List StoredTurn) : x.Sound start (stored ++ more) k where
  read_le := h.read_le
  before_eq := h.before_eq.trans (version_append (by have := h.read_le; omega) more).symm
  completed := h.completed
  appended := h.appended
  answered := h.answered

/-! ### What each move keeps -/

/-- A change of the world that the turns tolerate. -/
structure Tolerated (own : ℕ → Set RunId) (s : Progress) (w' : World) : Prop where
  unused : ∀ n, s.turns n = none → ∀ id ∈ own n, s.world.records id = none → w'.records id = none
  course : ∀ n turn, s.turns n = some turn →
    AllInCourse turn.before turn.job (own n) s.world → AllInCourse turn.before turn.job (own n) w'

theorem tolerated_same {w' : World} (h : ∀ n, Set.EqOn w'.records s.world.records (own n)) :
    Tolerated own s w' where
  unused n _ _ hid hnone := (h n hid).trans hnone
  course n _ _ hcourse := hcourse.congr (h n)

/-- What a call of a turn guarantees the other turns tolerate. -/
theorem tolerated_guar (hdisjoint : Pairwise fun m n => Disjoint (own m) (own n)) {n : ℕ} {turn : OpenTurn}
    (hturn : s.turns n = some turn) {w' : World}
    (h : (turnRules turn.before turn.job (own n)).guar s.world w') : Tolerated own s w' := by
  have hothers : ∀ m, m ≠ n → Set.EqOn w'.records s.world.records (own m) := fun m hm =>
    h.2.1.mono (Set.disjoint_left.mp (hdisjoint hm))
  refine ⟨fun m hm id hid hnone => ?_, fun m turn' hm hcourse => ?_⟩
  · have hne : m ≠ n := by
      rintro rfl
      exact nomatch hm.symm.trans hturn
    exact (hothers m hne hid).trans hnone
  · by_cases hne : m = n
    · subst hne
      obtain rfl := Option.some.inj (hm.symm.trans hturn)
      exact h.2.2 hcourse
    · exact hcourse.congr (hothers m hne)

theorem Overlapping.world (h : Overlapping sessionId own start s) {w' : World} (htolerated : Tolerated own s w')
    (hhistory : w'.histories sessionId = s.world.histories sessionId) :
    Overlapping sessionId own start { s with world := w' } where
  unused n hn id hid := htolerated.unused n hn id hid (h.unused n hn id hid)
  begun := h.begun
  course n turn hturn := htolerated.course n turn hturn (h.course n turn hturn)
  calls k n c hcall := by
    obtain ⟨turn, hturn, hwp⟩ := h.calls k n c hcall
    exact ⟨turn, hturn, wp_stable turn_trans (htolerated.course n turn hturn) hwp⟩
  paused := h.paused
  settled := hhistory.symm ▸ h.settled
  history := hhistory.trans h.history
  stored := h.stored

/-- A call begins or goes on. -/
theorem Overlapping.call (h : Overlapping sessionId own start s) (k : ℕ) {n : ℕ} {turn : OpenTurn} {c : Prog Report}
    (hturn : s.turns n = some turn)
    (hwp : wp (turnRules turn.before turn.job (own n)) (callPost turn.before turn.job (own n)) c s.world) :
    Overlapping sessionId own start { s with calls := Function.update s.calls k (some (n, c)) } :=
  { h with
    calls := fun k' n' c' hcall => by
      dsimp only at hcall ⊢
      by_cases hk : k' = k
      · subst hk
        rw [Function.update_self] at hcall
        obtain ⟨rfl, rfl⟩ := Prod.mk.inj (Option.some.inj hcall)
        exact ⟨turn, hturn, hwp⟩
      · exact h.calls k' n' c' (by rwa [Function.update_of_ne hk] at hcall) }

/-- A call is over. -/
theorem Overlapping.over (h : Overlapping sessionId own start s) (k : ℕ) :
    Overlapping sessionId own start { s with calls := Function.update s.calls k none } :=
  { h with
    calls := fun k' n' c' hcall => by
      dsimp only at hcall ⊢
      by_cases hk : k' = k
      · subst hk
        rw [Function.update_self] at hcall
        cases hcall
      · exact h.calls k' n' c' (by rwa [Function.update_of_ne hk] at hcall) }

/-- A turn begins. -/
theorem Overlapping.turn (h : Overlapping sessionId own start s) {n : ℕ} (hnew : s.turns n = none) (job : Job) :
    Overlapping sessionId own start { s with
      turns := Function.update s.turns n (some ⟨job, s.world.histories sessionId, s.stored.length⟩) } := by
  have hof : ∀ m turn, s.turns m = some turn →
      Function.update s.turns n (some ⟨job, s.world.histories sessionId, s.stored.length⟩) m = some turn := by
    intro m turn hturn
    have hne : m ≠ n := by
      rintro rfl
      exact nomatch hnew.symm.trans hturn
    rw [Function.update_of_ne hne, hturn]
  refine { h with
    unused := fun m hm => ?_, begun := fun m turn hturn => ?_, course := fun m turn hturn => ?_,
    calls := fun k m c hcall => ?_, paused := fun x hx => ?_ }
  · by_cases hne : m = n
    · subst hne
      simp at hm
    · exact h.unused m (by simpa [Function.update_of_ne hne] using hm)
  · by_cases hne : m = n
    · subst hne
      obtain rfl : (⟨job, s.world.histories sessionId, s.stored.length⟩ : OpenTurn) = turn := by simpa using hturn
      exact ⟨h.settled, le_rfl, h.history⟩
    · exact h.begun m turn (by simpa [Function.update_of_ne hne] using hturn)
  · by_cases hne : m = n
    · subst hne
      intro id hid record state hrecord
      exact nomatch (h.unused m hnew id hid).symm.trans hrecord
    · exact h.course m turn (by simpa [Function.update_of_ne hne] using hturn)
  · obtain ⟨turn, hturn, hwp⟩ := h.calls k m c hcall
    exact ⟨turn, hof m turn hturn, hwp⟩
  · obtain ⟨⟨turn, hturn⟩, hid⟩ := h.paused x hx
    exact ⟨⟨turn, hof _ turn hturn⟩, hid⟩

/-- A report is stored. -/
theorem Overlapping.store (h : Overlapping sessionId own start s) {n : ℕ} {turn : OpenTurn} {report : Report}
    {w' : World} (hturn : s.turns n = some turn) (hcompleted : report.status = .completed)
    (hreported : Reported turn.before turn.job runId report) (hrecords : w'.records = s.world.records)
    (hstored : (extractConversationMessages report).mapM Message.persisted = some (w'.histories sessionId)) :
    Overlapping sessionId own start { s with
      world := w'
      stored := s.stored ++ [⟨turn, report, w'.histories sessionId⟩] } := by
  have hin := hreported.completed hcompleted
  obtain ⟨hsettled, hread, hbefore⟩ := h.begun n turn hturn
  have hsame : Tolerated own s w' := tolerated_same fun _ _ _ => by rw [hrecords]
  refine ⟨?_, ?_, ?_, ?_, h.paused, settled_stored hin.plain hstored, ?_, ?_⟩
  · exact fun n hn id hid => hsame.unused n hn id hid (h.unused n hn id hid)
  · intro m turn' hm
    obtain ⟨hsettled', hread', hbefore'⟩ := h.begun m turn' hm
    refine ⟨hsettled', ?_, hbefore'.trans (version_append hread' _).symm⟩
    rw [List.length_append]
    omega
  · exact fun m turn' hm => hsame.course m turn' hm (h.course m turn' hm)
  · intro k m c hcall
    obtain ⟨turn', hm, hwp⟩ := h.calls k m c hcall
    exact ⟨turn', hm, wp_stable turn_trans (hsame.course m turn' hm) hwp⟩
  · rw [List.length_append, List.length_singleton]
    exact (version_last (x := ⟨turn, report, w'.histories sessionId⟩)).symm
  · intro k x hx
    by_cases hk : k < s.stored.length
    · rw [List.getElem?_append_left hk] at hx
      exact (h.stored k x hx).append hk _
    · obtain rfl : k = s.stored.length := by
        have hlt := (List.getElem?_eq_some_iff.mp hx).1
        rw [List.length_append, List.length_singleton] at hlt
        omega
      obtain rfl : ⟨turn, report, w'.histories sessionId⟩ = x := by simpa using hx
      exact ⟨hread, hbefore.trans (version_append hread _).symm, hcompleted,
        fun hnone => stored_inTurn hsettled hin hnone hstored, hreported.answered hcompleted⟩

theorem after_persist (session : WorkerSession) (report : Report) (w : World) :
    After (S := sig) (fun _ _ => True) (persistReport session report) w fun t _ w' =>
      w'.records = w.records ∧ ((∀ e ∈ t, ¬ Replaces e) → w'.histories = w.histories) ∧
        ((∃ e ∈ t, Replaces e) → report.status = .completed ∧
          (extractConversationMessages report).mapM Message.persisted = some (w'.histories session.id)) := by
  unfold persistReport
  by_cases hcompleted : report.status = .completed
  · rw [if_pos hcompleted]
    apply after_bind
    refine (after_replaceMessages _ w).mono ?_
    rintro t (e | _) w₁ ⟨-, hrecords, hfails, hreplaced⟩
    · obtain ⟨hsame, hnone⟩ := hfails fun h => nomatch h
      exact ⟨hrecords, fun _ => hsame, fun ⟨e, he, hreplaces⟩ => absurd hreplaces (hnone e he)⟩
    · obtain ⟨hstored, e, he, hreplaces⟩ := hreplaced rfl
      have hsome : ∀ t', (∀ e ∈ t ++ t', ¬ Replaces e) → w₁.histories = w.histories := fun t' hno =>
        absurd hreplaces (hno e (List.mem_append_left _ he))
      apply after_bind
      refine (after_store _ w₁).mono ?_
      rintro _ (e' | _) _ ⟨rfl, rfl⟩
      · exact ⟨hrecords, hsome _, fun _ => ⟨hcompleted, hstored⟩⟩
      · exact after_pure ⟨hrecords, hsome _, fun _ => ⟨hcompleted, hstored⟩⟩
  · rw [if_neg hcompleted]
    exact after_pure ⟨rfl, fun _ => rfl, by simp⟩

/-- Every move keeps what holds in the middle of overlapping turns. -/
theorem Move.keeps (hdisjoint : Pairwise fun m n => Disjoint (own m) (own n))
    (h : Overlapping sessionId own start s) (hmove : Move desk sessionId own s s') :
    Overlapping sessionId own start s' := by
  cases hmove with
  | @begin n k worker job stream t job' w' hturn hcall hread =>
    obtain ⟨-, rfl, hjob⟩ := after_buildJob job s.world t _ w' hread
    have hbegun := h.turn hturn job
    have hself : Function.update s.turns n (some ⟨job, s.world.histories sessionId, s.stored.length⟩) n =
        some ⟨job, s.world.histories sessionId, s.stored.length⟩ := Function.update_self ..
    exact hbegun.call k hself (wp_turnRun h.settled desk worker job' _ (hjob job' rfl) (hbegun.course n _ hself))
  | @resume n k report decision stream hpaused hcall =>
    obtain ⟨⟨turn, hturn⟩, hid⟩ := h.paused _ hpaused
    exact h.call k hturn (wp_turnResume (h.begun n turn hturn).1 desk report decision stream hid (h.course n turn hturn))
  | @advance n k c t c' w' hcall hstep =>
    obtain ⟨turn, hturn, hwp⟩ := h.calls k n c hcall
    obtain ⟨hguar, hrest⟩ := wp_advance turn_refl hwp hstep
    rcases hguar with rfl | hguar
    · exact h.call k hturn hrest
    · exact (h.world (tolerated_guar hdisjoint hturn hguar) (congrFun hguar.1 sessionId)).call k hturn hrest
  | @raise n k e hcall => exact h.over k
  | @finish n k worker report t r w' hcall hpersist hkept =>
    obtain ⟨turn, hturn, hwp⟩ := h.calls k n _ hcall
    obtain ⟨-, hreported⟩ := hwp s.world (turn_refl _)
    obtain ⟨runId, hid, hreported⟩ := hreported report rfl
    obtain ⟨hrecords, hsame, -⟩ := after_persist ⟨sessionId, worker⟩ report s.world t r w' hpersist
    have hworld := (h.world (tolerated_same fun _ _ _ => by rw [hrecords]) (congrFun (hsame hkept) sessionId)).over k
    refine { hworld with paused := fun x hx => ?_ }
    by_cases hpaused : report.status = .paused
    · rw [if_pos hpaused] at hx
      rcases List.mem_append.mp hx with hx | hx
      · exact h.paused x hx
      · obtain rfl := List.mem_singleton.mp hx
        exact ⟨⟨turn, hturn⟩, hreported.paused hpaused ▸ hid⟩
    · rw [if_neg hpaused] at hx
      exact h.paused x hx
  | @store n k worker turn report t r w' hturn hcall hpersist hreplaced =>
    obtain ⟨turn', hturn', hwp⟩ := h.calls k n _ hcall
    obtain rfl := Option.some.inj (hturn.symm.trans hturn')
    obtain ⟨-, hreported⟩ := hwp s.world (turn_refl _)
    obtain ⟨runId, hid, hreported⟩ := hreported report rfl
    obtain ⟨hrecords, -, hstored⟩ := after_persist ⟨sessionId, worker⟩ report s.world t r w' hpersist
    obtain ⟨hcompleted, hstored⟩ := hstored hreplaced
    exact (h.over k).store hturn hcompleted hreported hrecords hstored
  | @other w' hhistory hrecords => exact h.world (tolerated_same hrecords) hhistory

theorem Start.overlapping (h : Start sessionId own start s) : Overlapping sessionId own start s where
  unused n _ := h.new n
  begun n turn hturn := nomatch (h.turns n).symm.trans hturn
  course n turn hturn := nomatch (h.turns n).symm.trans hturn
  calls k n c hcall := nomatch (h.calls k).symm.trans hcall
  paused x hx := by simp [h.paused] at hx
  settled := h.history ▸ h.settled
  history := by rw [h.history, h.stored]; rfl
  stored k x hx := by simp [h.stored] at hx

/-- What holds after any moves. -/
theorem overlapping_reached (hstart : Start sessionId own start s)
    (h : Relation.ReflTransGen (Move desk sessionId own) s s') : Overlapping sessionId own start s' := by
  induction h with
  | refl => exact hstart.overlapping
  | tail _ hmove ih => exact hmove.keeps hstart.disjoint ih

/-! ### What becomes of the turns -/

/-- The turn's user message and its conversation up to its final answer stand in the history, one
behind the other. -/
def StoredTurn.HeldIn (x : StoredTurn) (history : List Message) : Prop :=
  ∃ user kept m answer, (userMessage x.job).persisted = some user ∧
    x.report.messages.getLast? = some m ∧ m.role = .assistant ∧ (conversationMessage m).persisted = some answer ∧
      user :: (kept ++ [answer]) <:+: history

theorem StoredTurn.HeldIn.mono {history history' : List Message} (h : x.HeldIn history)
    (hpart : history <:+: history') : x.HeldIn history' := by
  obtain ⟨user, kept, m, answer, huser, hlast, hrole, hanswer, hin⟩ := h
  exact ⟨user, kept, m, answer, huser, hlast, hrole, hanswer, hin.trans hpart⟩

/-- The final answer is the last message that a turn adds. -/
theorem added_answer {messages added : List Message} {user : Message} (hrole : user.role = .user)
    (hmessages : nonSystem messages = before ++ user :: added) {ms : List Message} {m : Message}
    (hlast : messages = ms ++ [m]) (hm : m.role = .assistant) : ∃ added', added = added' ++ [m] := by
  have hend : nonSystem messages = nonSystem ms ++ [m] := by
    rw [hlast, WorkerRunner.nonSystem, List.filter_append, List.filter_singleton]
    simp [hm, WorkerRunner.nonSystem]
  rcases List.eq_nil_or_concat added with rfl | ⟨added', last, rfl⟩
  · have hsame := List.append_inj' (hmessages.symm.trans hend) rfl
    rw [List.singleton_inj.mp hsame.2, hm] at hrole
    cases hrole
  · have hsplit : (before ++ user :: added') ++ [last] = nonSystem ms ++ [m] := by
      rw [← hend, hmessages, List.concat_eq_append, List.append_assoc, List.cons_append]
    have hsame := List.append_inj' hsplit rfl
    exact ⟨added', by rw [List.concat_eq_append, List.singleton_inj.mp hsame.2]⟩

/-- A turn that is stored is held in the history it leaves. -/
theorem StoredTurn.Sound.heldIn {k : ℕ} (h : x.Sound start stored k)
    (hnone : x.report.metrics.contextSummaries = none) : x.before <+: x.after ∧ x.HeldIn x.after := by
  obtain ⟨user, added, kept, huser, hmessages, hkept, hafter⟩ := h.appended hnone
  obtain ⟨ms, m, hlast, hm, hcalls⟩ := h.answered hnone
  have hadded : ∃ added', added = added' ++ [m] := by
    rcases hmessages with hmessages | hmessages
    · exact added_answer rfl hmessages hlast hm
    · exact added_answer (persisted_fields huser).1 hmessages hlast hm
  obtain ⟨added', rfl⟩ := hadded
  have hconversation : isConversation m = true := by simp [isConversation, hm]
  rw [List.filter_append, List.filter_singleton, hconversation, List.map_append, List.mapM_append] at hkept
  simp only [cond_true, List.map_cons, List.map_nil, List.mapM_cons, List.mapM_nil, Option.bind_eq_bind,
    Option.bind_eq_some_iff, Option.pure_def] at hkept
  obtain ⟨kept', -, _, ⟨answer, hanswer, _, ⟨⟩, ⟨⟩⟩, ⟨⟩⟩ := hkept
  refine ⟨⟨_, hafter.symm⟩, user, kept', m, answer, huser, ?_, hm, hanswer, ?_⟩
  · rw [hlast, List.getLast?_concat]
  · rw [hafter]
    exact (List.suffix_append _ _).isInfix

/-- Turns that were stored one after the other, none of them compacted: each had begun when the one
before it was stored. -/
def InOrder (stored : List StoredTurn) : Prop :=
  ∀ k (x : StoredTurn), stored[k]? = some x → x.read = k ∧ x.report.metrics.contextSummaries = none

theorem heldIn_version (hsound : ∀ k (x : StoredTurn), stored[k]? = some x → x.Sound start stored k)
    (horder : InOrder stored) {k : ℕ} (hk : k ≤ stored.length) :
    start <+: version start stored k ∧ ∀ x ∈ stored.take k, x.HeldIn (version start stored k) := by
  induction k with
  | zero => exact ⟨List.prefix_rfl, by simp⟩
  | succ k ih =>
    obtain ⟨hstart, hheld⟩ := ih (Nat.le_of_succ_le hk)
    have hx : stored[k]? = some stored[k] := List.getElem?_eq_getElem hk
    obtain ⟨hread, hnone⟩ := horder k _ hx
    have hlast := hsound k _ hx
    obtain ⟨hstarts, hself⟩ := hlast.heldIn hnone
    rw [hlast.before_eq, hread] at hstarts
    rw [version_succ hx]
    refine ⟨hstart.trans hstarts, fun x hmem => ?_⟩
    rw [List.take_add_one, hx, Option.toList_some] at hmem
    rcases List.mem_append.mp hmem with hmem | hmem
    · exact (hheld x hmem).mono hstarts.isInfix
    · exact List.mem_singleton.mp hmem ▸ hself

/-- However the calls of a session overlap, its history is what the last turn that was stored has left:
the history which that turn had read when it began, with its own messages behind it. Turns that were
stored in order are all held in it. -/
theorem turns_overlapping (hstart : Start sessionId own start s)
    (h : Relation.ReflTransGen (Move desk sessionId own) s s') :
    s'.world.histories sessionId = version start s'.stored s'.stored.length ∧
      (∀ k (x : StoredTurn), s'.stored[k]? = some x → x.Sound start s'.stored k) ∧
      (InOrder s'.stored → start <+: s'.world.histories sessionId ∧
        ∀ x ∈ s'.stored, x.HeldIn (s'.world.histories sessionId)) := by
  have hreached := overlapping_reached hstart h
  refine ⟨hreached.history, hreached.stored, fun horder => ?_⟩
  obtain ⟨hstarts, hheld⟩ := heldIn_version hreached.stored horder le_rfl
  rw [← hreached.history, List.take_length] at hheld
  exact ⟨hreached.history ▸ hstarts, hheld⟩

/-! ### Two turns -/

/-- A call of the session runs to its end. -/
theorem moves_run {n k : ℕ} {c : Prog Report} {t : Trace sig} {r : Except Exn Report} (hcall : s.calls k = some (n, c))
    (hr : Runs (S := sig) (Mints (own n)) c s.world t r w') :
    Relation.ReflTransGen (Move desk sessionId own) s
      { s with world := w', calls := Function.update s.calls k (some (n, .ret r)) } := by
  have hstart : Relation.ReflTransGen (Move desk sessionId own) s
      { s with world := s.world, calls := Function.update s.calls k (some (n, c)) } := by
    rw [← hcall, Function.update_eq_self]
  refine hr.advance (I := fun c w => Relation.ReflTransGen (Move desk sessionId own) s
    { s with world := w, calls := Function.update s.calls k (some (n, c)) }) ?_ hstart
  intro c w t c' w' hmoves hstep
  let now : Progress := { s with world := w, calls := Function.update s.calls k (some (n, c)) }
  have hmove : Move desk sessionId own now
      { now with world := w', calls := Function.update now.calls k (some (n, c')) } :=
    .advance (Function.update_self ..) hstep
  have hcalls : Function.update now.calls k (some (n, c')) = Function.update s.calls k (some (n, c')) :=
    Function.update_idem ..
  rw [hcalls] at hmove
  exact hmoves.tail hmove

/-- A call runs to its end, and its report is stored. -/
theorem moves_store {n k : ℕ} {turn : OpenTurn} {worker : Worker} {c : Prog Report} {t t' : Trace sig}
    {report : Report} {r : Except Exn Report} {w₁ : World} (hturn : s.turns n = some turn)
    (hcall : s.calls k = some (n, c)) (hr : Runs (S := sig) (Mints (own n)) c s.world t (.ok report) w₁)
    (hpersist : Runs (S := sig) (fun _ _ => True) (persistReport ⟨sessionId, worker⟩ report) w₁ t' r w')
    (hreplaced : ∃ e ∈ t', Replaces e) :
    Relation.ReflTransGen (Move desk sessionId own) s { s with
      world := w'
      calls := Function.update s.calls k none
      stored := s.stored ++ [⟨turn, report, w'.histories sessionId⟩] } := by
  let now : Progress := { s with world := w₁, calls := Function.update s.calls k (some (n, .ret (.ok report))) }
  have hmove : Move desk sessionId own now { now with
      world := w'
      calls := Function.update now.calls k none
      stored := s.stored ++ [⟨turn, report, w'.histories sessionId⟩] } :=
    .store hturn (Function.update_self ..) hpersist hreplaced
  have hcalls : Function.update now.calls k none = Function.update s.calls k none := Function.update_idem ..
  rw [hcalls] at hmove
  exact (moves_run hcall hr).tail hmove

/-- A call runs to its end and returns a paused report. -/
theorem moves_pause {n k : ℕ} {c : Prog Report} {t : Trace sig} {report : Report} {w₁ : World}
    (hcall : s.calls k = some (n, c)) (hr : Runs (S := sig) (Mints (own n)) c s.world t (.ok report) w₁)
    (hpaused : report.status = .paused) :
    Relation.ReflTransGen (Move desk sessionId own) s { s with
      world := w₁
      calls := Function.update s.calls k none
      paused := s.paused ++ [(n, report)] } := by
  let now : Progress := { s with world := w₁, calls := Function.update s.calls k (some (n, .ret (.ok report))) }
  have hpersist : Runs (S := sig) (fun _ _ => True) (persistReport ⟨sessionId, plainWorker⟩ report) w₁ [] (.ok report) w₁ := by
    rw [persistReport, if_neg (by simp [hpaused])]
    exact .ret _ _
  have hmove : Move desk sessionId own now { now with
      world := w₁
      calls := Function.update now.calls k none
      paused := if report.status = .paused then s.paused ++ [(n, report)] else s.paused } :=
    .finish (Function.update_self ..) hpersist (by simp)
  have hcalls : Function.update now.calls k none = Function.update s.calls k none := Function.update_idem ..
  rw [hcalls, if_pos hpaused] at hmove
  exact (moves_run hcall hr).tail hmove

theorem runs_buildJob (session : WorkerSession) (job : Job) (w : World) :
    Runs (S := sig) (fun _ _ => True) (buildJob session job) w [⟨.store (.getMessages session.id), .ok ()⟩]
      (.ok { job with
        initialMessages :=
          if (w.histories session.id).isEmpty then none else some (w.histories session.id) }) w :=
  .ask trivial (.act (.ret _ _))

def stopJob : Job where
  id := "stop"
  input := .str "stop"

/-- The ids of a turn. -/
def turnIds : ℕ → Set RunId
  | 0 => {id | ∃ m : ℕ, id = "a" ++ toString m}
  | 1 => {id | ∃ m : ℕ, id = "b" ++ toString m}
  | _ => ∅

theorem turnIds_disjoint : Pairwise fun m n => Disjoint (turnIds m) (turnIds n) := by
  have hfirst : Disjoint (turnIds 0) (turnIds 1) := by
    refine Set.disjoint_left.mpr ?_
    rintro id ⟨m, rfl⟩ ⟨m', h⟩
    have hlists := congrArg String.toList h
    simp only [String.toList_append] at hlists
    exact absurd (List.cons.inj hlists).1 (by decide)
  rintro (_ | _ | m) (_ | _ | n) hne
  · exact absurd rfl hne
  · exact hfirst
  · exact Set.disjoint_empty _
  · exact hfirst.symm
  · exact absurd rfl hne
  · exact Set.disjoint_empty _
  all_goals exact Set.empty_disjoint _

/-- Ids begin with the turn's letter, and the model answers the same at each request. -/
def turnAnswers (letter : String) (response : ModelResponse) (n : ℕ) : ∀ q, Answer q
  | .newId => letter ++ toString n
  | q => plainAnswers (fun _ => response) n q

theorem turnAnswers_mints {letter : String} {ids : Set RunId} (h : ∀ m : ℕ, letter ++ toString m ∈ ids)
    (response : ModelResponse) (n : ℕ) (q : Query) : Mints ids q (turnAnswers letter response n q) := by
  cases q <;> first | exact h n | trivial

theorem after_persist_ok (session : WorkerSession) {report : Report} (hcompleted : report.status = .completed)
    (w : World) : After (S := sig) (fun _ _ => True) (persistReport session report) w fun t r _ =>
      ∀ report', r = .ok report' → ∃ e ∈ t, Replaces e := by
  rw [persistReport, if_pos hcompleted]
  apply after_bind
  refine (after_replaceMessages _ w).mono ?_
  rintro t (e | _) w₁ ⟨-, -, -, hreplaced⟩
  · exact fun _ h => nomatch h
  obtain ⟨-, e, he, hreplaces⟩ := hreplaced rfl
  apply after_bind
  refine (after_store _ w₁).mono ?_
  rintro _ (e' | _) _ -
  · exact fun _ h => nomatch h
  · exact after_pure fun _ _ => ⟨e, by simp [he], hreplaces⟩

/-- Calls the tool that waits. -/
def waitResponse : ModelResponse where
  content := none
  toolCalls := [{ id := "c1", name := "deploy", arguments := [] }]

def doneResponse : ModelResponse where
  content := some "done"

/-- A call of that session on the desk. -/
@[irreducible] def called (letter : String) (response : ModelResponse) (c : Prog Report) (w : World) :
    Trace sig × Except Exn Report × World :=
  runIn (turnAnswers letter response) c w

/-- The report of a call is stored. -/
@[irreducible] def persisted (report : Report) (w : World) : Trace sig × Except Exn Report × World :=
  runIn (plainAnswers fun _ => doneResponse) (persistReport plainSession report) w

def reportOf (outcome : Trace sig × Except Exn Report × World) : Report :=
  outcome.2.1.toOption.getD { runId := "", status := .failed }

/-- The call that a turn begins with, on the history as it is. -/
def runCall (job : Job) (w : World) : Prog Report :=
  Desk.arun plainDesk Desk.runners (.worker plainWorker) { job with
    initialMessages := if (w.histories "session").isEmpty then none else some (w.histories "session") } (some false) none

def resumeCall (report : Report) : Prog Report :=
  Desk.aresume plainDesk Desk.runners report (.bool true) (some false)

theorem runs_called {letter : String} {ids : Set RunId} (h : ∀ m : ℕ, letter ++ toString m ∈ ids)
    (response : ModelResponse) (c : Prog Report) (w : World) :
    Runs (S := sig) (Mints ids) c w (called letter response c w).1 (called letter response c w).2.1
      (called letter response c w).2.2 := by
  rw [called]
  exact runIn_runs (fun n q => turnAnswers_mints h response n q) _ _

theorem runs_persisted (report : Report) (w : World) :
    Runs (S := sig) (fun _ _ => True) (persistReport plainSession report) w (persisted report w).1
      (persisted report w).2.1 (persisted report w).2.2 := by
  rw [persisted]
  exact runIn_runs (fun _ _ => trivial) _ _

theorem eq_ok_reportOf {outcome : Trace sig × Except Exn Report × World} (h : outcome.2.1.toOption.isSome) :
    outcome.2.1 = .ok (reportOf outcome) := by
  obtain ⟨t, e | report, w⟩ := outcome
  · cases h
  · rfl

/-- The turn that waits for a decision. -/
abbrev goPaused : Trace sig × Except Exn Report × World := called "a" waitResponse (runCall plainJob {}) {}

abbrev goTurn : OpenTurn where
  job := plainJob
  before := []
  read := 0

/-- That turn has begun and waits. -/
def waiting : Progress where
  world := goPaused.2.2
  turns := Function.update (fun _ => none) 0 (some goTurn)
  calls _ := none
  paused := [(0, reportOf goPaused)]
  stored := []

/-- The turn that waits goes on and is stored. -/
abbrev resumedIn (w : World) : Trace sig × Except Exn Report × World :=
  called "a" doneResponse (resumeCall (reportOf goPaused)) w

def Progress.resumed (s : Progress) : Progress :=
  let outcome := resumedIn s.world
  let w' := (persisted (reportOf outcome) outcome.2.2).2.2
  { s with world := w', stored := s.stored ++ [⟨goTurn, reportOf outcome, w'.histories "session"⟩] }

/-- Another turn begins and is stored. -/
abbrev stoppedIn (w : World) : Trace sig × Except Exn Report × World :=
  called "b" doneResponse (runCall stopJob w) w

def Progress.stopped (s : Progress) : Progress :=
  let outcome := stoppedIn s.world
  let w' := (persisted (reportOf outcome) outcome.2.2).2.2
  let turn := ⟨stopJob, s.world.histories "session", s.stored.length⟩
  { s with
    world := w'
    turns := Function.update s.turns 1 (some turn)
    stored := s.stored ++ [⟨turn, reportOf outcome, w'.histories "session"⟩] }

/-- A call that returned a completed report which was stored. -/
def stores (outcome : Trace sig × Except Exn Report × World) : Bool :=
  outcome.2.1.toOption.isSome && decide ((reportOf outcome).status = .completed) &&
    (persisted (reportOf outcome) outcome.2.2).2.1.toOption.isSome

theorem moves_begin {n k : ℕ} {job : Job} (hturn : s.turns n = none) (hcall : s.calls k = none) :
    Move plainDesk "session" own s { s with
      turns := Function.update s.turns n (some ⟨job, s.world.histories "session", s.stored.length⟩)
      calls := Function.update s.calls k (some (n, runCall job s.world)) } :=
  .begin hturn hcall (runs_buildJob plainSession job s.world)

theorem moves_stored {n k : ℕ} {turn : OpenTurn} {letter : String} {response : ModelResponse} {c : Prog Report}
    (hids : ∀ m : ℕ, letter ++ toString m ∈ own n) (hturn : s.turns n = some turn)
    (hcall : s.calls k = some (n, c)) (hstores : stores (called letter response c s.world) = true) :
    let outcome := called letter response c s.world
    let w' := (persisted (reportOf outcome) outcome.2.2).2.2
    Relation.ReflTransGen (Move plainDesk "session" own) s { s with
      world := w'
      calls := Function.update s.calls k none
      stored := s.stored ++ [⟨turn, reportOf outcome, w'.histories "session"⟩] } := by
  intro outcome w'
  obtain ⟨⟨hok, hcompleted⟩, hstored⟩ : (_ ∧ _) ∧ _ := by simpa [stores] using hstores
  have hrun := runs_called hids response c s.world
  rw [eq_ok_reportOf hok] at hrun
  have hpersist := runs_persisted (reportOf outcome) outcome.2.2
  rw [eq_ok_reportOf hstored] at hpersist
  have hreplaced := after_persist_ok plainSession hcompleted outcome.2.2 _ _ _ hpersist _ rfl
  exact moves_store hturn hcall hrun hpersist hreplaced

theorem moves_resumed (hturn : s.turns 0 = some goTurn) (hpaused : (0, reportOf goPaused) ∈ s.paused)
    (hcall : s.calls 0 = none) (hstores : stores (resumedIn s.world) = true) :
    Relation.ReflTransGen (Move plainDesk "session" turnIds) s s.resumed := by
  let now : Progress := { s with calls := Function.update s.calls 0 (some (0, resumeCall (reportOf goPaused))) }
  have hmove : Move plainDesk "session" turnIds s now := .resume hpaused hcall
  have hids : ∀ m : ℕ, "a" ++ toString m ∈ turnIds 0 := fun m => ⟨m, rfl⟩
  have hopen : now.calls 0 = some (0, resumeCall (reportOf goPaused)) := by simp [now]
  have hrest := moves_stored (s := now) hids hturn hopen hstores
  have hcalls : Function.update now.calls 0 none = s.calls := by
    rw [Function.update_idem, ← hcall, Function.update_eq_self]
  rw [hcalls] at hrest
  exact .head hmove hrest

theorem moves_stopped (hturn : s.turns 1 = none) (hcall : s.calls 0 = none)
    (hstores : stores (stoppedIn s.world) = true) :
    Relation.ReflTransGen (Move plainDesk "session" turnIds) s s.stopped := by
  let turn : OpenTurn := ⟨stopJob, s.world.histories "session", s.stored.length⟩
  let now : Progress := { s with
    turns := Function.update s.turns 1 (some turn)
    calls := Function.update s.calls 0 (some (1, runCall stopJob s.world)) }
  have hmove : Move plainDesk "session" turnIds s now := moves_begin hturn hcall
  have hids : ∀ m : ℕ, "b" ++ toString m ∈ turnIds 1 := fun m => ⟨m, rfl⟩
  have hbegun : now.turns 1 = some turn := by simp [now]
  have hopen : now.calls 0 = some (1, runCall stopJob s.world) := by simp [now]
  have hrest := moves_stored (s := now) hids hbegun hopen hstores
  have hcalls : Function.update now.calls 0 none = s.calls := by
    rw [Function.update_idem, ← hcall, Function.update_eq_self]
  rw [hcalls] at hrest
  exact .head hmove hrest

/-- Before the first turn. -/
def idle : Progress where
  world := {}
  turns _ := none
  calls _ := none
  paused := []
  stored := []

theorem start_idle : Start "session" turnIds [] idle where
  disjoint := turnIds_disjoint
  history := rfl
  settled := settled_nil
  new _ _ _ := rfl
  turns _ := rfl
  calls _ := rfl
  paused := rfl
  stored := rfl

theorem moves_waiting : Relation.ReflTransGen (Move plainDesk "session" turnIds) idle waiting := by
  let now : Progress := { idle with
    turns := Function.update idle.turns 0 (some goTurn)
    calls := Function.update idle.calls 0 (some (0, runCall plainJob {})) }
  have hmove : Move plainDesk "session" turnIds idle now := moves_begin rfl rfl
  have hopen : now.calls 0 = some (0, runCall plainJob {}) := by simp [now]
  have hids : ∀ m : ℕ, "a" ++ toString m ∈ turnIds 0 := fun m => ⟨m, rfl⟩
  have hrun := runs_called hids waitResponse (runCall plainJob {}) {}
  rw [eq_ok_reportOf (by decide +kernel)] at hrun
  have hrest : Relation.ReflTransGen (Move plainDesk "session" turnIds) now { now with
      world := goPaused.2.2
      calls := Function.update now.calls 0 none
      paused := now.paused ++ [(0, reportOf goPaused)] } :=
    moves_pause hopen hrun (by decide +kernel)
  have hcalls : Function.update now.calls 0 none = idle.calls := by
    rw [Function.update_idem]
    exact Function.update_eq_self ..
  rw [hcalls] at hrest
  exact .head hmove hrest

theorem inOrder_waiting : InOrder waiting.resumed.stopped.stored := by
  have hnone : waiting.resumed.stopped.stored.all (fun x => x.report.metrics.contextSummaries.isNone) := by
    decide +kernel
  intro k x hx
  refine ⟨?_, Option.isNone_iff_eq_none.mp (List.all_eq_true.mp hnone x (List.mem_of_getElem? hx))⟩
  rcases k with _ | _ | k
  · obtain rfl := Option.some.inj hx
    rfl
  · obtain rfl := Option.some.inj hx
    rfl
  · cases hx

/-- A turn that begins once the one that waited is stored. -/
theorem turns_overlapping_in_order : waiting.resumed.stopped.stored.length = 2 ∧
    ∀ x ∈ waiting.resumed.stopped.stored, x.HeldIn (waiting.resumed.stopped.world.histories "session") := by
  have hresumed := moves_resumed (s := waiting) rfl (List.mem_singleton_self _) rfl (by decide +kernel)
  have hstopped := moves_stopped (s := waiting.resumed) rfl rfl (by decide +kernel)
  have hmoves := (moves_waiting.trans hresumed).trans hstopped
  obtain ⟨-, -, hheld⟩ := turns_overlapping start_idle hmoves
  exact ⟨rfl, (hheld inOrder_waiting).2⟩

/-- A turn that completes while another one waits is lost when that one is stored. -/
theorem not_turns_overlapping : ¬ ∀ (desk : DeskSettings) (sessionId : String) (own : ℕ → Set RunId)
    (start : List Message) (s s' : Progress), Start sessionId own start s →
      Relation.ReflTransGen (Move desk sessionId own) s s' →
        (∀ x ∈ s'.stored, x.report.metrics.contextSummaries = none) →
          ∀ x ∈ s'.stored, x.HeldIn (s'.world.histories sessionId) := by
  intro h
  have hstopped := moves_stopped (s := waiting) rfl rfl (by decide +kernel)
  have hresumed := moves_resumed (s := waiting.stopped) rfl (List.mem_singleton_self _) rfl (by decide +kernel)
  have hmoves := (moves_waiting.trans hstopped).trans hresumed
  have hnone : waiting.stopped.resumed.stored.all (fun x => x.report.metrics.contextSummaries.isNone) := by
    decide +kernel
  have hheld := h _ _ _ _ _ _ start_idle hmoves
    (fun x hx => Option.isNone_iff_eq_none.mp (List.all_eq_true.mp hnone x hx)) _ List.mem_cons_self
  obtain ⟨user, kept, m, answer, huser, -, -, -, hin⟩ := hheld
  have hmem : user ∈ waiting.stopped.resumed.world.histories "session" := hin.subset List.mem_cons_self
  have hlost : (waiting.stopped.resumed.world.histories "session").all fun m =>
      (userMessage stopJob).persisted.all fun user => user.content.pyStr ≠ m.content.pyStr := by
    decide +kernel
  have hdiffers := List.all_eq_true.mp hlost user hmem
  have hsame : (userMessage stopJob).persisted = some user := huser
  simp [hsame] at hdiffers

end Blackgeorge.Session
