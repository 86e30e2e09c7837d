import Blackgeorge.Session.Turns

/-! Whole sessions. Their turns run one at a time on one stored history; each is a run and the
resumes of its paused reports. The history keeps no system messages, grows by completed turns
only, and the first model call of a turn sends it behind one system message. -/

namespace Blackgeorge.Session

open Data Program WorkerRunner Coroutine Coro

variable {desk : DeskSettings} {session : WorkerSession} {before : List Message} {job : Job}
  {w w₁ w' : World} {t t' : Trace sig} {r : Except Exn Report}

/-- The store fails to update the session. -/
def UpdateFails (sessionId : String) : Event sig → Prop
  | ⟨.store (.updateSession s), .error _⟩ => s = sessionId
  | _ => False

/-- The turn's user message and what the turn added of its conversation, behind the history. -/
def Appends (before : List Message) (job : Job) (messages after : List Message) : Prop :=
  ∃ user added kept, (userMessage job).persisted = some user ∧
    (nonSystem messages = before ++ userMessage job :: added ∨
      nonSystem messages = before ++ user :: added) ∧
    ((added.filter isConversation).map conversationMessage).mapM Message.persisted = some kept ∧
    after = before ++ user :: kept

/-- What a run or a resume of a turn does to the stored history. -/
structure Leg (session : WorkerSession) (before : List Message) (job : Job) (w : World)
    (t : Trace sig) (r : Except Exn Report) (w' : World) : Prop where
  settled : Settled (w.histories session.id) → Settled (w'.histories session.id)
  kept : (∀ e ∈ t, ¬ UpdateFails session.id e) →
    (∀ report, r = .ok report → report.status ≠ .completed) →
      w'.histories session.id = w.histories session.id
  appended : ∀ report, r = .ok report → report.status = .completed →
    report.metrics.contextSummaries = none →
      Appends before job report.messages (w'.histories session.id)

theorem leg_same (h : w'.histories = w.histories)
    (hr : ∀ report, r = .ok report → report.status ≠ .completed) :
    Leg session before job w t r w' :=
  ⟨fun hs => h ▸ hs, fun _ _ => h ▸ rfl, fun report hreport h => absurd h (hr report hreport)⟩

/-! ### Persisting a report -/

theorem silent_append (h : ∀ e ∈ t, Silent e) (h' : ∀ e ∈ t', Silent e) : ∀ e ∈ t ++ t', Silent e :=
  fun e he => (List.mem_append.mp he).elim (h e) (h' e)

/-- The stored history has been replaced. -/
def Replaces : Event sig → Prop
  | ⟨.store (.replaceMessages ..), .ok _⟩ => True
  | _ => False

theorem after_replaceMessages (messages : List Message) (w : World) :
    After (S := sig) (fun _ _ => True) (replaceMessages session messages) w fun t r w' =>
      (∀ e ∈ t, Silent e) ∧ w'.records = w.records ∧
        (r ≠ .ok () → w'.histories = w.histories ∧ ∀ e ∈ t, ¬ Replaces e) ∧ (r = .ok () →
          messages.mapM Message.persisted = some (w'.histories session.id) ∧ ∃ e ∈ t, Replaces e) := by
  apply after_bind
  apply after_ofExcept
  cases hstored : orSerializationError (messages.mapM Message.persisted) with
  | error e => exact ⟨by simp, rfl, fun _ => ⟨rfl, by simp⟩, fun h => nomatch h⟩
  | ok stored =>
    apply after_bind
    refine (after_store _ w).mono ?_
    rintro _ (e | _) w ⟨rfl, rfl⟩
    · refine ⟨List.forall_mem_singleton.mpr rfl, rfl, fun _ => ⟨rfl, ?_⟩, fun h => nomatch h⟩
      exact List.forall_mem_singleton.mpr fun h => h
    · refine after_update ⟨List.forall_mem_singleton.mpr rfl, rfl, fun h => absurd rfl h, fun _ => ⟨?_, ?_⟩⟩
      · have hnew := WorkforceRun.orSerializationError_ok hstored
        simpa using hnew
      · exact ⟨⟨.store (.replaceMessages session.id messages), .ok ()⟩, by simp, trivial⟩

/-- A report of the turn is persisted. -/
theorem after_persistReport (hsettled : Settled before) {report : Report}
    (hturn : report.status = .completed → InTurn before job report.messages report.metrics)
    (w : World) :
    After (S := sig) (fun _ _ => True) (persistReport session report) w fun t r w' =>
      Leg session before job w t r w' ∧ (∀ e ∈ t, Silent e) ∧ w'.records = w.records ∧
        ∀ report', r = .ok report' → report' = report := by
  unfold persistReport
  by_cases hcompleted : report.status = .completed
  · rw [if_pos hcompleted]
    apply after_bind
    refine (after_replaceMessages _ w).mono ?_
    rintro t (e | _) w₁ ⟨ht, hrecords, hsame, hstored⟩
    · have hsame := (hsame fun h => nomatch h).1
      exact ⟨leg_same hsame fun _ h => (nomatch h), ht, hrecords, fun _ h => (nomatch h)⟩
    · have hstored := (hstored rfl).1
      have hInTurn := hturn hcompleted
      have hnew : Settled (w₁.histories session.id) := settled_stored hInTurn.plain hstored
      apply after_bind
      refine (after_store _ w₁).mono ?_
      rintro _ (e | _) w₁ ⟨rfl, rfl⟩
      · refine ⟨⟨fun _ => hnew, fun hkept => ?_, fun _ h => (nomatch h)⟩, ?_, hrecords, fun _ h => (nomatch h)⟩
        · exact (hkept ⟨.store (.updateSession session.id), .error e⟩ (by simp) rfl).elim
        · exact silent_append ht (List.forall_mem_singleton.mpr rfl)
      · refine after_pure ⟨⟨fun _ => hnew, fun _ hnot => absurd hcompleted (hnot report rfl), ?_⟩, ?_, hrecords, ?_⟩
        · rintro _ ⟨⟩ - hnone
          exact stored_inTurn hsettled hInTurn hnone hstored
        · exact silent_append ht (List.forall_mem_singleton.mpr rfl)
        · rintro _ ⟨⟩
          rfl
  · rw [if_neg hcompleted]
    refine after_pure ⟨leg_same rfl ?_, by simp, rfl, ?_⟩
    · rintro _ ⟨⟩
      exact hcompleted
    · rintro _ ⟨⟩
      rfl

/-! ### Runs and resumes of a session -/

theorem Leg.after_same (h : Leg session before job w₁ t' r w')
    (hw : w₁.histories session.id = w.histories session.id) :
    Leg session before job w (t ++ t') r w' where
  settled hs := h.settled (hw ▸ hs)
  kept hkept hr := (h.kept (fun e he => hkept e (List.mem_append_right _ he)) hr).trans hw
  appended := h.appended

theorem Led.persisted {worker : Worker} {report : Report}
    (h : Led desk worker before job t (.ok report)) (ht : ∀ e ∈ t', Silent e)
    (hr : ∀ report', r = .ok report' → report' = report) :
    Led desk worker before job (t ++ t') r := by
  rcases h with ⟨memory, hmemory, hopens⟩ | ⟨-, hraise⟩
  · refine .inl ⟨memory, List.mem_append_left _ hmemory, fun hfits => ?_⟩
    refine (hopens hfits).before_none ht fun hdone report' hreport' => ?_
    exact hr report' hreport' ▸ hdone report rfl
  · exact absurd rfl (hraise report)

theorem Led.after_silent {worker : Worker} (h : Led desk worker before job t' r) (ht : ∀ e ∈ t, Silent e) :
    Led desk worker before job (t ++ t') r := by
  rcases h with ⟨memory, hmemory, hopens⟩ | ⟨ht', hr⟩
  · exact .inl ⟨memory, List.mem_append_right _ hmemory, fun hfits => (hopens hfits).after_none ht⟩
  · exact .inr ⟨silent_append ht ht', hr⟩

/-- What the run does that a turn begins with. -/
structure RunLeg (desk : DeskSettings) (session : WorkerSession) (before : List Message) (job : Job)
    (w : World) (t : Trace sig) (r : Except Exn Report) (w' : World) : Prop
    extends Leg session before job w t r w' where
  led : Led desk session.worker before job t r
  paused : ∀ report, r = .ok report → report.status = .paused →
    InCourse before job report.runId w'.records

theorem runLeg_raise {e : Exn} (ht : ∀ e ∈ t, Silent e)
    (hw : w'.histories = w.histories) : RunLeg desk session before job w t (.error e) w' where
  toLeg := leg_same hw fun _ h => nomatch h
  led := .inr ⟨ht, fun _ h => nomatch h⟩
  paused := fun _ h => nomatch h

theorem RunLeg.after_silent (ht : ∀ e ∈ t, Silent e)
    (h : RunLeg desk session before job w t' r w') :
    RunLeg desk session before job w (t ++ t') r w' :=
  ⟨h.toLeg.after_same rfl, h.led.after_silent ht, h.paused⟩

theorem after_buildJob (job : Job) (w : World) :
    After (S := sig) (fun _ _ => True) (buildJob session job) w fun t r w' =>
      (∀ e ∈ t, Silent e) ∧ w' = w ∧ ∀ job', r = .ok job' → job' =
        { job with
          initialMessages :=
            if (w.histories session.id).isEmpty then none else some (w.histories session.id) } := by
  apply after_bind
  refine (after_store _ w).mono ?_
  rintro _ (e | _) w ⟨rfl, rfl⟩
  · exact ⟨List.forall_mem_singleton.mpr rfl, rfl, fun _ h => nomatch h⟩
  · apply after_bind
    apply after_look
    refine after_pure ⟨List.forall_mem_singleton.mpr rfl, rfl, ?_⟩
    rintro _ ⟨⟩
    rfl

theorem after_sessionRun (desk : DeskSettings) (job : Job) (stream : Bool) (w : World)
    (hsettled : Settled (w.histories session.id)) :
    After (S := sig) (fun _ _ => True) (arun desk Desk.runners session job stream) w
      (RunLeg desk session (w.histories session.id) job w) := by
  apply after_bind
  refine (after_buildJob job w).mono ?_
  rintro t (e | job') w ⟨ht, rfl, hjob⟩
  · exact runLeg_raise ht rfl
  obtain rfl := hjob job' rfl
  apply after_bind
  refine (after_arun hsettled desk session.worker job (some stream) w _ rfl).mono ?_
  rintro t₁ (e | report) w₁ hran
  · refine RunLeg.after_silent ht ⟨leg_same hran.histories fun _ h => (nomatch h), hran.led, ?_⟩
    exact fun _ h => nomatch h
  · refine (after_persistReport hsettled (hran.completed report rfl) w₁).mono ?_
    rintro t₂ r w₂ ⟨hleg, ht₂, hrecords, hr⟩
    have hsame : w₁.histories session.id = w.histories session.id := congrFun hran.histories session.id
    refine RunLeg.after_silent ht ⟨hleg.after_same hsame, hran.led.persisted ht₂ hr, ?_⟩
    intro report' hreport' hpaused
    obtain rfl := hr report' hreport'
    exact hrecords ▸ hran.paused report' rfl hpaused

/-- What a resume of the turn's paused report does. -/
theorem after_sessionResume (hsettled : Settled before) (desk : DeskSettings) (report : Report)
    (decision : Value) (stream : Option Bool) (w : World)
    (hcourse : InCourse before job report.runId w.records) :
    After (S := sig) (fun _ _ => True) (aresume desk Desk.runners session report decision stream) w
      fun t r w' => Leg session before job w t r w' ∧ InCourse before job report.runId w'.records ∧
        ∀ report', r = .ok report' → report'.status = .paused → report'.runId = report.runId := by
  apply after_bind
  refine (after_aresume hsettled desk report decision stream hcourse).mono ?_
  rintro t₁ (e | report') w₁ ⟨hhistories, hcourse₁, hreported⟩
  · exact ⟨leg_same hhistories fun _ h => (nomatch h), hcourse₁, fun _ h => (nomatch h)⟩
  · have hreported := hreported report' rfl
    refine (after_persistReport hsettled hreported.completed w₁).mono ?_
    rintro t₂ r w₂ ⟨hleg, -, hrecords, hr⟩
    refine ⟨hleg.after_same (congrFun hhistories session.id), hrecords ▸ hcourse₁, ?_⟩
    intro report'' hreport'' hpaused
    obtain rfl := hr report'' hreport''
    exact hreported.paused hpaused

/-! ### Turns -/

variable (desk session)

/-- The report that waits to be resumed after an outcome. One that raised leaves the last. -/
def waitingReport (last : Option Report) : Except Exn Report → Option Report
  | .ok report => if report.status = .paused then some report else none
  | .error _ => last

/-- A turn: a run and resumes of what it paused with. In between the world may change, but for the
session's history and the run's record. -/
inductive Turn (job : Job) (w : World) :
    Option Report → Trace sig → Except Exn Report → World → Prop
  | run {stream t r w'} (h : Runs (S := sig) (fun _ _ => True)
      (arun desk Desk.runners session job stream) w t r w') : Turn job w (waitingReport none r) t r w'
  | resume {report t r w₁ w₂ decision stream t' r' w₃} (h : Turn job w (some report) t r w₁)
      (hhistory : w₂.histories session.id = w₁.histories session.id)
      (hrecord : w₂.records report.runId = w₁.records report.runId)
      (hresume : Runs (S := sig) (fun _ _ => True)
        (aresume desk Desk.runners session report decision stream) w₂ t' r' w₃) :
      Turn job w (waitingReport (some report) r') (t ++ t') r' w₃

/-- The first model call sends the opening with a memory that was read, unless it has to be
compacted first. -/
def Begun (worker : Worker) (before : List Message) (job : Job) (t : Trace sig) : Prop :=
  First (S := sig) isModelCall (fun e => ∃ memory,
    (⟨.readMemory worker.memoryScope, .ok memory⟩ : Event sig) ∈ t ∧
      (FitsLimit desk.maxContextMessages (opening worker.instructions memory job before) →
        Sends (opening worker.instructions memory job before) e)) t

theorem InCourse.congr {runId : RunId} {records records' : RunId → Option RunRecord}
    (h : InCourse before job runId records) (hsame : records' runId = records runId) :
    InCourse before job runId records' :=
  fun record state hrecord => h record state (hsame ▸ hrecord)

/-- What holds of a turn. While a report waits the first model call has been made. -/
structure TurnSound (before : List Message) (job : Job) (w : World) (last : Option Report)
    (t : Trace sig) (r : Except Exn Report) (w' : World) : Prop
    extends Leg session before job w t r w' where
  begun : Begun desk session.worker before job t
  waiting : ∀ report, last = some report → InCourse before job report.runId w'.records ∧
    (∀ report', r = .ok report' → report'.status ≠ .completed) ∧ ∃ memory,
      (⟨.readMemory session.worker.memoryScope, .ok memory⟩ : Event sig) ∈ t ∧
        (FitsLimit desk.maxContextMessages (opening session.worker.instructions memory job before) →
          ∃ e, t.find? isModelCall = some e ∧
            Sends (opening session.worker.instructions memory job before) e)

variable {desk session}

theorem begun_of_led {worker : Worker} (h : Led desk worker before job t r) :
    Begun desk worker before job t := by
  rcases h with ⟨memory, hmemory, hopens⟩ | ⟨ht, -⟩
  · intro e he
    exact ⟨memory, hmemory, fun hfits => (hopens hfits).first e he⟩
  · exact first_of_none ht

theorem waitingReport_some {last : Option Report} {report : Report}
    (h : waitingReport last r = some report) :
    r = .ok report ∧ report.status = .paused ∨ last = some report ∧ ∃ e, r = .error e := by
  cases r with
  | error e => exact .inr ⟨h, e, rfl⟩
  | ok report' =>
    dsimp only [waitingReport] at h
    by_cases hpaused : report'.status = .paused
    · rw [if_pos hpaused] at h
      obtain rfl := Option.some.inj h
      exact .inl ⟨rfl, hpaused⟩
    · rw [if_neg hpaused] at h
      cases h

theorem RunLeg.sound (h : RunLeg desk session before job w t r w') :
    TurnSound desk session before job w (waitingReport none r) t r w' := by
  refine ⟨h.toLeg, begun_of_led h.led, fun report hlast => ?_⟩
  rcases waitingReport_some hlast with ⟨rfl, hpaused⟩ | ⟨hnone, -⟩
  · refine ⟨h.paused report rfl hpaused, ?_, ?_⟩
    · rintro _ ⟨⟩ hcompleted
      exact nomatch hpaused.symm.trans hcompleted
    · rcases h.led with ⟨memory, hmemory, hopens⟩ | ⟨-, hraise⟩
      · refine ⟨memory, hmemory, fun hfits => ?_⟩
        rcases hopens hfits with hfound | ⟨-, hdone⟩
        · exact hfound
        · exact absurd hpaused (hdone report rfl)
      · exact absurd rfl (hraise report)
  · cases hnone

/-- One turn of a session. -/
theorem Turn.sound {last : Option Report} (hsettled : Settled (w.histories session.id))
    (h : Turn desk session job w last t r w') :
    TurnSound desk session (w.histories session.id) job w last t r w' := by
  induction h with
  | run h => exact (after_sessionRun desk job _ w hsettled _ _ _ h).sound
  | @resume report t r w₁ w₂ decision stream t' r' w₃ h hhistory hrecord hresume ih =>
    obtain ⟨hcourse, hopen, memory, hmemory, hfound⟩ := ih.waiting report rfl
    obtain ⟨hleg, hcourse', hpaused⟩ := after_sessionResume hsettled desk report decision stream w₂
      (hcourse.congr hrecord) _ _ _ hresume
    have hfound' : FitsLimit desk.maxContextMessages
        (opening session.worker.instructions memory job (w.histories session.id)) →
        ∃ e, (t ++ t').find? isModelCall = some e ∧
          Sends (opening session.worker.instructions memory job (w.histories session.id)) e := by
      intro hfits
      obtain ⟨e, he, hsends⟩ := hfound hfits
      exact ⟨e, find?_append_of_some he, hsends⟩
    refine ⟨⟨?_, ?_, hleg.appended⟩, ?_, fun next hnext => ?_⟩
    · exact fun hs => hleg.settled (hhistory ▸ ih.settled hs)
    · intro hkept hr
      have hlast := hleg.kept (fun e he => hkept e (List.mem_append_right _ he)) hr
      have hfirst := ih.kept (fun e he => hkept e (List.mem_append_left _ he)) hopen
      exact hlast.trans (hhistory.trans hfirst)
    · intro e he
      refine ⟨memory, List.mem_append_left _ hmemory, fun hfits => ?_⟩
      obtain ⟨e', he', hsends⟩ := hfound' hfits
      exact Option.some.inj (he'.symm.trans he) ▸ hsends
    · refine ⟨?_, ?_, memory, List.mem_append_left _ hmemory, hfound'⟩
      · rcases waitingReport_some hnext with ⟨rfl, hnextPaused⟩ | ⟨hlast, -⟩
        · exact (hpaused next rfl hnextPaused).symm ▸ hcourse'
        · exact Option.some.inj hlast ▸ hcourse'
      · rcases waitingReport_some hnext with ⟨rfl, hnextPaused⟩ | ⟨-, e, rfl⟩
        · rintro _ ⟨⟩ hcompleted
          exact nomatch hnextPaused.symm.trans hcompleted
        · exact fun _ h => nomatch h

/-! ### Sessions -/

/-- A turn with the histories before and after it. -/
structure TakenTurn where
  job : Job
  before : List Message
  trace : Trace sig
  outcome : Except Exn Report
  after : List Message

variable (desk session)

/-- Turns one after the other, from one stored history to another. -/
inductive Turns : List Message → List TakenTurn → List Message → Prop
  | nil {history} : Turns history [] history
  | turn {start turns w job last t r w'} (h : Turns start turns (w.histories session.id))
      (hturn : Turn desk session job w last t r w') :
      Turns start (turns ++ [⟨job, w.histories session.id, t, r, w'.histories session.id⟩])
        (w'.histories session.id)

variable {desk session}

/-- A session keeps no system messages in its history. A completed turn that was not compacted
appends its user message and its conversation, every other turn leaves the history as it is, and
each turn begins with the history behind one system message. -/
theorem turns_sound {start history : List Message} {turns : List TakenTurn}
    (h : Turns desk session start turns history) (hstart : Settled start) :
    Settled history ∧ ∀ turn ∈ turns, Settled turn.before ∧
      Begun desk session.worker turn.before turn.job turn.trace ∧
      (∀ report, turn.outcome = .ok report → report.status = .completed →
        report.metrics.contextSummaries = none →
          Appends turn.before turn.job report.messages turn.after) ∧
      ((∀ e ∈ turn.trace, ¬ UpdateFails session.id e) →
        (∀ report, turn.outcome = .ok report → report.status ≠ .completed) →
          turn.after = turn.before) := by
  induction h with
  | nil => exact ⟨hstart, by simp⟩
  | turn h hturn ih =>
    obtain ⟨hsettled, hturns⟩ := ih
    have hsound := hturn.sound hsettled
    refine ⟨hsound.settled hsettled, fun turn hmem => ?_⟩
    rcases List.mem_append.mp hmem with hmem | hmem
    · exact hturns turn hmem
    · obtain rfl := List.mem_singleton.mp hmem
      exact ⟨hsettled, hsound.begun, hsound.appended, hsound.kept⟩

def plainSession : WorkerSession where
  id := "session"
  worker := plainWorker

/-- The model answers at once and shows how it thought. -/
def thinkingModel (_ : ℕ) : ModelResponse where
  content := some "done"
  reasoningContent := some "hm"

/-- The first turn of a session. -/
abbrev firstTurn : Trace sig × Except Exn Report × World :=
  runIn (plainAnswers thinkingModel) (arun plainDesk Desk.runners plainSession plainJob false) {}

theorem turn_firstTurn : Turn plainDesk plainSession plainJob {} (waitingReport none firstTurn.2.1)
    firstTurn.1 firstTurn.2.1 firstTurn.2.2 :=
  .run (runIn_runs (fun _ _ => trivial) _ _)

/-- A session whose worker has instructions. -/
def briefedSession : WorkerSession where
  id := "session"
  worker := { plainWorker with instructions := some "Be brief." }

/-- Calls a tool first, and answers after it. -/
def lookingModel (n : ℕ) : ModelResponse :=
  if n < 12 then
    { content := none, toolCalls := [{ id := "c1", name := "lookup", arguments := [] }] }
  else { content := some "done" }

/-- The worker remembers a preference, and a turn has ids of its own. -/
def rememberingAnswers (turn : String) (n : ℕ) : ∀ q, Answer q
  | .newId => turn ++ toString n
  | .readMemory _ => .ok (some (.str "likes tea"))
  | q => plainAnswers lookingModel n q

/-- A turn of that session. -/
@[irreducible] def briefedTurn (turn : String) (w : World) :
    Trace sig × Except Exn Report × World :=
  runIn (rememberingAnswers turn) (arun plainDesk Desk.runners briefedSession plainJob false) w

theorem turn_briefedTurn (turn : String) (w : World) : Turn plainDesk briefedSession plainJob w
    (waitingReport none (briefedTurn turn w).2.1) (briefedTurn turn w).1 (briefedTurn turn w).2.1
    (briefedTurn turn w).2.2 := by
  unfold briefedTurn
  exact .run (runIn_runs (fun _ _ => trivial) _ _)

/-- The world after the first turn. -/
def briefedWorld : World := (briefedTurn "a" {}).2.2

/-- The second turn begins with one system message and the history of the first. -/
theorem turns_sound_second :
    (sentRoles (briefedTurn "b" briefedWorld).1).head? =
        some [.system, .user, .assistant, .tool, .assistant, .user] ∧
      ∃ turns, Turns plainDesk briefedSession [] turns
        ((briefedTurn "b" briefedWorld).2.2.histories "session") ∧ turns.length = 2 ∧
          Settled ((briefedTurn "b" briefedWorld).2.2.histories "session") ∧
            ∀ turn ∈ turns,
              Begun plainDesk briefedSession.worker turn.before turn.job turn.trace := by
  have hfirst := Turns.turn .nil (turn_briefedTurn "a" {})
  have hsecond := Turns.turn hfirst (turn_briefedTurn "b" briefedWorld)
  obtain ⟨hsettled, hturns⟩ := turns_sound hsecond settled_nil
  exact ⟨by decide +kernel, _, hsecond, rfl, hsettled, fun turn hmem => (hturns turn hmem).2.1⟩

/-- What is stored of a final answer is not the message of the turn: its reasoning is left out. -/
theorem not_turns_exact : ¬ ∀ (desk : DeskSettings) (session : WorkerSession) (job : Job) (w : World)
    (last : Option Report) (t : Trace sig) (report : Report) (w' : World),
    Turn desk session job w last t (.ok report) w' → Settled (w.histories session.id) →
      report.status = .completed → report.metrics.contextSummaries = none → ∃ added,
        nonSystem report.messages = w.histories session.id ++ userMessage job :: added ∧
          w'.histories session.id = w.histories session.id ++ userMessage job :: added := by
  intro h
  have hok : ∃ report, firstTurn.2.1 = .ok report ∧ report.status = .completed ∧
      report.metrics.contextSummaries.isNone ∧
      (nonSystem report.messages).map Message.reasoningContent ≠
        (firstTurn.2.2.histories "session").map Message.reasoningContent :=
    ⟨_, rfl, by decide +kernel, by decide +kernel, by decide +kernel⟩
  obtain ⟨report, hreport, hcompleted, hnone, hreasoning⟩ := hok
  have hturn := turn_firstTurn
  rw [hreport] at hturn
  obtain ⟨added, hmessages, hhistory⟩ := h _ _ _ _ _ _ report _ hturn settled_nil hcompleted
    (Option.isNone_iff_eq_none.mp hnone)
  exact hreasoning (congrArg (List.map Message.reasoningContent) (hmessages.trans hhistory.symm))

end Blackgeorge.Session
