import Blackgeorge.Store.Runs

/-! The two run stores give the same answers as long as only known runs are updated, a
run is created before its events, the events of a run are added in the order of their texts, no
two listed runs were created at one instant, no event id is used twice, no page is larger than
SQLite counts and no value is refused as a text. -/

namespace Blackgeorge.Store

open Data Relational

open Json (Limits)

variable {limits : ColumnLimits} {float : String → ℚ × String}

/-! ### Operations the stores agree on -/

/-- Operations with JSON values. -/
def RunOp.IsJson (float : String → ℚ × String) : RunOp → Prop
  | .createRun _ input => Json.IsJson float input
  | .updateRun _ _ _ outputJson state =>
    Json.IsJson float outputJson ∧ state.mapM RunState.persisted = some state
  | .addEvent event => event.persisted = some event
  | _ => True

/-- Operations with values that the limits let through. -/
def RunOp.Within (limits : ColumnLimits) : RunOp → Prop
  | .createRun _ input => limits.refuses input = none
  | .updateRun _ _ _ outputJson state =>
    limits.refuses outputJson = none ∧ state.bind limits.ofState = none
  | .addEvent event =>
    Json.depthOf 0 event.dumped ≤ limits.dumping ∧ limits.refuses event.dumped = none
  | _ => True

def RunOp.eventTime : RunOp → Option Timestamp
  | .addEvent event => some event.timestamp
  | _ => none

/-- Neither the clock nor the times of the events go back. -/
def Timely (ops : List (ℕ × RunOp)) : Prop :=
  (ops.map Prod.fst).Pairwise (· ≤ ·) ∧
    (ops.filterMap fun p => p.2.eventTime).Pairwise Timestamp.NotAfter

/-- The operations on which both stores do the same. -/
def InMemoryRuns.Shared (store : InMemoryRuns) : RunOp → Prop
  | .createRun runId _ => (store.runs.get runId).isSome ∨ store.getEvents runId = []
  | .updateRun runId .. => (store.runs.get runId).isSome
  | .listRuns status limit offset =>
    checkPage limit offset ≠ .ok () ∨
      (limit.getD (-1) < 2 ^ 63 ∧ offset < 2 ^ 63 ∧
        ((store.runs.map Prod.snd).filter fun r => status.all (r.status = ·)).Pairwise
          fun r s => r.createdAt ≠ s.createdAt)
  | .addEvent event =>
    (∀ runId, ∀ e ∈ store.getEvents runId, e.eventId ≠ event.eventId) ∧
      ∀ e ∈ store.getEvents event.runId, e.timestamp.isoformat ≤ event.timestamp.isoformat
  | _ => True

def InMemoryRuns.AllShared (store : InMemoryRuns) : List (ℕ × RunOp) → Prop
  | [] => True
  | (now, op) :: ops =>
    store.Shared op ∧ InMemoryRuns.AllShared (inMemoryRunStore.step store now op).2 ops

namespace InMemoryRuns

variable (store : InMemoryRuns)

theorem getEvents_addEvent_self (event : EventRecord) :
    (store.addEvent event).getEvents event.runId = store.getEvents event.runId ++ [event] := by
  rw [getEvents, addEvent, Dictionary.get_set_self]
  rfl

theorem getEvents_addEvent_of_ne {event : EventRecord} {runId : RunId} (h : event.runId ≠ runId) :
    (store.addEvent event).getEvents runId = store.getEvents runId := by
  rw [getEvents, addEvent, Dictionary.get_set_of_ne _ h.symm]
  rfl

theorem mem_getEvents_addEvent {store : InMemoryRuns} {event e : EventRecord} {runId : RunId}
    (h : e ∈ (store.addEvent event).getEvents runId) : e = event ∨ e ∈ store.getEvents runId := by
  by_cases hrun : event.runId = runId
  · subst hrun
    rw [getEvents_addEvent_self, List.mem_append, List.mem_singleton] at h
    exact h.symm
  · rw [getEvents_addEvent_of_ne store hrun] at h
    exact Or.inr h

end InMemoryRuns

/-! ### Rows and records -/

/-- The row that holds a record. -/
def encode (r : RunRecord) : RunRow where
  id := r.runId
  status := r.status
  input := some r.input.dumps
  output := r.output
  outputJson := if r.outputJson.isNone then none else some r.outputJson.dumps
  stateJson := r.state
  createdAt := r.createdAt
  updatedAt := r.updatedAt

def encodeEvent (e : EventRecord) : EventRow := ⟨e.eventId, e.runId, e, e.timestamp.isoformat⟩

/-- A value that has a text which is read back. -/
def Writable (limits : Limits) (float : String → ℚ × String) (v : Value) : Prop :=
  Json.IsJson float v ∧ limits.refuses v = none

theorem writable_none : Writable limits.toLimits float .none :=
  ⟨trivial, Json.refuses_none_iff.mpr ⟨limits.calls_pos, Nat.zero_le _, Nat.zero_le _⟩⟩

theorem serialize_eq {v : Value} (h : Writable limits.toLimits float v) :
    limits.serialize v = .ok v.dumps := by
  have hplain := Json.plain_of_isJson v h.1
  simp only [ColumnLimits.serialize, ColumnLimits.refuse, Value.toJsonValue_of_plain hplain,
    Value.dumpsStrict_of_plain hplain, h.2]
  rfl

theorem serializeEvent_eq {event : EventRecord} (hjson : event.persisted = some event)
    (hwithin : (RunOp.addEvent event).Within limits) : limits.serializeEvent event = .ok event := by
  have hdepth : ¬limits.dumping < Json.depthOf 0 event.dumped := by
    have := hwithin.1
    omega
  simp only [ColumnLimits.serializeEvent, hjson, ColumnLimits.refuse, hwithin.2, if_neg hdepth]
  rfl

theorem loadsColumn_dumps {v : Value} (h : Writable limits.toLimits float v) :
    loadsColumn limits.toLimits float (some v.dumps) = .ok v := by
  have hne : v.dumps ≠ "" := by
    intro hempty
    obtain ⟨c, t, htext, _⟩ := Json.begins_dumps h.1
    simp [hempty] at htext
  have hplain := Value.toJsonValue_of_plain (Json.plain_of_isJson v h.1)
  have htext : Json.encode limits.toLimits v = .ok v.dumps := by
    rw [Json.encode_of_refuses (hplain.symm ▸ h.2), hplain]
  rw [loadsColumn, if_neg hne, Json.decode_encode h.1 htext]
  rfl

theorem rowToRecord_encode {r : RunRecord} (hinput : Writable limits.toLimits float r.input)
    (houtput : Writable limits.toLimits float r.outputJson) :
    rowToRecord limits.toLimits float (encode r) = .ok r := by
  have hcolumn : loadsColumn limits.toLimits float (encode r).outputJson = .ok r.outputJson := by
    by_cases hnone : r.outputJson.isNone = true
    · have hvalue : r.outputJson = .none := by
        cases hv : r.outputJson <;> simp [hv, Value.isNone] at hnone ⊢
      rw [encode, hvalue]
      rfl
    · rw [encode]
      dsimp only
      rw [if_neg hnone, loadsColumn_dumps houtput]
  have hcolumn' : loadsColumn limits.toLimits float (encode r).input = .ok r.input :=
    loadsColumn_dumps hinput
  rw [rowToRecord, hcolumn, hcolumn']
  rfl

/-! ### The two stores side by side -/

/-- Each row holds a record and each record is held by a row; the events of each run are
the same, and stand in the order of their texts. -/
structure Agree (limits : ColumnLimits) (float : String → ℚ × String) (m : InMemoryRuns)
    (s : SQLiteRuns) : Prop where
  nodup : m.runs.keys.Nodup
  rows : s.runs.cells = m.runs.map fun p => encode p.2
  keyed : ∀ p ∈ m.runs, p.2.runId = p.1
  writable : ∀ p ∈ m.runs,
    Writable limits.toLimits float p.2.input ∧ Writable limits.toLimits float p.2.outputJson
  events : ∀ runId, s.events.cells.filter (·.runId = runId) = (m.getEvents runId).map encodeEvent
  numbered : s.events.Numbered
  ordered : ∀ runId, (m.getEvents runId).Pairwise fun a b =>
    a.timestamp.isoformat ≤ b.timestamp.isoformat

namespace Agree

variable {m : InMemoryRuns} {s : SQLiteRuns}

theorem init : Agree limits float {} {} where
  nodup := List.nodup_nil
  rows := rfl
  keyed := by simp
  writable := by simp
  events := fun _ => rfl
  numbered := Table.Numbered.nil
  ordered := fun _ => List.Pairwise.nil

theorem find_row (h : Agree limits float m s) (runId : RunId) :
    s.runs.cells.find? (·.id = runId) = (m.runs.get runId).map encode := by
  have hkeyed := h.keyed
  rw [h.rows]
  clear h
  generalize m.runs = d at hkeyed
  induction d with
  | nil => rfl
  | cons p d ih =>
    obtain ⟨k, r⟩ := p
    obtain rfl : r.runId = k := hkeyed (k, r) List.mem_cons_self
    have hrest := ih fun p hp => hkeyed p (List.mem_cons_of_mem _ hp)
    rw [List.map_cons, List.find?_cons, Dictionary.get, List.lookup_cons]
    by_cases hk : r.runId = runId
    · simp [encode, hk]
    · have hk' : (runId == r.runId) = false := by simpa using Ne.symm hk
      rw [hk', hrest]
      simp [encode, hk, Dictionary.get]

theorem any_row (h : Agree limits float m s) (runId : RunId) :
    s.runs.cells.any (·.id = runId) = (m.runs.get runId).isSome := by
  rw [← Option.isSome_map (f := encode), ← h.find_row, Bool.eq_iff_iff, List.find?_isSome]
  simp

theorem record_writable (h : Agree limits float m s) {runId : RunId} {r : RunRecord}
    (hget : m.runs.get runId = some r) :
    r.runId = runId ∧
      Writable limits.toLimits float r.input ∧ Writable limits.toLimits float r.outputJson :=
  ⟨h.keyed _ (Dictionary.mem_of_get hget), h.writable _ (Dictionary.mem_of_get hget)⟩

theorem getRun (h : Agree limits float m s) (runId : RunId) :
    s.getRun limits float runId = .ok (m.runs.get runId) := by
  rw [SQLiteRuns.getRun, h.find_row]
  cases hget : m.runs.get runId with
  | none => rfl
  | some r =>
    obtain ⟨_, hinput, houtput⟩ := h.record_writable hget
    simp [rowToRecord_encode hinput houtput]

theorem getEvents (h : Agree limits float m s) (runId : RunId) : s.getEvents runId = m.getEvents runId := by
  have hcells : (s.events.select (·.runId = runId)).cells = (m.getEvents runId).map encodeEvent := by
    rw [Table.cells_select, ← h.events]
  have hordered : (s.events.select (·.runId = runId)).cells.Pairwise
      fun a b => a.timestamp ≤ b.timestamp := by
    rw [hcells, List.pairwise_map]
    exact h.ordered runId
  rw [SQLiteRuns.getEvents, Table.orderAsc_eq (h.numbered.select _) hordered, hcells, List.map_map]
  exact List.map_id _

/-- A run is known to both stores or gets its row, and has no events then. -/
theorem createRun (h : Agree limits float m s) {now : ℕ} {runId : RunId} {input : Value}
    (hinput : Writable limits.toLimits float input) (hshared : m.Shared (.createRun runId input)) :
    (∃ e, m.createRun now runId input = .error e ∧ s.createRun limits now runId input = .error e) ∨
      ∃ m' s', m.createRun now runId input = .ok m' ∧ s.createRun limits now runId input = .ok s' ∧
        Agree limits float m' s' := by
  have hany := h.any_row runId
  cases hknown : m.runs.get runId with
  | some record =>
    refine Or.inl ⟨alreadyExists runId, ?_, ?_⟩
    · simp [InMemoryRuns.createRun, hknown]
    · rw [hknown] at hany
      simp only [SQLiteRuns.createRun, serialize_eq hinput, hany]
      rfl
  | none =>
    have hevents : m.getEvents runId = [] := by
      simpa [InMemoryRuns.Shared, hknown] using hshared
    rw [hknown] at hany
    refine Or.inr ⟨_, { s with
      runs := s.runs.insert ⟨runId, .running, some input.dumps, none, none, none, now, now⟩ },
      by rw [InMemoryRuns.createRun, hknown]; rfl, ?_, ?_⟩
    · simp only [SQLiteRuns.createRun, serialize_eq hinput, hany]
      rfl
    · -- the run had no events, so that its new list is the old one
      have hsame : ∀ other, ((m.events.set runId []).get other).getD [] = m.getEvents other := by
        intro other
        by_cases hother : other = runId
        · rw [hother, hevents, Dictionary.get_set_self]
          rfl
        · rw [Dictionary.get_set_of_ne _ hother]
          rfl
      refine ⟨Dictionary.nodup_keys_set h.nodup _ _, ?_, ?_, ?_, ?_, h.numbered, ?_⟩
      · rw [Table.cells_insert, h.rows, Dictionary.set_of_get_none hknown, List.map_append]
        rfl
      · intro p hp
        obtain hp | rfl := Dictionary.mem_set hp
        · exact h.keyed p hp
        · rfl
      · intro p hp
        obtain hp | rfl := Dictionary.mem_set hp
        · exact h.writable p hp
        · exact ⟨hinput, writable_none⟩
      · intro other
        rw [h.events other, ← hsame]
        rfl
      · intro other
        rw [InMemoryRuns.getEvents, hsame]
        exact h.ordered other

theorem updateRun (h : Agree limits float m s) {now : ℕ} {runId : RunId} {status : RunStatus}
    {output : Option String} {outputJson : Value} {state : Option RunState}
    (hvalue : Writable limits.toLimits float outputJson)
    (hstate : state.mapM RunState.persisted = some state) (hlimit : state.bind limits.ofState = none)
    (hknown : (m.runs.get runId).isSome) :
    ∃ s', s.updateRun limits now runId status output outputJson state = .ok s' ∧
      Agree limits float (m.updateRun now runId status output outputJson state) s' := by
  obtain ⟨record, hget⟩ := Option.isSome_iff_exists.mp hknown
  obtain ⟨hid, hinput, _⟩ := h.record_writable hget
  have hstate' : limits.serializeState state = .ok state := by
    rw [ColumnLimits.serializeState, hstate, hlimit]
    rfl
  have houtput : limits.serializeColumn outputJson =
      .ok (if outputJson.isNone then none else some outputJson.dumps) := by
    rw [ColumnLimits.serializeColumn, serialize_eq hvalue]
    split_ifs <;> rfl
  have hm : m.updateRun now runId status output outputJson state =
      { m with
        runs := m.runs.set runId
          ⟨record.runId, status, record.input, output, outputJson, record.createdAt, now, state⟩ } := by
    rw [InMemoryRuns.updateRun, hget]
  rw [hm, hid]
  refine ⟨{ s with
    runs := s.runs.update (·.id = runId) fun row =>
      { row with
        status := status
        output := output
        outputJson := if outputJson.isNone then none else some outputJson.dumps
        stateJson := state
        updatedAt := now } }, ?_, ?_⟩
  · rw [SQLiteRuns.updateRun, houtput, hstate']
    rfl
  · refine ⟨Dictionary.nodup_keys_set h.nodup _ _, ?_, ?_, ?_, h.events, h.numbered, h.ordered⟩
    · rw [Table.cells_update, h.rows, Dictionary.set_of_get hget h.nodup, List.map_map, List.map_map]
      apply List.map_congr_left
      intro p hp
      have hkey := h.keyed p hp
      by_cases hp' : p.1 = runId
      · have hrecord : p.2 = record := by
          have hp₂ : (runId, p.2) ∈ m.runs := hp' ▸ hp
          exact Option.some.inj ((Dictionary.get_of_mem h.nodup hp₂).symm.trans hget)
        simp [encode, hp', hrecord, hid]
      · simp [encode, hkey, hp']
    · intro p hp
      obtain hp | rfl := Dictionary.mem_set hp
      · exact h.keyed p hp
      · rfl
    · intro p hp
      obtain hp | rfl := Dictionary.mem_set hp
      · exact h.writable p hp
      · exact ⟨hinput, hvalue⟩

theorem addEvent (h : Agree limits float m s) {event : EventRecord} (hjson : event.persisted = some event)
    (hwithin : (RunOp.addEvent event).Within limits) (hshared : m.Shared (.addEvent event)) :
    ∃ s', s.addEvent limits event = .ok s' ∧ Agree limits float (m.addEvent event) s' := by
  obtain ⟨hnew, hlate⟩ := hshared
  have hany : s.events.cells.any (·.id = event.eventId) = false := by
    rw [List.any_eq_false]
    intro row hrow hid
    have hmem : row ∈ (m.getEvents row.runId).map encodeEvent := by
      rw [← h.events, List.mem_filter]
      exact ⟨hrow, by simp⟩
    obtain ⟨e, he, rfl⟩ := List.mem_map.mp hmem
    exact hnew _ e he (of_decide_eq_true hid)
  refine ⟨{ s with events := s.events.insert (encodeEvent event) }, ?_, ?_⟩
  · simp only [SQLiteRuns.addEvent, serializeEvent_eq hjson hwithin]
    simp only [hany]
    rfl
  · refine ⟨h.nodup, h.rows, h.keyed, h.writable, ?_, h.numbered.insert _, ?_⟩
    · intro runId
      rw [Table.cells_insert, List.filter_append, h.events runId]
      by_cases hrun : event.runId = runId
      · subst hrun
        rw [m.getEvents_addEvent_self]
        simp [encodeEvent]
      · rw [m.getEvents_addEvent_of_ne hrun]
        simp [encodeEvent, hrun]
    · intro runId
      by_cases hrun : event.runId = runId
      · subst hrun
        rw [m.getEvents_addEvent_self, List.pairwise_append]
        refine ⟨h.ordered _, List.pairwise_singleton _ _, ?_⟩
        intro a ha b hb
        obtain rfl := List.mem_singleton.mp hb
        exact hlate a ha
      · rw [m.getEvents_addEvent_of_ne hrun]
        exact h.ordered runId

theorem mapM_rowToRecord {rs : List RunRecord}
    (hwritable : ∀ r ∈ rs,
      Writable limits.toLimits float r.input ∧ Writable limits.toLimits float r.outputJson) :
    (rs.map encode).mapM (rowToRecord limits.toLimits float) = .ok rs := by
  induction rs with
  | nil => rfl
  | cons r rs ih =>
    obtain ⟨hinput, houtput⟩ := hwritable r List.mem_cons_self
    rw [List.map_cons, List.mapM_cons, rowToRecord_encode hinput houtput,
      ih fun r hr => hwritable r (List.mem_cons_of_mem _ hr)]
    rfl

/-- Rows of distinct instants come in the order of the records. -/
theorem orderDesc_rows (h : Agree limits float m s) {status : Option RunStatus}
    (hdistinct : ((m.runs.map Prod.snd).filter fun r => status.all (r.status = ·)).Pairwise
      fun r s => r.createdAt ≠ s.createdAt) :
    (s.runs.select fun row => status.all (row.status = ·)).orderDesc RunRow.createdAt =
      (Table.sortedDesc RunRecord.createdAt
        ((m.runs.map Prod.snd).filter fun r => status.all (r.status = ·))).map encode := by
  have hcells : (s.runs.select fun row => status.all (row.status = ·)).cells =
      ((m.runs.map Prod.snd).filter fun r => status.all (r.status = ·)).map encode := by
    have hrows : s.runs.cells = (m.runs.map Prod.snd).map encode := by
      rw [h.rows, List.map_map]
      rfl
    rw [Table.cells_select, hrows, List.filter_map]
    rfl
  rw [Table.orderDesc_eq, hcells, Table.sortedDesc_map]
  · rfl
  · rw [hcells, List.pairwise_map]
    exact hdistinct

theorem listRuns (h : Agree limits float m s) {status : Option RunStatus} {limit : Option ℤ} {offset : ℤ}
    (hshared : m.Shared (.listRuns status limit offset)) :
    s.listRuns limits float status limit offset = m.listRuns status limit offset := by
  rw [SQLiteRuns.listRuns, InMemoryRuns.listRuns]
  cases hcheck : checkPage limit offset with
  | error e => rfl
  | ok =>
    obtain hbad | ⟨hlimit, hoffset, hdistinct⟩ := hshared
    · exact absurd hcheck hbad
    · have hsmall : ¬(2 ^ 63 ≤ limit.getD (-1) ∨ 2 ^ 63 ≤ offset) := by omega
      have hwritable : ∀ r ∈ Table.sortedDesc RunRecord.createdAt
          ((m.runs.map Prod.snd).filter fun r => status.all (r.status = ·)),
          Writable limits.toLimits float r.input ∧
            Writable limits.toLimits float r.outputJson := by
        intro r hr
        have hmem := List.mem_of_mem_filter ((Table.perm_sortedDesc _ _).mem_iff.mp hr)
        obtain ⟨p, hp, rfl⟩ := List.mem_map.mp hmem
        exact h.writable p hp
      dsimp only [bind, Except.bind]
      rw [if_neg hsmall, h.orderDesc_rows hdistinct, ← List.map_drop]
      cases limit with
      | none => exact mapM_rowToRecord fun r hr => hwritable r (List.mem_of_mem_drop hr)
      | some n =>
        dsimp only [Option.elim]
        rw [← List.map_take]
        exact mapM_rowToRecord fun r hr =>
          hwritable r (List.mem_of_mem_drop (List.mem_of_mem_take hr))

/-- One operation gives the same answer and leaves the stores side by side. -/
theorem step (h : Agree limits float m s) (now : ℕ) {op : RunOp} (hjson : op.IsJson float)
    (hwithin : op.Within limits) (hshared : m.Shared op) :
    (inMemoryRunStore.step m now op).1 = ((sqliteRunStore limits float).step s now op).1 ∧
      Agree limits float (inMemoryRunStore.step m now op).2
        ((sqliteRunStore limits float).step s now op).2 := by
  cases op with
  | createRun runId input =>
    simp only [RunStore.step, inMemoryRunStore, sqliteRunStore]
    obtain ⟨e, hm, hs⟩ | ⟨m', s', hm, hs, hagree⟩ :=
      @createRun _ _ _ _ h now _ _ ⟨hjson, hwithin⟩ hshared
    · rw [hm, hs]
      exact ⟨rfl, h⟩
    · rw [hm, hs]
      exact ⟨rfl, hagree⟩
  | updateRun runId status output outputJson state =>
    obtain ⟨s', hs, hagree⟩ := @updateRun _ _ _ _ h now runId status output _ _
      ⟨hjson.1, hwithin.1⟩ hjson.2 hwithin.2 hshared
    simp only [RunStore.step, inMemoryRunStore, sqliteRunStore, hs, changed]
    exact ⟨trivial, hagree⟩
  | getRun runId =>
    simp only [RunStore.step, inMemoryRunStore, sqliteRunStore, h.getRun]
    exact ⟨trivial, h⟩
  | listRuns status limit offset =>
    simp only [RunStore.step, inMemoryRunStore, sqliteRunStore, h.listRuns hshared]
    exact ⟨trivial, h⟩
  | addEvent event =>
    obtain ⟨s', hs, hagree⟩ := h.addEvent hjson hwithin hshared
    simp only [RunStore.step, inMemoryRunStore, sqliteRunStore, hs, changed]
    exact ⟨trivial, hagree⟩
  | getEvents runId =>
    simp only [RunStore.step, inMemoryRunStore, sqliteRunStore, h.getEvents]
    exact ⟨trivial, h⟩

/-- All operations give the same answers. -/
theorem answers (ops : List (ℕ × RunOp)) : ∀ {m : InMemoryRuns} {s : SQLiteRuns},
    Agree limits float m s → (∀ p ∈ ops, p.2.IsJson float) → (∀ p ∈ ops, p.2.Within limits) →
    m.AllShared ops →
    inMemoryRunStore.answers m ops = (sqliteRunStore limits float).answers s ops := by
  induction ops with
  | nil => intros; rfl
  | cons p ops ih =>
    obtain ⟨now, op⟩ := p
    intro m s h hjson hwithin hshared
    obtain ⟨hanswer, hagree⟩ := h.step now (hjson (now, op) List.mem_cons_self)
      (hwithin (now, op) List.mem_cons_self) hshared.1
    have hrest := ih hagree (fun p hp => hjson p (List.mem_cons_of_mem _ hp))
      (fun p hp => hwithin p (List.mem_cons_of_mem _ hp)) hshared.2
    rw [RunStore.answers, RunStore.answers]
    exact congrArg₂ List.cons hanswer hrest

end Agree

/-- On every run of operations that both stores do alike, they give the same answers. -/
theorem answers_agree {ops : List (ℕ × RunOp)} (hjson : ∀ p ∈ ops, p.2.IsJson float)
    (hwithin : ∀ p ∈ ops, p.2.Within limits) (hshared : ({} : InMemoryRuns).AllShared ops) :
    inMemoryRunStore.answers {} ops = (sqliteRunStore limits float).answers {} ops :=
  Agree.init.answers ops hjson hwithin hshared

/-! ### A run with an event, and one that was never created -/

def startedEvent : EventRecord :=
  ⟨"e", "run.started", ⟨2026, 7, 1, 9, 30, 0, 0, some 0⟩, "r", "w", [("n", .int 1)]⟩

def completedEvent : EventRecord :=
  ⟨"f", "run.completed", ⟨2026, 7, 1, 9, 30, 0, 250, some 0⟩, "r", "w", []⟩

def pollOps : List (ℕ × RunOp) :=
  [(0, .createRun "r" (.str "poll")), (1, .addEvent startedEvent), (2, .addEvent completedEvent),
    (3, .updateRun "r" .completed (some "done") .none none), (3, .listRuns (some .completed) none 0),
    (4, .getEvents "r")]

def defaultColumns : ColumnLimits := { Json.defaultLimits with dumping := 255, ofState := fun _ => none }

theorem answers_agree_poll : inMemoryRunStore.answers {} pollOps =
    (sqliteRunStore defaultColumns Json.noFloats).answers {} pollOps := by
  refine answers_agree ?_ ?_ ?_
  · intro p hp
    simp only [pollOps, List.mem_cons, List.not_mem_nil, or_false] at hp
    obtain rfl | rfl | rfl | rfl | rfl | rfl := hp
    · trivial
    · rfl
    · rfl
    · exact ⟨trivial, rfl⟩
    · trivial
    · trivial
  · intro p hp
    simp only [pollOps, List.mem_cons, List.not_mem_nil, or_false] at hp
    obtain rfl | rfl | rfl | rfl | rfl | rfl := hp
    · rfl
    · exact ⟨by decide, rfl⟩
    · exact ⟨by decide, rfl⟩
    · exact ⟨rfl, rfl⟩
    · trivial
    · trivial
  · have hcreated : ∀ runId e, e ∉ ({ events := [("r", [])] } : InMemoryRuns).getEvents runId := by
      intro runId e he
      simp only [InMemoryRuns.getEvents, Dictionary.get, List.lookup_cons] at he
      split at he <;> cases he
    refine ⟨Or.inr rfl, ⟨fun runId e he => absurd he (hcreated runId e), ?_⟩, ⟨?_, ?_⟩, rfl,
      Or.inr ⟨by decide, by decide, List.pairwise_singleton _ _⟩, trivial, trivial⟩
    · intro e he
      exact absurd he (hcreated "r" e)
    · intro runId e he
      obtain rfl | he := InMemoryRuns.mem_getEvents_addEvent he
      · decide
      · exact absurd he (hcreated runId e)
    · intro e he
      obtain rfl | he := InMemoryRuns.mem_getEvents_addEvent he
      · decide +kernel
      · exact absurd he (hcreated "r" e)

def strayOps : List (ℕ × RunOp) :=
  [(0, .updateRun "r" .completed none .none none), (0, .getRun "r")]

/-- In memory an update makes an unknown run known, in SQLite it does not. -/
theorem answers_differ : (∀ p ∈ strayOps, p.2.IsJson Json.noFloats) ∧ Timely strayOps ∧
    inMemoryRunStore.answers {} strayOps ≠ (sqliteRunStore defaultColumns Json.noFloats).answers {} strayOps := by
  refine ⟨?_, ⟨by simp [strayOps], by simp [strayOps, RunOp.eventTime]⟩, ?_⟩
  · intro p hp
    simp only [strayOps, List.mem_cons, List.not_mem_nil, or_false] at hp
    obtain rfl | rfl := hp
    · exact ⟨trivial, rfl⟩
    · trivial
  · intro h
    have hrecord := congrArg (fun l => l[1]?) h
    cases hrecord

end Blackgeorge.Store
