import Blackgeorge.Store.Sessions

/-! The two session stores give the same answers, and keep every message, as long as no
session is created that is known or has messages, and messages and metadata are what
JSON gives back. -/

namespace Blackgeorge.Store

open Data Relational

variable {float : String → ℚ × String}

/-! ### Operations the stores agree on -/

/-- The operations on which both stores do the same. -/
def InMemorySessions.Shared (float : String → ℚ × String) (store : InMemorySessions) :
    SessionOp → Prop
  | .createSession sessionId _ metadata =>
    store.sessions.get sessionId = none ∧ store.getMessages sessionId = [] ∧
      Json.IsJson float (.dict (metadata.getD []))
  | .updateSession _ metadata => ∀ m, metadata = some m → Json.IsJson float (.dict m)
  | .addMessages _ messages => ∀ m ∈ messages, m.persisted = some m
  | .replaceMessages _ messages => ∀ m ∈ messages, m.persisted = some m
  | _ => True

def InMemorySessions.AllShared (float : String → ℚ × String) (store : InMemorySessions) :
    List (ℕ × SessionOp) → Prop
  | [] => True
  | (now, op) :: ops =>
    store.Shared float op ∧
      InMemorySessions.AllShared float (inMemorySessionStore.step store now op).2 ops

/-! ### Rows, records and messages -/

/-- The row that holds a record. -/
def encodeSession (r : SessionRecord) : SessionRow where
  id := r.sessionId
  workerName := r.workerName
  metadata := (Value.dict r.metadata).dumps
  createdAt := r.createdAt
  updatedAt := r.updatedAt

theorem dumpsMetadata_eq {metadata : Dict} (h : Json.IsJson float (.dict metadata)) :
    dumpsMetadata metadata = .ok (Value.dict metadata).dumps := by
  simp [dumpsMetadata, Value.dumpsStrict_of_plain (Json.plain_of_isJson _ h)]

theorem rowToSession_encode {r : SessionRecord} (h : Json.IsJson float (.dict r.metadata)) :
    rowToSession float (encodeSession r) = .ok r := by
  have hloads : loadsMetadata float (encodeSession r).metadata = .ok r.metadata := by
    rw [loadsMetadata, encodeSession, Json.loads_dumps h]
  rw [rowToSession, hloads]
  rfl

theorem mapM_persisted {messages : List Message} (h : ∀ m ∈ messages, m.persisted = some m) :
    orSerializationError (messages.mapM Message.persisted) = .ok messages := by
  have hmap : messages.mapM Message.persisted = some messages := by
    induction messages with
    | nil => rfl
    | cons m ms ih =>
      rw [List.mapM_cons, h m List.mem_cons_self, ih fun m hm => h m (List.mem_cons_of_mem _ hm)]
      rfl
  rw [hmap]
  rfl

theorem cells_insertMessages (table : Table MessageRow) (now : ℕ) (sessionId : String)
    (messages : List Message) :
    (insertMessages table now sessionId messages).cells =
      table.cells ++ messages.map fun m => ⟨sessionId, m, now⟩ := by
  induction messages generalizing table with
  | nil => simp [insertMessages]
  | cons m ms ih =>
    have hrest := ih (table.insert ⟨sessionId, m, now⟩)
    rw [Table.cells_insert] at hrest
    rw [insertMessages, List.foldl_cons, ← insertMessages, hrest]
    simp

theorem numbered_insertMessages {table : Table MessageRow} (h : table.Numbered) (now : ℕ)
    (sessionId : String) (messages : List Message) :
    (insertMessages table now sessionId messages).Numbered := by
  induction messages generalizing table with
  | nil => exact h
  | cons m ms ih => exact ih (h.insert _)

/-! ### The two stores side by side -/

/-- Each row holds a record and each record is held by a row; the rows of each session
hold its messages in the order of their times, none later than the clock. -/
structure AgreeSessions (float : String → ℚ × String) (clock : ℕ) (m : InMemorySessions)
    (s : SQLiteSessions) : Prop where
  nodup : m.sessions.keys.Nodup
  rows : s.sessions.cells = m.sessions.map fun p => encodeSession p.2
  keyed : ∀ p ∈ m.sessions, p.2.sessionId = p.1
  json : ∀ p ∈ m.sessions, Json.IsJson float (.dict p.2.metadata)
  messages : ∀ id, (s.messages.cells.filter (·.sessionId = id)).map MessageRow.message =
    m.getMessages id
  numbered : s.messages.Numbered
  ordered : s.messages.cells.Pairwise fun a b => a.timestamp ≤ b.timestamp
  early : ∀ row ∈ s.messages.cells, row.timestamp ≤ clock

namespace AgreeSessions

variable {clock : ℕ} {m : InMemorySessions} {s : SQLiteSessions}

theorem init : AgreeSessions float 0 {} {} where
  nodup := List.nodup_nil
  rows := rfl
  keyed := by simp
  json := by simp
  messages := fun _ => rfl
  numbered := Table.Numbered.nil
  ordered := List.Pairwise.nil
  early := by intro row hrow; cases hrow

theorem later (h : AgreeSessions float clock m s) {now : ℕ} (hle : clock ≤ now) :
    AgreeSessions float now m s :=
  { h with early := fun row hrow => (h.early row hrow).trans hle }

theorem find_row (h : AgreeSessions float clock m s) (id : String) :
    s.sessions.cells.find? (·.id = id) = (m.sessions.get id).map encodeSession := by
  have hkeyed := h.keyed
  rw [h.rows]
  clear h
  generalize m.sessions = d at hkeyed
  induction d with
  | nil => rfl
  | cons p d ih =>
    obtain ⟨k, r⟩ := p
    obtain rfl : r.sessionId = k := hkeyed (k, r) List.mem_cons_self
    have hrest := ih fun p hp => hkeyed p (List.mem_cons_of_mem _ hp)
    rw [List.map_cons, List.find?_cons, Dictionary.get, List.lookup_cons]
    by_cases hk : r.sessionId = id
    · simp [encodeSession, hk]
    · have hk' : (id == r.sessionId) = false := by simpa using Ne.symm hk
      rw [hk', hrest]
      simp [encodeSession, hk, Dictionary.get]

theorem getSession (h : AgreeSessions float clock m s) (id : String) :
    s.getSession float id = .ok (m.sessions.get id) := by
  rw [SQLiteSessions.getSession, h.find_row]
  cases hget : m.sessions.get id with
  | none => rfl
  | some r => simp [rowToSession_encode (h.json _ (Dictionary.mem_of_get hget))]

theorem getMessages (h : AgreeSessions float clock m s) (id : String) :
    s.getMessages id = m.getMessages id := by
  have hcells := Table.cells_select s.messages (·.sessionId = id)
  have hordered : (s.messages.select (·.sessionId = id)).cells.Pairwise
      fun a b => a.timestamp ≤ b.timestamp := by
    rw [hcells]
    exact h.ordered.filter _
  rw [SQLiteSessions.getMessages, Table.orderAsc_eq (h.numbered.select _) hordered, hcells,
    h.messages]

theorem createSession (h : AgreeSessions float clock m s) {id workerName : String}
    {metadata : Option Dict} (hshared : m.Shared float (.createSession id workerName metadata)) :
    ∃ s', s.createSession clock id workerName metadata = .ok s' ∧
      AgreeSessions float clock (m.createSession clock id workerName metadata) s' := by
  obtain ⟨hnew, hempty, hjson⟩ := hshared
  have hany : s.sessions.cells.any (·.id = id) = false := by
    rw [List.any_eq_false]
    intro row hrow hid
    have hfind := List.find?_eq_none.mp ((h.find_row id).trans (by rw [hnew]; rfl)) row hrow
    exact hfind hid
  refine ⟨{ s with
    sessions := s.sessions.insert
      ⟨id, workerName, (Value.dict (metadata.getD [])).dumps, clock, clock⟩ }, ?_, ?_⟩
  · simp only [SQLiteSessions.createSession, dumpsMetadata_eq hjson, hany]
    rfl
  · refine ⟨Dictionary.nodup_keys_set h.nodup _ _, ?_, ?_, ?_, ?_, h.numbered, h.ordered, h.early⟩
    · rw [Table.cells_insert, h.rows, InMemorySessions.createSession,
        Dictionary.set_of_get_none hnew, List.map_append]
      rfl
    · intro p hp
      obtain hp | rfl := Dictionary.mem_set hp
      · exact h.keyed p hp
      · rfl
    · intro p hp
      obtain hp | rfl := Dictionary.mem_set hp
      · exact h.json p hp
      · exact hjson
    · intro other
      rw [h.messages other]
      by_cases hother : other = id
      · subst hother
        rw [hempty]
        simp [InMemorySessions.getMessages, InMemorySessions.createSession, Dictionary.get_set_self]
      · simp only [InMemorySessions.getMessages, InMemorySessions.createSession,
          Dictionary.get_set_of_ne _ hother]

/-- A change of one session's record and row. -/
theorem setSession (h : AgreeSessions float clock m s) {id : String} {record record' : SessionRecord}
    (hget : m.sessions.get id = some record) (hid : record'.sessionId = id)
    (hjson : Json.IsJson float (.dict record'.metadata)) {f : SessionRow → SessionRow}
    (hf : f (encodeSession record) = encodeSession record') :
    AgreeSessions float clock { m with sessions := m.sessions.set id record' }
      { s with sessions := s.sessions.update (·.id = id) f } := by
  refine ⟨Dictionary.nodup_keys_set h.nodup _ _, ?_, ?_, ?_, h.messages, h.numbered, h.ordered,
    h.early⟩
  · rw [Table.cells_update, h.rows, Dictionary.set_of_get hget h.nodup, List.map_map, List.map_map]
    apply List.map_congr_left
    intro p hp
    have hkey := h.keyed p hp
    by_cases hp' : p.1 = id
    · have hp₂ : (id, p.2) ∈ m.sessions := hp' ▸ hp
      have hrecord : p.2 = record :=
        Option.some.inj ((Dictionary.get_of_mem h.nodup hp₂).symm.trans hget)
      have hrow : (encodeSession record).id = id := by rw [← hrecord]; exact hkey.trans hp'
      simp [hp', hrecord, hrow, hf]
    · have hrow : (encodeSession p.2).id ≠ id := by rwa [encodeSession, hkey]
      simp [hp', hrow]
  · intro p hp
    obtain hp | rfl := Dictionary.mem_set hp
    · exact h.keyed p hp
    · exact hid
  · intro p hp
    obtain hp | rfl := Dictionary.mem_set hp
    · exact h.json p hp
    · exact hjson

/-- No row is changed for an unknown session. -/
theorem update_unknown (h : AgreeSessions float clock m s) {id : String}
    (hget : m.sessions.get id = none) (f : SessionRow → SessionRow) :
    AgreeSessions float clock m { s with sessions := s.sessions.update (·.id = id) f } := by
  refine { h with rows := ?_ }
  have hfind := List.find?_eq_none.mp ((h.find_row id).trans (by rw [hget]; rfl))
  rw [← h.rows, Table.cells_update]
  conv_rhs => rw [← List.map_id s.sessions.cells]
  apply List.map_congr_left
  intro row hrow
  rw [if_neg (hfind row hrow)]
  rfl

theorem updateSession (h : AgreeSessions float clock m s) {id : String} {metadata : Option Dict}
    (hshared : m.Shared float (.updateSession id metadata)) :
    ∃ s', s.updateSession clock id metadata = .ok s' ∧
      AgreeSessions float clock (m.updateSession clock id metadata) s' := by
  cases hget : m.sessions.get id with
  | none =>
    have hm : m.updateSession clock id metadata = m := by rw [InMemorySessions.updateSession, hget]
    rw [hm]
    cases metadata with
    | none => exact ⟨_, rfl, h.update_unknown hget _⟩
    | some metadata =>
      have hdumps := dumpsMetadata_eq (hshared metadata rfl)
      refine ⟨_, by rw [SQLiteSessions.updateSession, hdumps]; rfl, h.update_unknown hget _⟩
  | some record =>
    have hmem := Dictionary.mem_of_get hget
    have hid := h.keyed _ hmem
    have hm : m.updateSession clock id metadata =
        { m with
          sessions := m.sessions.set id ⟨record.sessionId, record.workerName, record.createdAt,
            clock, metadata.getD record.metadata⟩ } := by
      rw [InMemorySessions.updateSession, hget]
    rw [hm]
    cases metadata with
    | none =>
      exact ⟨_, rfl, @setSession _ _ _ _ h id record
        ⟨record.sessionId, record.workerName, record.createdAt, clock, record.metadata⟩ hget hid
        (h.json _ hmem) (fun row => { row with updatedAt := clock }) rfl⟩
    | some metadata =>
      have hjson := hshared metadata rfl
      refine ⟨_, by rw [SQLiteSessions.updateSession, dumpsMetadata_eq hjson]; rfl, ?_⟩
      exact @setSession _ _ _ _ h id record
        ⟨record.sessionId, record.workerName, record.createdAt, clock, metadata⟩ hget hid hjson
        (fun row => { row with metadata := (Value.dict metadata).dumps, updatedAt := clock }) rfl

theorem deleteSession (h : AgreeSessions float clock m s) (id : String) :
    AgreeSessions float clock (m.deleteSession id) (s.deleteSession id) := by
  refine ⟨?_, ?_, ?_, ?_, ?_, ?_, ?_, ?_⟩
  · exact h.nodup.sublist (List.filter_sublist.map _)
  · rw [SQLiteSessions.deleteSession, Table.cells_delete, h.rows, List.filter_map]
    congr 1
    apply List.filter_congr
    intro p hp
    have hkey := h.keyed p hp
    simp [encodeSession, hkey]
  · exact fun p hp => h.keyed p (List.mem_of_mem_filter hp)
  · exact fun p hp => h.json p (List.mem_of_mem_filter hp)
  · intro other
    rw [SQLiteSessions.deleteSession, Table.cells_delete, List.filter_filter]
    by_cases hother : other = id
    · subst hother
      have hnone : s.messages.cells.filter
          (fun a => decide (a.sessionId = other) && !decide (a.sessionId = other)) = [] := by
        simp
      rw [hnone, InMemorySessions.getMessages, InMemorySessions.deleteSession,
        Dictionary.get_pop_self]
      rfl
    · rw [InMemorySessions.getMessages, InMemorySessions.deleteSession,
        Dictionary.get_pop_of_ne _ hother, ← InMemorySessions.getMessages, ← h.messages]
      congr 1
      apply List.filter_congr
      intro row _
      by_cases hrow : row.sessionId = other
      · simp [hrow, hother]
      · simp [hrow]
  · exact h.numbered.delete fun row => decide (row.sessionId = id)
  · rw [SQLiteSessions.deleteSession, Table.cells_delete]
    exact h.ordered.filter _
  · intro row hrow
    rw [SQLiteSessions.deleteSession, Table.cells_delete] at hrow
    exact h.early row (List.mem_of_mem_filter hrow)

/-- New rows of one session, put behind rows that hold what the others hold. -/
theorem putMessages (h : AgreeSessions float clock m s) {id : String} {messages kept : List Message}
    {table : Table MessageRow} (hnumbered : table.Numbered)
    (hsub : table.cells.Sublist s.messages.cells)
    (hkept : (table.cells.filter (·.sessionId = id)).map MessageRow.message = kept)
    (hothers : ∀ other, other ≠ id →
      (table.cells.filter (·.sessionId = other)).map MessageRow.message = m.getMessages other) :
    AgreeSessions float clock { m with messages := m.messages.set id (kept ++ messages) }
      { s with messages := insertMessages table clock id messages } := by
  refine ⟨h.nodup, h.rows, h.keyed, h.json, ?_, numbered_insertMessages hnumbered _ _ _, ?_, ?_⟩
  · intro other
    rw [cells_insertMessages, List.filter_append, List.map_append, InMemorySessions.getMessages]
    by_cases hother : other = id
    · subst hother
      have hnew : (messages.map fun m => (⟨other, m, clock⟩ : MessageRow)).filter
          (·.sessionId = other) = messages.map fun m => ⟨other, m, clock⟩ := by
        rw [List.filter_eq_self]
        intro row hrow
        obtain ⟨m, _, rfl⟩ := List.mem_map.mp hrow
        simp
      rw [hkept, hnew, List.map_map, Dictionary.get_set_self]
      exact congrArg (kept ++ ·) (List.map_id messages)
    · have hnew : (messages.map fun m => (⟨id, m, clock⟩ : MessageRow)).filter
          (·.sessionId = other) = [] := by
        rw [List.filter_eq_nil_iff]
        intro row hrow
        obtain ⟨m, _, rfl⟩ := List.mem_map.mp hrow
        simpa using Ne.symm hother
      rw [hothers other hother, hnew, Dictionary.get_set_of_ne _ hother]
      simp [InMemorySessions.getMessages]
  · rw [cells_insertMessages, List.pairwise_append]
    refine ⟨h.ordered.sublist hsub, ?_, ?_⟩
    · rw [List.pairwise_map]
      exact List.pairwise_of_forall fun _ _ => le_rfl
    · intro a ha b hb
      obtain ⟨m, _, rfl⟩ := List.mem_map.mp hb
      exact h.early a (hsub.subset ha)
  · intro row hrow
    rw [cells_insertMessages, List.mem_append] at hrow
    obtain hrow | hrow := hrow
    · exact h.early row (hsub.subset hrow)
    · obtain ⟨m, _, rfl⟩ := List.mem_map.mp hrow
      exact le_rfl

theorem addMessages (h : AgreeSessions float clock m s) {id : String} {messages : List Message}
    (hjson : ∀ m ∈ messages, m.persisted = some m) :
    ∃ s', s.addMessages clock id messages = .ok s' ∧
      AgreeSessions float clock (m.addMessages id messages) s' := by
  refine ⟨_, by rw [SQLiteSessions.addMessages, mapM_persisted hjson]; rfl, ?_⟩
  exact h.putMessages h.numbered (List.Sublist.refl _) (h.messages id) fun other _ =>
    h.messages other

theorem replaceMessages (h : AgreeSessions float clock m s) {id : String} {messages : List Message}
    (hjson : ∀ m ∈ messages, m.persisted = some m) :
    ∃ s', s.replaceMessages clock id messages = .ok s' ∧
      AgreeSessions float clock (m.replaceMessages id messages) s' := by
  refine ⟨_, by rw [SQLiteSessions.replaceMessages, mapM_persisted hjson]; rfl, ?_⟩
  have hdeleted := h.deleteSession id
  change AgreeSessions float clock { m with messages := m.messages.set id ([] ++ messages) } _
  refine h.putMessages (h.numbered.delete _) ?_ ?_ ?_
  · rw [Table.cells_delete]
    exact List.filter_sublist
  · have hgone := hdeleted.messages id
    rw [InMemorySessions.getMessages, InMemorySessions.deleteSession, Dictionary.get_pop_self]
      at hgone
    exact hgone
  · intro other hother
    have hstay := hdeleted.messages other
    rw [InMemorySessions.getMessages, InMemorySessions.deleteSession,
      Dictionary.get_pop_of_ne _ hother] at hstay
    exact hstay

/-- One operation gives the same answer and leaves the stores side by side. -/
theorem step (h : AgreeSessions float clock m s) {op : SessionOp} (hshared : m.Shared float op) :
    (inMemorySessionStore.step m clock op).1 = ((sqliteSessionStore float).step s clock op).1 ∧
      AgreeSessions float clock (inMemorySessionStore.step m clock op).2
        ((sqliteSessionStore float).step s clock op).2 := by
  cases op with
  | createSession id workerName metadata =>
    obtain ⟨s', hs, hagree⟩ := h.createSession hshared
    simp only [SessionStore.step, inMemorySessionStore, sqliteSessionStore, hs, changedSession]
    exact ⟨trivial, hagree⟩
  | updateSession id metadata =>
    obtain ⟨s', hs, hagree⟩ := h.updateSession hshared
    simp only [SessionStore.step, inMemorySessionStore, sqliteSessionStore, hs, changedSession]
    exact ⟨trivial, hagree⟩
  | getSession id =>
    simp only [SessionStore.step, inMemorySessionStore, sqliteSessionStore, h.getSession]
    exact ⟨trivial, h⟩
  | deleteSession id => exact ⟨rfl, h.deleteSession id⟩
  | addMessages id messages =>
    obtain ⟨s', hs, hagree⟩ := @addMessages _ _ _ _ h id messages hshared
    simp only [SessionStore.step, inMemorySessionStore, sqliteSessionStore, hs, changedSession]
    exact ⟨trivial, hagree⟩
  | replaceMessages id messages =>
    obtain ⟨s', hs, hagree⟩ := @replaceMessages _ _ _ _ h id messages hshared
    simp only [SessionStore.step, inMemorySessionStore, sqliteSessionStore, hs, changedSession]
    exact ⟨trivial, hagree⟩
  | getMessages id =>
    simp only [SessionStore.step, inMemorySessionStore, sqliteSessionStore, h.getMessages]
    exact ⟨trivial, h⟩

end AgreeSessions

/-! ### Messages are kept -/

/-- The messages of every session are still there, in their order. -/
def Kept (before after : String → List Message) : Prop := ∀ id, before id <+: after id

theorem Kept.refl (messages : String → List Message) : Kept messages messages := fun _ =>
  List.prefix_rfl

/-- In memory, only a session created again loses messages. -/
theorem InMemorySessions.kept (m : InMemorySessions) (now : ℕ) {op : SessionOp}
    (hshared : m.Shared float op) (hop : op.removes = false) :
    Kept m.getMessages (inMemorySessionStore.step m now op).2.getMessages := by
  cases op with
  | createSession id workerName metadata =>
    intro other
    by_cases hother : other = id
    · rw [hother, hshared.2.1]
      exact List.nil_prefix
    · simp only [SessionStore.step, inMemorySessionStore, changedSession, createSession, getMessages,
        Dictionary.get_set_of_ne _ hother]
      exact List.prefix_rfl
  | updateSession id metadata =>
    have hmessages : (m.updateSession now id metadata).messages = m.messages := by
      rw [updateSession]
      split <;> rfl
    intro other
    simp only [SessionStore.step, inMemorySessionStore, changedSession, getMessages, hmessages]
    exact List.prefix_rfl
  | addMessages id messages =>
    intro other
    by_cases hother : other = id
    · subst hother
      simp only [SessionStore.step, inMemorySessionStore, changedSession, addMessages, getMessages,
        Dictionary.get_set_self]
      exact List.prefix_append _ _
    · simp only [SessionStore.step, inMemorySessionStore, changedSession, addMessages, getMessages,
        Dictionary.get_set_of_ne _ hother]
      exact List.prefix_rfl
  | getSession => exact Kept.refl _
  | getMessages => exact Kept.refl _
  | deleteSession => cases hop
  | replaceMessages => cases hop

/-- No operation of a run but the ones that are there for it removes a message. -/
def KeepsMessages {σ : Type} (getMessages : σ → String → List Message)
    (run : List (σ × SessionOp × Except Exn SessionAnswer × σ)) : Prop :=
  ∀ step ∈ run, step.2.1.removes = false → Kept (getMessages step.1) (getMessages step.2.2.2)

theorem AgreeSessions.run (ops : List (ℕ × SessionOp)) : ∀ {clock : ℕ} {m : InMemorySessions}
    {s : SQLiteSessions}, AgreeSessions float clock m s → (ops.map Prod.fst).Pairwise (· ≤ ·) →
    (∀ p ∈ ops, clock ≤ p.1) → m.AllShared float ops →
    inMemorySessionStore.answers m ops = (sqliteSessionStore float).answers s ops ∧
      KeepsMessages InMemorySessions.getMessages (inMemorySessionStore.run m ops) ∧
      KeepsMessages SQLiteSessions.getMessages ((sqliteSessionStore float).run s ops) := by
  induction ops with
  | nil =>
    intros
    refine ⟨rfl, ?_, ?_⟩
    all_goals
      intro step hstep
      cases hstep
  | cons p ops ih =>
    obtain ⟨now, op⟩ := p
    intro clock m s h hclock hlater hshared
    rw [List.map_cons, List.pairwise_cons] at hclock
    have hnow := h.later (hlater (now, op) List.mem_cons_self)
    obtain ⟨hanswer, hagree⟩ := hnow.step hshared.1
    obtain ⟨hanswers, hmemory, hsqlite⟩ := ih hagree hclock.2
      (fun q hq => hclock.1 q.1 (List.mem_map_of_mem hq)) hshared.2
    refine ⟨congrArg₂ List.cons hanswer hanswers, ?_, ?_⟩
    · intro step hstep hop
      obtain rfl | hstep := List.mem_cons.mp hstep
      · exact m.kept now hshared.1 hop
      · exact hmemory step hstep hop
    · intro step hstep hop
      obtain rfl | hstep := List.mem_cons.mp hstep
      · intro id
        have hkept := m.kept now hshared.1 hop id
        rwa [← hnow.getMessages, ← hagree.getMessages] at hkept
      · exact hsqlite step hstep hop

/-- On every run of operations that both stores do alike, they give the same answers, and
both keep every message that is not replaced or deleted. -/
theorem sessions_agree {ops : List (ℕ × SessionOp)} (hclock : (ops.map Prod.fst).Pairwise (· ≤ ·))
    (hshared : ({} : InMemorySessions).AllShared float ops) :
    inMemorySessionStore.answers {} ops = (sqliteSessionStore float).answers {} ops ∧
      KeepsMessages InMemorySessions.getMessages (inMemorySessionStore.run {} ops) ∧
      KeepsMessages SQLiteSessions.getMessages ((sqliteSessionStore float).run {} ops) :=
  AgreeSessions.init.run ops hclock (fun p _ => Nat.zero_le p.1) hshared

/-! ### A conversation, and one that is created again -/

def hello : Message := ⟨.user, .text "hello", none, none, [], none, []⟩

def chatOps : List (ℕ × SessionOp) :=
  [(0, .createSession "c" "w" none), (1, .addMessages "c" [hello]),
    (1, .updateSession "c" (some [("n", .int 1)])), (2, .replaceMessages "d" [hello, hello]),
    (3, .deleteSession "d"), (3, .getMessages "c"), (3, .getSession "c")]

theorem sessions_agree_chat : inMemorySessionStore.answers {} chatOps =
    (sqliteSessionStore Json.noFloats).answers {} chatOps := by
  have hhello : ∀ m ∈ [hello], m.persisted = some m := by
    intro m hm
    obtain rfl := List.mem_singleton.mp hm
    rfl
  have hclock : (chatOps.map Prod.fst).Pairwise (· ≤ ·) := by simp [chatOps]
  refine (sessions_agree hclock ⟨⟨rfl, rfl, List.nodup_nil, trivial⟩, hhello, ?_, ?_, trivial,
    trivial, trivial, trivial⟩).1
  · intro m hm
    obtain rfl := Option.some.inj hm
    exact ⟨by simp, trivial, trivial⟩
  · intro m hm
    obtain rfl : m = hello := by simpa using hm
    rfl

def againOps : List (ℕ × SessionOp) :=
  [(0, .createSession "c" "w" none), (1, .addMessages "c" [hello]), (2, .createSession "c" "w" none),
    (3, .getMessages "c")]

/-- Creating a session again empties it in memory, in SQLite it raises. -/
theorem sessions_differ : (againOps.map Prod.fst).Pairwise (· ≤ ·) ∧
    inMemorySessionStore.answers {} againOps ≠
      (sqliteSessionStore Json.noFloats).answers {} againOps ∧
    ¬KeepsMessages InMemorySessions.getMessages (inMemorySessionStore.run {} againOps) := by
  refine ⟨by simp [againOps], ?_, ?_⟩
  · intro h
    have hagain := congrArg (fun l => l[2]?) h
    cases hagain
  · intro h
    have hkept := h _ (List.mem_cons_of_mem _ (List.mem_cons_of_mem _ List.mem_cons_self)) rfl "c"
    have hlength := hkept.length_le
    exact absurd hlength (by decide)

end Blackgeorge.Store
