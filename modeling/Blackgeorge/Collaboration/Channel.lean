import Blackgeorge.Data.Records
import Blackgeorge.Relational.Dictionary
import Mathlib.Algebra.Order.Group.Multiset
import Mathlib.Data.List.Sort
import Mathlib.Tactic.Abel

/-! The channel between workers: a queue of direct messages for each recipient, one log of
broadcasts, and the place in the log up to which each recipient has read it. Every call
holds the lock while it looks at the channel or changes it. -/

namespace Blackgeorge.Collaboration

open Data Relational

/-- The instant is a number of microseconds. -/
structure ChannelMessage where
  id : String
  sender : String
  recipient : Option String
  content : Value
  timestamp : ℕ
  metadata : Dict

inductive BroadcastMode where
  | all
  | oneShot
  deriving DecidableEq

/-- The check at the start of `receive`. -/
def BroadcastMode.ofName (name : String) : Except Exn BroadcastMode :=
  if name = "one_shot" then .ok .oneShot
  else if name = "all" then .ok .all
  else .error (valueError "broadcast_mode must be 'one_shot' or 'all'")

structure Channel where
  messages : Dictionary String (List ChannelMessage) := []
  broadcasts : List ChannelMessage := []
  broadcastPositions : Dictionary String ℕ := []

/-- `sorted(..., key=lambda message: message.timestamp)`. -/
def byTimestamp (messages : List ChannelMessage) : List ChannelMessage :=
  messages.mergeSort fun m n => m.timestamp ≤ n.timestamp

namespace Channel

variable (channel : Channel)

/-- `_messages.get(recipient, [])`. -/
def direct (recipient : String) : List ChannelMessage := (channel.messages.get recipient).getD []

/-- `_broadcast_positions.get(recipient, 0)`. -/
def position (recipient : String) : ℕ := (channel.broadcastPositions.get recipient).getD 0

/-- `send`, with the id and the instant that the call draws. -/
def send (id : String) (timestamp : ℕ) (sender recipient : String) (content : Value)
    (metadata : Option Dict) : ChannelMessage × Channel :=
  let message := ⟨id, sender, some recipient, content, timestamp, metadata.getD []⟩
  (message, { channel with
    messages := channel.messages.set recipient (channel.direct recipient ++ [message]) })

def broadcast (id : String) (timestamp : ℕ) (sender : String) (content : Value)
    (metadata : Option Dict) : ChannelMessage × Channel :=
  let message := ⟨id, sender, none, content, timestamp, metadata.getD []⟩
  (message, { channel with broadcasts := channel.broadcasts ++ [message] })

/-- The broadcasts that `receive` returns under a mode. -/
def shown (recipient : String) : BroadcastMode → List ChannelMessage
  | .oneShot => channel.broadcasts.drop (channel.position recipient)
  | .all => channel.broadcasts

/-- What `receive` leaves when it clears. -/
def taken (recipient : String) (mode : BroadcastMode) : Channel where
  messages := channel.messages.set recipient []
  broadcasts := channel.broadcasts
  broadcastPositions :=
    match mode with
    | .oneShot => channel.broadcastPositions.set recipient channel.broadcasts.length
    | .all => channel.broadcastPositions

def receive (recipient : String) (clear : Bool) (broadcastMode : String) :
    Except Exn (List ChannelMessage × Channel) := do
  let mode ← BroadcastMode.ofName broadcastMode
  pure (byTimestamp (channel.direct recipient ++ channel.shown recipient mode),
    if clear then channel.taken recipient mode else channel)

/-- `receive(recipient, clear=False)`, where the mode is known. -/
def peek (recipient : String) : List ChannelMessage :=
  byTimestamp (channel.direct recipient ++ channel.shown recipient .oneShot)

def clear : Option String → Channel
  | none => {}
  | some recipient =>
    { channel with
      messages := channel.messages.set recipient []
      broadcastPositions := channel.broadcastPositions.set recipient channel.broadcasts.length }

def allMessages : List ChannelMessage :=
  byTimestamp (channel.messages.flatMap Prod.snd ++ channel.broadcasts)

end Channel

/-! ### Calls -/

inductive ChannelCall where
  | send (id : String) (timestamp : ℕ) (sender recipient : String) (content : Value)
      (metadata : Option Dict)
  | broadcast (id : String) (timestamp : ℕ) (sender : String) (content : Value)
      (metadata : Option Dict)
  | receive (recipient : String) (clear : Bool) (broadcastMode : String)
  | peek (recipient : String)
  | clear (recipient : Option String)
  | allMessages

/-- The messages that a call returns and the channel after it; a call that raises leaves the
channel as it was. -/
def Channel.call (channel : Channel) : ChannelCall → Except Exn (List ChannelMessage) × Channel
  | .send id timestamp sender recipient content metadata =>
    let (message, after) := channel.send id timestamp sender recipient content metadata
    (.ok [message], after)
  | .broadcast id timestamp sender content metadata =>
    let (message, after) := channel.broadcast id timestamp sender content metadata
    (.ok [message], after)
  | .receive recipient clear broadcastMode =>
    match channel.receive recipient clear broadcastMode with
    | .ok (messages, after) => (.ok messages, after)
    | .error e => (.error e, channel)
  | .peek recipient => (.ok (channel.peek recipient), channel)
  | .clear recipient => (.ok [], channel.clear recipient)
  | .allMessages => (.ok channel.allMessages, channel)

/-! ### What became of the messages -/

/-- A channel with what happened since its last full clear: the messages that were sent, and
for each recipient those it has received and those that were discarded unread. -/
structure ChannelHistory where
  channel : Channel := {}
  sent : List ChannelMessage := []
  received : String → List ChannelMessage := fun _ => []
  discarded : String → List ChannelMessage := fun _ => []

/-- Which of the messages that a call returns its recipient has received by it. -/
abbrev Delivery := (clear : Bool) → (broadcastMode : String) → ChannelMessage → Bool

/-- The messages that a call returned as received by `recipient`. -/
def deliveredBy (delivery : Delivery) (recipient : String) (call : ChannelCall)
    (answer : Except Exn (List ChannelMessage)) : List ChannelMessage :=
  match call, answer with
  | .receive reader clear mode, .ok messages =>
    if reader = recipient then messages.filter (delivery clear mode) else []
  | _, _ => []

/-- The messages that a call sends. -/
def sentBy (call : ChannelCall) (answer : Except Exn (List ChannelMessage)) :
    List ChannelMessage :=
  match call, answer with
  | .send .., .ok messages => messages
  | .broadcast .., .ok messages => messages
  | _, _ => []

/-- The messages that `clear(recipient)` discards: what a `peek` just before it shows. -/
def discardedBy (channel : Channel) (recipient : String) (call : ChannelCall) :
    List ChannelMessage :=
  match call with
  | .clear (some reader) => if reader = recipient then channel.peek recipient else []
  | _ => []

def ChannelHistory.step (delivery : Delivery) (history : ChannelHistory) (call : ChannelCall) :
    ChannelHistory :=
  let (answer, after) := history.channel.call call
  match call with
  | .clear none => { channel := after }
  | _ =>
    { channel := after
      sent := history.sent ++ sentBy call answer
      received := fun r => history.received r ++ deliveredBy delivery r call answer
      discarded := fun r => history.discarded r ++ discardedBy history.channel r call }

/-- The history of a channel under calls in the order in which they got the lock. -/
def ChannelHistory.run (delivery : Delivery) (calls : List ChannelCall) : ChannelHistory :=
  calls.foldl (ChannelHistory.step delivery) {}

/-- The direct messages to a recipient and the broadcasts. -/
def addressedTo (recipient : String) (message : ChannelMessage) : Bool :=
  message.recipient = none ∨ message.recipient = some recipient

/-- A clearing read takes the direct messages; only a `one_shot` read takes broadcasts. -/
def takes : Delivery := fun clear mode message =>
  clear && (mode = "one_shot" || message.recipient.isSome)

/-! ### What waits for a recipient -/

theorem byTimestamp_perm (messages : List ChannelMessage) : (byTimestamp messages).Perm messages :=
  List.mergeSort_perm messages _

@[simp] theorem length_byTimestamp (messages : List ChannelMessage) :
    (byTimestamp messages).length = messages.length :=
  (byTimestamp_perm messages).length_eq

@[simp] theorem length_filter_byTimestamp (p : ChannelMessage → Bool)
    (messages : List ChannelMessage) :
    ((byTimestamp messages).filter p).length = (messages.filter p).length :=
  ((byTimestamp_perm messages).filter p).length_eq

namespace Channel

variable {channel : Channel}

theorem receive_ok {recipient : String} {clear : Bool} {broadcastMode : String}
    {messages : List ChannelMessage} {after : Channel}
    (h : channel.receive recipient clear broadcastMode = .ok (messages, after)) :
    ∃ mode, BroadcastMode.ofName broadcastMode = .ok mode ∧
      messages = byTimestamp (channel.direct recipient ++ channel.shown recipient mode) ∧
      after = if clear then channel.taken recipient mode else channel := by
  unfold receive at h
  cases hmode : BroadcastMode.ofName broadcastMode with
  | error e => rw [hmode] at h; cases h
  | ok mode =>
    rw [hmode] at h
    simp only [pure, bind, Except.bind, Except.pure, Except.ok.injEq, Prod.mk.injEq] at h
    exact ⟨mode, rfl, h.1.symm, h.2.symm⟩

theorem ofName_oneShot {broadcastMode : String}
    (h : BroadcastMode.ofName broadcastMode = .ok .oneShot) : broadcastMode = "one_shot" := by
  unfold BroadcastMode.ofName at h
  by_cases hone : broadcastMode = "one_shot"
  · exact hone
  · rw [if_neg hone] at h
    by_cases hall : broadcastMode = "all"
    · rw [if_pos hall] at h
      cases h
    · rw [if_neg hall] at h
      cases h

theorem ofName_all {broadcastMode : String}
    (h : BroadcastMode.ofName broadcastMode = .ok .all) : broadcastMode ≠ "one_shot" := by
  rintro rfl
  cases h

/-- What is in the queue of a recipient and in the log past its position. -/
def waiting (channel : Channel) (recipient : String) : List ChannelMessage :=
  channel.direct recipient ++ channel.shown recipient .oneShot

theorem peek_perm (channel : Channel) (recipient : String) :
    (channel.peek recipient).Perm (channel.waiting recipient) :=
  byTimestamp_perm _

/-- The queues hold direct messages to their recipients, the log holds broadcasts, and no
position is past the end of the log. -/
structure WellFormed (channel : Channel) : Prop where
  direct : ∀ r, ∀ m ∈ channel.direct r, m.recipient = some r
  broadcasts : ∀ m ∈ channel.broadcasts, m.recipient = none
  positions : ∀ r, channel.position r ≤ channel.broadcasts.length

theorem wellFormed_empty : WellFormed {} where
  direct := by simp [Channel.direct, Dictionary.get]
  broadcasts := by simp
  positions := by simp [Channel.position, Dictionary.get]

@[simp] theorem direct_set (recipient r : String) (queue : List ChannelMessage)
    (broadcasts : List ChannelMessage) (positions : Dictionary String ℕ) :
    (Channel.mk (channel.messages.set recipient queue) broadcasts positions).direct r =
      if r = recipient then queue else channel.direct r := by
  by_cases h : r = recipient
  · subst h
    simp [direct, Dictionary.get_set_self]
  · simp [direct, Dictionary.get_set_of_ne _ h, h]

@[simp] theorem position_set (recipient r : String) (messages : Dictionary String _)
    (broadcasts : List ChannelMessage) (n : ℕ) :
    (Channel.mk messages broadcasts (channel.broadcastPositions.set recipient n)).position r =
      if r = recipient then n else channel.position r := by
  by_cases h : r = recipient
  · subst h
    simp [position, Dictionary.get_set_self]
  · simp [position, Dictionary.get_set_of_ne _ h, h]

theorem wellFormed_taken (h : WellFormed channel) (recipient : String) (mode : BroadcastMode) :
    WellFormed (channel.taken recipient mode) := by
  refine ⟨fun r m hm => ?_, h.broadcasts, fun r => ?_⟩
  · simp only [taken, direct_set] at hm
    by_cases hr : r = recipient
    · rw [if_pos hr] at hm
      cases hm
    · rw [if_neg hr] at hm
      exact h.direct r m hm
  · cases mode with
    | all => exact h.positions r
    | oneShot =>
      simp only [taken, position_set]
      by_cases hr : r = recipient
      · rw [if_pos hr]
      · rw [if_neg hr]
        exact h.positions r

theorem wellFormed_call (h : WellFormed channel) (call : ChannelCall) :
    WellFormed (channel.call call).2 := by
  cases call with
  | send id timestamp sender recipient content metadata =>
    refine ⟨fun r m hm => ?_, h.broadcasts, h.positions⟩
    simp only [call, Channel.send, direct_set] at hm
    by_cases hr : r = recipient
    · rw [if_pos hr, List.mem_append, List.mem_singleton] at hm
      obtain hm | rfl := hm
      · exact hr ▸ h.direct _ m hm
      · exact congrArg some hr.symm
    · rw [if_neg hr] at hm
      exact h.direct r m hm
  | broadcast id timestamp sender content metadata =>
    refine ⟨h.direct, fun m hm => ?_, fun r => ?_⟩
    · simp only [call, Channel.broadcast, List.mem_append, List.mem_singleton] at hm
      obtain hm | rfl := hm
      · exact h.broadcasts m hm
      · rfl
    · have hle := h.positions r
      simp only [call, Channel.broadcast, List.length_append, List.length_singleton]
      exact Nat.le_succ_of_le hle
  | receive recipient clear broadcastMode =>
    simp only [call]
    cases hreceive : channel.receive recipient clear broadcastMode with
    | error e => exact h
    | ok p =>
      obtain ⟨messages, after⟩ := p
      obtain ⟨mode, -, -, rfl⟩ := receive_ok hreceive
      cases clear with
      | false => exact h
      | true => exact wellFormed_taken h recipient mode
  | peek recipient => exact h
  | clear recipient =>
    cases recipient with
    | none => exact wellFormed_empty
    | some recipient => exact wellFormed_taken h recipient .oneShot
  | allMessages => exact h

/-! ### What one call conserves -/

theorem waiting_taken_self (recipient : String) (channel : Channel) :
    (channel.taken recipient .oneShot).waiting recipient = [] := by
  simp [waiting, shown, taken]

theorem waiting_taken_all (recipient : String) (channel : Channel) :
    (channel.taken recipient .all).waiting recipient = channel.shown recipient .oneShot := by
  simp [waiting, shown, taken, position]

theorem waiting_taken_of_ne {recipient r : String} (h : recipient ≠ r) (mode : BroadcastMode)
    (channel : Channel) : (channel.taken recipient mode).waiting r = channel.waiting r := by
  have hr : r ≠ recipient := Ne.symm h
  cases mode with
  | all => simp [waiting, shown, taken, hr, position]
  | oneShot => simp [waiting, shown, taken, hr]

theorem waiting_send {recipient : String} {messages : List ChannelMessage} (r : String)
    (channel : Channel) :
    ({ channel with
        messages := channel.messages.set recipient
          (channel.direct recipient ++ messages) } : Channel).waiting r =
      channel.direct r ++ (if r = recipient then messages else []) ++
        channel.shown r .oneShot := by
  by_cases hr : r = recipient
  · subst hr
    simp [waiting, shown, position]
  · simp [waiting, shown, position, hr]

theorem waiting_broadcast (h : WellFormed channel) (r : String) (m : ChannelMessage) :
    ({ channel with broadcasts := channel.broadcasts ++ [m] } : Channel).waiting r =
      channel.waiting r ++ [m] := by
  have hdrop : (channel.broadcasts ++ [m]).drop (position channel r) =
      channel.broadcasts.drop (position channel r) ++ [m] :=
    List.drop_append_of_le_length (h.positions r)
  simp only [waiting, shown, direct, position] at hdrop ⊢
  rw [hdrop, List.append_assoc]

/-- What a clearing read takes and what it leaves waiting is what was waiting. -/
theorem takes_perm (h : WellFormed channel) {recipient broadcastMode : String}
    {mode : BroadcastMode} (hmode : BroadcastMode.ofName broadcastMode = .ok mode) :
    ((byTimestamp (channel.direct recipient ++ channel.shown recipient mode)).filter
        (takes true broadcastMode) ++ (channel.taken recipient mode).waiting recipient).Perm
      (channel.waiting recipient) := by
  cases mode with
  | oneShot =>
    obtain rfl := ofName_oneShot hmode
    have hall : ∀ m ∈ byTimestamp (channel.direct recipient ++ channel.shown recipient .oneShot),
        takes true "one_shot" m = true := fun m _ => by simp [takes]
    rw [List.filter_eq_self.mpr hall, waiting_taken_self, List.append_nil]
    exact byTimestamp_perm _
  | all =>
    have hne := ofName_all hmode
    have hdirect : (channel.direct recipient).filter (takes true broadcastMode) =
        channel.direct recipient :=
      List.filter_eq_self.mpr fun m hm => by simp [takes, h.direct _ m hm]
    have hlog : channel.broadcasts.filter (takes true broadcastMode) = [] :=
      List.filter_eq_nil_iff.mpr fun m hm => by simp [takes, hne, h.broadcasts m hm]
    have hfilter := (byTimestamp_perm
      (channel.direct recipient ++ channel.shown recipient .all)).filter (takes true broadcastMode)
    rw [List.filter_append, shown, hdirect, hlog, List.append_nil] at hfilter
    rw [waiting_taken_all]
    exact hfilter.append_right _

/-- What a call gives to a recipient, leaves waiting for it and discards is what was waiting
and what the call sends. -/
theorem call_conserves (h : WellFormed channel) (r : String) {call : ChannelCall}
    (hcall : call ≠ .clear none) :
    (deliveredBy takes r call (channel.call call).1 ++ (channel.call call).2.waiting r ++
        discardedBy channel r call).Perm
      (channel.waiting r ++ (sentBy call (channel.call call).1).filter (addressedTo r)) := by
  cases call with
  | send id timestamp sender recipient content metadata =>
    simp only [Channel.call, Channel.send, deliveredBy, discardedBy, sentBy, List.nil_append,
      List.append_nil, waiting_send]
    by_cases hr : r = recipient
    · subst hr
      rw [if_pos rfl, List.filter_cons_of_pos (by simp [addressedTo]), List.filter_nil, waiting,
        List.append_assoc, List.append_assoc]
      exact List.perm_append_comm.append_left _
    · rw [if_neg hr, List.append_nil,
        List.filter_cons_of_neg (by simpa [addressedTo] using Ne.symm hr), List.filter_nil,
        List.append_nil]
      exact List.Perm.refl _
  | broadcast id timestamp sender content metadata =>
    simp only [Channel.call, Channel.broadcast, deliveredBy, discardedBy, sentBy, List.nil_append,
      List.append_nil, waiting_broadcast h]
    rw [List.filter_cons_of_pos (by simp [addressedTo]), List.filter_nil]
  | receive recipient clear broadcastMode =>
    simp only [Channel.call, discardedBy, sentBy, List.filter_nil, List.append_nil]
    cases hreceive : channel.receive recipient clear broadcastMode with
    | error e => exact List.Perm.refl _
    | ok p =>
      obtain ⟨messages, after⟩ := p
      obtain ⟨mode, hmode, rfl, rfl⟩ := receive_ok hreceive
      simp only [deliveredBy]
      cases clear with
      | false =>
        have hnone : ∀ messages : List ChannelMessage,
            messages.filter (takes false broadcastMode) = [] := fun messages =>
          List.filter_eq_nil_iff.mpr fun m _ => by simp [takes]
        rw [hnone, ite_self]
        exact List.Perm.refl _
      | true =>
        rw [if_pos rfl]
        by_cases hr : recipient = r
        · subst hr
          rw [if_pos rfl]
          exact takes_perm h hmode
        · rw [if_neg hr, List.nil_append, waiting_taken_of_ne hr]
  | peek recipient => exact (by simp [Channel.call, deliveredBy, discardedBy, sentBy])
  | clear recipient =>
    cases recipient with
    | none => exact absurd rfl hcall
    | some recipient =>
      have hafter : (channel.call (.clear (some recipient))).2 =
          channel.taken recipient .oneShot := rfl
      simp only [hafter, deliveredBy, discardedBy, sentBy, List.nil_append, List.filter_nil,
        List.append_nil]
      by_cases hr : recipient = r
      · subst hr
        rw [if_pos rfl, waiting_taken_self, List.nil_append]
        exact channel.peek_perm recipient
      · rw [if_neg hr, List.append_nil, waiting_taken_of_ne hr]
  | allMessages => exact (by simp [Channel.call, deliveredBy, discardedBy, sentBy])

end Channel

/-! ### What a run conserves -/

/-- What `recipient` has received, what is still there for it and what a clear took from it
are the direct messages to it and the broadcasts since the last full clear. -/
def ChannelHistory.Conserves (history : ChannelHistory) (recipient : String) : Prop :=
  (history.received recipient ++ history.channel.peek recipient ++
    history.discarded recipient).Perm (history.sent.filter (addressedTo recipient))

/-- Between the full clears a recipient's messages are all accounted for. -/
structure Accounted (history : ChannelHistory) : Prop where
  wellFormed : history.channel.WellFormed
  balance : ∀ r, (history.received r ++ history.channel.waiting r ++ history.discarded r).Perm
    (history.sent.filter (addressedTo r))

theorem accounted_empty : Accounted {} where
  wellFormed := Channel.wellFormed_empty
  balance r := by simp [Channel.waiting, Channel.direct, Channel.shown, Dictionary.get]

theorem balance_step {α : Type} {received waiting discarded sent given left dropped new :
    Multiset α} (h : received + waiting + discarded = sent)
    (hcall : given + left + dropped = waiting + new) :
    received + given + left + (discarded + dropped) = sent + new :=
  calc received + given + left + (discarded + dropped)
      = received + discarded + (given + left + dropped) := by abel
    _ = received + discarded + (waiting + new) := by rw [hcall]
    _ = received + waiting + discarded + new := by abel
    _ = sent + new := by rw [h]

theorem Accounted.step {history : ChannelHistory} (h : Accounted history) (call : ChannelCall) :
    Accounted (history.step takes call) := by
  by_cases hcall : call = .clear none
  · subst hcall
    exact accounted_empty
  · have hstep : history.step takes call =
        { channel := (history.channel.call call).2
          sent := history.sent ++ sentBy call (history.channel.call call).1
          received := fun r =>
            history.received r ++ deliveredBy takes r call (history.channel.call call).1
          discarded := fun r => history.discarded r ++ discardedBy history.channel r call } := by
      cases call with
      | clear recipient =>
        cases recipient with
        | none => exact absurd rfl hcall
        | some recipient => rfl
      | _ => rfl
    rw [hstep]
    refine ⟨Channel.wellFormed_call h.wellFormed call, fun r => ?_⟩
    have hcalls := Channel.call_conserves h.wellFormed r hcall
    have hbefore := h.balance r
    simp only [List.filter_append, ← Multiset.coe_eq_coe, ← Multiset.coe_add] at hcalls hbefore ⊢
    exact balance_step hbefore hcalls

theorem accounted_run (calls : List ChannelCall) : Accounted (ChannelHistory.run takes calls) := by
  have hfold : ∀ history, Accounted history →
      Accounted (calls.foldl (ChannelHistory.step takes) history) := by
    induction calls with
    | nil => exact fun _ h => h
    | cons call calls ih => exact fun history h => ih _ (h.step call)
  exact hfold _ accounted_empty

/-- In every run of a channel no message to a recipient is lost or comes twice, and no
position is past the end of the log. -/
theorem run_conserves (calls : List ChannelCall) (recipient : String) :
    let history := ChannelHistory.run takes calls
    history.Conserves recipient ∧
      history.channel.position recipient ≤ history.channel.broadcasts.length := by
  intro history
  have h := accounted_run calls
  refine ⟨?_, h.wellFormed.positions recipient⟩
  have hpeek := (history.channel.peek_perm recipient).append_left (history.received recipient)
  exact (hpeek.append_right _).trans (h.balance recipient)

/-! ### The log read as a whole -/

/-- Only what a clearing `one_shot` read returns counts as received. -/
def oneShotOnly : Delivery := fun clear mode _ => clear && mode = "one_shot"

/-- Everything that a clearing read returns counts as received. -/
def everyRead : Delivery := fun clear _ _ => clear

def letter : ChannelMessage := ⟨"1", "a", some "b", .str "direct", 1, []⟩

def news : ChannelMessage := ⟨"2", "a", none, .str "news", 2, []⟩

def readsLog : List ChannelCall :=
  [.send "1" 1 "a" "b" (.str "direct") none, .broadcast "2" 2 "a" (.str "news") none,
    .receive "b" true "all", .receive "b" true "one_shot"]

/-- After a clearing read of the whole log the direct message comes no more, and the
broadcast comes again. -/
theorem not_run_conserves :
    ¬ (ChannelHistory.run oneShotOnly readsLog).Conserves "b" ∧
      ¬ (ChannelHistory.run everyRead readsLog).Conserves "b" := by
  have hcounts : ∀ delivery, (ChannelHistory.run delivery readsLog).Conserves "b" →
      ([letter, news].filter (delivery true "all")).length +
        ([news].filter (delivery true "one_shot")).length = 2 := fun delivery h => by
    have hlength := List.Perm.length_eq h
    simpa [ChannelHistory.run, readsLog, ChannelHistory.step, Channel.call, Channel.receive,
      Channel.send, Channel.broadcast, Channel.peek, Channel.direct, Channel.position,
      Channel.shown, Channel.taken, BroadcastMode.ofName, Dictionary.set, Dictionary.get,
      deliveredBy, discardedBy, sentBy, addressedTo, letter, news, pure, bind, Except.bind,
      Except.pure] using hlength
  exact ⟨fun h => absurd (hcounts _ h) (by decide), fun h => absurd (hcounts _ h) (by decide)⟩

end Blackgeorge.Collaboration
