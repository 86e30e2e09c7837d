import Blackgeorge.Data.Records
import Blackgeorge.Systems.Runs

/-! The streams that tell of their end: a wrapper emits one `llm.completed` or `llm.failed` for
the stream it wraps. What is emitted reaches whoever listens in the callback context. A
generator, or a call that waits, can be made at any time, so a step does not name its own. -/

namespace Blackgeorge.Adapter

open Data Systems

/-! ### What both wrappers keep -/

inductive Terminal where
  | completed (model : String) (usage : Dict)
  | failed (model : String) (e : Exn)

def Terminal.isFailed : Terminal → Bool
  | .failed _ _ => true
  | .completed _ _ => false

/-- `_StreamEvents`, with what was emitted. -/
structure StreamEvents where
  model : String
  usage : Dict := []
  finished : Bool := false
  emitted : List Terminal := []

namespace StreamEvents

variable (s : StreamEvents)

def emitCompleted : StreamEvents :=
  if s.finished then s
  else { s with finished := true, emitted := s.emitted ++ [.completed s.model s.usage] }

def emitFailed (e : Exn) : StreamEvents :=
  if s.finished then s
  else { s with finished := true, emitted := s.emitted ++ [.failed s.model e] }

/-- `if usage: self._usage = usage`. -/
def keepUsage : Option Dict → StreamEvents
  | some (field :: fields) => { s with usage := field :: fields }
  | _ => s

/-- The clause `except Exception`, which emits and raises again. -/
def caught (e : Exn) : StreamEvents := if e.isException then s.emitFailed e else s

end StreamEvents

/-- What comes of drawing on the stream: a chunk, with what `_stream_usage` makes of it, the
end, or an exception. -/
inductive Drawn where
  | chunk (usage : Except Exn (Option Dict))
  | exhausted
  | raised (e : Exn)

/-- What the consumer sees of a step: an iteration goes on, stops or raises, a call of `close`
or `aclose` returns or raises, or it waits. -/
inductive Seen where
  | chunk
  | stopped
  | raised (e : Exn)
  | closed (outcome : Except Exn Unit)
  | waiting

/-! ### The synchronous wrapper -/

structure SyncStream extends StreamEvents where
  resourceClosed : Bool := false
  /-- How often the stream's own `close` was called. -/
  closes : ℕ := 0

namespace SyncStream

/-- A step of the generator of `__iter__`. -/
def next (s : SyncStream) : Drawn → Seen × SyncStream
  | .chunk (.ok usage) => (.chunk, { s with toStreamEvents := s.keepUsage usage })
  | .chunk (.error e) => (.raised e, { s with toStreamEvents := s.caught e })
  | .exhausted => (.stopped, { s with toStreamEvents := s.emitCompleted })
  | .raised e => (.raised e, { s with toStreamEvents := s.caught e })

/-- `close` on a stream that has a `close` of its own or not. -/
def close (closable : Bool) (s : SyncStream) (outcome : Except Exn Unit) : Seen × SyncStream :=
  if s.resourceClosed then (.closed (.ok ()), s)
  else
    let s := { s with resourceClosed := true, closes := s.closes + closable.toNat }
    match outcome with
    | .ok () => (.closed (.ok ()), { s with toStreamEvents := s.emitCompleted })
    | .error e => (.closed (.error e), { s with toStreamEvents := s.caught e })

end SyncStream

/-- The consumer draws on the stream, gives up the iteration, or closes the stream. The name
`aclose` is no method of this wrapper: `__getattr__` forwards it to the wrapped stream. -/
inductive SyncCall where
  | next (drawn : Drawn)
  | abandon
  | close (outcome : Except Exn Unit)

/-- A generator that is given up ends by a `GeneratorExit`, which is no `Exception`. -/
def SyncStream.step (closable : Bool) (s : SyncStream) : SyncCall → Option (Seen × SyncStream)
  | .next drawn => some (s.next drawn)
  | .abandon => some (.stopped, s)
  | .close outcome => some (s.close closable outcome)

/-! ### The asynchronous wrapper -/

structure AsyncStream extends StreamEvents where
  resourceClosed : Bool := false
  closes : ℕ := 0
  /-- How many calls of `__anext__` wait for the stream. -/
  drawing : ℕ := 0
  /-- Whether a call of `aclose` waits for the stream. -/
  closing : Bool := false

namespace AsyncStream

/-- `__anext__` up to where it waits. -/
def anext (s : AsyncStream) : Seen × AsyncStream :=
  if s.finished then (.stopped, s) else (.waiting, { s with drawing := s.drawing + 1 })

/-- `__anext__` from where it waited; the usage is read outside of the `try`. -/
def drawn (s : AsyncStream) : Drawn → Seen × AsyncStream
  | .chunk (.ok usage) => (.chunk, { s with toStreamEvents := s.keepUsage usage })
  | .chunk (.error e) => (.raised e, s)
  | .exhausted => (.stopped, { s with toStreamEvents := s.emitCompleted })
  | .raised e => (.raised e, { s with toStreamEvents := s.caught e })

/-- `aclose` up to where it waits. -/
def aclose (closable : Bool) (s : AsyncStream) : Seen × AsyncStream :=
  if s.resourceClosed then (.closed (.ok ()), s)
  else
    (.waiting,
      { s with resourceClosed := true, closes := s.closes + closable.toNat, closing := true })

/-- `aclose` from where it waited. -/
def closed (s : AsyncStream) : Except Exn Unit → Seen × AsyncStream
  | .ok () => (.closed (.ok ()), { s with toStreamEvents := s.emitCompleted })
  | .error e => (.closed (.error e), { s with toStreamEvents := s.caught e })

end AsyncStream

/-- The halves of `__anext__` and `aclose`. The name `close` goes to the wrapped stream. -/
inductive AsyncCall where
  | anext
  | drawn (drawn : Drawn)
  | aclose
  | closed (outcome : Except Exn Unit)

/-- Other steps can stand between the two halves of a call. An iteration that is given up makes
no more calls. -/
def AsyncStream.step (closable : Bool) (s : AsyncStream) : AsyncCall → Option (Seen × AsyncStream)
  | .anext => some s.anext
  | .drawn d =>
    if 0 < s.drawing then some (AsyncStream.drawn { s with drawing := s.drawing - 1 } d) else none
  | .aclose => some (s.aclose closable)
  | .closed outcome =>
    if s.closing then some (AsyncStream.closed { s with closing := false } outcome) else none

/-! ### What is promised -/

/-- `llm.completed` is not among what was emitted. -/
def StreamEvents.FailedOnly (s : StreamEvents) : Prop := ∀ t ∈ s.emitted, t.isFailed = true

/-- One terminal event at most, one when a call that closes is over, none but `llm.failed` when
an iteration raised an `Exception`, and one closing of the stream at most. -/
structure Sound (s : StreamEvents) (closes : ℕ) (seen : List Seen) : Prop where
  emitted_le : s.emitted.length ≤ 1
  settled : ∀ outcome, .closed outcome ∈ seen → s.emitted.length = 1
  failed : ∀ e, .raised e ∈ seen → e.isException = true → s.FailedOnly
  closes_le : closes ≤ 1

/-- No exception but an `Exception` comes out of the stream's `close` before the terminal event,
and no `Exception` out of an iteration after `llm.completed`. -/
def SyncStream.Regular (s : SyncStream) : SyncCall → Prop
  | .next (.chunk (.error e)) | .next (.raised e) => e.isException = true → s.FailedOnly
  | .close (.error e) => e.isException = false → s.finished = true
  | _ => True

/-- As for the synchronous wrapper; also, no usage fails to be read before `llm.failed`, and
`aclose` is not called again while a call of it waits and nothing is emitted. -/
def AsyncStream.Regular (s : AsyncStream) : AsyncCall → Prop
  | .drawn (.chunk (.error e)) => e.isException = true → s.finished = true ∧ s.FailedOnly
  | .drawn (.raised e) => e.isException = true → s.FailedOnly
  | .aclose => s.resourceClosed = true → s.finished = true
  | .closed (.error e) => e.isException = false → s.finished = true
  | _ => True

/-! ### Steps of the events -/

/-- What a step leaves of the events: a terminal event that was emitted is the only one, and the
flag goes with it. -/
structure Later (s s' : StreamEvents) : Prop where
  stays : s.finished = true → s'.finished = true ∧ s'.emitted = s.emitted
  counted : s.emitted.length = s.finished.toNat → s'.emitted.length = s'.finished.toNat

theorem Later.refl (s : StreamEvents) : Later s s := ⟨fun h => ⟨h, rfl⟩, id⟩

theorem later_keepUsage (s : StreamEvents) (usage : Option Dict) : Later s (s.keepUsage usage) := by
  unfold StreamEvents.keepUsage
  split
  · exact ⟨fun h => ⟨h, rfl⟩, id⟩
  · exact .refl s

theorem later_emitCompleted (s : StreamEvents) : Later s s.emitCompleted := by
  unfold StreamEvents.emitCompleted
  cases hfinished : s.finished with
  | true => exact .refl s
  | false =>
    rw [if_neg Bool.false_ne_true]
    refine ⟨fun h => ?_, fun h => ?_⟩
    · rw [hfinished] at h
      cases h
    · rw [hfinished] at h
      rw [List.length_append, h]
      rfl

theorem later_emitFailed (s : StreamEvents) (e : Exn) : Later s (s.emitFailed e) := by
  unfold StreamEvents.emitFailed
  cases hfinished : s.finished with
  | true => exact .refl s
  | false =>
    rw [if_neg Bool.false_ne_true]
    refine ⟨fun h => ?_, fun h => ?_⟩
    · rw [hfinished] at h
      cases h
    · rw [hfinished] at h
      rw [List.length_append, h]
      rfl

theorem later_caught (s : StreamEvents) (e : Exn) : Later s (s.caught e) := by
  unfold StreamEvents.caught
  split_ifs
  · exact later_emitFailed s e
  · exact .refl s

theorem finished_emitCompleted (s : StreamEvents) : s.emitCompleted.finished = true := by
  unfold StreamEvents.emitCompleted
  split_ifs with h
  · exact h
  · rfl

theorem finished_emitFailed (s : StreamEvents) (e : Exn) : (s.emitFailed e).finished = true := by
  unfold StreamEvents.emitFailed
  split_ifs with h
  · exact h
  · rfl

/-- An `Exception` is caught with `llm.failed`, unless `llm.completed` was emitted before. -/
theorem failedOnly_caught {s : StreamEvents} {e : Exn} (he : e.isException = true)
    (h : s.FailedOnly) : (s.caught e).finished = true ∧ (s.caught e).FailedOnly := by
  rw [StreamEvents.caught, if_pos he]
  refine ⟨finished_emitFailed s e, ?_⟩
  unfold StreamEvents.emitFailed
  split_ifs
  · exact h
  · intro t ht
    rcases List.mem_append.mp ht with ht | ht
    · exact h t ht
    · obtain rfl := List.mem_singleton.mp ht
      rfl

/-- After what is no `Exception` too, the terminal event is emitted if it was before. -/
theorem finished_caught {s : StreamEvents} {e : Exn}
    (h : e.isException = false → s.finished = true) : (s.caught e).finished = true := by
  unfold StreamEvents.caught
  split_ifs with he
  · exact finished_emitFailed s e
  · exact h (by simpa using he)

/-! ### The invariant -/

/-- What every step of a wrapper keeps; `waits` says whether a call that closes waits. -/
structure Kept (s : StreamEvents) (resourceClosed waits : Bool) (closes : ℕ) (seen : List Seen) :
    Prop where
  counted : s.emitted.length = s.finished.toNat
  closes_le : closes ≤ resourceClosed.toNat
  settled : resourceClosed = true → s.finished = true ∨ waits = true
  closed : ∀ outcome, .closed outcome ∈ seen → s.finished = true
  raised : ∀ e, .raised e ∈ seen → e.isException = true → s.finished = true ∧ s.FailedOnly

theorem kept_start (model : String) : Kept { model } false false 0 [] where
  counted := rfl
  closes_le := le_rfl
  settled h := nomatch h
  closed _ h := nomatch h
  raised _ h := nomatch h

theorem Kept.sound {s : StreamEvents} {resourceClosed waits : Bool} {closes : ℕ} {seen : List Seen}
    (h : Kept s resourceClosed waits closes seen) : Sound s closes seen where
  emitted_le := h.counted.le.trans (Bool.toNat_le _)
  settled outcome houtcome := by
    rw [h.counted, h.closed outcome houtcome]
    rfl
  failed e he hexception := (h.raised e he hexception).2
  closes_le := h.closes_le.trans (Bool.toNat_le _)

/-- What a step must be shown to do besides leaving the events in order. -/
theorem Kept.step {s s' : StreamEvents} {resourceClosed resourceClosed' waits waits' : Bool}
    {closes closes' : ℕ} {seen : List Seen} {a : Seen}
    (h : Kept s resourceClosed waits closes seen) (hlater : Later s s')
    (hcloses : closes' ≤ resourceClosed'.toNat)
    (hsettled : resourceClosed' = true → s'.finished = true ∨ waits' = true)
    (hclosed : ∀ outcome, a = .closed outcome → s'.finished = true)
    (hraised : ∀ e, a = .raised e → e.isException = true → s'.finished = true ∧ s'.FailedOnly) :
    Kept s' resourceClosed' waits' closes' (seen ++ [a]) where
  counted := hlater.counted h.counted
  closes_le := hcloses
  settled := hsettled
  closed outcome houtcome := by
    rcases List.mem_append.mp houtcome with hold | hnew
    · exact (hlater.stays (h.closed outcome hold)).1
    · exact hclosed outcome (List.mem_singleton.mp hnew).symm
  raised e he hexception := by
    rcases List.mem_append.mp he with hold | hnew
    · obtain ⟨hfinished, honly⟩ := h.raised e hold hexception
      obtain ⟨hfinished', hemitted⟩ := hlater.stays hfinished
      refine ⟨hfinished', ?_⟩
      unfold StreamEvents.FailedOnly
      rwa [hemitted]
    · exact hraised e (List.mem_singleton.mp hnew).symm hexception

/-- The closing of the stream goes on as it was, after a step of the iteration. -/
theorem Kept.iteration {s s' : StreamEvents} {resourceClosed waits : Bool} {closes : ℕ}
    {seen : List Seen} {a : Seen} (h : Kept s resourceClosed waits closes seen)
    (hlater : Later s s') (hclosed : ∀ outcome, a ≠ .closed outcome)
    (hraised : ∀ e, a = .raised e → e.isException = true → s'.finished = true ∧ s'.FailedOnly) :
    Kept s' resourceClosed waits closes (seen ++ [a]) := by
  refine h.step hlater h.closes_le (fun hresource => ?_) (fun outcome ha => ?_) hraised
  · exact (h.settled hresource).imp_left fun hfinished => (hlater.stays hfinished).1
  · exact absurd ha (hclosed outcome)

/-! ### The synchronous wrapper -/

/-- `Kept` of a synchronous wrapper, whose calls that close do not wait. -/
def SyncStream.Kept (seen : List Seen) (s : SyncStream) : Prop :=
  Adapter.Kept s.toStreamEvents s.resourceClosed false s.closes seen

theorem SyncStream.kept_next {s : SyncStream} {seen : List Seen} (h : s.Kept seen) {d : Drawn}
    (hregular : s.Regular (.next d)) : (s.next d).2.Kept (seen ++ [(s.next d).1]) := by
  unfold SyncStream.Kept at *
  cases d with
  | chunk usage =>
    cases usage with
    | ok usage =>
      exact h.iteration (later_keepUsage _ _) (fun _ ha => nomatch ha) fun _ ha => nomatch ha
    | error e =>
      refine h.iteration (later_caught _ e) (fun _ ha => nomatch ha) fun e' ha he => ?_
      obtain rfl := Seen.raised.inj ha
      exact failedOnly_caught he (hregular he)
  | exhausted =>
    exact h.iteration (later_emitCompleted _) (fun _ ha => nomatch ha) fun _ ha => nomatch ha
  | raised e =>
    refine h.iteration (later_caught _ e) (fun _ ha => nomatch ha) fun e' ha he => ?_
    obtain rfl := Seen.raised.inj ha
    exact failedOnly_caught he (hregular he)

theorem SyncStream.kept_close {closable : Bool} {s : SyncStream} {seen : List Seen}
    (h : s.Kept seen) {outcome : Except Exn Unit} (hregular : s.Regular (.close outcome)) :
    (s.close closable outcome).2.Kept (seen ++ [(s.close closable outcome).1]) := by
  unfold SyncStream.Kept at *
  unfold SyncStream.close
  cases hresource : s.resourceClosed with
  | true =>
    have hfinished := (h.settled hresource).resolve_right Bool.false_ne_true
    rw [if_pos rfl]
    rw [hresource] at h
    exact hresource ▸ h.step (.refl _) h.closes_le h.settled (fun _ _ => hfinished)
      fun _ ha => nomatch ha
  | false =>
    have hcloses := h.closes_le
    rw [hresource] at hcloses
    have hnone : s.closes = 0 := Nat.le_zero.mp hcloses
    have hone : s.closes + closable.toNat ≤ true.toNat := by
      rw [hnone, Nat.zero_add]
      exact Bool.toNat_le closable
    rw [if_neg Bool.false_ne_true]
    cases outcome with
    | ok _ =>
      have hfinished := finished_emitCompleted s.toStreamEvents
      exact h.step (later_emitCompleted _) hone (fun _ => .inl hfinished) (fun _ _ => hfinished)
        fun _ ha => nomatch ha
    | error e =>
      have hfinished := finished_caught (s := s.toStreamEvents) hregular
      exact h.step (later_caught _ e) hone (fun _ => .inl hfinished) (fun _ _ => hfinished)
        fun _ ha => nomatch ha

theorem SyncStream.kept_step {closable : Bool} {s s' : SyncStream} {seen : List Seen}
    (h : s.Kept seen) {c : SyncCall} (hregular : s.Regular c) {a : Seen}
    (hstep : s.step closable c = some (a, s')) : s'.Kept (seen ++ [a]) := by
  cases c with
  | next d =>
    obtain ⟨rfl, rfl⟩ := Prod.mk.inj (Option.some.inj hstep)
    exact kept_next h hregular
  | abandon =>
    obtain ⟨rfl, rfl⟩ := Prod.mk.inj (Option.some.inj hstep)
    exact h.iteration (.refl _) (fun _ ha => nomatch ha) fun _ ha => nomatch ha
  | close outcome =>
    obtain ⟨rfl, rfl⟩ := Prod.mk.inj (Option.some.inj hstep)
    exact kept_close h hregular

/-! ### The asynchronous wrapper -/

def AsyncStream.Kept (seen : List Seen) (s : AsyncStream) : Prop :=
  Adapter.Kept s.toStreamEvents s.resourceClosed s.closing s.closes seen

theorem AsyncStream.kept_drawn {s : AsyncStream} {seen : List Seen} (h : s.Kept seen) {d : Drawn}
    (hregular : s.Regular (.drawn d)) : (s.drawn d).2.Kept (seen ++ [(s.drawn d).1]) := by
  unfold AsyncStream.Kept at *
  cases d with
  | chunk usage =>
    cases usage with
    | ok usage =>
      exact h.iteration (later_keepUsage _ _) (fun _ ha => nomatch ha) fun _ ha => nomatch ha
    | error e =>
      refine h.iteration (.refl _) (fun _ ha => nomatch ha) fun e' ha he => ?_
      obtain rfl := Seen.raised.inj ha
      exact hregular he
  | exhausted =>
    exact h.iteration (later_emitCompleted _) (fun _ ha => nomatch ha) fun _ ha => nomatch ha
  | raised e =>
    refine h.iteration (later_caught _ e) (fun _ ha => nomatch ha) fun e' ha he => ?_
    obtain rfl := Seen.raised.inj ha
    exact failedOnly_caught he (hregular he)

theorem AsyncStream.kept_anext {s : AsyncStream} {seen : List Seen} (h : s.Kept seen) :
    s.anext.2.Kept (seen ++ [s.anext.1]) := by
  unfold AsyncStream.Kept at *
  unfold AsyncStream.anext
  split_ifs
  · exact h.iteration (.refl _) (fun _ ha => nomatch ha) fun _ ha => nomatch ha
  · exact h.iteration (.refl _) (fun _ ha => nomatch ha) fun _ ha => nomatch ha

theorem AsyncStream.kept_aclose {closable : Bool} {s : AsyncStream} {seen : List Seen}
    (h : s.Kept seen) (hregular : s.Regular .aclose) :
    (s.aclose closable).2.Kept (seen ++ [(s.aclose closable).1]) := by
  unfold AsyncStream.Kept at *
  unfold AsyncStream.aclose
  cases hresource : s.resourceClosed with
  | true =>
    have hfinished := hregular hresource
    rw [if_pos rfl]
    exact h.step (.refl _) h.closes_le h.settled (fun _ _ => hfinished) fun _ ha => nomatch ha
  | false =>
    have hcloses := h.closes_le
    rw [hresource] at hcloses
    have hnone : s.closes = 0 := Nat.le_zero.mp hcloses
    have hone : s.closes + closable.toNat ≤ true.toNat := by
      rw [hnone, Nat.zero_add]
      exact Bool.toNat_le closable
    rw [if_neg Bool.false_ne_true]
    exact h.step (.refl _) hone (fun _ => .inr rfl) (fun _ ha => nomatch ha) fun _ ha => nomatch ha

theorem AsyncStream.kept_closed {s : AsyncStream} {seen : List Seen} (h : s.Kept seen)
    {outcome : Except Exn Unit} (hregular : s.Regular (.closed outcome)) :
    (AsyncStream.closed { s with closing := false } outcome).2.Kept
      (seen ++ [(AsyncStream.closed { s with closing := false } outcome).1]) := by
  unfold AsyncStream.Kept at *
  cases outcome with
  | ok _ =>
    have hfinished := finished_emitCompleted s.toStreamEvents
    exact h.step (later_emitCompleted _) h.closes_le (fun _ => .inl hfinished)
      (fun _ _ => hfinished) fun _ ha => nomatch ha
  | error e =>
    have hfinished := finished_caught (s := s.toStreamEvents) hregular
    exact h.step (later_caught _ e) h.closes_le (fun _ => .inl hfinished)
      (fun _ _ => hfinished) fun _ ha => nomatch ha

theorem AsyncStream.kept_step {closable : Bool} {s s' : AsyncStream} {seen : List Seen}
    (h : s.Kept seen) {c : AsyncCall} (hregular : s.Regular c) {a : Seen}
    (hstep : s.step closable c = some (a, s')) : s'.Kept (seen ++ [a]) := by
  cases c with
  | anext =>
    obtain ⟨rfl, rfl⟩ := Prod.mk.inj (Option.some.inj hstep)
    exact kept_anext h
  | drawn d =>
    simp only [AsyncStream.step] at hstep
    split_ifs at hstep
    obtain ⟨rfl, rfl⟩ := Prod.mk.inj (Option.some.inj hstep)
    exact AsyncStream.kept_drawn (s := { s with drawing := s.drawing - 1 }) h hregular
  | aclose =>
    obtain ⟨rfl, rfl⟩ := Prod.mk.inj (Option.some.inj hstep)
    exact kept_aclose h hregular
  | closed outcome =>
    simp only [AsyncStream.step] at hstep
    split_ifs at hstep
    obtain ⟨rfl, rfl⟩ := Prod.mk.inj (Option.some.inj hstep)
    exact kept_closed h hregular

/-! ### Every run -/

/-- Whatever is done with a wrapper, in whatever order: where every step is regular, every state
reached is sound. -/
theorem sound_of_run (closable : Bool) (model : String) :
    (∀ seen s, Run (SyncStream.step closable) SyncStream.Regular { model } seen s →
      Sound s.toStreamEvents s.closes seen) ∧
    ∀ seen s, Run (AsyncStream.step closable) AsyncStream.Regular { model } seen s →
      Sound s.toStreamEvents s.closes seen := by
  constructor
  · intro seen s hrun
    have hstart : SyncStream.Kept [] { model } := kept_start model
    have hkept : s.Kept seen := hrun.invariant (I := SyncStream.Kept) hstart
      fun _ _ _ _ _ h hregular hstep => SyncStream.kept_step h hregular hstep
    exact Kept.sound hkept
  · intro seen s hrun
    have hstart : AsyncStream.Kept [] { model } := kept_start model
    have hkept : s.Kept seen := hrun.invariant (I := AsyncStream.Kept) hstart
      fun _ _ _ _ _ h hregular hstep => AsyncStream.kept_step h hregular hstep
    exact Kept.sound hkept

/-- A stream that is read to its end and closed. -/
theorem sound_exhausted :
    Sound { model := "model", finished := true, emitted := [.completed "model" []] } 1
      [.stopped, .closed (.ok ())] := by
  have hread : Run (SyncStream.step true) SyncStream.Regular { model := "model" } [.stopped]
      { model := "model", finished := true, emitted := [.completed "model" []] } :=
    .call (c := .next .exhausted) .start (by trivial) rfl
  have hclosed : Run (SyncStream.step true) SyncStream.Regular { model := "model" }
      [.stopped, .closed (.ok ())]
      { model := "model", finished := true, emitted := [.completed "model" []],
        resourceClosed := true, closes := 1 } :=
    hread.call (c := .close (.ok ())) (by trivial) rfl
  exact (sound_of_run true "model").1 _ _ hclosed

/-- A call of `close` that is interrupted emits nothing, and a usage that fails to be read is
followed by `llm.completed`. -/
theorem not_sound_of_run :
    (¬ ∀ seen s, Run (SyncStream.step true) (fun _ _ => True) { model := "model" } seen s →
      Sound s.toStreamEvents s.closes seen) ∧
    ¬ ∀ seen s, Run (AsyncStream.step true) (fun _ _ => True) { model := "model" } seen s →
      Sound s.toStreamEvents s.closes seen := by
  constructor
  · intro h
    have hrun : Run (SyncStream.step true) (fun _ _ => True) { model := "model" }
        [.closed (.error cancelledError)]
        { model := "model", resourceClosed := true, closes := 1 } :=
      .call (c := .close (.error cancelledError)) .start trivial rfl
    have hone := (h _ _ hrun).settled (.error cancelledError) (by simp)
    exact absurd hone (by decide)
  · intro h
    have hanswers : Systems.answers (AsyncStream.step true) { model := "model" }
        [.anext, .drawn (.chunk (.error (valueError "usage"))), .aclose, .closed (.ok ())] =
          some ([.waiting, .raised (valueError "usage"), .waiting, .closed (.ok ())],
            { model := "model", finished := true, emitted := [.completed "model" []],
              resourceClosed := true, closes := 1 }) := rfl
    have hrun : Run (AsyncStream.step true) (fun _ _ => True) { model := "model" }
        [.waiting, .raised (valueError "usage"), .waiting, .closed (.ok ())]
        { model := "model", finished := true, emitted := [.completed "model" []],
          resourceClosed := true, closes := 1 } :=
      Run.start.answers (fun _ _ => trivial) hanswers
    have hfailed := (h _ _ hrun).failed (valueError "usage") (by simp) rfl _ List.mem_cons_self
    exact absurd hfailed (by decide)

end Blackgeorge.Adapter
