import Blackgeorge.Coroutine.Traces

/-! The first event of a kind. What a trace says of it is put together from its parts: the
first part that has such an event decides. -/

namespace Blackgeorge.Coroutine.Coro

variable {S : Sig} {α β : Type} {ok : ∀ q, S.Answer q → Prop} {kind : Event S → Bool}
  {P : Event S → Prop}

/-- The first event of the kind, if the trace has one, has the property. -/
def First (kind : Event S → Bool) (P : Event S → Prop) (t : Trace S) : Prop :=
  ∀ e, t.find? kind = some e → P e

theorem first_of_none {t : Trace S} (h : ∀ e ∈ t, kind e = false) : First kind P t := by
  intro e he
  rw [List.find?_eq_none.mpr (by simpa using h)] at he
  cases he

theorem find?_append_of_none {t t' : Trace S} (h : ∀ e ∈ t, kind e = false) :
    (t ++ t').find? kind = t'.find? kind := by
  rw [List.find?_append, List.find?_eq_none.mpr (by simpa using h), Option.none_or]

theorem find?_append_of_some {t t' : Trace S} {e : Event S} (h : t.find? kind = some e) :
    (t ++ t').find? kind = some e := by
  rw [List.find?_append, h, Option.some_or]

/-- The first event of the kind has the property, or there is none and a value returned is one
of which `ended` holds. -/
def Begins (kind : Event S → Bool) (P : Event S → Prop) (ended : α → Prop) (t : Trace S)
    (r : Except S.Exn α) : Prop :=
  (∃ e, t.find? kind = some e ∧ P e) ∨ ((∀ e ∈ t, kind e = false) ∧ ∀ a, r = .ok a → ended a)

variable {ended : α → Prop} {t t' : Trace S} {r : Except S.Exn α}

theorem begins_of_none (h : ∀ e ∈ t, kind e = false) (hr : ∀ a, r = .ok a → ended a) :
    Begins kind P ended t r :=
  .inr ⟨h, hr⟩

theorem Begins.after_none (h : ∀ e ∈ t, kind e = false) (h' : Begins kind P ended t' r) :
    Begins kind P ended (t ++ t') r := by
  rcases h' with ⟨e, he, hP⟩ | ⟨ht', hr⟩
  · exact .inl ⟨e, (find?_append_of_none h).trans he, hP⟩
  · refine .inr ⟨fun e he => ?_, hr⟩
    rcases List.mem_append.mp he with he | he
    · exact h e he
    · exact ht' e he

theorem Begins.mono {ended' : β → Prop} {r' : Except S.Exn β} (h : Begins kind P ended t r)
    (hr : (∀ a, r = .ok a → ended a) → ∀ b, r' = .ok b → ended' b) : Begins kind P ended' t r' :=
  h.imp_right fun ⟨ht, hended⟩ => ⟨ht, hr hended⟩

/-- What follows without such events does not change how the program begins. -/
theorem Begins.before_none {ended' : β → Prop} {r' : Except S.Exn β} (h : Begins kind P ended t r)
    (ht' : ∀ e ∈ t', kind e = false) (hr : (∀ a, r = .ok a → ended a) → ∀ b, r' = .ok b → ended' b) :
    Begins kind P ended' (t ++ t') r' := by
  rcases h with ⟨e, he, hP⟩ | ⟨ht, hended⟩
  · exact .inl ⟨e, find?_append_of_some he, hP⟩
  · exact (begins_of_none ht' (hr hended)).after_none ht

theorem Begins.first (h : Begins kind P ended t r) : First kind P t := by
  rcases h with ⟨e, he, hP⟩ | ⟨ht, -⟩
  · intro e' he'
    exact Option.some.inj (he.symm.trans he') ▸ hP
  · exact first_of_none ht

theorem First.mono {P' : Event S → Prop} (hP : ∀ e, P e → P' e) {t : Trace S} (h : First kind P t) :
    First kind P' t :=
  fun e he => hP e (h e he)

/-- The program asks before it ends, and its first question is of the kind and has the
property. -/
def Asks (kind : Event S → Bool) (P : Event S → Prop) : Coro S α → Prop
  | ret _ => False
  | act _ k => ∀ w, Asks kind P (k w)
  | ask q _ => ∀ a, kind ⟨q, a⟩ = true ∧ P ⟨q, a⟩
  | pick _ => False

theorem Asks.bind {c : Coro S α} {g : α → Coro S β} (h : Asks kind P c) : Asks kind P (c >>= g) := by
  induction c with
  | ret r => exact h.elim
  | act f k ih => exact fun w => ih w (h w)
  | ask q k _ => exact h
  | pick k _ => exact h.elim

theorem Asks.attempt {c : Coro S α} (h : Asks kind P c) : Asks kind P c.attempt := by
  induction c with
  | ret r => exact h.elim
  | act f k ih => exact fun w => ih w (h w)
  | ask q k _ => exact h
  | pick k _ => exact h.elim

theorem Asks.tells {c : Coro S α} (h : Asks kind P c) : Tells ok c (Begins kind P ended) := by
  intro w
  induction c generalizing w with
  | ret r => exact h.elim
  | act f k ih => exact fun w' _ => ⟨trivial, ih w' (h w') (f w')⟩
  | ask q k _ =>
    intro a _
    obtain ⟨hkind, hP⟩ := h a
    have hfound (t : Trace S) : List.find? kind (⟨q, a⟩ :: t) = some ⟨q, a⟩ := by
      rw [List.find?_cons, hkind]
    exact wp_post (P := fun _ _ _ => True) (fun t _ _ _ => .inl ⟨_, hfound t, hP⟩) (tells_any (k a) w)
  | pick k _ => exact h.elim

end Blackgeorge.Coroutine.Coro
