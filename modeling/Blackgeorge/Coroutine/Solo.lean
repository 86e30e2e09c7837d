import Blackgeorge.Coroutine.Triples

/-! Programs that run alone. `After` holds of a program, a world and a postcondition when
every run from that world ends in it; the rules follow the program's text, and a program
judged by a law enters as one step. -/

namespace Blackgeorge.Coroutine.Coro

variable {S : Sig} {α β : Type} {ok : ∀ q, S.Answer q → Prop} {w : S.World} {Q Q' : Post S α}

/-- Every run from `w` ends in `Q`. -/
def After (ok : ∀ q, S.Answer q → Prop) (c : Coro S α) (w : S.World) (Q : Post S α) : Prop :=
  ∀ t r w', Runs ok c w t r w' → Q t r w'

theorem After.mono {c : Coro S α} (h : After ok c w Q) (hQ : ∀ t r w', Q t r w' → Q' t r w') :
    After ok c w Q' :=
  fun t r w' hr => hQ t r w' (h t r w' hr)

/-- What holds whatever the answers holds of the admitted ones. -/
theorem After.admitted {c : Coro S α} (h : After (fun _ _ => True) c w Q) : After ok c w Q :=
  fun t r w' hr => h t r w' (hr.mono fun _ _ _ => trivial)

/-! ### Primitive programs -/

theorem after_ret {r : Except S.Exn α} (h : Q [] r w) : After ok (ret r) w Q := by
  intro t r' w' hr
  cases hr
  exact h

theorem after_pure {a : α} (h : Q [] (.ok a) w) : After ok (pure a) w Q := after_ret h

theorem after_raise {e : S.Exn} (h : Q [] (.error e) w) : After ok (raise e) w Q := after_ret h

theorem after_ofExcept {r : Except S.Exn α} (h : Q [] r w) : After ok (ofExcept r) w Q :=
  after_ret h

theorem after_act {f : S.World → S.World} {k : S.World → Coro S α} (h : After ok (k w) (f w) Q) :
    After ok (act f k) w Q := by
  intro t r w' hr
  cases hr with
  | act hr => exact h t r w' hr

theorem after_ask {q : S.Query} {k : S.Answer q → Coro S α}
    (h : ∀ a, ok q a → After ok (k a) w fun t => Q (⟨q, a⟩ :: t)) : After ok (ask q k) w Q := by
  intro t r w' hr
  cases hr with
  | ask ha hr => exact h _ ha _ r w' hr

theorem after_look {g : S.World → α} (h : Q [] (.ok (g w)) w) : After ok (look g) w Q :=
  after_act (after_ret h)

theorem after_update {f : S.World → S.World} {Q : Post S Unit} (h : Q [] (.ok ()) (f w)) :
    After ok (update f) w Q :=
  after_act (after_ret h)

theorem after_exchange {g : S.World → α} {f : S.World → S.World} (h : Q [] (.ok (g w)) (f w)) :
    After ok (exchange g f) w Q :=
  after_act (after_ret h)

theorem after_query {q : S.Query} {Q : Post S (S.Answer q)}
    (h : ∀ a, ok q a → Q [⟨q, a⟩] (.ok a) w) : After ok (query q) w Q :=
  after_ask fun a ha => after_ret (h a ha)

/-! ### Composition -/

/-- What the rest of a sequence has to establish from the outcome of its first part. -/
def Next (ok : ∀ q, S.Answer q → Prop) (g : α → Coro S β) (Q : Post S β) : Post S α :=
  fun t r w =>
    match r with
    | .ok a => After ok (g a) w fun t' r' w' => Q (t ++ t') r' w'
    | .error e => Q t (.error e) w

theorem after_bind {c : Coro S α} {g : α → Coro S β} {Q : Post S β}
    (h : After ok c w (Next ok g Q)) : After ok (c >>= g) w Q := by
  intro t r w' hr
  rcases runs_bind hr with ⟨e, hc, rfl⟩ | ⟨a, t₁, t₂, w₁, hc, hg, rfl⟩
  · exact h t _ w' hc
  · exact h t₁ _ w₁ hc t₂ r w' hg

/-- A postcondition that asks nothing of the trace and nothing where the program raises is up to its
last part. -/
theorem after_last {c : Coro S α} {g : α → Coro S β} {Q : Except S.Exn β → S.World → Prop}
    (hraise : ∀ e w, Q (.error e) w) (hg : ∀ a w, After ok (g a) w fun _ => Q) :
    After ok (c >>= g) w fun _ => Q := by
  apply after_bind
  rintro t (e | a) w₁ -
  · exact hraise e w₁
  · exact hg a w₁

theorem after_returns {c : Coro S α} {g : α → Coro S β} {P : β → Prop}
    (hg : ∀ a w, After ok (g a) w fun _ r _ => ∀ b, r = .ok b → P b) :
    After ok (c >>= g) w fun _ r _ => ∀ b, r = .ok b → P b :=
  after_last (fun _ _ _ h => nomatch h) hg

theorem runs_attempt {c : Coro S α} {w w' : S.World} {t : Trace S}
    {r : Except S.Exn (Except S.Exn α)} (h : Runs ok c.attempt w t r w') :
    ∃ r', r = .ok r' ∧ Runs ok c w t r' w' := by
  induction c generalizing w t with
  | ret r' =>
    cases h
    exact ⟨r', rfl, .ret _ _⟩
  | act f k ih =>
    cases h with
    | act h =>
      obtain ⟨r', rfl, h'⟩ := ih _ h
      exact ⟨r', rfl, .act h'⟩
  | ask q k ih =>
    cases h with
    | ask ha h =>
      obtain ⟨r', rfl, h'⟩ := ih _ h
      exact ⟨r', rfl, .ask ha h'⟩
  | pick k ih =>
    cases h with
    | pick h =>
      obtain ⟨r', rfl, h'⟩ := ih _ h
      exact ⟨r', rfl, .pick h'⟩

/-- A program under a law is one step of that law. -/
theorem Each.after {L : Law S} {c : Coro S α} {P : α → Prop} (h : Each L c P)
    (hrefl : ∀ w, L.step w w) (htrans : ∀ u v w, L.step u v → L.step v w → L.step u w) :
    After L.admits c w fun t r w' =>
      L.step w w' ∧ (∀ e ∈ t, L.event e) ∧ ∀ a, r = .ok a → P a := by
  intro t r w' hr
  exact ⟨h.runs_step hrefl htrans hr, h.runs hr⟩

end Blackgeorge.Coroutine.Coro
