import Blackgeorge.Coroutine.Traces
import Mathlib.Algebra.BigOperators.Group.List.Basic

/-! What a program adds to a measure of the world. Its gain is the sum over its own steps,
whatever others add between them; a run alone changes the measure by its gain. -/

namespace Blackgeorge.Coroutine.Coro

variable {S : Sig} {M α β : Type} [AddCommGroup M] {ok : ∀ q, S.Answer q → Prop}
  {val : S.World → M}

/-- A postcondition on own trace, own gain and outcome. -/
abbrev GainPost (S : Sig) (M α : Type) := Trace S → M → Except S.Exn α → Prop

/-- Whatever others do to the world, every trace with its gain and outcome meets `Q`. -/
def Gains (ok : ∀ q, S.Answer q → Prop) (val : S.World → M) : Coro S α → GainPost S M α → Prop
  | ret r, Q => Q [] 0 r
  | act f k, Q => ∀ w, Gains ok val (k w) fun t m r => Q t (val (f w) - val w + m) r
  | ask q k, Q => ∀ a, ok q a → Gains ok val (k a) fun t m r => Q (⟨q, a⟩ :: t) m r
  | pick k, Q => ∀ b, Gains ok val (k b) Q

variable {P Q Q' : GainPost S M α}

theorem Gains.mono {c : Coro S α} (h : Gains ok val c Q) (hQ : ∀ t m r, Q t m r → Q' t m r) :
    Gains ok val c Q' := by
  induction c generalizing Q Q' with
  | ret r => exact hQ _ _ _ h
  | act f k ih => exact fun w => ih w (h w) fun t m r hq => hQ t _ r hq
  | ask q k ih => exact fun a ha => ih a (h a ha) fun t m r hq => hQ _ m r hq
  | pick k ih => exact fun b => ih b (h b) hQ

theorem Gains.and {c : Coro S α} (h : Gains ok val c Q) (h' : Gains ok val c Q') :
    Gains ok val c fun t m r => Q t m r ∧ Q' t m r := by
  induction c generalizing Q Q' with
  | ret r => exact ⟨h, h'⟩
  | act f k ih => exact fun w => ih w (h w) (h' w)
  | ask q k ih => exact fun a ha => ih a (h a ha) (h' a ha)
  | pick k ih => exact fun b => ih b (h b) (h' b)

/-! ### Primitive programs -/

theorem gains_ret {r : Except S.Exn α} (h : Q [] 0 r) : Gains ok val (ret r) Q := h

theorem gains_pure {a : α} (h : Q [] 0 (.ok a)) : Gains ok val (pure a) Q := h

theorem gains_raise {e : S.Exn} (h : Q [] 0 (.error e)) : Gains ok val (raise e) Q := h

theorem gains_update {f : S.World → S.World} {Q : GainPost S M Unit} {m : M}
    (hf : ∀ w, val (f w) = val w + m) (h : Q [] m (.ok ())) : Gains ok val (update f) Q := by
  intro w
  apply gains_ret
  rw [hf w, add_sub_cancel_left, add_zero]
  exact h

theorem gains_query {q : S.Query} {Q : GainPost S M (S.Answer q)}
    (h : ∀ a, ok q a → Q [⟨q, a⟩] 0 (.ok a)) : Gains ok val (query q) Q :=
  fun a ha => h a ha

/-! ### Composition -/

theorem gains_bind {c : Coro S α} {g : α → Coro S β} {Q' : GainPost S M β} (hc : Gains ok val c Q)
    (hraise : ∀ t m e, Q t m (.error e) → Q' t m (.error e))
    (hg : ∀ t m a, Q t m (.ok a) → Gains ok val (g a) fun t' m' r => Q' (t ++ t') (m + m') r) :
    Gains ok val (c >>= g) Q' := by
  induction c generalizing Q Q' with
  | ret r =>
    cases r with
    | error e => exact hraise _ _ _ hc
    | ok a =>
      refine (hg _ _ a hc).mono fun t m r h => ?_
      rwa [zero_add] at h
  | act f k ih =>
    intro w
    refine ih w (hc w) (fun t m e h => hraise _ _ e h) fun t m a h => ?_
    refine (hg _ _ a h).mono fun t' m' r h' => ?_
    rwa [add_assoc] at h'
  | ask q k ih =>
    intro a ha
    exact ih a (hc a ha) (fun t m e h => hraise _ _ e h) fun t m b h => hg _ _ b h
  | pick k ih => exact fun b => ih b (hc b) hraise hg

theorem gains_attempt {c : Coro S α} {Q : GainPost S M (Except S.Exn α)}
    (h : Gains ok val c fun t m r => Q t m (.ok r)) : Gains ok val c.attempt Q := by
  induction c generalizing Q with
  | ret r => exact h
  | act f k ih => exact fun w => ih w (h w)
  | ask q k ih => exact fun a ha => ih a (h a ha)
  | pick k ih => exact fun b => ih b (h b)

/-! ### Laws and runs -/

/-- A program whose steps keep the measure gains nothing. -/
theorem Each.gains [Nonempty S.World] {L : Law S} (hval : ∀ w w', L.step w w' → val w' = val w)
    {c : Coro S α} {P : α → Prop} (h : Each L c P) :
    Gains L.admits val c fun t m r => m = 0 ∧ (∀ e ∈ t, L.event e) ∧ ∀ a, r = .ok a → P a := by
  have key : ∀ (w : S.World) (c : Coro S α) (Q : Post S α), wp L.rules Q c w →
      Gains L.admits val c fun t m r => m = 0 ∧ ∃ w, Q t r w := by
    intro w c
    induction c generalizing w with
    | ret r => exact fun Q h => ⟨rfl, w, h w trivial⟩
    | act f k ih =>
      intro Q h w'
      obtain ⟨hstep, hk⟩ := h w' trivial
      refine (ih w' _ Q hk).mono ?_
      rintro t m r ⟨rfl, hq⟩
      exact ⟨by simp [hval _ _ hstep], hq⟩
    | ask q k ih => exact fun Q h a ha => ih a w _ (h a ha)
    | pick k ih => exact fun Q h b => ih b w Q (h b)
  obtain ⟨w⟩ := ‹Nonempty S.World›
  refine (key w c _ (h w)).mono ?_
  rintro t m r ⟨hm, w', hq⟩
  exact ⟨hm, hq⟩

/-- What a run alone changes is its gain. -/
theorem Gains.runs {c : Coro S α} (h : Gains ok val c Q) {w w' : S.World} {t : Trace S}
    {r : Except S.Exn α} (hr : Runs ok c w t r w') : Q t (val w' - val w) r := by
  induction hr generalizing Q with
  | ret r w => simpa [Gains] using h
  | act _ ih =>
    have hq := ih (h _)
    rwa [sub_add_sub_cancel'] at hq
  | ask ha _ ih => exact ih (h _ ha)
  | pick _ ih => exact ih (h _)

end Blackgeorge.Coroutine.Coro
