import Blackgeorge.Coroutine.Rules

/-! Programs one step at a time, for systems whose programs begin and end at any moment. What a
program promises under its rules it still promises after every step, so a pool of programs that
tolerate each other keeps all their promises. -/

namespace Blackgeorge.Coroutine.Coro

variable {S : Sig} {α : Type} {ok : ∀ q, S.Answer q → Prop}

/-- One step of a program, with the rest of it. -/
inductive Advance (ok : ∀ q, S.Answer q → Prop) :
    Coro S α → S.World → Trace S → Coro S α → S.World → Prop
  | act {f k w} : Advance ok (act f k) w [] (k w) (f w)
  | ask {q k a w} : ok q a → Advance ok (ask q k) w [⟨q, a⟩] (k a) w
  | pick {k b w} : Advance ok (pick k) w [] (k b) w

/-- A step is guaranteed, and the rest of the program keeps what the program promised. -/
theorem wp_advance {R : Rules S} (hrefl : ∀ w, R.rely w w) {Q : Post S α} {c c' : Coro S α}
    {w w' : S.World} {t : Trace S} (h : wp R Q c w) (hstep : Advance R.admits c w t c' w') :
    (w' = w ∨ R.guar w w') ∧ wp R (fun t' => Q (t ++ t')) c' w' := by
  cases hstep with
  | act =>
    obtain ⟨hguar, hrest⟩ := h w (hrefl w)
    exact ⟨.inr hguar, hrest⟩
  | ask ha => exact ⟨.inl rfl, h _ ha⟩
  | pick => exact ⟨.inl rfl, h _⟩

/-- What holds of a run's end if each of its steps keeps it. -/
theorem Runs.advance {I : Coro S α → S.World → Prop}
    (hstep : ∀ c w t c' w', I c w → Advance ok c w t c' w' → I c' w') {c : Coro S α} {w w' : S.World}
    {t : Trace S} {r : Except S.Exn α} (hr : Runs ok c w t r w') (h : I c w) : I (Coro.ret r) w' := by
  induction hr with
  | ret r w => exact h
  | act _ ih => exact ih (hstep _ _ _ _ _ h .act)
  | ask ha _ ih => exact ih (hstep _ _ _ _ _ h (.ask ha))
  | pick _ ih => exact ih (hstep _ _ _ _ _ h .pick)

end Blackgeorge.Coroutine.Coro
