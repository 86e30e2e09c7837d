import Blackgeorge.Coroutine.Tree

/-! Weakest preconditions with interference. A program is judged under rules: what
other programs may do to the world between its steps, what each of its own steps
does to it, and which answers the outside may give. The postcondition sees the
program's own questions and answers, its outcome and the final world. -/

namespace Blackgeorge.Coroutine

/-- The rely, the guarantee and the admitted answers of a program. -/
structure Rules (S : Sig) where
  rely : S.World → S.World → Prop
  guar : S.World → S.World → Prop
  admits : ∀ q, S.Answer q → Prop

/-- A postcondition on own trace, outcome and final world. -/
abbrev Post (S : Sig) (α : Type) := Trace S → Except S.Exn α → S.World → Prop

namespace Coro

variable {S : Sig} {α β γ : Type} {R R' : Rules S} {P Q : Post S α}

/-- Whatever admitted answers arrive and whatever the rely does in between, every
own step is guaranteed and the outcome meets the postcondition. -/
def wp (R : Rules S) : Post S α → Coro S α → S.World → Prop
  | Q, ret r, w => ∀ w', R.rely w w' → Q [] r w'
  | Q, act f k, w => ∀ w', R.rely w w' → R.guar w' (f w') ∧ wp R Q (k w') (f w')
  | Q, ask q k, w => ∀ a, R.admits q a → wp R (fun t => Q (⟨q, a⟩ :: t)) (k a) w
  | Q, pick k, w => ∀ b, wp R Q (k b) w

theorem wp_mono (hrely : ∀ w w', R'.rely w w' → R.rely w w')
    (hguar : ∀ w w', R.guar w w' → R'.guar w w') (hadm : ∀ q a, R'.admits q a → R.admits q a)
    (hpost : ∀ t r w, P t r w → Q t r w) {c : Coro S α} {w : S.World} (h : wp R P c w) :
    wp R' Q c w := by
  induction c generalizing w P Q with
  | ret r => exact fun w' hw => hpost _ _ _ (h w' (hrely _ _ hw))
  | act f k ih =>
    intro w' hw
    obtain ⟨hg, hk⟩ := h w' (hrely _ _ hw)
    exact ⟨hguar _ _ hg, ih _ hpost hk⟩
  | ask q k ih => exact fun a ha => ih _ (fun t r w => hpost _ r w) (h a (hadm q a ha))
  | pick k ih => exact fun b => ih _ hpost (h b)

theorem wp_post (hpost : ∀ t r w, P t r w → Q t r w) {c : Coro S α} {w : S.World}
    (h : wp R P c w) : wp R Q c w :=
  wp_mono (fun _ _ h => h) (fun _ _ h => h) (fun _ _ h => h) hpost h

/-- What holds under the rules holds together with what holds of any steps. -/
theorem wp_both (hrely : ∀ w w', R.rely w w' → R'.rely w w')
    (hadm : ∀ q a, R.admits q a → R'.admits q a) {c : Coro S α} {w : S.World} (h : wp R P c w)
    (h' : wp R' Q c w) : wp R (fun t r w => P t r w ∧ Q t r w) c w := by
  induction c generalizing w P Q with
  | ret r => exact fun w' hw => ⟨h w' hw, h' w' (hrely _ _ hw)⟩
  | act f k ih =>
    intro w' hw
    exact ⟨(h w' hw).1, ih _ (h w' hw).2 (h' w' (hrely _ _ hw)).2⟩
  | ask q k ih => exact fun a ha => ih _ (h a ha) (h' a (hadm q a ha))
  | pick k ih => exact fun b => ih b (h b) (h' b)

theorem wp_and {c : Coro S α} {w : S.World} (h : wp R P c w) (h' : wp R Q c w) :
    wp R (fun t r w => P t r w ∧ Q t r w) c w :=
  wp_both (fun _ _ h => h) (fun _ _ h => h) h h'

/-- Interference before the first step is part of the rely. -/
theorem wp_stable (htrans : ∀ u v w, R.rely u v → R.rely v w → R.rely u w) {c : Coro S α}
    {w w' : S.World} (hw : R.rely w w') (h : wp R Q c w) : wp R Q c w' := by
  induction c generalizing Q with
  | ret r => exact fun v hv => h v (htrans _ _ _ hw hv)
  | act f k ih => exact fun v hv => h v (htrans _ _ _ hw hv)
  | ask q k ih => exact fun a ha => ih _ (h a ha)
  | pick k ih => exact fun b => ih _ (h b)

/-! ### Composition -/

/-- What the rest of a sequence has to establish from the outcome of its first part. -/
def thenPost (R : Rules S) (g : α → Coro S β) (Q : Post S β) : Post S α := fun t r w =>
  match r with
  | .ok a => wp R (fun t' r' w' => Q (t ++ t') r' w') (g a) w
  | .error e => Q t (.error e) w

theorem wp_bind (hrefl : ∀ w, R.rely w w) {c : Coro S α} {g : α → Coro S β} {Q : Post S β}
    {w : S.World} (h : wp R (thenPost R g Q) c w) : wp R Q (c >>= g) w := by
  induction c generalizing w Q with
  | ret r =>
    cases r with
    | ok a => exact wp_post (fun _ _ _ h => h) (h w (hrefl w))
    | error e => exact h
  | act f k ih => exact fun w' hw => ⟨(h w' hw).1, ih w' (h w' hw).2⟩
  | ask q k ih =>
    intro a ha
    refine ih a (wp_post ?_ (h a ha))
    rintro t (e | b) w' ht
    · exact ht
    · exact wp_post (fun _ _ _ h => h) ht
  | pick k ih => exact fun b => ih b (h b)

theorem wp_attempt {c : Coro S α} {Q : Post S (Except S.Exn α)} {w : S.World}
    (h : wp R (fun t r w => Q t (.ok r) w) c w) : wp R Q c.attempt w := by
  induction c generalizing w Q with
  | ret r => exact h
  | act f k ih => exact fun w' hw => ⟨(h w' hw).1, ih _ (h w' hw).2⟩
  | ask q k ih => exact fun a ha => ih a (h a ha)
  | pick k ih => exact fun b => ih b (h b)

/-! ### Soundness -/

theorem wp_sound (hrefl : ∀ w, R.rely w w) {c : Coro S α} {w w' : S.World} {t : Trace S}
    {r : Except S.Exn α} (h : wp R Q c w) (hr : Runs R.admits c w t r w') : Q t r w' := by
  induction hr generalizing Q with
  | ret r w => exact h w (hrefl w)
  | act _ ih => exact ih (h _ (hrefl _)).2
  | ask ha _ ih => exact ih (Q := fun t => Q (_ :: t)) (h _ ha)
  | pick _ ih => exact ih (h _)

/-! ### Interference -/

/-- `t` merges `t₁` and `t₂`, keeping the order of each. -/
inductive Merge : Trace S → Trace S → Trace S → Prop
  | nil : Merge [] [] []
  | left {e t₁ t₂ t} : Merge t₁ t₂ t → Merge (e :: t₁) t₂ (e :: t)
  | right {e t₁ t₂ t} : Merge t₁ t₂ t → Merge t₁ (e :: t₂) (e :: t)

theorem Merge.only_right : ∀ t : Trace S, Merge [] t t
  | [] => .nil
  | _ :: t => .right (only_right t)

theorem Merge.only_left : ∀ t : Trace S, Merge t [] t
  | [] => .nil
  | _ :: t => .left (only_left t)

theorem Merge.perm {t₁ t₂ t : Trace S} (h : Merge t₁ t₂ t) : t.Perm (t₁ ++ t₂) := by
  induction h with
  | nil => exact .refl _
  | left _ ih => exact ih.cons _
  | right _ ih => exact (ih.cons _).trans List.perm_middle.symm

/-- Both programs ended, each with its own trace and postcondition. -/
def bothPost (Q₁ : Post S α) (Q₂ : Post S β) : Post S (Except S.Exn α × Except S.Exn β) :=
  fun t r w => ∃ t₁ t₂ r₁ r₂, Merge t₁ t₂ t ∧ r = .ok (r₁, r₂) ∧ Q₁ t₁ r₁ w ∧ Q₂ t₂ r₂ w

/-- Rules under which two programs run together: each tolerates what the other does
and whatever is tolerated from outside. -/
structure Compatible (R R₁ R₂ : Rules S) : Prop where
  rely₁ : ∀ w w', R.rely w w' → R₁.rely w w'
  rely₂ : ∀ w w', R.rely w w' → R₂.rely w w'
  guar₁ : ∀ w w', R₁.guar w w' → R.guar w w' ∧ R₂.rely w w'
  guar₂ : ∀ w w', R₂.guar w w' → R.guar w w' ∧ R₁.rely w w'
  admits₁ : ∀ q a, R.admits q a → R₁.admits q a
  admits₂ : ∀ q a, R.admits q a → R₂.admits q a
  trans₁ : ∀ u v w, R₁.rely u v → R₁.rely v w → R₁.rely u w
  trans₂ : ∀ u v w, R₂.rely u v → R₂.rely v w → R₂.rely u w

theorem wp_attempt_right {R R₁ R₂ : Rules S} (hc : Compatible R R₁ R₂) {r : Except S.Exn α}
    {Q₁ : Post S α} {Q₂ : Post S β} {d : Coro S β} {w : S.World}
    (h₁ : ∀ w', R₁.rely w w' → Q₁ [] r w') (h₂ : wp R₂ Q₂ d w) :
    wp R (bothPost Q₁ Q₂) (d.attempt >>= fun r' => ret (.ok (r, r'))) w := by
  induction d generalizing w Q₂ with
  | ret r' =>
    intro w' hw
    exact ⟨[], [], r, r', .nil, rfl, h₁ _ (hc.rely₁ _ _ hw), h₂ _ (hc.rely₂ _ _ hw)⟩
  | act f k ih =>
    intro w' hw
    obtain ⟨hg, hk⟩ := h₂ w' (hc.rely₂ _ _ hw)
    obtain ⟨hg, hr⟩ := hc.guar₂ _ _ hg
    refine ⟨hg, ih _ (fun v hv => h₁ v ?_) hk⟩
    exact hc.trans₁ _ _ _ (hc.trans₁ _ _ _ (hc.rely₁ _ _ hw) hr) hv
  | ask q k ih =>
    intro a ha
    refine wp_post ?_ (ih a h₁ (h₂ a (hc.admits₂ _ _ ha)))
    rintro t _ w' ⟨t₁, t₂, r₁, r₂, hm, rfl, hq₁, hq₂⟩
    exact ⟨t₁, _ :: t₂, r₁, r₂, .right hm, rfl, hq₁, hq₂⟩
  | pick k ih => exact fun b => ih b h₁ (h₂ b)

/-- Steps of the right program, provided handing over to `left` is sound. -/
theorem wp_parRight {R R₁ R₂ : Rules S} (hc : Compatible R R₁ R₂) {Q₁ : Post S α}
    {left : Coro S β → Coro S (Except S.Exn α × Except S.Exn β)}
    {done : Except S.Exn β → Coro S (Except S.Exn α × Except S.Exn β)} {c : Coro S α}
    (hleft : ∀ d Q₂ w, wp R₁ Q₁ c w → wp R₂ Q₂ d w → wp R (bothPost Q₁ Q₂) (left d) w)
    (hdone : ∀ r Q₂ w, wp R₁ Q₁ c w → wp R₂ Q₂ (ret r) w → wp R (bothPost Q₁ Q₂) (done r) w)
    {d : Coro S β} {Q₂ : Post S β} {w : S.World} (h₁ : wp R₁ Q₁ c w) (h₂ : wp R₂ Q₂ d w) :
    wp R (bothPost Q₁ Q₂) (parRight left done d) w := by
  induction d generalizing w Q₂ with
  | ret r => exact hdone r Q₂ w h₁ h₂
  | act f k ih =>
    rintro (_ | _)
    · intro w' hw
      obtain ⟨hg, hk⟩ := h₂ w' (hc.rely₂ _ _ hw)
      obtain ⟨hg, hr⟩ := hc.guar₂ _ _ hg
      exact ⟨hg, ih _ (wp_stable hc.trans₁ (hc.trans₁ _ _ _ (hc.rely₁ _ _ hw) hr) h₁) hk⟩
    · exact hleft _ _ _ h₁ h₂
  | ask q k ih =>
    rintro (_ | _)
    · intro a ha
      refine wp_post ?_ (ih a h₁ (h₂ a (hc.admits₂ _ _ ha)))
      rintro t _ w' ⟨t₁, t₂, r₁, r₂, hm, rfl, hq₁, hq₂⟩
      exact ⟨t₁, _ :: t₂, r₁, r₂, .right hm, rfl, hq₁, hq₂⟩
    · exact hleft _ _ _ h₁ h₂
  | pick k ih =>
    rintro (_ | _)
    · exact fun b => ih b h₁ (h₂ b)
    · exact hleft _ _ _ h₁ h₂

/-- Concurrent programs meet their postconditions together. -/
theorem wp_par {R R₁ R₂ : Rules S} (hc : Compatible R R₁ R₂) {Q₁ : Post S α} {Q₂ : Post S β}
    {c : Coro S α} {d : Coro S β} {w : S.World} (h₁ : wp R₁ Q₁ c w) (h₂ : wp R₂ Q₂ d w) :
    wp R (bothPost Q₁ Q₂) (par c d) w := by
  induction c generalizing d w Q₁ Q₂ with
  | ret r => exact wp_attempt_right hc h₁ h₂
  | act f k ih =>
    have step : ∀ (d : Coro S β) (Q₂ : Post S β) (w : S.World), wp R₁ Q₁ (act f k) w → wp R₂ Q₂ d w →
        wp R (bothPost Q₁ Q₂) (act f fun w => par (k w) d) w := by
      intro d Q₂ w h₁ h₂ w' hw
      obtain ⟨hg, hk⟩ := h₁ w' (hc.rely₁ _ _ hw)
      obtain ⟨hg, hr⟩ := hc.guar₁ _ _ hg
      exact ⟨hg, ih _ hk (wp_stable hc.trans₂ (hc.trans₂ _ _ _ (hc.rely₂ _ _ hw) hr) h₂)⟩
    exact wp_parRight hc step (fun r => step (ret r)) h₁ h₂
  | ask q k ih =>
    have step : ∀ (d : Coro S β) (Q₂ : Post S β) (w : S.World), wp R₁ Q₁ (ask q k) w → wp R₂ Q₂ d w →
        wp R (bothPost Q₁ Q₂) (ask q fun a => par (k a) d) w := by
      intro d Q₂ w h₁ h₂ a ha
      refine wp_post ?_ (ih a (h₁ a (hc.admits₁ _ _ ha)) h₂)
      rintro t _ w' ⟨t₁, t₂, r₁, r₂, hm, rfl, hq₁, hq₂⟩
      exact ⟨_ :: t₁, t₂, r₁, r₂, .left hm, rfl, hq₁, hq₂⟩
    exact wp_parRight hc step (fun r => step (ret r)) h₁ h₂
  | pick k ih =>
    have step : ∀ (d : Coro S β) (Q₂ : Post S β) (w : S.World), wp R₁ Q₁ (pick k) w → wp R₂ Q₂ d w →
        wp R (bothPost Q₁ Q₂) (pick fun b => par (k b) d) w :=
      fun d Q₂ w h₁ h₂ b => ih b (h₁ b) h₂
    exact wp_parRight hc step (fun r => step (ret r)) h₁ h₂

/-- Each program of a list has a trace of its own, and together they are the whole. -/
theorem wp_parAll (hrefl : ∀ w, R.rely w w) (hR : Compatible R R R) {ι : Type} {xs : List ι}
    {f : ι → Coro S α} {P : ι → Trace S → Except S.Exn α → Prop} {w : S.World}
    (h : ∀ x ∈ xs, wp R (fun t r _ => P x t r) (f x) w) :
    wp R (fun t r _ => ∃ outcomes : List (Trace S × Except S.Exn α),
      r = .ok (outcomes.map Prod.snd) ∧ t.Perm (outcomes.flatMap Prod.fst) ∧
        List.Forall₂ (fun x o => P x o.1 o.2) xs outcomes) (parAll (xs.map f)) w := by
  induction xs with
  | nil => exact fun _ _ => ⟨[], rfl, .refl _, .nil⟩
  | cons x xs ih =>
    have htail := ih fun y hy => h y (by simp [hy])
    refine wp_bind hrefl (wp_post ?_ (wp_par hR (h x (by simp)) htail))
    rintro t _ w' ⟨t₁, t₂, r, _, hm, rfl, hr, outcomes, rfl, hperm, hall⟩
    refine fun _ _ => ⟨(t₁, r) :: outcomes, rfl, ?_, .cons hr hall⟩
    rw [List.append_nil, List.flatMap_cons]
    exact hm.perm.trans (hperm.append_left t₁)

end Coro

end Blackgeorge.Coroutine
