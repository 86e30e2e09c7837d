import Blackgeorge.Coroutine.Rules

/-! Triples for one program alone. A law says what a step may do to the world, which
answers arrive and what every question asked must satisfy; the postcondition speaks of
the value returned. Nothing is assumed of the world, so triples also hold of programs
that others interleave with. -/

namespace Blackgeorge.Coroutine

/-- What holds of every step and of every question with its answer. -/
structure Law (S : Sig) where
  step : S.World → S.World → Prop
  admits : ∀ q, S.Answer q → Prop
  event : Event S → Prop

/-- The rules that leave the world to others between any two steps. -/
def Law.rules {S : Sig} (L : Law S) : Rules S where
  rely _ _ := True
  guar := L.step
  admits := L.admits

namespace Coro

variable {S : Sig} {α β γ : Type} {L : Law S}

/-- Every step and question of the program obeys the law and a returned value meets
the postcondition. -/
def Each (L : Law S) (c : Coro S α) (P : α → Prop) : Prop :=
  ∀ w, wp L.rules (fun t r _ => (∀ e ∈ t, L.event e) ∧ ∀ a, r = .ok a → P a) c w

theorem each_ret {r : Except S.Exn α} {P : α → Prop} (h : ∀ a, r = .ok a → P a) :
    Each L (ret r) P :=
  fun _ _ _ => ⟨by simp, h⟩

theorem each_pure {a : α} {P : α → Prop} (h : P a) : Each L (pure a) P :=
  each_ret fun _ hb => Except.ok.inj hb ▸ h

theorem each_raise {e : S.Exn} {P : α → Prop} : Each L (raise e : Coro S α) P :=
  each_ret fun _ h => nomatch h

theorem each_ofExcept {r : Except S.Exn α} {P : α → Prop} (h : ∀ a, r = .ok a → P a) :
    Each L (ofExcept r) P :=
  each_ret h

theorem each_ask {q : S.Query} {k : S.Answer q → Coro S α} {P : α → Prop}
    (h : ∀ a, L.admits q a → L.event ⟨q, a⟩ ∧ Each L (k a) P) : Each L (ask q k) P := by
  intro w a ha
  obtain ⟨he, hk⟩ := h a ha
  refine wp_post ?_ (hk w)
  rintro t r w' ⟨ht, hr⟩
  exact ⟨by simpa using ⟨he, ht⟩, hr⟩

theorem each_query {q : S.Query} {P : S.Answer q → Prop}
    (h : ∀ a, L.admits q a → L.event ⟨q, a⟩ ∧ P a) : Each L (query q) P :=
  each_ask fun a ha => ⟨(h a ha).1, each_pure (h a ha).2⟩

theorem each_act {f : S.World → S.World} {k : S.World → Coro S α} {P : α → Prop}
    (h : ∀ w, L.step w (f w) ∧ Each L (k w) P) : Each L (act f k) P :=
  fun _ w' _ => ⟨(h w').1, (h w').2 _⟩

theorem each_look {g : S.World → α} {P : α → Prop} (hs : ∀ w, L.step w w) (h : ∀ w, P (g w)) :
    Each L (look g) P :=
  each_act fun w => ⟨hs w, each_pure (h w)⟩

theorem each_update {f : S.World → S.World} {P : Unit → Prop} (hs : ∀ w, L.step w (f w))
    (h : P ()) : Each L (update f) P :=
  each_act fun w => ⟨hs w, each_pure h⟩

theorem each_exchange {g : S.World → α} {f : S.World → S.World} {P : α → Prop}
    (hs : ∀ w, L.step w (f w)) (h : ∀ w, P (g w)) : Each L (exchange g f) P :=
  each_act fun w => ⟨hs w, each_pure (h w)⟩

theorem Each.mono {c : Coro S α} {P Q : α → Prop} (h : Each L c P) (hPQ : ∀ a, P a → Q a) :
    Each L c Q :=
  fun w => wp_post (fun _ _ _ hr => ⟨hr.1, fun a ha => hPQ a (hr.2 a ha)⟩) (h w)

/-! ### Composition -/

/-- What another law says of the value holds as well. -/
theorem Each.and {L' : Law S} {c : Coro S α} {P Q : α → Prop} (h : Each L c P) (h' : Each L' c Q)
    (hadm : ∀ q a, L.admits q a → L'.admits q a) : Each L c fun a => P a ∧ Q a := by
  intro w
  have hrely : ∀ w w', L.rules.rely w w' → L'.rules.rely w w' := fun _ _ _ => trivial
  refine wp_post ?_ (wp_both hrely hadm (h w) (h' w))
  intro t r w' hr
  exact ⟨hr.1.1, fun a ha => ⟨hr.1.2 a ha, hr.2.2 a ha⟩⟩

theorem each_bind {c : Coro S α} {g : α → Coro S β} {P : α → Prop} {Q : β → Prop}
    (hc : Each L c P) (hg : ∀ a, P a → Each L (g a) Q) : Each L (c >>= g) Q := by
  intro w
  refine wp_bind (fun _ => trivial) (wp_post ?_ (hc w))
  rintro t (e | a) w' ⟨ht, hr⟩
  · exact ⟨ht, fun a ha => nomatch ha⟩
  · refine wp_post ?_ (hg a (hr a rfl) w')
    rintro t' r w'' ⟨ht', hr'⟩
    refine ⟨fun e he => ?_, hr'⟩
    rcases List.mem_append.mp he with he | he
    · exact ht e he
    · exact ht' e he

theorem each_attempt {c : Coro S α} {P : α → Prop} (h : Each L c P) :
    Each L c.attempt fun r => ∀ a, r = .ok a → P a := by
  intro w
  refine wp_attempt (wp_post ?_ (h w))
  rintro t r w' ⟨ht, hr⟩
  exact ⟨ht, fun _ hr' => Except.ok.inj hr' ▸ hr⟩

/-- Programs under one law may run together. -/
theorem compatible_rules (L : Law S) : Compatible L.rules L.rules L.rules where
  rely₁ _ _ h := h
  rely₂ _ _ h := h
  guar₁ _ _ h := ⟨h, trivial⟩
  guar₂ _ _ h := ⟨h, trivial⟩
  admits₁ _ _ h := h
  admits₂ _ _ h := h
  trans₁ _ _ _ _ _ := trivial
  trans₂ _ _ _ _ _ := trivial

theorem each_par {c : Coro S α} {d : Coro S β} {P : α → Prop} {Q : β → Prop} (hc : Each L c P)
    (hd : Each L d Q) :
    Each L (par c d) fun r => (∀ a, r.1 = .ok a → P a) ∧ ∀ b, r.2 = .ok b → Q b := by
  intro w
  refine wp_post ?_ (wp_par (compatible_rules L) (hc w) (hd w))
  rintro t _ w' ⟨t₁, t₂, r₁, r₂, hm, rfl, ⟨h₁, hr₁⟩, h₂, hr₂⟩
  refine ⟨fun e he => ?_, ?_⟩
  · rcases List.mem_append.mp (hm.perm.mem_iff.mp he) with he | he
    · exact h₁ e he
    · exact h₂ e he
  · rintro _ ⟨⟩
    exact ⟨hr₁, hr₂⟩

theorem each_parAll {cs : List (Coro S α)} {P : α → Prop} (h : ∀ c ∈ cs, Each L c P) :
    Each L (parAll cs) fun rs => rs.length = cs.length ∧ ∀ r ∈ rs, ∀ a, r = .ok a → P a := by
  induction cs with
  | nil => exact each_pure (by simp)
  | cons c cs ih =>
    refine each_bind (each_par (h c (by simp)) (ih fun d hd => h d (by simp [hd]))) ?_
    rintro ⟨r, e | rs⟩ ⟨hr, hrs⟩
    · exact each_raise
    · obtain ⟨hlen, hall⟩ := hrs rs rfl
      refine each_pure ⟨by simp [hlen], ?_⟩
      rintro r' (_ | ⟨_, hr'⟩)
      · exact hr
      · exact hall r' hr'

/-! ### Runs -/

theorem Each.runs {c : Coro S α} {P : α → Prop} (h : Each L c P) {w w' : S.World} {t : Trace S}
    {r : Except S.Exn α} (hr : Runs L.admits c w t r w') :
    (∀ e ∈ t, L.event e) ∧ ∀ a, r = .ok a → P a :=
  wp_sound (R := L.rules) (fun _ => trivial) (h w) hr

/-- Own steps that are guaranteed one by one are guaranteed together. -/
theorem wp_step {R : Rules S} (hrely : ∀ w, R.rely w w) (hrefl : ∀ w, R.guar w w)
    (htrans : ∀ u v w, R.guar u v → R.guar v w → R.guar u w) {c : Coro S α} {Q : Post S α}
    {w w' : S.World} {t : Trace S} {r : Except S.Exn α} (h : wp R Q c w)
    (hr : Runs R.admits c w t r w') : R.guar w w' := by
  induction hr generalizing Q with
  | ret r w => exact hrefl w
  | act _ ih => exact htrans _ _ _ (h _ (hrely _)).1 (ih (h _ (hrely _)).2)
  | ask ha _ ih => exact ih (Q := fun t => Q (_ :: t)) (h _ ha)
  | pick _ ih => exact ih (h _)

theorem Each.runs_step {c : Coro S α} {P : α → Prop} (h : Each L c P) (hrefl : ∀ w, L.step w w)
    (htrans : ∀ u v w, L.step u v → L.step v w → L.step u w) {w w' : S.World} {t : Trace S}
    {r : Except S.Exn α} (hr : Runs L.admits c w t r w') : L.step w w' :=
  wp_step (R := L.rules) (fun _ => trivial) hrefl htrans (h w) hr

end Coro

end Blackgeorge.Coroutine
