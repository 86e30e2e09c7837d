import Blackgeorge.Coroutine.Triples

/-! Triples about traces. What a program asks, is answered and ends in, whatever others do
to the world between its steps. Programs that run together shuffle their traces. -/

namespace Blackgeorge.Coroutine.Coro

variable {S : Sig} {α β : Type} {ok : ∀ q, S.Answer q → Prop}

/-- The rules that admit answers and leave the world to everyone. -/
def openRules (ok : ∀ q, S.Answer q → Prop) : Rules S where
  rely _ _ := True
  guar _ _ := True
  admits := ok

/-- Every trace of the program and its outcome satisfy `Q`. -/
def Tells (ok : ∀ q, S.Answer q → Prop) (c : Coro S α) (Q : Trace S → Except S.Exn α → Prop) :
    Prop :=
  ∀ w, wp (openRules ok) (fun t r _ => Q t r) c w

variable {Q Q' : Trace S → Except S.Exn α → Prop}

theorem Tells.mono {c : Coro S α} (h : Tells ok c Q) (hQ : ∀ t r, Q t r → Q' t r) :
    Tells ok c Q' :=
  fun w => wp_post (fun t r _ hr => hQ t r hr) (h w)

theorem Tells.and {c : Coro S α} (h : Tells ok c Q) (h' : Tells ok c Q') :
    Tells ok c fun t r => Q t r ∧ Q' t r :=
  fun w => wp_and (h w) (h' w)

theorem tells_any (c : Coro S α) : Tells ok c fun _ _ => True := by
  intro w
  induction c generalizing w with
  | ret r => exact fun _ _ => trivial
  | act f k ih => exact fun w' _ => ⟨trivial, ih w' (f w')⟩
  | ask q k ih => exact fun a _ => ih a w
  | pick k ih => exact fun b => ih b w

/-! ### Primitive programs -/

theorem tells_ret {r : Except S.Exn α} (h : Q [] r) : Tells ok (ret r) Q := fun _ _ _ => h

theorem tells_pure {a : α} (h : Q [] (.ok a)) : Tells ok (pure a) Q := tells_ret h

theorem tells_raise {e : S.Exn} (h : Q [] (.error e)) : Tells ok (raise e) Q := tells_ret h

theorem tells_ofExcept {r : Except S.Exn α} (h : Q [] r) : Tells ok (ofExcept r) Q := tells_ret h

theorem tells_act {f : S.World → S.World} {k : S.World → Coro S α} (h : ∀ w, Tells ok (k w) Q) :
    Tells ok (act f k) Q :=
  fun _ w' _ => ⟨trivial, h w' _⟩

theorem tells_look {g : S.World → α} (h : ∀ w, Q [] (.ok (g w))) : Tells ok (look g) Q :=
  tells_act fun w => tells_ret (h w)

theorem tells_update {f : S.World → S.World} {Q : Trace S → Except S.Exn Unit → Prop}
    (h : Q [] (.ok ())) : Tells ok (update f) Q :=
  tells_act fun _ => tells_ret h

theorem tells_query {q : S.Query} {Q : Trace S → Except S.Exn (S.Answer q) → Prop}
    (h : ∀ a, ok q a → Q [⟨q, a⟩] (.ok a)) : Tells ok (query q) Q :=
  fun _ a ha _ _ => h a ha

/-! ### Composition -/

theorem tells_bind {c : Coro S α} {g : α → Coro S β} {Q' : Trace S → Except S.Exn β → Prop}
    (hc : Tells ok c Q) (hraise : ∀ t e, Q t (.error e) → Q' t (.error e))
    (hg : ∀ t a, Q t (.ok a) → Tells ok (g a) fun t' r => Q' (t ++ t') r) :
    Tells ok (c >>= g) Q' := by
  intro w
  refine wp_bind (fun _ => trivial) (wp_post ?_ (hc w))
  rintro t (e | a) w' hr
  · exact hraise t e hr
  · exact hg t a hr w'

theorem tells_attempt {c : Coro S α} {Q : Trace S → Except S.Exn (Except S.Exn α) → Prop}
    (h : Tells ok c fun t r => Q t (.ok r)) : Tells ok c.attempt Q :=
  fun w => wp_attempt (h w)

theorem open_compatible (ok : ∀ q, S.Answer q → Prop) :
    Compatible (openRules ok) (openRules ok) (openRules ok) where
  rely₁ _ _ _ := trivial
  rely₂ _ _ _ := trivial
  guar₁ _ _ _ := ⟨trivial, trivial⟩
  guar₂ _ _ _ := ⟨trivial, trivial⟩
  admits₁ _ _ h := h
  admits₂ _ _ h := h
  trans₁ _ _ _ _ _ := trivial
  trans₂ _ _ _ _ _ := trivial

/-- Each program of a list has a trace of its own, and together they are the whole. -/
theorem tells_parAll {ι : Type} {xs : List ι} {f : ι → Coro S α}
    {P : ι → Trace S → Except S.Exn α → Prop} (h : ∀ x ∈ xs, Tells ok (f x) (P x)) :
    Tells ok (parAll (xs.map f)) fun t r => ∃ outcomes : List (Trace S × Except S.Exn α),
      r = .ok (outcomes.map Prod.snd) ∧ t.Perm (outcomes.flatMap Prod.fst) ∧
        List.Forall₂ (fun x o => P x o.1 o.2) xs outcomes :=
  fun w => wp_parAll (fun _ => trivial) (open_compatible ok) fun x hx => h x hx w

/-! ### Laws and runs -/

/-- What a law says of a program, told of its traces. -/
theorem Each.tells {L : Law S} {c : Coro S α} {P : α → Prop} (h : Each L c P) :
    Tells L.admits c fun t r => (∀ e ∈ t, L.event e) ∧ ∀ a, r = .ok a → P a := by
  intro w
  have hguar : ∀ w w', L.rules.guar w w' → (openRules L.admits).guar w w' := fun _ _ _ => trivial
  exact wp_mono (R := L.rules) (fun _ _ _ => trivial) hguar (fun _ _ h => h) (fun _ _ _ h => h) (h w)

theorem Tells.runs {c : Coro S α} (h : Tells ok c Q) {w w' : S.World} {t : Trace S}
    {r : Except S.Exn α} (hr : Runs ok c w t r w') : Q t r :=
  wp_sound (R := openRules ok) (fun _ => trivial) (h w) hr

end Blackgeorge.Coroutine.Coro
