import Blackgeorge.Coroutine.Triples
import Mathlib.Algebra.BigOperators.Group.List.Basic
import Mathlib.Algebra.GroupWithZero.Nat

/-! Credits. Events of a program cost credits or earn them; a program that is given some
credits and leaves some with its result never spends more than it was given and has
earned. Credits are split between programs that run together. -/

namespace Blackgeorge.Coroutine

/-- What each event costs and earns. -/
structure Tariff (S : Sig) where
  cost : Event S → ℕ
  gain : Event S → ℕ

namespace Tariff

variable {S : Sig} (T : Tariff S)

def spent (t : Trace S) : ℕ := (t.map T.cost).sum

def earned (t : Trace S) : ℕ := (t.map T.gain).sum

@[simp] theorem spent_nil : T.spent [] = 0 := rfl

@[simp] theorem earned_nil : T.earned [] = 0 := rfl

@[simp] theorem spent_cons (e : Event S) (t : Trace S) :
    T.spent (e :: t) = T.cost e + T.spent t := by
  simp [spent]

@[simp] theorem earned_cons (e : Event S) (t : Trace S) :
    T.earned (e :: t) = T.gain e + T.earned t := by
  simp [earned]

@[simp] theorem spent_append (t t' : Trace S) : T.spent (t ++ t') = T.spent t + T.spent t' := by
  simp [spent]

@[simp] theorem earned_append (t t' : Trace S) :
    T.earned (t ++ t') = T.earned t + T.earned t' := by
  simp [earned]

theorem spent_perm {t t' : Trace S} (h : t.Perm t') : T.spent t = T.spent t' :=
  (h.map T.cost).sum_eq

theorem earned_perm {t t' : Trace S} (h : t.Perm t') : T.earned t = T.earned t' :=
  (h.map T.gain).sum_eq

theorem spent_eq_zero {t : Trace S} (h : ∀ e ∈ t, T.cost e = 0) : T.spent t = 0 := by
  apply List.sum_eq_zero
  intro n hn
  obtain ⟨e, he, rfl⟩ := List.mem_map.mp hn
  exact h e he

end Tariff

namespace Coro

variable {S : Sig} {α β γ : Type} {L : Law S} {T : Tariff S} {m n : ℕ}

/-- The credits an outcome leaves; an exception leaves none. -/
def left (P : α → ℕ) : Except S.Exn α → ℕ
  | .ok a => P a
  | .error _ => 0

/-- Given `m` credits, the program pays for its events and leaves `P a` with a result `a`;
its steps and events are those of the law and its results meet `Φ`. -/
def Pays (L : Law S) (T : Tariff S) (m : ℕ) (c : Coro S α) (P : α → ℕ) (Φ : α → Prop) : Prop :=
  ∀ w, wp L.rules (fun t r _ => T.spent t + left P r ≤ m + T.earned t ∧
    (∀ e ∈ t, L.event e) ∧ ∀ a, r = .ok a → Φ a) c w

variable {P P' : α → ℕ} {Φ Φ' : α → Prop}

theorem Pays.mono {c : Coro S α} (h : Pays L T m c P Φ) (hm : m ≤ n)
    (hP : ∀ a, Φ a → P' a ≤ P a ∧ Φ' a) : Pays L T n c P' Φ' := by
  intro w
  refine wp_post ?_ (h w)
  rintro t (e | a) _ ⟨ht, he, hΦ⟩
  · refine ⟨?_, he, fun _ h => nomatch h⟩
    simp only [left] at ht ⊢
    omega
  · have ⟨hle, hΦ'⟩ := hP a (hΦ a rfl)
    refine ⟨?_, he, fun _ h => Except.ok.inj h ▸ hΦ'⟩
    simp only [left] at ht ⊢
    omega

/-- Credits a program is not given are left alone. -/
theorem Pays.frame {c : Coro S α} (h : Pays L T m c P Φ) (k : ℕ) :
    Pays L T (m + k) c (fun a => P a + k) Φ := by
  intro w
  refine wp_post ?_ (h w)
  rintro t (e | a) _ ⟨ht, hrest⟩ <;> refine ⟨?_, hrest⟩ <;> simp only [left] at ht ⊢ <;> omega

/-- What a law says of the same program is added. -/
theorem Pays.and_each {L' : Law S} {c : Coro S α} (h : Pays L' T m c P Φ') (h' : Each L c Φ)
    (hrules : L'.rules = L.rules) : Pays L T m c P Φ := by
  intro w
  refine wp_post ?_ (wp_and (hrules ▸ h w) (h' w))
  rintro t r _ ⟨⟨ht, -⟩, hrest⟩
  exact ⟨ht, hrest⟩

/-- A program none of whose events cost anything. -/
theorem Each.pays {c : Coro S α} (h : Each L c Φ) (hcost : ∀ e, L.event e → T.cost e = 0) :
    Pays L T 0 c (fun _ => 0) Φ := by
  intro w
  refine wp_post ?_ (h w)
  rintro t r _ ⟨ht, hr⟩
  have hspent := T.spent_eq_zero fun e he => hcost e (ht e he)
  refine ⟨?_, ht, hr⟩
  cases r <;> simp [left, hspent]

theorem Pays.each {c : Coro S α} (h : Pays L T m c P Φ) : Each L c Φ := by
  intro w
  exact wp_post (fun _ _ _ h => h.2) (h w)

/-! ### Primitive programs -/

theorem pays_ret {r : Except S.Exn α} (h : ∀ a, r = .ok a → P a ≤ m ∧ Φ a) :
    Pays L T m (ret r) P Φ := by
  intro w w' _
  refine ⟨?_, by simp, fun a ha => (h a ha).2⟩
  cases r with
  | error e => simp [left]
  | ok a => simpa [left] using (h a rfl).1

theorem pays_pure {a : α} (h : P a ≤ m) (h' : Φ a) : Pays L T m (pure a) P Φ :=
  pays_ret fun _ hb => Except.ok.inj hb ▸ ⟨h, h'⟩

theorem pays_raise {e : S.Exn} : Pays L T m (raise e : Coro S α) P Φ :=
  pays_ret fun _ h => nomatch h

theorem pays_ofExcept {r : Except S.Exn α} (h : ∀ a, r = .ok a → P a ≤ m ∧ Φ a) :
    Pays L T m (ofExcept r) P Φ :=
  pays_ret h

theorem pays_query {q : S.Query} {P : S.Answer q → ℕ} {Φ : S.Answer q → Prop}
    (h : ∀ a, L.admits q a → T.cost ⟨q, a⟩ + P a ≤ m + T.gain ⟨q, a⟩ ∧ L.event ⟨q, a⟩ ∧ Φ a) :
    Pays L T m (query q) P Φ := by
  intro w a ha w' _
  obtain ⟨hle, he, hΦ⟩ := h a ha
  refine ⟨by simpa [left] using hle, by simpa using he, ?_⟩
  rintro _ ⟨⟩
  exact hΦ

/-! ### Composition -/

theorem pays_bind {c : Coro S α} {g : α → Coro S β} {Q : β → ℕ} {Ψ : β → Prop}
    (hc : Pays L T m c P Φ) (hg : ∀ a, Φ a → Pays L T (P a) (g a) Q Ψ) :
    Pays L T m (c >>= g) Q Ψ := by
  intro w
  refine wp_bind (fun _ => trivial) (wp_post ?_ (hc w))
  rintro t (e | a) w' ⟨ht, he, hΦ⟩
  · exact ⟨ht, he, fun _ h => nomatch h⟩
  · refine wp_post ?_ (hg a (hΦ a rfl) w')
    rintro t' r w'' ⟨ht', he', hΨ⟩
    refine ⟨?_, ?_, hΨ⟩
    · simp only [left, Tariff.spent_append, Tariff.earned_append] at ht ht' ⊢
      omega
    · intro e hmem
      rcases List.mem_append.mp hmem with hmem | hmem
      · exact he e hmem
      · exact he' e hmem

/-- The first part neither gets nor leaves credits. -/
theorem pays_bind_free {c : Coro S α} {g : α → Coro S β} {Q : β → ℕ} {Ψ : β → Prop}
    (hc : Pays L T 0 c (fun _ => 0) Φ) (hg : ∀ a, Φ a → Pays L T m (g a) Q Ψ) :
    Pays L T m (c >>= g) Q Ψ := by
  refine pays_bind (P := fun _ => m) ?_ hg
  simpa using hc.frame m

theorem pays_attempt {c : Coro S α} (h : Pays L T m c P Φ) :
    Pays L T m c.attempt (left P) fun r => ∀ a, r = .ok a → Φ a := by
  intro w
  refine wp_attempt (wp_post ?_ (h w))
  rintro t r _ ⟨ht, he, hΦ⟩
  refine ⟨ht, he, ?_⟩
  rintro _ ⟨⟩
  exact hΦ

theorem pays_par {c : Coro S α} {d : Coro S β} {Q : β → ℕ} {Ψ : β → Prop}
    (hc : Pays L T m c P Φ) (hd : Pays L T n d Q Ψ) :
    Pays L T (m + n) (par c d) (fun r => left P r.1 + left Q r.2)
      fun r => (∀ a, r.1 = .ok a → Φ a) ∧ ∀ b, r.2 = .ok b → Ψ b := by
  intro w
  refine wp_post ?_ (wp_par (compatible_rules L) (hc w) (hd w))
  rintro t _ w' ⟨t₁, t₂, r₁, r₂, hm, rfl, ⟨h₁, he₁, hΦ⟩, h₂, he₂, hΨ⟩
  have hspent := T.spent_perm hm.perm
  have hearned := T.earned_perm hm.perm
  refine ⟨?_, ?_, ?_⟩
  · simp only [Tariff.spent_append, Tariff.earned_append] at hspent hearned
    simp only [left] at h₁ h₂ ⊢
    omega
  · intro e he
    rcases List.mem_append.mp (hm.perm.mem_iff.mp he) with he | he
    · exact he₁ e he
    · exact he₂ e he
  · rintro _ ⟨⟩
    exact ⟨hΦ, hΨ⟩

theorem pays_parAll {cs : List (Coro S α)} (h : ∀ c ∈ cs, Pays L T 0 c P Φ) :
    Pays L T 0 (parAll cs) (fun rs => (rs.map (left P)).sum)
      fun rs => rs.length = cs.length ∧ ∀ r ∈ rs, ∀ a, r = .ok a → Φ a := by
  induction cs with
  | nil => exact pays_pure (by simp) (by simp)
  | cons c cs ih =>
    have htail := ih fun d hd => h d (by simp [hd])
    refine pays_bind (pays_par (h c (by simp)) htail) ?_
    rintro ⟨r, e | rs⟩ ⟨hr, hrs⟩
    · exact pays_raise
    · obtain ⟨hlen, hall⟩ := hrs rs rfl
      refine pays_pure (by simp [left]) ⟨by simp [hlen], ?_⟩
      rintro r' (_ | ⟨_, hr'⟩)
      · exact hr
      · exact hall r' hr'

/-! ### Runs -/

theorem Pays.runs {c : Coro S α} (h : Pays L T m c P Φ) {w w' : S.World} {t : Trace S}
    {r : Except S.Exn α} (hr : Runs L.admits c w t r w') :
    T.spent t + left P r ≤ m + T.earned t ∧ (∀ e ∈ t, L.event e) ∧ ∀ a, r = .ok a → Φ a :=
  wp_sound (R := L.rules) (fun _ => trivial) (h w) hr

end Coro

end Blackgeorge.Coroutine
