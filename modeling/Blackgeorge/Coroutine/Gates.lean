import Blackgeorge.Coroutine.Credits

/-! Gates. A gate that is shut stays shut, and a program looks at it before it spends. However
programs interleave, once the gate is shut each of them spends at most what it may spend
between two looks. -/

namespace Blackgeorge.Coroutine

/-- What everyone keeps, when the gate is shut, which answers arrive, what events cost. -/
structure Gate (S : Sig) where
  holds : S.World → Prop
  shut : S.World → Prop
  admits : ∀ q, S.Answer q → Prop
  cost : Event S → ℕ

namespace Gate

variable {S : Sig} (G : Gate S)

/-- A shut gate stays shut. -/
def step (w w' : S.World) : Prop := G.holds w → G.holds w' ∧ (G.shut w → G.shut w')

theorem step_refl (w : S.World) : G.step w w := fun h => ⟨h, fun h => h⟩

/-- The law of programs that spend nothing. -/
def idle : Law S where
  step := G.step
  admits := G.admits
  event e := G.cost e = 0

/-- The law of programs that may spend. -/
def steps : Law S where
  step := G.step
  admits := G.admits
  event _ := True

/-- Every question has an admitted answer. -/
def Live : Prop := ∀ q, ∃ a, G.admits q a

def tariff : Tariff S where
  cost := G.cost
  gain _ := 0

theorem earned_eq_zero (t : Trace S) : G.tariff.earned t = 0 := by
  induction t with
  | nil => rfl
  | cons e t ih => rw [Tariff.earned_cons, ih]; rfl

end Gate

namespace Coro

variable {S : Sig} {α β γ : Type} {G : Gate S} {n n' cap cap' cap₁ cap₂ n₁ n₂ : ℕ}

/-- Given `n` to spend, and `cap` at each look at the open gate, the program never spends more
than it has. -/
def Gated (G : Gate S) (cap : ℕ) : ℕ → Coro S α → Prop
  | _, ret _ => True
  | n, act f k => ∀ w, G.holds w →
    G.step w (f w) ∧ (G.shut w → Gated G cap n (k w)) ∧ (¬G.shut w → Gated G cap cap (k w))
  | n, ask q k => ∀ a, G.admits q a → G.cost ⟨q, a⟩ ≤ n ∧ Gated G cap (n - G.cost ⟨q, a⟩) (k a)
  | n, pick k => ∀ b, Gated G cap n (k b)

/-- The program spends nothing before it has looked at the gate. -/
abbrev Looks (G : Gate S) (cap : ℕ) (c : Coro S α) : Prop := Gated G cap 0 c

theorem Gated.mono {c : Coro S α} (h : Gated G cap n c) (hn : n ≤ n') : Gated G cap n' c := by
  induction c generalizing n n' with
  | ret r => trivial
  | act f k ih =>
    intro w hw
    obtain ⟨hstep, hshut, hopen⟩ := h w hw
    exact ⟨hstep, fun hs => ih w (hshut hs) hn, hopen⟩
  | ask q k ih =>
    intro a ha
    obtain ⟨hcost, hrest⟩ := h a ha
    exact ⟨Nat.le_trans hcost hn, ih a hrest (Nat.sub_le_sub_right hn _)⟩
  | pick k ih => exact fun b => ih b (h b) hn

theorem Gated.mono_cap {c : Coro S α} (h : Gated G cap n c) (hcap : cap ≤ cap') :
    Gated G cap' n c := by
  induction c generalizing n with
  | ret r => trivial
  | act f k ih =>
    intro w hw
    obtain ⟨hstep, hshut, hopen⟩ := h w hw
    exact ⟨hstep, fun hs => ih w (hshut hs), fun ho => (ih w (hopen ho)).mono hcap⟩
  | ask q k ih =>
    intro a ha
    exact ⟨(h a ha).1, ih a (h a ha).2⟩
  | pick k ih => exact fun b => ih b (h b)

/-! ### Composition -/

theorem gated_bind {c : Coro S α} {g : α → Coro S β} (hc : Gated G cap n c)
    (hg : ∀ a, Looks G cap (g a)) : Gated G cap n (c >>= g) := by
  induction c generalizing n with
  | ret r =>
    cases r with
    | ok a => exact (hg a).mono (Nat.zero_le n)
    | error e => trivial
  | act f k ih =>
    intro w hw
    obtain ⟨hstep, hshut, hopen⟩ := hc w hw
    exact ⟨hstep, fun hs => ih w (hshut hs), fun ho => ih w (hopen ho)⟩
  | ask q k ih =>
    intro a ha
    exact ⟨(hc a ha).1, ih a (hc a ha).2⟩
  | pick k ih => exact fun b => ih b (hc b)

/-- A look: behind it there is nothing new to spend if the gate is shut, and `cap` if not. -/
theorem gated_look {g : S.World → α} {k : α → Coro S β}
    (hshut : ∀ w, G.holds w → G.shut w → Gated G cap n (k (g w)))
    (hopen : ∀ w, G.holds w → ¬G.shut w → Gated G cap cap (k (g w))) :
    Gated G cap n (look g >>= k) :=
  fun w hw => ⟨G.step_refl w, hshut w hw, hopen w hw⟩

/-- What is seen is known to be kept. -/
theorem looks_look {g : S.World → α} {k : α → Coro S β}
    (h : ∀ w, G.holds w → Looks G cap (k (g w))) : Looks G cap (look g >>= k) :=
  gated_look (fun w hw _ => h w hw) fun w hw _ => (h w hw).mono (Nat.zero_le cap)

theorem gated_pure {a : α} : Gated G cap n (pure a : Coro S α) := trivial

theorem gated_raise {e : S.Exn} : Gated G cap n (raise e : Coro S α) := trivial

theorem gated_attempt {c : Coro S α} (h : Gated G cap n c) : Gated G cap n c.attempt := by
  induction c generalizing n with
  | ret r => trivial
  | act f k ih =>
    intro w hw
    obtain ⟨hstep, hshut, hopen⟩ := h w hw
    exact ⟨hstep, fun hs => ih w (hshut hs), fun ho => ih w (hopen ho)⟩
  | ask q k ih => exact fun a ha => ⟨(h a ha).1, ih a (h a ha).2⟩
  | pick k ih => exact fun b => ih b (h b)

/-! ### Programs that run together -/

theorem gated_attempt_right {r : Except S.Exn α} {d : Coro S β} (h : Gated G cap n d) :
    Gated G cap n (d.attempt >>= fun r' => ret (.ok (r, r'))) :=
  gated_bind (gated_attempt h) fun _ => trivial

/-- Steps of the right program, provided handing over to `left` is within the means of both. -/
theorem gated_parRight {c : Coro S α} {left : Coro S β → Coro S γ} {done : Except S.Exn β → Coro S γ}
    (hleft : ∀ d n₁ n₂, n₁ ≤ cap₁ → n₂ ≤ cap₂ → Gated G cap₁ n₁ c → Gated G cap₂ n₂ d →
      Gated G (cap₁ + cap₂) (n₁ + n₂) (left d))
    (hdone : ∀ r n₁ n₂, n₁ ≤ cap₁ → n₂ ≤ cap₂ → Gated G cap₁ n₁ c →
      Gated G (cap₁ + cap₂) (n₁ + n₂) (done r))
    {d : Coro S β} (hn₁ : n₁ ≤ cap₁) (hn₂ : n₂ ≤ cap₂) (hc : Gated G cap₁ n₁ c)
    (hd : Gated G cap₂ n₂ d) : Gated G (cap₁ + cap₂) (n₁ + n₂) (parRight left done d) := by
  induction d generalizing n₁ n₂ with
  | ret r => exact hdone r n₁ n₂ hn₁ hn₂ hc
  | act f k ih =>
    rintro (_ | _)
    · intro w hw
      obtain ⟨hstep, hshut, hopen⟩ := hd w hw
      refine ⟨hstep, fun hs => ih w hn₁ hn₂ hc (hshut hs), fun ho => ?_⟩
      exact ih w (Nat.le_refl _) (Nat.le_refl _) (hc.mono hn₁) (hopen ho)
    · exact hleft _ n₁ n₂ hn₁ hn₂ hc hd
  | ask q k ih =>
    rintro (_ | _)
    · intro a ha
      obtain ⟨hcost, hrest⟩ := hd a ha
      refine ⟨by omega, ?_⟩
      rw [Nat.add_sub_assoc hcost]
      exact ih a hn₁ (Nat.le_trans (Nat.sub_le _ _) hn₂) hc hrest
    · exact hleft _ n₁ n₂ hn₁ hn₂ hc hd
  | pick k ih =>
    rintro (_ | _)
    · exact fun b => ih b hn₁ hn₂ hc (hd b)
    · exact hleft _ n₁ n₂ hn₁ hn₂ hc hd

/-- Programs that run together spend no more than both may. -/
theorem gated_par {c : Coro S α} {d : Coro S β} (hn₁ : n₁ ≤ cap₁) (hn₂ : n₂ ≤ cap₂)
    (hc : Gated G cap₁ n₁ c) (hd : Gated G cap₂ n₂ d) :
    Gated G (cap₁ + cap₂) (n₁ + n₂) (par c d) := by
  induction c generalizing d n₁ n₂ with
  | ret r => exact (gated_attempt_right (hd.mono_cap (Nat.le_add_left _ _))).mono (Nat.le_add_left _ _)
  | act f k ih =>
    have step : ∀ (d : Coro S β) n₁ n₂, n₁ ≤ cap₁ → n₂ ≤ cap₂ → Gated G cap₁ n₁ (act f k) →
        Gated G cap₂ n₂ d → Gated G (cap₁ + cap₂) (n₁ + n₂) (act f fun w => par (k w) d) := by
      intro d n₁ n₂ hn₁ hn₂ hc hd w hw
      obtain ⟨hstep, hshut, hopen⟩ := hc w hw
      refine ⟨hstep, fun hs => ih w hn₁ hn₂ (hshut hs) hd, fun ho => ?_⟩
      exact ih w (Nat.le_refl _) (Nat.le_refl _) (hopen ho) (hd.mono hn₂)
    refine gated_parRight step ?_ hn₁ hn₂ hc hd
    exact fun r n₁ n₂ hn₁ hn₂ hc => step (ret r) n₁ n₂ hn₁ hn₂ hc trivial
  | ask q k ih =>
    have step : ∀ (d : Coro S β) n₁ n₂, n₁ ≤ cap₁ → n₂ ≤ cap₂ → Gated G cap₁ n₁ (ask q k) →
        Gated G cap₂ n₂ d → Gated G (cap₁ + cap₂) (n₁ + n₂) (ask q fun a => par (k a) d) := by
      intro d n₁ n₂ hn₁ hn₂ hc hd a ha
      obtain ⟨hcost, hrest⟩ := hc a ha
      refine ⟨by omega, ?_⟩
      rw [Nat.sub_add_comm hcost]
      exact ih a (Nat.le_trans (Nat.sub_le _ _) hn₁) hn₂ hrest hd
    refine gated_parRight step ?_ hn₁ hn₂ hc hd
    exact fun r n₁ n₂ hn₁ hn₂ hc => step (ret r) n₁ n₂ hn₁ hn₂ hc trivial
  | pick k ih =>
    have step : ∀ (d : Coro S β) n₁ n₂, n₁ ≤ cap₁ → n₂ ≤ cap₂ → Gated G cap₁ n₁ (pick k) →
        Gated G cap₂ n₂ d → Gated G (cap₁ + cap₂) (n₁ + n₂) (pick fun b => par (k b) d) :=
      fun d n₁ n₂ hn₁ hn₂ hc hd b => ih b hn₁ hn₂ (hc b) hd
    refine gated_parRight step ?_ hn₁ hn₂ hc hd
    exact fun r n₁ n₂ hn₁ hn₂ hc => step (ret r) n₁ n₂ hn₁ hn₂ hc trivial

theorem looks_parAll_cons {c : Coro S α} {cs : List (Coro S α)} (hc : Looks G cap₁ c)
    (hcs : Looks G cap₂ (parAll cs)) : Looks G (cap₁ + cap₂) (parAll (c :: cs)) := by
  refine gated_bind (gated_par (Nat.zero_le _) (Nat.zero_le _) hc hcs) ?_
  rintro ⟨r, e | rs⟩
  · exact gated_raise
  · exact gated_pure

theorem looks_parAll {cs : List (Coro S α)} (h : ∀ c ∈ cs, Looks G cap c) :
    Looks G (cs.length * cap) (parAll cs) := by
  induction cs with
  | nil => exact gated_pure
  | cons c cs ih =>
    rw [List.length_cons, Nat.succ_mul, Nat.add_comm]
    exact looks_parAll_cons (h c List.mem_cons_self) (ih fun d hd => h d (List.mem_cons_of_mem _ hd))

/-! ### Programs that spend within a sum -/

theorem exists_runs {ok : ∀ q, S.Answer q → Prop} (hlive : ∀ q, ∃ a, ok q a) (c : Coro S α)
    (w : S.World) : ∃ t r w', Runs ok c w t r w' := by
  induction c generalizing w with
  | ret r => exact ⟨[], r, w, .ret r w⟩
  | act f k ih =>
    obtain ⟨t, r, w', h⟩ := ih w (f w)
    exact ⟨t, r, w', .act h⟩
  | ask q k ih =>
    obtain ⟨a, ha⟩ := hlive q
    obtain ⟨t, r, w', h⟩ := ih a w
    exact ⟨_, r, w', .ask ha h⟩
  | pick k ih =>
    obtain ⟨t, r, w', h⟩ := ih true w
    exact ⟨t, r, w', .pick h⟩

/-- A program that pays for all its events with what it is given. -/
abbrev Spends (G : Gate S) (n : ℕ) (c : Coro S α) (P : α → Prop) : Prop :=
  Pays G.steps G.tariff n c (fun _ => 0) P

variable {P : α → Prop} {Q : β → Prop}

theorem Each.spends {c : Coro S α} (h : Each G.idle c P) : Spends G 0 c P := by
  intro w
  refine wp_mono (fun _ _ h => h) (fun _ _ h => h) (fun _ _ h => h) ?_ (h w)
  rintro t r _ ⟨ht, hr⟩
  have hspent : G.tariff.spent t = 0 := G.tariff.spent_eq_zero ht
  refine ⟨?_, fun _ _ => trivial, hr⟩
  cases r <;> simp [left, hspent]

theorem spends_bind {m : ℕ} {c : Coro S α} {g : α → Coro S β} (hc : Spends G n c P)
    (hg : ∀ a, P a → Spends G m (g a) Q) : Spends G (n + m) (c >>= g) Q := by
  refine pays_bind (P := fun _ => m) ?_ hg
  simpa using hc.frame m

theorem spends_query {q : S.Query} {P : S.Answer q → Prop}
    (h : ∀ a, G.admits q a → G.cost ⟨q, a⟩ ≤ n ∧ P a) : Spends G n (query q) P :=
  pays_query fun a ha => ⟨(h a ha).1, trivial, (h a ha).2⟩

theorem Spends.mono {c : Coro S α} {P' : α → Prop} (h : Spends G n c P) (hn : n ≤ n')
    (hP : ∀ a, P a → P' a) : Spends G n' c P' :=
  Pays.mono h hn fun a ha => ⟨Nat.le_refl _, hP a ha⟩

theorem spends_attempt {c : Coro S α} (h : Spends G n c P) :
    Spends G n c.attempt fun r => ∀ a, r = .ok a → P a :=
  Pays.mono (pays_attempt h) (Nat.le_refl _) fun _ hP => ⟨Nat.zero_le _, hP⟩

/-- What a program spends in all, it spends step by step. -/
theorem gated_of_spends [Nonempty S.World] (hlive : G.Live) {c : Coro S α} (hn : n ≤ cap)
    (h : Spends G n c P) : Gated G cap n c := by
  have hspent : ∀ w, wp G.steps.rules (fun t _ _ => G.tariff.spent t ≤ n) c w := by
    intro w
    refine wp_post ?_ (h w)
    rintro t r _ ⟨hle, -⟩
    rw [G.earned_eq_zero] at hle
    omega
  clear h
  induction c generalizing n with
  | ret r => trivial
  | act f k ih =>
    intro w _
    have hk : ∀ w', wp G.steps.rules (fun t _ _ => G.tariff.spent t ≤ n) (k w) w' :=
      fun w' => wp_stable (fun _ _ _ _ _ => trivial) trivial (hspent w w trivial).2
    exact ⟨(hspent w w trivial).1, fun _ => ih w hn hk, fun _ => (ih w hn hk).mono hn⟩
  | ask q k ih =>
    intro a ha
    have hcost : G.cost ⟨q, a⟩ ≤ n := by
      obtain ⟨w⟩ := ‹Nonempty S.World›
      obtain ⟨t, r, w', hr⟩ := exists_runs hlive (k a) w
      have ht : G.tariff.spent (⟨q, a⟩ :: t) ≤ n :=
        wp_sound (Q := fun t _ _ => G.tariff.spent (⟨q, a⟩ :: t) ≤ n) (fun _ => trivial) (hspent w a ha) hr
      rw [Tariff.spent_cons] at ht
      exact Nat.le_trans (Nat.le_add_right _ _) ht
    refine ⟨hcost, ih a (Nat.le_trans (Nat.sub_le _ _) hn) fun w => ?_⟩
    refine wp_post ?_ (hspent w a ha)
    intro t _ _ ht
    have hle : G.tariff.cost ⟨q, a⟩ + G.tariff.spent t ≤ n := by
      rw [← Tariff.spent_cons]
      exact ht
    exact Nat.le_sub_of_add_le' hle
  | pick k ih => exact fun b => ih b hn fun w => hspent w b

/-! ### Runs that stop anywhere -/

/-- What a program has become after some of its steps, while others take theirs. -/
inductive Reaches (rely : S.World → S.World → Prop) (ok : ∀ q, S.Answer q → Prop) :
    Coro S α → S.World → Trace S → Coro S α → S.World → Prop
  | start {c w} : Reaches rely ok c w [] c w
  | others {c w t c' w' w''} : Reaches rely ok c w t c' w' → rely w' w'' → Reaches rely ok c w t c' w''
  | act {c w t f k w'} : Reaches rely ok c w t (.act f k) w' → Reaches rely ok c w t (k w') (f w')
  | ask {c w t q k a w'} : Reaches rely ok c w t (.ask q k) w' → ok q a →
    Reaches rely ok c w (t ++ [⟨q, a⟩]) (k a) w'
  | pick {c w t k b w'} : Reaches rely ok c w t (.pick k) w' → Reaches rely ok c w t (k b) w'

variable {rely : S.World → S.World → Prop} {ok : ∀ q, S.Answer q → Prop}

theorem Reaches.trans {c c' c'' : Coro S α} {w w' w'' : S.World} {t t' : Trace S}
    (h : Reaches rely ok c w t c' w') (h' : Reaches rely ok c' w' t' c'' w'') :
    Reaches rely ok c w (t ++ t') c'' w'' := by
  induction h' with
  | start => rwa [List.append_nil]
  | others _ hstep ih => exact ih.others hstep
  | act _ ih => exact ih.act
  | ask _ ha ih =>
    rw [← List.append_assoc]
    exact ih.ask ha
  | pick _ ih => exact ih.pick

/-- A run to the end is one of them. -/
theorem Runs.reaches {c : Coro S α} {w w' : S.World} {t : Trace S} {r : Except S.Exn α}
    (h : Runs ok c w t r w') : Reaches rely ok c w t (.ret r) w' := by
  induction h with
  | ret r w => exact .start
  | act _ ih => exact Reaches.start.act.trans ih
  | ask ha _ ih => exact (Reaches.start.ask ha).trans ih
  | pick _ ih => exact Reaches.start.pick.trans ih

/-- The path that an environment and a scheduler choose, up to the first world to stop in, and
what is left of the program there. -/
def driveUntil (stop : S.World → Bool) (env : ℕ → ∀ q, S.Answer q) (side : ℕ → Bool) :
    Coro S α → ℕ → S.World → Trace S × Coro S α × S.World
  | .ret r, _, w => ([], .ret r, w)
  | .act f k, n, w => if stop w then ([], .act f k, w) else driveUntil stop env side (k w) n (f w)
  | .ask q k, n, w =>
    if stop w then ([], .ask q k, w)
    else
      let d := driveUntil stop env side (k (env n q)) (n + 1) w
      (⟨q, env n q⟩ :: d.1, d.2)
  | .pick k, n, w => if stop w then ([], .pick k, w) else driveUntil stop env side (k (side n)) (n + 1) w

theorem driveUntil_reaches {env : ℕ → ∀ q, S.Answer q} (stop : S.World → Bool) (side : ℕ → Bool)
    (h : ∀ n q, ok q (env n q)) (c : Coro S α) (n : ℕ) (w : S.World) :
    Reaches rely ok c w (driveUntil stop env side c n w).1 (driveUntil stop env side c n w).2.1
      (driveUntil stop env side c n w).2.2 := by
  induction c generalizing n w with
  | ret r => exact .start
  | act f k ih =>
    unfold driveUntil
    split_ifs
    · exact .start
    · exact Reaches.start.act.trans (ih _ _ _)
  | ask q k ih =>
    unfold driveUntil
    split_ifs
    · exact .start
    · exact (Reaches.start.ask (h n q)).trans (ih _ _ _)
  | pick k ih =>
    unfold driveUntil
    split_ifs
    · exact .start
    · exact Reaches.start.pick.trans (ih _ _ _)

/-- What a program may still spend, and what it has spent since the gate was shut. -/
theorem Reaches.gated {c c' : Coro S α} {w w' : S.World} {t : Trace S}
    (h : Reaches G.step G.admits c w t c' w') (hn : n ≤ cap) (hc : Gated G cap n c) (hw : G.holds w) :
    ∃ m ≤ cap, Gated G cap m c' ∧ G.holds w' ∧
      (G.shut w → G.shut w' ∧ G.tariff.spent t + m ≤ n) := by
  induction h with
  | start => exact ⟨n, hn, hc, hw, fun hs => ⟨hs, by simp⟩⟩
  | others _ hstep ih =>
    obtain ⟨m, hm, hc', hw', hspent⟩ := ih
    obtain ⟨hw'', hshut⟩ := hstep hw'
    exact ⟨m, hm, hc', hw'', fun hs => ⟨hshut (hspent hs).1, (hspent hs).2⟩⟩
  | @act t f k w' _ ih =>
    obtain ⟨m, hm, hc', hw', hspent⟩ := ih
    obtain ⟨hstep, hshut, hopen⟩ := hc' w' hw'
    obtain ⟨hafter, hstays⟩ := hstep hw'
    by_cases hs : G.shut w'
    · exact ⟨m, hm, hshut hs, hafter, fun h => ⟨hstays hs, (hspent h).2⟩⟩
    · exact ⟨cap, Nat.le_refl _, hopen hs, hafter, fun h => absurd (hspent h).1 hs⟩
  | @ask t q k a w' _ ha ih =>
    obtain ⟨m, hm, hc', hw', hspent⟩ := ih
    obtain ⟨hcost, hrest⟩ := hc' a ha
    refine ⟨m - G.cost ⟨q, a⟩, Nat.le_trans (Nat.sub_le _ _) hm, hrest, hw', fun hs => ?_⟩
    obtain ⟨hshut, hle⟩ := hspent hs
    refine ⟨hshut, ?_⟩
    have hone : G.tariff.spent (t ++ [⟨q, a⟩]) = G.tariff.spent t + G.cost ⟨q, a⟩ := by
      rw [Tariff.spent_append, Tariff.spent_cons, Tariff.spent_nil, Nat.add_zero]
      rfl
    omega
  | @pick t k b w' _ ih =>
    obtain ⟨m, hm, hc', hw', hspent⟩ := ih
    exact ⟨m, hm, hc' b, hw', hspent⟩

/-- Once the gate is shut, a program that looks at it spends no more than its cap, whatever it
had done and whatever others do; if the gate was shut from the start, nothing. -/
theorem Looks.spent_le {c c' c'' : Coro S α} {w w' w'' : S.World} {t t' : Trace S}
    (h : Looks G cap c) (hw : G.holds w) (hr : Reaches G.step G.admits c w t c' w')
    (hshut : G.shut w') (hr' : Reaches G.step G.admits c' w' t' c'' w'') :
    G.tariff.spent t' ≤ cap ∧ (G.shut w → G.tariff.spent t' = 0) := by
  obtain ⟨m, hm, hc', hw', hbefore⟩ := hr.gated (Nat.zero_le cap) h hw
  obtain ⟨m', -, -, -, hspent⟩ := hr'.gated hm hc' hw'
  have hle := (hspent hshut).2
  refine ⟨by omega, fun hs => ?_⟩
  have hzero := (hbefore hs).2
  omega

/-- A shut gate is shut wherever the program gets to. -/
theorem Looks.stays_shut {c c' c'' : Coro S α} {w w' w'' : S.World} {t t' : Trace S}
    (h : Looks G cap c) (hw : G.holds w) (hr : Reaches G.step G.admits c w t c' w')
    (hshut : G.shut w') (hr' : Reaches G.step G.admits c' w' t' c'' w'') : G.holds w'' ∧ G.shut w'' := by
  obtain ⟨m, hm, hc', hw', -⟩ := hr.gated (Nat.zero_le cap) h hw
  obtain ⟨_, -, -, hw'', hspent⟩ := hr'.gated hm hc' hw'
  exact ⟨hw'', (hspent hshut).1⟩

end Coro

end Blackgeorge.Coroutine
