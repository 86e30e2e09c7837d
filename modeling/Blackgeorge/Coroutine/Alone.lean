import Blackgeorge.Coroutine.Lockstep
import Blackgeorge.Coroutine.Triples

/-! Programs that run among others. Each takes a path of its own, with steps of the others
in between. One that sees no more of the world than what the others leave as it is takes, in
any interleaving, a path that it can also take alone; and where it leaves no choice to the
scheduler, what it is answered settles what it asks and how it ends. -/

namespace Blackgeorge.Coroutine.Coro

variable {S : Sig} {α β : Type} {alike : S.World → S.World → Prop}

/-! ### No choice -/

/-- The program leaves no choice to the scheduler. -/
inductive Straight : Coro S α → Prop
  | ret (r) : Straight (ret r)
  | act {f k} : (∀ w, Straight (k w)) → Straight (act f k)
  | ask {q k} : (∀ a, Straight (k a)) → Straight (ask q k)

theorem straight_query (q : S.Query) : Straight (query q) := .ask fun _ => .ret _

theorem straight_look (g : S.World → α) : Straight (look g) := .act fun _ => .ret _

theorem straight_update (f : S.World → S.World) : Straight (update f) := .act fun _ => .ret _

theorem Straight.bind {c : Coro S α} {g : α → Coro S β} (hc : Straight c) (hg : ∀ a, Straight (g a)) :
    Straight (c >>= g) := by
  induction hc with
  | ret r =>
    cases r with
    | ok a => exact hg a
    | error e => exact .ret _
  | act _ ih => exact .act ih
  | ask _ ih => exact .ask ih

theorem Straight.attempt {c : Coro S α} (hc : Straight c) : Straight c.attempt := by
  induction hc with
  | ret r => exact .ret _
  | act _ ih => exact .act ih
  | ask _ ih => exact .ask ih

/-! ### What settles a run -/

/-- The answers of the trace are those that an outside gives which goes by what it was asked
and answered before. -/
def Follows (outside : Trace S → ∀ q, S.Answer q) : Trace S → Trace S → Prop
  | _, [] => True
  | past, e :: t => e.2 = outside past e.1 ∧ Follows outside (past ++ [e]) t

/-- Runs that one outside answers are the same. -/
theorem Lockstep.settled {ok : ∀ q, S.Answer q → Prop} {outside : Trace S → ∀ q, S.Answer q}
    {c d : Coro S α} (h : Lockstep alike (fun _ => False) c d) (hc : Straight c) :
    ∀ {past t t' : Trace S} {r r' : Except S.Exn α} {w v w' v' : S.World}, alike w v →
      Runs ok c w t r w' → Runs ok d v t' r' v' → Follows outside past t →
      Follows outside past t' → t = t' ∧ r = r' := by
  induction h with
  | ret r =>
    intro past t t' r₁ r₂ w v w' v' _ hr hr' _ _
    cases hr
    cases hr'
    exact ⟨rfl, rfl⟩
  | act hact _ ih =>
    intro past t t' r r' w v w' v' hw hr hr' ht ht'
    cases hc with
    | act hk =>
      cases hr with
      | act hr =>
        cases hr' with
        | act hr' => exact ih w v hw (hk w) (hact w v hw) hr hr' ht ht'
  | @ask q _ _ _ ih =>
    intro past t t' r r' w v w' v' hw hr hr' ht ht'
    cases hc with
    | ask hk =>
      cases hr with
      | @ask _ _ a _ _ _ _ _ hr =>
        cases hr' with
        | @ask _ _ a' _ _ _ _ _ hr' =>
          have ha : a = outside past q := ht.1
          have ha' : a' = outside past q := ht'.1
          subst ha ha'
          obtain ⟨rfl, rfl⟩ := ih _ (hk _) hw hr hr' ht.2 ht'.2
          exact ⟨rfl, rfl⟩
  | pick _ _ => cases hc
  | left hleft => exact hleft.elim
  | right hright => exact hright.elim

/-! ### Among others -/

/-- The runs of a program among others, who may take a step before each of its own and at
its end. -/
inductive Among (ok : ∀ q, S.Answer q → Prop) (others : S.World → S.World → Prop) :
    Coro S α → S.World → Trace S → Except S.Exn α → S.World → Prop
  | ret {r w w'} : others w w' → Among ok others (ret r) w [] r w'
  | act {f k w v t r w'} : others w v → Among ok others (k v) (f v) t r w' →
    Among ok others (act f k) w t r w'
  | ask {q a k w t r w'} : ok q a → Among ok others (k a) w t r w' →
    Among ok others (ask q k) w (⟨q, a⟩ :: t) r w'
  | pick {b k w t r w'} : Among ok others (k b) w t r w' → Among ok others (pick k) w t r w'

/-- The rules of programs whose steps are all of one law. -/
def shared (L : Law S) : Rules S where
  rely := L.step
  guar := L.step
  admits := L.admits

theorem shared_compatible {L : Law S} (htrans : ∀ u v w, L.step u v → L.step v w → L.step u w) :
    Compatible (shared L) (shared L) (shared L) where
  rely₁ _ _ h := h
  rely₂ _ _ h := h
  guar₁ _ _ h := ⟨h, h⟩
  guar₂ _ _ h := ⟨h, h⟩
  admits₁ _ _ h := h
  admits₂ _ _ h := h
  trans₁ := htrans
  trans₂ := htrans

/-- What a program does under the law is a run among others who keep the law. -/
theorem wp_among {L : Law S} {c : Coro S α} {Q : Post S α} {w : S.World} (h : wp L.rules Q c w) :
    wp (shared L) (fun t r w' => Among L.admits L.step c w t r w') c w := by
  induction c generalizing Q w with
  | ret r => exact fun w' hw => .ret hw
  | act f k ih =>
    intro v hv
    obtain ⟨hguar, hk⟩ := h v trivial
    exact ⟨hguar, wp_post (fun _ _ _ hr => .act hv hr) (ih v hk)⟩
  | ask q k ih => exact fun a ha => wp_post (fun _ _ _ hr => .ask ha hr) (ih a (h a ha))
  | pick k ih => exact fun b => wp_post (fun _ _ _ hr => .pick hr) (ih b (h b))

/-! ### Alone -/

/-- The rules of programs that leave worlds alike, each with steps of its law. -/
def undisturbed (L : Law S) (alike : S.World → S.World → Prop) : Rules S where
  rely w w' := ∀ v, alike w v → alike w' v
  guar := L.step
  admits := L.admits

variable {L : Law S}

/-- Among others the program takes a path that the other program, in lockstep with it, takes
alone. -/
theorem Lockstep.alone {c d : Coro S α} (h : Lockstep alike (fun _ => False) c d) :
    ∀ {Q : Post S α} {w v : S.World}, alike w v → wp L.rules Q c w →
      wp (undisturbed L alike) (fun t r _ => ∃ v', Runs L.admits d v t r v') c w := by
  induction h with
  | ret r => exact fun {Q w v} _ _ _ _ => ⟨v, .ret r v⟩
  | act hact _ ih =>
    intro Q w v hw hc w' hw'
    obtain ⟨hguar, hk⟩ := hc w' trivial
    have hafter := hact w' v (hw' v hw)
    refine ⟨hguar, wp_post ?_ (ih w' v (hw' v hw) hafter hk)⟩
    rintro t r _ ⟨v', hr⟩
    exact ⟨v', .act hr⟩
  | ask _ ih =>
    intro Q w v hw hc a ha
    refine wp_post ?_ (ih a hw (hc a ha))
    rintro t r _ ⟨v', hr⟩
    exact ⟨v', .ask ha hr⟩
  | pick _ ih =>
    intro Q w v hw hc b
    refine wp_post ?_ (ih b hw (hc b))
    rintro t r _ ⟨v', hr⟩
    exact ⟨v', .pick hr⟩
  | left hc => exact hc.elim
  | right hd => exact hd.elim

/-- The programs of a list that run together take, each, a path among others who keep the
law; where they see nothing that the others change, it is one that each also takes alone. -/
theorem runs_parAll_among (hrefl : ∀ w, L.step w w)
    (htrans : ∀ u v w, L.step u v → L.step v w → L.step u w)
    (hstep : ∀ w w' v, L.step w w' → alike w v → alike w' v) {ι : Type} {xs : List ι}
    {f : ι → Coro S α} {P : ι → α → Prop} (heach : ∀ x ∈ xs, Each L (f x) (P x)) {w w' : S.World}
    (hw : alike w w) {t : Trace S} {r : Except S.Exn (List (Except S.Exn α))}
    (hr : Runs L.admits (parAll (xs.map f)) w t r w') :
    ∃ outcomes : List (Trace S × Except S.Exn α), r = .ok (outcomes.map Prod.snd) ∧
      t.Perm (outcomes.flatMap Prod.fst) ∧
      List.Forall₂ (fun x o => (∃ v, Among L.admits L.step (f x) w o.1 o.2 v) ∧
        (∀ a, o.2 = .ok a → P x a) ∧
        (Blind alike (f x) → ∃ v, Runs L.admits (f x) w o.1 o.2 v)) xs outcomes := by
  have hpath : ∀ x ∈ xs, wp (shared L) (fun t r _ => (∃ v, Among L.admits L.step (f x) w t r v) ∧
      (∀ a, r = .ok a → P x a) ∧ (Blind alike (f x) → ∃ v, Runs L.admits (f x) w t r v)) (f x) w := by
    intro x hx
    have hlaw := heach x hx w
    have hamong : wp (shared L) (fun t r v => Among L.admits L.step (f x) w t r v ∧
        (∀ e ∈ t, L.event e) ∧ ∀ a, r = .ok a → P x a) (f x) w := by
      refine wp_both ?_ ?_ (wp_among hlaw) hlaw
      · exact fun _ _ _ => trivial
      · exact fun _ _ h => h
    by_cases hblind : Blind alike (f x)
    · refine wp_post (fun _ _ v h => ⟨⟨v, h.1.1⟩, h.1.2.2, fun _ => h.2⟩)
        (wp_both ?_ ?_ hamong (Lockstep.alone hblind hw hlaw))
      · exact fun u v h z => hstep u v z h
      · exact fun _ _ h => h
    · exact wp_post (fun _ _ v h => ⟨⟨v, h.1⟩, h.2.2, fun hb => absurd hb hblind⟩) hamong
  exact wp_sound (R := shared L) hrefl (wp_parAll hrefl (shared_compatible htrans) hpath) hr

end Blackgeorge.Coroutine.Coro
