import Blackgeorge.Coroutine.Solo
import Mathlib.Data.Set.Disjoint
import Mathlib.Data.Set.Function
import Mathlib.Data.Set.BooleanAlgebra
import Mathlib.Order.CompletePartialOrder

/-! Programs that share the world cell by cell. A program owns cells that only it changes
and is promised others that nobody else changes; assertions speak of promised cells, so
they last. Programs that own disjoint cells run together. -/

namespace Blackgeorge.Coroutine

/-- What is agreed on: the answers that arrive, what any step may do, what holds of every
event and of every exception. -/
structure Terms (S : Sig) where
  admits : ∀ q, S.Answer q → Prop
  step : S.World → S.World → Prop
  event : Event S → Prop
  raises : S.Exn → Prop

variable {S : Sig} {K V α β : Type}

/-- Others keep the promised cells `P`, the program keeps all but its own cells `N`. -/
def Terms.rules (T : Terms S) (cell : S.World → K → V) (P N : Set K) : Rules S where
  rely w w' := Set.EqOn (cell w') (cell w) P
  guar w w' := T.step w w' ∧ Set.EqOn (cell w') (cell w) Nᶜ
  admits := T.admits

/-- An assertion about the cells of `P`. -/
def LocalTo (P : Set K) (A : (K → V) → Prop) : Prop := ∀ f g, Set.EqOn g f P → A f → A g

theorem LocalTo.mono {P P' : Set K} {A : (K → V) → Prop} (h : LocalTo P A) (hP : P ⊆ P') :
    LocalTo P' A :=
  fun f g hfg => h f g (hfg.mono hP)

theorem LocalTo.and {P : Set K} {A B : (K → V) → Prop} (hA : LocalTo P A) (hB : LocalTo P B) :
    LocalTo P fun f => A f ∧ B f :=
  fun f g hfg h => ⟨hA f g hfg h.1, hB f g hfg h.2⟩

theorem localTo_const (P : Set K) (p : Prop) : LocalTo P fun _ : K → V => p := fun _ _ _ h => h

theorem localTo_cell {P : Set K} {n : K} (hn : n ∈ P) (p : V → Prop) :
    LocalTo P fun f => p (f n) := by
  intro f g hfg h
  rwa [hfg hn]

theorem localTo_forall₂ {ι γ : Type} {P : Set K} {R : ι → γ → (K → V) → Prop} {xs : List ι}
    (h : ∀ x ∈ xs, ∀ r, LocalTo P (R x r)) (rs : List γ) :
    LocalTo P fun f => List.Forall₂ (fun x r => R x r f) xs rs := by
  intro f g hfg hall
  induction hall with
  | nil => exact .nil
  | @cons x r xs rs hx _ ih =>
    exact .cons (h x (by simp) r f g hfg hx) (ih fun y hy => h y (by simp [hy]))

/-- A run from `w` to `w'` has kept to the terms. -/
structure Terms.Keeps (T : Terms S) (w : S.World) (t : Trace S) (r : Except S.Exn α) (w' : S.World) :
    Prop where
  event : ∀ e ∈ t, T.event e
  step : T.step w w'
  raises : ∀ e, r = .error e → T.raises e

namespace Coro

variable {T : Terms S} {cell : S.World → K → V} {P P' N N' : Set K} {A A' : (K → V) → Prop}
  {B B' : α → (K → V) → Prop}

/-- Events and exceptions meet the terms, a returned value meets `B`. -/
def endsPost (T : Terms S) (cell : S.World → K → V) (B : α → (K → V) → Prop) : Post S α :=
  fun t r w => (∀ e ∈ t, T.event e) ∧
    match r with
    | .ok a => B a (cell w)
    | .error e => T.raises e

/-- The program, started where `A` holds, ends where `B` does. -/
def Shares (T : Terms S) (cell : S.World → K → V) (P N : Set K) (A : (K → V) → Prop) (c : Coro S α)
    (B : α → (K → V) → Prop) : Prop :=
  ∀ w, A (cell w) → wp (T.rules cell P N) (endsPost T cell B) c w

theorem rely_trans (T : Terms S) (cell : S.World → K → V) (P N : Set K) (u v w : S.World)
    (h : (T.rules cell P N).rely u v) (h' : (T.rules cell P N).rely v w) :
    (T.rules cell P N).rely u w :=
  fun _ hn => (h' hn).trans (h hn)

/-! ### Consequence and frame -/

theorem Shares.mono {c : Coro S α} (h : Shares T cell P N A c B) (hP : P ⊆ P') (hN : N ⊆ N')
    (hA : ∀ f, A' f → A f) (hB : ∀ a f, B a f → B' a f) : Shares T cell P' N' A' c B' := by
  intro w hw
  have hrely : ∀ w w', (T.rules cell P' N').rely w w' → (T.rules cell P N).rely w w' :=
    fun w w' hrely => hrely.mono hP
  have hguar : ∀ w w', (T.rules cell P N).guar w w' → (T.rules cell P' N').guar w w' :=
    fun w w' hguar => ⟨hguar.1, hguar.2.mono (Set.compl_subset_compl.mpr hN)⟩
  refine wp_mono hrely hguar (fun _ _ h => h) ?_ (h w (hA _ hw))
  rintro t (e | a) w' ⟨ht, hr⟩
  · exact ⟨ht, hr⟩
  · exact ⟨ht, hB a _ hr⟩

theorem Shares.post {c : Coro S α} (h : Shares T cell P N A c B) (hB : ∀ a f, B a f → B' a f) :
    Shares T cell P N A c B' :=
  h.mono Set.Subset.rfl Set.Subset.rfl (fun _ h => h) hB

theorem Shares.pre {c : Coro S α} (h : Shares T cell P N A c B) (hA : ∀ f, A' f → A f) :
    Shares T cell P N A' c B :=
  h.mono Set.Subset.rfl Set.Subset.rfl hA fun _ _ h => h

/-- An assertion that neither side's steps break holds at the end. -/
theorem wp_keep {R : Rules S} {I : S.World → Prop} (hrely : ∀ w w', R.rely w w' → I w → I w')
    (hguar : ∀ w w', R.guar w w' → I w → I w') {c : Coro S α} {Q : Post S α} {w : S.World}
    (h : wp R Q c w) (hI : I w) : wp R (fun t r w => Q t r w ∧ I w) c w := by
  induction c generalizing w Q with
  | ret r => exact fun w' hw => ⟨h w' hw, hrely _ _ hw hI⟩
  | act f k ih =>
    intro w' hw
    obtain ⟨hg, hk⟩ := h w' hw
    exact ⟨hg, ih w' hk (hguar _ _ hg (hrely _ _ hw hI))⟩
  | ask q k ih => exact fun a ha => ih a (h a ha) hI
  | pick k ih => exact fun b => ih b (h b) hI

/-- What is known of promised cells that the program does not own stays true. -/
theorem Shares.keep {c : Coro S α} (h : Shares T cell P N A c B) {F : Set K} (hF : F ⊆ P)
    (hdisj : Disjoint F N) {C : (K → V) → Prop} (hC : LocalTo F C) :
    Shares T cell P N (fun f => A f ∧ C f) c fun a f => B a f ∧ C f := by
  rintro w ⟨hA, hCw⟩
  refine wp_post ?_ (wp_keep (I := fun w => C (cell w)) ?_ ?_ (h w hA) hCw)
  · rintro t (e | a) w' ⟨⟨ht, hr⟩, hC'⟩
    · exact ⟨ht, hr⟩
    · exact ⟨ht, hr, hC'⟩
  · exact fun w w' hrely => hC _ _ (hrely.mono hF)
  · exact fun w w' hguar => hC _ _ (hguar.2.mono fun n hn hN => Set.disjoint_left.mp hdisj hn hN)

/-! ### Primitive programs -/

theorem shares_pure {a : α} (hB : LocalTo P (B a)) (h : ∀ f, A f → B a f) :
    Shares T cell P N A (pure a) B :=
  fun _ hw _ hrely => ⟨by simp, hB _ _ hrely (h _ hw)⟩

theorem shares_raise {e : S.Exn} (h : ∀ f, A f → T.raises e) :
    Shares T cell P N A (raise e : Coro S α) B :=
  fun _ hw _ _ => ⟨by simp, h _ hw⟩

theorem shares_ofExcept {r : Except S.Exn α} (hB : ∀ a, LocalTo P (B a))
    (h : ∀ a, r = .ok a → ∀ f, A f → B a f) (he : ∀ e, r = .error e → T.raises e) :
    Shares T cell P N A (ofExcept r) B := by
  cases r with
  | error e => exact shares_raise fun _ _ => he e rfl
  | ok a => exact shares_pure (hB a) (h a rfl)

theorem shares_exchange {g : S.World → α} {f : S.World → S.World} (hA : LocalTo P A)
    (hB : ∀ a, LocalTo P (B a)) (hstep : ∀ w, T.step w (f w))
    (hkeep : ∀ w, Set.EqOn (cell (f w)) (cell w) Nᶜ) (h : ∀ w, A (cell w) → B (g w) (cell (f w))) :
    Shares T cell P N A (exchange g f) B :=
  fun w hw w' hrely => ⟨⟨hstep w', hkeep w'⟩, fun _ hrely' =>
    ⟨by simp, hB _ _ _ hrely' (h w' (hA _ _ hrely hw))⟩⟩

theorem shares_look {g : S.World → α} (hA : LocalTo P A) (hB : ∀ a, LocalTo P (B a))
    (hstep : ∀ w, T.step w w) (h : ∀ w, A (cell w) → B (g w) (cell w)) :
    Shares T cell P N A (look g) B :=
  shares_exchange hA hB hstep (fun _ => Set.eqOn_refl _ _) h

theorem shares_update {f : S.World → S.World} {B : Unit → (K → V) → Prop} (hA : LocalTo P A)
    (hB : LocalTo P (B ())) (hstep : ∀ w, T.step w (f w))
    (hkeep : ∀ w, Set.EqOn (cell (f w)) (cell w) Nᶜ) (h : ∀ w, A (cell w) → B () (cell (f w))) :
    Shares T cell P N A (update f) B :=
  shares_exchange hA (fun _ => hB) hstep hkeep h

theorem shares_query {q : S.Query} {B : S.Answer q → (K → V) → Prop} (hB : ∀ a, LocalTo P (B a))
    (h : ∀ a, T.admits q a → T.event ⟨q, a⟩ ∧ ∀ f, A f → B a f) :
    Shares T cell P N A (query q) B := by
  intro w hw a ha w' hrely
  obtain ⟨he, hpost⟩ := h a ha
  exact ⟨by simpa using he, hB a _ _ hrely (hpost _ hw)⟩

/-! ### Composition -/

theorem shares_bind {c : Coro S α} {g : α → Coro S β} {C : β → (K → V) → Prop}
    (hc : Shares T cell P N A c B) (hg : ∀ a, Shares T cell P N (B a) (g a) C) :
    Shares T cell P N A (c >>= g) C := by
  intro w hw
  refine wp_bind (fun _ _ _ => rfl) (wp_post ?_ (hc w hw))
  rintro t (e | a) w' ⟨ht, hr⟩
  · exact ⟨ht, hr⟩
  · refine wp_post ?_ (hg a w' hr)
    rintro t' r w'' ⟨ht', hr'⟩
    refine ⟨fun e he => ?_, hr'⟩
    rcases List.mem_append.mp he with he | he
    · exact ht e he
    · exact ht' e he

/-- Rules of programs that own disjoint cells. -/
theorem shares_compatible {N₁ N₂ : Set K} (h₁ : N₁ ⊆ N) (h₂ : N₂ ⊆ N) (hP₁ : N₁ ⊆ P)
    (hP₂ : N₂ ⊆ P) (hdisj : Disjoint N₁ N₂) :
    Compatible (T.rules cell P N) (T.rules cell N₁ N₁) (T.rules cell N₂ N₂) where
  rely₁ _ _ h := h.mono hP₁
  rely₂ _ _ h := h.mono hP₂
  guar₁ _ _ h :=
    ⟨⟨h.1, h.2.mono (Set.compl_subset_compl.mpr h₁)⟩,
      h.2.mono fun _ hn hN => Set.disjoint_left.mp hdisj hN hn⟩
  guar₂ _ _ h :=
    ⟨⟨h.1, h.2.mono (Set.compl_subset_compl.mpr h₂)⟩,
      h.2.mono fun _ hn hN => Set.disjoint_left.mp hdisj hn hN⟩
  admits₁ _ _ h := h
  admits₂ _ _ h := h
  trans₁ := rely_trans T cell N₁ N₁
  trans₂ := rely_trans T cell N₂ N₂

/-- What an outcome, exceptional or not, has to meet. -/
def Meets (T : Terms S) (B : α → (K → V) → Prop) (r : Except S.Exn α) (f : K → V) : Prop :=
  match r with
  | .ok a => B a f
  | .error e => T.raises e

theorem shares_par {N₁ N₂ : Set K} (h₁ : N₁ ⊆ N) (h₂ : N₂ ⊆ N) (hP : N ⊆ P)
    (hdisj : Disjoint N₁ N₂) {c : Coro S α} {d : Coro S β} {C : β → (K → V) → Prop}
    (hc : Shares T cell N₁ N₁ (fun _ => True) c B) (hd : Shares T cell N₂ N₂ (fun _ => True) d C) :
    Shares T cell P N (fun _ => True) (par c d) fun r f => Meets T B r.1 f ∧ Meets T C r.2 f := by
  intro w _
  have hcompatible : Compatible (T.rules cell P N) (T.rules cell N₁ N₁) (T.rules cell N₂ N₂) :=
    shares_compatible h₁ h₂ (h₁.trans hP) (h₂.trans hP) hdisj
  refine wp_post ?_ (wp_par hcompatible (hc w trivial) (hd w trivial))
  rintro t _ w' ⟨t₁, t₂, r₁, r₂, hm, rfl, ⟨ht₁, hr₁⟩, ht₂, hr₂⟩
  refine ⟨fun e he => ?_, hr₁, hr₂⟩
  rcases List.mem_append.mp (hm.perm.mem_iff.mp he) with he | he
  · exact ht₁ e he
  · exact ht₂ e he

/-- Programs run together when each owns cells of its own. -/
theorem shares_parAll {ι : Type} {own : ι → Set K} {B : ι → α → (K → V) → Prop} {xs : List ι}
    {cs : List (Coro S α)} (hB : ∀ x a, LocalTo (own x) (B x a)) (hN : ∀ x ∈ xs, own x ⊆ N)
    (hP : N ⊆ P) (hdisj : xs.Pairwise fun x y => Disjoint (own x) (own y))
    (h : List.Forall₂ (fun x c => Shares T cell (own x) (own x) (fun _ => True) c (B x)) xs cs) :
    Shares T cell P N (fun _ => True) (parAll cs) fun rs f =>
      List.Forall₂ (fun x r => Meets T (B x) r f) xs rs := by
  induction h generalizing P N with
  | nil => exact shares_pure (fun _ _ _ _ => .nil) fun _ _ => .nil
  | @cons x c xs cs hc hcs ih =>
    obtain ⟨hfirst, hrest⟩ := List.pairwise_cons.mp hdisj
    have hown : own x ⊆ N := hN x (by simp)
    have hlocal : ∀ y ∈ x :: xs, ∀ r, LocalTo P fun f => Meets T (B y) r f := by
      intro y hy r
      cases r with
      | error e => exact localTo_const _ _
      | ok a => exact (hB y a).mono ((hN y hy).trans hP)
    -- the others own what one of them owns
    let others : Set K := {n | ∃ y ∈ xs, n ∈ own y}
    have hsub : others ⊆ N := fun n ⟨y, hy, hn⟩ => hN y (by simp [hy]) hn
    have hdisj' : Disjoint (own x) others :=
      Set.disjoint_left.mpr fun n hn ⟨y, hy, hny⟩ => Set.disjoint_left.mp (hfirst y hy) hn hny
    have htail := @ih others others (fun y hy n hn => ⟨y, hy, hn⟩) Set.Subset.rfl hrest
    refine shares_bind (shares_par hown hsub hP hdisj' hc htail) ?_
    rintro ⟨r, e | rs⟩
    · exact shares_raise fun _ hf => hf.2
    · exact shares_pure (localTo_forall₂ hlocal _) fun f hf => .cons hf.1 hf.2

/-! ### Running alone -/

theorem localTo_univ (A : (K → V) → Prop) : LocalTo Set.univ A := by
  intro f g hfg h
  rwa [show g = f from funext fun n => hfg (Set.mem_univ n)]

theorem Shares.after {c : Coro S α} (h : Shares T cell P N A c B) (hrefl : ∀ w, T.step w w)
    (htrans : ∀ u v w, T.step u v → T.step v w → T.step u w) {w : S.World} (hw : A (cell w)) :
    After T.admits c w fun t r w' => T.Keeps w t r w' ∧ ∀ a, r = .ok a → B a (cell w') := by
  intro t r w' hr
  have hrely : ∀ w, (T.rules cell P N).rely w w := fun _ => Set.eqOn_refl _ _
  obtain ⟨hevents, hend⟩ := wp_sound hrely (h w hw) hr
  have hstep : (T.rules cell P N).guar w w' :=
    wp_step hrely (fun w => ⟨hrefl w, Set.eqOn_refl _ _⟩)
      (fun u v w huv hvw => ⟨htrans _ _ _ huv.1 hvw.1, hvw.2.trans huv.2⟩) (h w hw) hr
  refine ⟨⟨hevents, hstep.1, ?_⟩, ?_⟩
  · rintro e rfl
    exact hend
  · rintro a rfl
    exact hend

/-- Programs that keep to the terms one after the other. -/
theorem after_keeps_bind (htrans : ∀ u v w, T.step u v → T.step v w → T.step u w) {c : Coro S α}
    {g : α → Coro S β} {w : S.World} {C : α → S.World → Prop} {Q : β → S.World → Prop}
    (hc : After T.admits c w fun t r w' => T.Keeps w t r w' ∧ ∀ a, r = .ok a → C a w')
    (hg : ∀ a w', T.step w w' → C a w' → After T.admits (g a) w' fun t r w'' =>
      T.Keeps w' t r w'' ∧ ∀ b, r = .ok b → Q b w'') :
    After T.admits (c >>= g) w fun t r w' => T.Keeps w t r w' ∧ ∀ b, r = .ok b → Q b w' := by
  refine after_bind (hc.mono ?_)
  rintro t (e | a) w' ⟨hkeeps, hend⟩
  · refine ⟨⟨hkeeps.event, hkeeps.step, ?_⟩, nofun⟩
    rintro _ ⟨⟩
    exact hkeeps.raises e rfl
  · refine (hg a w' hkeeps.step (hend a rfl)).mono ?_
    rintro t' r w'' ⟨hkeeps', hend'⟩
    refine ⟨⟨?_, htrans _ _ _ hkeeps.step hkeeps'.step, hkeeps'.raises⟩, hend'⟩
    intro e he
    rcases List.mem_append.mp he with he | he
    · exact hkeeps.event e he
    · exact hkeeps'.event e he

end Coro

end Blackgeorge.Coroutine
