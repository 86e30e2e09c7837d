import Blackgeorge.Coroutine.Tree

/-! Two programs in lockstep. In worlds that are alike they ask the same questions and take
the same choices, whatever the answers, until one of them is at a point where it may part
from the other. -/

namespace Blackgeorge.Coroutine.Coro

variable {S : Sig} {α β : Type} {alike : S.World → S.World → Prop}

/-- The programs do the same in worlds that are alike, or one of them parts. -/
inductive Lockstep (alike : S.World → S.World → Prop) (parts : Coro S α → Prop) :
    Coro S α → Coro S α → Prop
  | ret (r) : Lockstep alike parts (ret r) (ret r)
  | act {f g k l} : (∀ w v, alike w v → alike (f w) (g v)) →
    (∀ w v, alike w v → Lockstep alike parts (k w) (l v)) → Lockstep alike parts (act f k) (act g l)
  | ask {q k l} : (∀ a, Lockstep alike parts (k a) (l a)) → Lockstep alike parts (ask q k) (ask q l)
  | pick {k l} : (∀ b, Lockstep alike parts (k b) (l b)) → Lockstep alike parts (pick k) (pick l)
  | left {c d} : parts c → Lockstep alike parts c d
  | right {c d} : parts d → Lockstep alike parts c d

/-- The program does the same in worlds that are alike. -/
def Blind (alike : S.World → S.World → Prop) (c : Coro S α) : Prop :=
  Lockstep alike (fun _ => False) c c

variable {parts : Coro S α → Prop}

theorem Lockstep.mono {parts' : Coro S α → Prop} (hparts : ∀ c, parts c → parts' c) {c d : Coro S α}
    (h : Lockstep alike parts c d) : Lockstep alike parts' c d := by
  induction h with
  | ret r => exact .ret r
  | act hact _ ih => exact .act hact ih
  | ask _ ih => exact .ask ih
  | pick _ ih => exact .pick ih
  | left hc => exact .left (hparts _ hc)
  | right hd => exact .right (hparts _ hd)

theorem Blind.lockstep {c : Coro S α} (h : Blind alike c) : Lockstep alike parts c c :=
  Lockstep.mono (fun _ hc => hc.elim) h

/-! ### Primitive programs -/

theorem blind_pure (a : α) : Blind alike (pure a : Coro S α) := .ret _

theorem blind_raise (e : S.Exn) : Blind alike (raise e : Coro S α) := .ret _

theorem blind_ofExcept (r : Except S.Exn α) : Blind alike (ofExcept r) := .ret r

theorem blind_query (q : S.Query) : Blind alike (query q) := .ask fun _ => .ret _

theorem blind_update {f : S.World → S.World} (h : ∀ w v, alike w v → alike (f w) (f v)) :
    Blind alike (update f) :=
  .act h fun _ _ _ => .ret _

/-- A look at what worlds that are alike have in common. -/
theorem blind_look {g : S.World → α} (h : ∀ w v, alike w v → g w = g v) : Blind alike (look g) := by
  refine .act (fun _ _ hw => hw) fun w v hw => ?_
  rw [h w v hw]
  exact .ret _

/-! ### Composition -/

theorem Lockstep.bind {parts : Coro S β → Prop} {c d : Coro S α} {f g : α → Coro S β}
    (h : Lockstep alike (fun _ => False) c d) (hfg : ∀ a, Lockstep alike parts (f a) (g a)) :
    Lockstep alike parts (c >>= f) (d >>= g) := by
  induction h with
  | ret r =>
    cases r with
    | ok a => exact hfg a
    | error e => exact .ret _
  | act hact _ ih => exact .act hact ih
  | ask _ ih => exact .ask ih
  | pick _ ih => exact .pick ih
  | left hc => exact hc.elim
  | right hd => exact hd.elim

theorem blind_bind {c : Coro S α} {g : α → Coro S β} (hc : Blind alike c)
    (hg : ∀ a, Blind alike (g a)) : Blind alike (c >>= g) :=
  Lockstep.bind hc hg

theorem Lockstep.attempt {c d : Coro S α} (h : Lockstep alike (fun _ => False) c d) :
    Lockstep alike (fun _ => False) c.attempt d.attempt := by
  induction h with
  | ret r => exact .ret _
  | act hact _ ih => exact .act hact ih
  | ask _ ih => exact .ask ih
  | pick _ ih => exact .pick ih
  | left hc => exact hc.elim
  | right hd => exact hd.elim

theorem blind_attempt {c : Coro S α} (h : Blind alike c) : Blind alike c.attempt := Lockstep.attempt h

/-- The right programs advance alike, provided handing over to the left ones does. -/
theorem lockstep_parRight {γ : Type} {left left' : Coro S β → Coro S γ}
    {done done' : Except S.Exn β → Coro S γ} {c d : Coro S β}
    (hleft : ∀ c d, Lockstep alike (fun _ => False) c d → Lockstep alike (fun _ => False) (left c) (left' d))
    (hdone : ∀ r, Lockstep alike (fun _ => False) (done r) (done' r))
    (h : Lockstep alike (fun _ => False) c d) :
    Lockstep alike (fun _ => False) (parRight left done c) (parRight left' done' d) := by
  induction h with
  | ret r => exact hdone r
  | act hact hk ih =>
    refine .pick fun b => ?_
    cases b with
    | true => exact hleft _ _ (.act hact hk)
    | false => exact .act hact ih
  | ask hk ih =>
    refine .pick fun b => ?_
    cases b with
    | true => exact hleft _ _ (.ask hk)
    | false => exact .ask ih
  | pick hk ih =>
    refine .pick fun b => ?_
    cases b with
    | true => exact hleft _ _ (.pick hk)
    | false => exact .pick ih
  | left hc => exact hc.elim
  | right hd => exact hd.elim

theorem Lockstep.par {c c' : Coro S α} {d d' : Coro S β} (hc : Lockstep alike (fun _ => False) c c')
    (hd : Lockstep alike (fun _ => False) d d') :
    Lockstep alike (fun _ => False) (par c d) (par c' d') := by
  induction hc generalizing d d' with
  | ret r => exact hd.attempt.bind fun _ => .ret _
  | act hact _ ih =>
    exact lockstep_parRight (fun _ _ h => .act hact fun w v hw => ih w v hw h)
      (fun r => .act hact fun w v hw => ih w v hw (.ret r)) hd
  | ask _ ih =>
    exact lockstep_parRight (fun _ _ h => .ask fun a => ih a h) (fun r => .ask fun a => ih a (.ret r)) hd
  | pick _ ih =>
    exact lockstep_parRight (fun _ _ h => .pick fun b => ih b h) (fun r => .pick fun b => ih b (.ret r)) hd
  | left hc => exact hc.elim
  | right hc => exact hc.elim

theorem blind_parAll {cs : List (Coro S α)} (h : ∀ c ∈ cs, Blind alike c) : Blind alike (parAll cs) := by
  induction cs with
  | nil => exact blind_pure []
  | cons c cs ih =>
    have hrest : Blind alike (parAll cs) := ih fun d hd => h d (List.mem_cons_of_mem _ hd)
    have hboth : Blind alike (par c (parAll cs)) := Lockstep.par (h c List.mem_cons_self) hrest
    refine blind_bind hboth fun outcome => ?_
    obtain ⟨r, rs | rs⟩ := outcome
    · exact blind_raise _
    · exact blind_pure _

/-! ### Runs -/

/-- Under one environment and one schedule the runs are the same, or they are the same up to
a point where one of the programs parts. -/
theorem Lockstep.drive {env : ℕ → ∀ q, S.Answer q} {side : ℕ → Bool} {c d : Coro S α}
    (h : Lockstep alike parts c d) : ∀ {w v : S.World} (n : ℕ), alike w v →
    ((drive env side c n w).1 = (drive env side d n v).1 ∧
      (drive env side c n w).2.1 = (drive env side d n v).2.1 ∧
      alike (drive env side c n w).2.2 (drive env side d n v).2.2) ∨
    ∃ t c' d' n' w' v', (parts c' ∨ parts d') ∧
      drive env side c n w = (t ++ (drive env side c' n' w').1, (drive env side c' n' w').2) ∧
      drive env side d n v = (t ++ (drive env side d' n' v').1, (drive env side d' n' v').2) := by
  induction h with
  | ret r => exact fun n hw => .inl ⟨rfl, rfl, hw⟩
  | act hact _ ih => exact fun {w v} n hw => ih w v hw n (hact w v hw)
  | @ask q k l _ ih =>
    intro w v n hw
    rcases ih (env n q) (n + 1) hw with ⟨htrace, hrest⟩ | ⟨t, c', d', n', w', v', hparts, hc, hd⟩
    · exact .inl ⟨congrArg (List.cons _) htrace, hrest⟩
    · refine .inr ⟨⟨q, env n q⟩ :: t, c', d', n', w', v', hparts, ?_, ?_⟩
      · simp only [Coro.drive, hc, List.cons_append]
      · simp only [Coro.drive, hd, List.cons_append]
  | pick _ ih => exact fun n hw => ih (side n) (n + 1) hw
  | @left c d hc => exact fun {w v} n _ => .inr ⟨[], c, d, n, w, v, .inl hc, rfl, rfl⟩
  | @right c d hd => exact fun {w v} n _ => .inr ⟨[], c, d, n, w, v, .inr hd, rfl, rfl⟩

end Blackgeorge.Coroutine.Coro
