import Mathlib.Data.List.Basic
import Mathlib.Logic.Function.Basic

/-! Asynchronous programs as well-founded trees. A program acts on a world that it
shares with other programs, asks the outside for an answer, or leaves a choice to
the scheduler; exceptions are results. A run is one path through the tree together
with the list of questions asked and answers received on it. Two programs run
concurrently by interleaving their nodes in any order. -/

namespace Blackgeorge.Coroutine

/-- What a family of programs shares: the mutable world, the questions it puts to
the outside with their answers, and its exceptions. -/
structure Sig where
  World : Type
  Query : Type
  Answer : Query → Type
  Exn : Type

inductive Coro (S : Sig) (α : Type) : Type where
  | ret (r : Except S.Exn α)
  | act (f : S.World → S.World) (k : S.World → Coro S α)
  | ask (q : S.Query) (k : S.Answer q → Coro S α)
  | pick (k : Bool → Coro S α)

/-- One question with the answer it received. -/
abbrev Event (S : Sig) := Σ q : S.Query, S.Answer q

abbrev Trace (S : Sig) := List (Event S)

namespace Coro

variable {S : Sig} {α β γ : Type}

/-! ### Sequencing -/

def bind : Coro S α → (α → Coro S β) → Coro S β
  | ret (.ok a), g => g a
  | ret (.error e), _ => ret (.error e)
  | act f k, g => act f fun w => (k w).bind g
  | ask q k, g => ask q fun a => (k a).bind g
  | pick k, g => pick fun b => (k b).bind g

instance : Monad (Coro S) where
  pure a := ret (.ok a)
  bind := bind

theorem pure_def (a : α) : (pure a : Coro S α) = ret (.ok a) := rfl

@[simp] theorem ret_ok_bind (a : α) (g : α → Coro S β) : ret (.ok a) >>= g = g a := rfl

@[simp] theorem ret_error_bind (e : S.Exn) (g : α → Coro S β) :
    (ret (.error e) : Coro S α) >>= g = ret (.error e) := rfl

@[simp] theorem act_bind (f : S.World → S.World) (k : S.World → Coro S α) (g : α → Coro S β) :
    act f k >>= g = act f fun w => k w >>= g := rfl

@[simp] theorem ask_bind (q : S.Query) (k : S.Answer q → Coro S α) (g : α → Coro S β) :
    ask q k >>= g = ask q fun a => k a >>= g := rfl

@[simp] theorem pick_bind (k : Bool → Coro S α) (g : α → Coro S β) :
    pick k >>= g = pick fun b => k b >>= g := rfl

theorem bind_ret (c : Coro S α) : c.bind (fun a => ret (.ok a)) = c := by
  induction c with
  | ret r => cases r <;> rfl
  | act f k ih => simp only [bind, ih]
  | ask q k ih => simp only [bind, ih]
  | pick k ih => simp only [bind, ih]

theorem bind_assoc (c : Coro S α) (g : α → Coro S β) (h : β → Coro S γ) :
    (c.bind g).bind h = c.bind fun a => (g a).bind h := by
  induction c with
  | ret r => cases r <;> rfl
  | act f k ih => simp only [bind, ih]
  | ask q k ih => simp only [bind, ih]
  | pick k ih => simp only [bind, ih]

instance : LawfulMonad (Coro S) :=
  LawfulMonad.mk' _ bind_ret (fun _ _ => rfl) bind_assoc

/-! ### Primitive programs -/

def raise (e : S.Exn) : Coro S α := ret (.error e)

/-- Put a question to the outside. -/
def query (q : S.Query) : Coro S (S.Answer q) := ask q fun a => ret (.ok a)

/-- Read the world. -/
def look (g : S.World → α) : Coro S α := act id fun w => ret (.ok (g w))

/-- Change the world in one atomic step. -/
def update (f : S.World → S.World) : Coro S Unit := act f fun _ => ret (.ok ())

/-- Read the world and change it in one atomic step. -/
def exchange (g : S.World → α) (f : S.World → S.World) : Coro S α :=
  act f fun w => ret (.ok (g w))

def ofExcept : Except S.Exn α → Coro S α := ret

/-- Run a program and hand its outcome, exceptional or not, to the caller. -/
def attempt : Coro S α → Coro S (Except S.Exn α)
  | ret r => ret (.ok r)
  | act f k => act f fun w => (k w).attempt
  | ask q k => ask q fun a => (k a).attempt
  | pick k => pick fun b => (k b).attempt

/-! ### Interleaving -/

/-- Advance the right program, or hand it to `left` to advance the left one first. -/
def parRight (left : Coro S β → Coro S γ) (done : Except S.Exn β → Coro S γ) :
    Coro S β → Coro S γ
  | ret r => done r
  | act f k => pick fun b => if b then left (act f k) else act f fun w => parRight left done (k w)
  | ask q k => pick fun b => if b then left (ask q k) else ask q fun a => parRight left done (k a)
  | pick k => pick fun b => if b then left (pick k) else pick fun c => parRight left done (k c)

/-- Run two programs concurrently to the end of both and collect their outcomes. -/
def par : Coro S α → Coro S β → Coro S (Except S.Exn α × Except S.Exn β)
  | ret r, d => d.attempt >>= fun r' => ret (.ok (r, r'))
  | act f k, d => parRight (fun d => act f fun w => par (k w) d)
      (fun r => act f fun w => par (k w) (ret r)) d
  | ask q k, d => parRight (fun d => ask q fun a => par (k a) d)
      (fun r => ask q fun a => par (k a) (ret r)) d
  | pick k, d => parRight (fun d => pick fun b => par (k b) d)
      (fun r => pick fun b => par (k b) (ret r)) d

/-- Run a list of programs concurrently and collect their outcomes in list order. -/
def parAll : List (Coro S α) → Coro S (List (Except S.Exn α))
  | [] => pure []
  | c :: cs => do
    let (r, rs) ← par c (parAll cs)
    match rs with
    | .ok rs => pure (r :: rs)
    | .error e => raise e

/-! ### Runs -/

/-- The paths through a program whose answers are all admitted: the questions asked
and answered, the outcome and the world it leaves. -/
inductive Runs (ok : ∀ q, S.Answer q → Prop) :
    Coro S α → S.World → Trace S → Except S.Exn α → S.World → Prop
  | ret (r w) : Runs ok (ret r) w [] r w
  | act {f k w t r w'} : Runs ok (k w) (f w) t r w' → Runs ok (act f k) w t r w'
  | ask {q k a w t r w'} : ok q a → Runs ok (k a) w t r w' → Runs ok (ask q k) w (⟨q, a⟩ :: t) r w'
  | pick {k b w t r w'} : Runs ok (k b) w t r w' → Runs ok (pick k) w t r w'

/-- The path chosen by an environment that answers the `n`-th request with `env n`
and a scheduler that takes the side `side n` at the `n`-th choice. -/
def drive (env : ℕ → ∀ q, S.Answer q) (side : ℕ → Bool) :
    Coro S α → ℕ → S.World → Trace S × Except S.Exn α × S.World
  | .ret r, _, w => ([], r, w)
  | .act f k, n, w => drive env side (k w) n (f w)
  | .ask q k, n, w =>
    let d := drive env side (k (env n q)) (n + 1) w
    (⟨q, env n q⟩ :: d.1, d.2)
  | .pick k, n, w => drive env side (k (side n)) (n + 1) w

theorem drive_runs {ok : ∀ q, S.Answer q → Prop} {env : ℕ → ∀ q, S.Answer q} (side : ℕ → Bool)
    (h : ∀ n q, ok q (env n q)) (c : Coro S α) (n : ℕ) (w : S.World) :
    Runs ok c w (drive env side c n w).1 (drive env side c n w).2.1
      (drive env side c n w).2.2 := by
  induction c generalizing n w with
  | ret r => exact .ret r w
  | act f k ih => exact .act (ih w n (f w))
  | ask q k ih => exact .ask (h n q) (ih _ (n + 1) w)
  | pick k ih => exact .pick (ih _ (n + 1) w)

theorem Runs.mono {ok ok' : ∀ q, S.Answer q → Prop} (h : ∀ q a, ok q a → ok' q a)
    {c : Coro S α} {w w' : S.World} {t : Trace S} {r : Except S.Exn α}
    (hr : Runs ok c w t r w') : Runs ok' c w t r w' := by
  induction hr with
  | ret r w => exact .ret r w
  | act _ ih => exact .act ih
  | ask ha _ ih => exact .ask (h _ _ ha) ih
  | pick _ ih => exact .pick ih

/-- A run of a sequence is a run of its first part, alone if that part raised. -/
theorem runs_bind {ok : ∀ q, S.Answer q → Prop} {c : Coro S α} {g : α → Coro S β}
    {w w' : S.World} {t : Trace S} {r : Except S.Exn β} (h : Runs ok (c >>= g) w t r w') :
    (∃ e, Runs ok c w t (.error e) w' ∧ r = .error e) ∨
      ∃ a t₁ t₂ w₁, Runs ok c w t₁ (.ok a) w₁ ∧ Runs ok (g a) w₁ t₂ r w' ∧ t = t₁ ++ t₂ := by
  induction c generalizing w t with
  | ret r' =>
    cases r' with
    | error e => cases h; exact .inl ⟨e, .ret _ _, rfl⟩
    | ok a => exact .inr ⟨a, [], t, w, .ret _ _, h, rfl⟩
  | act f k ih =>
    cases h with
    | act h =>
      rcases ih _ h with ⟨e, h₁, rfl⟩ | ⟨a, t₁, t₂, w₁, h₁, h₂, rfl⟩
      · exact .inl ⟨e, .act h₁, rfl⟩
      · exact .inr ⟨a, t₁, t₂, w₁, .act h₁, h₂, rfl⟩
  | ask q k ih =>
    cases h with
    | ask ha h =>
      rcases ih _ h with ⟨e, h₁, rfl⟩ | ⟨a, t₁, t₂, w₁, h₁, h₂, rfl⟩
      · exact .inl ⟨e, .ask ha h₁, rfl⟩
      · exact .inr ⟨a, _, t₂, w₁, .ask ha h₁, h₂, rfl⟩
  | pick k ih =>
    cases h with
    | pick h =>
      rcases ih _ h with ⟨e, h₁, rfl⟩ | ⟨a, t₁, t₂, w₁, h₁, h₂, rfl⟩
      · exact .inl ⟨e, .pick h₁, rfl⟩
      · exact .inr ⟨a, t₁, t₂, w₁, .pick h₁, h₂, rfl⟩

/-- Runs of the two parts of a sequence make a run of it. -/
theorem Runs.bind {ok : ∀ q, S.Answer q → Prop} {c : Coro S α} {g : α → Coro S β}
    {w w₁ w' : S.World} {t₁ t₂ : Trace S} {a : α} {r : Except S.Exn β}
    (hc : Runs ok c w t₁ (.ok a) w₁) (hg : Runs ok (g a) w₁ t₂ r w') :
    Runs ok (c >>= g) w (t₁ ++ t₂) r w' := by
  generalize hr : (Except.ok a : Except S.Exn α) = r' at hc
  induction hc with
  | ret r w =>
    subst hr
    exact hg
  | act _ ih => exact .act (ih hg hr)
  | ask ha _ ih => exact .ask ha (ih hg hr)
  | pick _ ih => exact .pick (ih hg hr)

/-- A first part that raises ends the sequence. -/
theorem Runs.bind_error {ok : ∀ q, S.Answer q → Prop} {c : Coro S α} (g : α → Coro S β)
    {w w' : S.World} {t : Trace S} {e : S.Exn} (hc : Runs ok c w t (.error e) w') :
    Runs ok (c >>= g) w t (.error e) w' := by
  generalize hr : (Except.error e : Except S.Exn α) = r' at hc
  induction hc with
  | ret r w =>
    subst hr
    exact .ret _ _
  | act _ ih => exact .act (ih hr)
  | ask ha _ ih => exact .ask ha (ih hr)
  | pick _ ih => exact .pick (ih hr)

end Coro

end Blackgeorge.Coroutine
