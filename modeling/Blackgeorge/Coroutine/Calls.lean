import Blackgeorge.Coroutine.Credits

/-! Programs called one after another on one world. A rule for what holds after any sequence of
calls, and a ledger over it: a call that returns has paid for what it spent, a call that raises
may have spent what is still held. -/

namespace Blackgeorge.Coroutine

/-- A call that was made: what it asked, and how it ended. -/
structure Call (S : Sig) (ι α : Type) where
  entry : ι
  trace : Trace S
  result : Except S.Exn α

variable {S : Sig} {ι α : Type}

def Call.returned (call : Call S ι α) : Bool := call.result.isOk

/-- Calls made one after another, with changes of the frame in between. -/
inductive Calls (ok : ∀ q, S.Answer q → Prop) (program : ι → Coro S α) (frame : S.World → S.World → Prop) :
    S.World → List (Call S ι α) → S.World → Prop
  | start {w} : Calls ok program frame w [] w
  | frame {w₀ calls w w'} : Calls ok program frame w₀ calls w → frame w w' → Calls ok program frame w₀ calls w'
  | call {w₀ calls w entry t r w'} : Calls ok program frame w₀ calls w →
    Coro.Runs ok (program entry) w t r w' → Calls ok program frame w₀ (calls ++ [⟨entry, t, r⟩]) w'

variable {ok : ∀ q, S.Answer q → Prop} {program : ι → Coro S α} {frame : S.World → S.World → Prop}
  {w₀ w w' : S.World} {calls : List (Call S ι α)}

/-- What holds at the start and is kept by every call holds after every sequence of them. -/
theorem Calls.invariant {I : List (Call S ι α) → S.World → Prop} (hstart : I [] w₀)
    (hframe : ∀ calls w w', I calls w → frame w w' → I calls w')
    (hcall : ∀ calls w entry t r w', I calls w → Coro.Runs ok (program entry) w t r w' →
      I (calls ++ [⟨entry, t, r⟩]) w')
    (h : Calls ok program frame w₀ calls w) : I calls w := by
  induction h with
  | start => exact hstart
  | frame _ hf ih => exact hframe _ _ _ ih hf
  | call _ hr ih => exact hcall _ _ _ _ _ _ ih hr

theorem Calls.trans {calls' : List (Call S ι α)} (h : Calls ok program frame w₀ calls w)
    (h' : Calls ok program frame w calls' w') : Calls ok program frame w₀ (calls ++ calls') w' := by
  induction h' with
  | start => rwa [List.append_nil]
  | frame _ hf ih => exact ih.frame hf
  | call _ hr ih =>
    rw [← List.append_assoc]
    exact ih.call hr

/-! ### Ledgers -/

namespace Tariff

variable (T : Tariff S)

/-- What all calls earned. -/
def earnedBy (calls : List (Call S ι α)) : ℕ := (calls.map fun call => T.earned call.trace).sum

/-- What the calls that returned spent. -/
def spentBy (calls : List (Call S ι α)) : ℕ :=
  ((calls.filter Call.returned).map fun call => T.spent call.trace).sum

@[simp] theorem earnedBy_append (calls calls' : List (Call S ι α)) :
    T.earnedBy (calls ++ calls') = T.earnedBy calls + T.earnedBy calls' := by
  simp [earnedBy]

@[simp] theorem spentBy_append (calls calls' : List (Call S ι α)) :
    T.spentBy (calls ++ calls') = T.spentBy calls + T.spentBy calls' := by
  simp [spentBy]

@[simp] theorem earnedBy_singleton (call : Call S ι α) : T.earnedBy [call] = T.earned call.trace := by
  simp [earnedBy]

theorem spentBy_returned {call : Call S ι α} (h : call.returned = true) :
    T.spentBy [call] = T.spent call.trace := by
  simp [spentBy, h]

theorem spentBy_raised {call : Call S ι α} (h : call.returned = false) : T.spentBy [call] = 0 := by
  simp [spentBy, h]

/-- If whatever raises has spent nothing, the calls that return spend all that is spent. -/
theorem spentBy_eq_sum (h : ∀ call ∈ calls, 0 < T.spent call.trace → call.returned = true) :
    T.spentBy calls = (calls.map fun call => T.spent call.trace).sum := by
  induction calls with
  | nil => rfl
  | cons call calls ih =>
    have hrest := ih fun call' hcall' => h call' (List.mem_cons_of_mem _ hcall')
    have hfirst : T.spentBy [call] = T.spent call.trace := by
      cases hreturned : call.returned with
      | true => exact T.spentBy_returned hreturned
      | false =>
        have hzero : ¬ 0 < T.spent call.trace := fun hspent =>
          absurd (h call List.mem_cons_self hspent) (by simp [hreturned])
        rw [T.spentBy_raised hreturned]
        omega
    have hsplit := T.spentBy_append [call] calls
    rw [List.singleton_append] at hsplit
    rw [hsplit, hfirst, hrest, List.map_cons, List.sum_cons]

theorem spent_le_spentBy {call : Call S ι α} (hmem : call ∈ calls) (h : call.returned = true) :
    T.spent call.trace ≤ T.spentBy calls := by
  obtain ⟨pre, post, rfl⟩ := List.append_of_mem hmem
  have hsplit := T.spentBy_append [call] post
  rw [T.spentBy_returned h, List.singleton_append] at hsplit
  rw [T.spentBy_append, hsplit]
  omega

end Tariff

/-- What a call does to what is held: it spends no more than that and what it earns, and if it
returns it has paid for it. -/
structure Solvent (T : Tariff S) (held : ℕ → S.World → Prop) (n : ℕ) (t : Trace S) (r : Except S.Exn α)
    (w' : S.World) : Prop where
  spent_le : T.spent t ≤ n + T.earned t
  held : held (n + T.earned t - if r.isOk then T.spent t else 0) w'

variable {T : Tariff S} {held : ℕ → S.World → Prop} {n : ℕ}

/-- The calls that return never spend more than was held and earned, and no single call does. -/
theorem Calls.ledger (hheld : held n w₀) (hframe : ∀ n w w', held n w → frame w w' → held n w')
    (hcall : ∀ n w entry t r w', held n w → Coro.Runs ok (program entry) w t r w' → Solvent T held n t r w')
    (h : Calls ok program frame w₀ calls w) :
    (∃ left, held left w ∧ T.spentBy calls + left = n + T.earnedBy calls) ∧
      ∀ pre call post, calls = pre ++ call :: post →
        T.spentBy pre + T.spent call.trace ≤ n + T.earnedBy (pre ++ [call]) := by
  induction h with
  | start => exact ⟨⟨n, hheld, by simp [Tariff.spentBy, Tariff.earnedBy]⟩, by simp⟩
  | frame _ hf ih =>
    obtain ⟨⟨left, hleft, hsum⟩, hcalls⟩ := ih
    exact ⟨⟨left, hframe _ _ _ hleft hf, hsum⟩, hcalls⟩
  | @call calls w entry t r w' _ hr ih =>
    obtain ⟨⟨left, hleft, hsum⟩, hcalls⟩ := ih
    obtain ⟨hle, hafter⟩ := hcall _ _ _ _ _ _ hleft hr
    have hspent : T.spentBy [(⟨entry, t, r⟩ : Call S ι α)] = if r.isOk then T.spent t else 0 := by
      split_ifs with hok
      · exact T.spentBy_returned hok
      · exact T.spentBy_raised (by simpa [Call.returned] using hok)
    refine ⟨⟨_, hafter, ?_⟩, ?_⟩
    · rw [T.spentBy_append, T.earnedBy_append, T.earnedBy_singleton, hspent]
      dsimp only
      split_ifs <;> omega
    · intro pre call post hsplit
      rcases List.eq_nil_or_concat post with rfl | ⟨post, last, rfl⟩
      · obtain ⟨rfl, hlast⟩ := List.append_inj' hsplit rfl
        obtain rfl := List.singleton_inj.mp hlast
        rw [T.earnedBy_append, T.earnedBy_singleton]
        dsimp only
        omega
      · rw [List.concat_eq_append, ← List.cons_append, ← List.append_assoc] at hsplit
        exact hcalls pre call post (List.append_inj' hsplit rfl).1

end Blackgeorge.Coroutine
