import Blackgeorge.Coroutine.Shares
import Mathlib.Data.List.Forall2

/-! Programs that own cells of the world, each program its own. What is known of a program that
nobody else changes the cells of holds of it in any interleaving with programs that own other
cells, whether it returns or raises. -/

namespace Blackgeorge.Coroutine

variable {S : Sig} {K V α β : Type}

/-- Others keep the cells of `N`, the program keeps all others. -/
def ownRules (cell : S.World → K → V) (N : Set K) : Rules S where
  rely w w' := Set.EqOn (cell w') (cell w) N
  guar w w' := Set.EqOn (cell w') (cell w) Nᶜ
  admits _ _ := True

namespace Coro

variable {cell : S.World → K → V} {N N' : Set K} {Q : Post S α}

theorem own_refl (cell : S.World → K → V) (N : Set K) (w : S.World) : (ownRules cell N).rely w w :=
  Set.eqOn_refl _ _

/-- A program that owns cells keeps all others. -/
theorem own_after {c : Coro S α} {w : S.World} (h : wp (ownRules cell N) Q c w) :
    After (fun _ _ => True) c w fun t r w' => Q t r w' ∧ Set.EqOn (cell w') (cell w) Nᶜ := by
  intro t r w' hr
  refine ⟨wp_sound (own_refl cell N) h hr, ?_⟩
  exact wp_step (own_refl cell N) (fun w => Set.eqOn_refl _ _) (fun u v w huv hvw => hvw.trans huv) h hr

end Coro

end Blackgeorge.Coroutine
