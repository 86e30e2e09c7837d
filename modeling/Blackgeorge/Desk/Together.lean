import Blackgeorge.Desk.Sequences

/-! Calls that tasks of the program make at the same time, on runs of workers and workforces. Calls
on different runs do not disturb each other, however their steps interleave. -/

namespace Blackgeorge.Desk

open Data Program Coroutine Coro WorkerRunner WorkforceRun Workflow

variable {desk : DeskSettings} {w w' : World} {runId : RunId} {entry : Entry} {t : Trace sig}

/-- The call has its run from the start: a new run gets its id from the caller, and a run that is
resumed is no flow's. -/
inductive Entry.Owns (w : World) : RunId → Entry → Prop
  | run {runId runner job stream} : runId ≠ "" → Entry.Owns w runId (.run runner job stream (some runId))
  | resume {report decision stream} : NoFlow (w.records report.runId) →
    Entry.Owns w report.runId (.resume report decision stream)

/-- Calls on different runs. -/
structure Round (w : World) where
  calls : List (RunId × Entry)
  owns : ∀ x ∈ calls, x.2.Owns w x.1
  different : (calls.map Prod.fst).Nodup

/-- The calls run at the same time. -/
def Round.program (desk : DeskSettings) (round : Round w) : Prog (List (Except Exn Report)) :=
  parAll (round.calls.map fun x => x.2.program desk)

theorem Round.disjoint (round : Round w) :
    round.calls.Pairwise fun x y => Disjoint ({x.1} : Set RunId) {y.1} :=
  (List.pairwise_map.mp round.different).imp fun hne => Set.disjoint_singleton.mpr hne

/-! ### A run that is approved while another one begins -/

end Blackgeorge.Desk
