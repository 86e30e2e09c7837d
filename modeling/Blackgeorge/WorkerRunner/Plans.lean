import Blackgeorge.Coroutine.Traces
import Blackgeorge.WorkerRunner.Outcome

/-! What a plan does with the calls of a response: each recorded call is executed, refused
or held back, and whatever the limit leaves out is not recorded at all. -/

namespace Blackgeorge.WorkerRunner

open Data Program Coroutine Coro

/-! ### Verdicts -/

/-- What a plan decides on a call it does not hold back. -/
inductive Verdict where
  | execute (tool : Tool)
  | refuse (error : String)

def skippedError : String := "Skipped: another tool requires confirmation first"

def ToolPlan.add (plan : ToolPlan) : ToolCall × Verdict → ToolPlan
  | (call, .execute tool) =>
    { plan with
      orderedCalls := plan.orderedCalls ++ [call]
      executableCalls := plan.executableCalls ++ [(call, tool)] }
  | (call, .refuse error) => plan.immediate call error

def skippedCalls (calls : List ToolCall) : List (ToolCall × Verdict) :=
  calls.map fun call => (call, .refuse skippedError)

/-- The verdict on a call by itself; a call that its tool holds back has none. -/
def verdictOn (allowed : String → Option Tool) (call : ToolCall) : Option Verdict :=
  match call.error.filter (· ≠ ""), allowed call.name with
  | some error, _ => some (.refuse error)
  | none, none => some (.refuse ("Tool not found: " ++ call.name))
  | none, some tool => if (toolActionType tool).isSome then none else some (.execute tool)

/-- How a plan comes about: the calls before a pending one are decided, the ones behind
it skipped, and the rest is beyond the limit. -/
structure Planned (allowed : String → Option Tool) (maxToolCalls : ℕ)
    (calls toolCalls : List ToolCall) (plan : ToolPlan) (r : ToolPlan × List ToolCall) (decided : List (ToolCall × Verdict))
    (held : Option PendingAction) (skipped rest : List ToolCall) : Prop where
  calls_eq : calls =
    decided.map Prod.fst ++ ((held.map PendingAction.toolCall).toList ++ (skipped ++ rest))
  recorded : r.2 =
    toolCalls ++ (decided.map Prod.fst ++ ((held.map PendingAction.toolCall).toList ++ skipped))
  orderedCalls : r.1.orderedCalls =
    ((decided ++ skippedCalls skipped).foldl ToolPlan.add plan).orderedCalls
  executableCalls : r.1.executableCalls =
    ((decided ++ skippedCalls skipped).foldl ToolPlan.add plan).executableCalls
  immediateResults : r.1.immediateResults =
    ((decided ++ skippedCalls skipped).foldl ToolPlan.add plan).immediateResults
  pending : r.1.pending = held
  exceeded : r.1.maxToolCallsExceeded = (plan.maxToolCallsExceeded || !rest.isEmpty)
  within : r.2.length ≤ max maxToolCalls toolCalls.length
  verdicts : ∀ v ∈ decided, verdictOn allowed v.1 = some v.2
  holds : ∀ p ∈ held, verdictOn allowed p.toolCall = none
  skips : held = none → skipped = []

variable {allowed : String → Option Tool} {maxToolCalls : ℕ}

/-- One more call in front of a plan. -/
theorem Planned.cons {calls toolCalls : List ToolCall} {plan : ToolPlan}
    {r : ToolPlan × List ToolCall} {decided : List (ToolCall × Verdict)}
    {held : Option PendingAction} {skipped rest : List ToolCall} {call : ToolCall}
    {verdict : Verdict} (hlt : toolCalls.length < maxToolCalls)
    (hverdict : verdictOn allowed call = some verdict)
    (h : Planned allowed maxToolCalls calls (toolCalls ++ [call]) (plan.add (call, verdict)) r
      decided held skipped rest) :
    Planned allowed maxToolCalls (call :: calls) toolCalls plan r ((call, verdict) :: decided) held
      skipped rest where
  calls_eq := by rw [h.calls_eq]; rfl
  recorded := by rw [h.recorded]; simp
  orderedCalls := h.orderedCalls
  executableCalls := h.executableCalls
  immediateResults := h.immediateResults
  pending := h.pending
  exceeded := by
    rw [h.exceeded]
    cases verdict <;> rfl
  within := by
    have := h.within
    simp only [List.length_append, List.length_singleton] at this
    omega
  verdicts := by
    rintro v (_ | ⟨_, hmem⟩)
    · exact hverdict
    · exact h.verdicts v hmem
  holds := h.holds
  skips := h.skips

theorem skipRemaining_spec (calls toolCalls : List ToolCall) (plan : ToolPlan) :
    ∃ skipped rest, calls = skipped ++ rest ∧
      (skipRemaining maxToolCalls calls toolCalls plan).2 = toolCalls ++ skipped ∧
      (skipRemaining maxToolCalls calls toolCalls plan).1 =
        { (skippedCalls skipped).foldl ToolPlan.add plan with
          maxToolCallsExceeded := plan.maxToolCallsExceeded || !rest.isEmpty } ∧
      (toolCalls ++ skipped).length ≤ max maxToolCalls toolCalls.length := by
  induction calls generalizing toolCalls plan with
  | nil => exact ⟨[], [], by simp [skipRemaining, skippedCalls]⟩
  | cons call calls ih =>
    unfold skipRemaining
    split_ifs with hfull
    · exact ⟨[], call :: calls, by simp [skippedCalls]⟩
    · obtain ⟨skipped, rest, hcalls, hrecorded, hplan, hwithin⟩ :=
        ih (toolCalls ++ [call]) (plan.immediate call skippedError)
      refine ⟨call :: skipped, rest, by rw [hcalls]; rfl, ?_, ?_, ?_⟩
      · rw [show "Skipped: another tool requires confirmation first" = skippedError from rfl,
          hrecorded]
        simp
      · rw [show "Skipped: another tool requires confirmation first" = skippedError from rfl, hplan]
        rfl
      · simp only [List.length_append, List.length_cons, List.length_nil] at hwithin ⊢
        omega

/-- Plans differ from what is added to them in what they hold back only. -/
theorem foldl_add_pending (verdicts : List (ToolCall × Verdict)) (plan : ToolPlan)
    (pending : Option PendingAction) :
    verdicts.foldl ToolPlan.add { plan with pending := pending } =
      { verdicts.foldl ToolPlan.add plan with pending := pending } := by
  induction verdicts generalizing plan with
  | nil => rfl
  | cons v verdicts ih =>
    obtain ⟨call, tool | error⟩ := v
    · exact ih (plan.add (call, .execute tool))
    · exact ih (plan.add (call, .refuse error))

section

variable {L : Law sig} (hid : ∀ a, L.event ⟨.newId, a⟩)

include hid

theorem planned_planToolCalls (allowed : String → Option Tool) (calls toolCalls : List ToolCall)
    {plan : ToolPlan} (hplan : plan.pending = none) :
    Each L (planToolCalls allowed maxToolCalls calls toolCalls plan) fun r =>
      ∃ decided held skipped rest,
        Planned allowed maxToolCalls calls toolCalls plan r decided held skipped rest := by
  induction calls generalizing toolCalls plan with
  | nil =>
    apply each_pure
    exact ⟨[], none, [], [], by simp, by simp, by simp [skippedCalls],
      by simp [skippedCalls], by simp [skippedCalls], hplan, by simp, by simp, by simp, by simp,
      fun _ => rfl⟩
  | cons call calls ih =>
    have hnext (verdict : Verdict) (hlt : toolCalls.length < maxToolCalls)
        (hverdict : verdictOn allowed call = some verdict)
        (hpending : (plan.add (call, verdict)).pending = none) :
        Each L (planToolCalls allowed maxToolCalls calls (toolCalls ++ [call])
          (plan.add (call, verdict))) fun r => ∃ decided held skipped rest,
            Planned allowed maxToolCalls (call :: calls) toolCalls plan r decided held skipped
              rest := by
      refine (ih _ hpending).mono ?_
      rintro r ⟨decided, held, skipped, rest, h⟩
      exact ⟨_, _, _, _, h.cons hlt hverdict⟩
    unfold planToolCalls
    split_ifs with hfull
    · apply each_pure
      refine ⟨[], none, [], call :: calls, by simp, by simp, by simp [skippedCalls],
        by simp [skippedCalls], by simp [skippedCalls], hplan, by simp, by simp, by simp, by simp,
        fun _ => rfl⟩
    · have hlt : toolCalls.length < maxToolCalls := Nat.lt_of_not_le hfull
      split
      · next error herror => exact hnext (.refuse error) hlt (by simp only [verdictOn, herror]) hplan
      · next herror hallowed =>
        refine hnext (.refuse ("Tool not found: " ++ call.name)) hlt ?_ hplan
        simp only [verdictOn, herror, hallowed]
      · next tool herror hallowed =>
        split
        · next type htype =>
          refine each_bind (P := fun _ => True) (each_query fun a _ => ⟨hid a, trivial⟩)
            fun actionId _ => ?_
          apply each_pure
          obtain ⟨skipped, rest, hcalls, hrecorded, hskip, hwithin⟩ :=
            @skipRemaining_spec maxToolCalls calls (toolCalls ++ [call])
              { plan with pending := some (pendingActionFor actionId type tool call) }
          rw [foldl_add_pending] at hskip
          refine ⟨[], some (pendingActionFor actionId type tool call), skipped, rest, ?_, ?_, ?_, ?_,
            ?_, ?_, ?_, ?_, by simp, ?_, by simp⟩
          · rw [hcalls]
            rfl
          · rw [hrecorded]
            simp [pendingActionFor]
          · rw [hskip]
            rfl
          · rw [hskip]
            rfl
          · rw [hskip]
            rfl
          · rw [hskip]
          · rw [hskip]
          · rw [hrecorded]
            simp only [List.length_append, List.length_cons, List.length_nil] at hwithin ⊢
            omega
          · rintro _ ⟨⟩
            simp only [verdictOn, pendingActionFor, herror, hallowed, htype, Option.isSome_some, if_true]
        · next htype =>
          refine hnext (.execute tool) hlt ?_ hplan
          simp only [verdictOn, herror, hallowed, htype, Option.isSome_none, Bool.false_eq_true, if_false]

end

end Blackgeorge.WorkerRunner
