import Mathlib.Order.Bounds.Basic
import Blackgeorge.WorkerRunner.Compaction
import Blackgeorge.WorkerRunner.Conversation

/-! Where the history is cut: at the last place, not behind the one that is asked for, where
no answer is parted from its call. The loop moves the cut in front of the last assistant
message with a call that is answered behind it. Every cut it passes over parts that message
from that answer, since the answers behind an earlier cut are only more. -/

namespace Blackgeorge.WorkerRunner

open Data

/-- The message is an assistant's and issued the call. -/
def Issues (m : Message) (id : String) : Prop :=
  m.role = .assistant ∧ ∃ call ∈ m.toolCalls, call.id = id

/-- No message at or behind the cut answers a call issued in front of it, of the calls whose
ids `counts` takes for one. -/
def Uncut (counts : String → Prop) (messages : List Message) (cut : ℕ) : Prop :=
  ∀ id, counts id → (∃ m ∈ messages.drop cut, Answers m id) →
    ∀ m ∈ messages.take cut, ¬ Issues m id

theorem mem_toolCallIdSet_iff {messages : List Message} {id : String} :
    id ∈ toolCallIdSet messages ↔ id ≠ "" ∧ ∃ m ∈ messages, Answers m id := by
  unfold toolCallIdSet
  rw [List.mem_filterMap]
  constructor
  · rintro ⟨m, hm, h⟩
    split_ifs at h with hrole
    obtain ⟨hid, hne⟩ := Option.filter_eq_some_iff.mp h
    exact ⟨by simpa using hne, m, hm, hrole, hid⟩
  · rintro ⟨hne, m, hm, hrole, hid⟩
    refine ⟨m, hm, ?_⟩
    rw [if_pos hrole, hid, Option.filter_some]
    simp [hne]

theorem issuesOneOf_iff {ids : List String} {m : Message} :
    issuesOneOf ids m = true ↔ ∃ id ∈ ids, Issues m id := by
  unfold issuesOneOf
  rw [Bool.and_eq_true, decide_eq_true_iff, List.any_eq_true]
  constructor
  · rintro ⟨hrole, call, hcall, hid⟩
    exact ⟨call.id, List.contains_iff_mem.mp hid, hrole, call, hcall, rfl⟩
  · rintro ⟨id, hid, hrole, call, hcall, rfl⟩
    exact ⟨hrole, call, hcall, List.contains_iff_mem.mpr hid⟩

/-- The cut parts no answer from its call when no message in front of it issued one of the
calls answered behind it. -/
theorem uncut_iff {messages : List Message} {cut : ℕ} :
    Uncut (· ≠ "") messages cut ↔
      ∀ m ∈ messages.take cut, issuesOneOf (toolCallIdSet (messages.drop cut)) m = false := by
  constructor
  · intro h m hm
    by_contra hissues
    obtain ⟨id, hid, hm'⟩ := issuesOneOf_iff.mp (Bool.not_eq_false _ ▸ hissues)
    obtain ⟨hne, hanswered⟩ := mem_toolCallIdSet_iff.mp hid
    exact h id hne hanswered m hm hm'
  · intro h id hne hanswered m hm hm'
    have hid := mem_toolCallIdSet_iff.mpr ⟨hne, hanswered⟩
    have hissues := issuesOneOf_iff.mpr ⟨id, hid, hm'⟩
    rw [h m hm] at hissues
    cases hissues

/-- An earlier cut has more answers behind it. -/
theorem toolCallIdSet_subset {messages : List Message} {cut boundary : ℕ} (h : cut ≤ boundary) :
    toolCallIdSet (messages.drop boundary) ⊆ toolCallIdSet (messages.drop cut) := by
  intro id hid
  obtain ⟨hne, m, hm, hanswers⟩ := mem_toolCallIdSet_iff.mp hid
  refine mem_toolCallIdSet_iff.mpr ⟨hne, m, ?_, hanswers⟩
  rw [← Nat.add_sub_cancel' h, ← List.drop_drop] at hm
  exact List.mem_of_mem_drop hm

/-- The cuts between the last matching message and the boundary all part that message from
the answer it was found by. -/
theorem Uncut.le_matching {messages : List Message} {cut boundary index : ℕ}
    (h : Uncut (· ≠ "") messages cut) (hle : cut ≤ boundary)
    (hindex : matchingAssistantIndex messages (toolCallIdSet (messages.drop boundary)) boundary
      = some index) : cut ≤ index := by
  by_contra hlt
  obtain ⟨m, hm, hissues⟩ := matchingAssistantIndex_some hindex
  obtain ⟨id, hid, hm'⟩ := issuesOneOf_iff.mp hissues
  have htake : m ∈ messages.take cut :=
    List.mem_of_getElem? ((List.getElem?_take_of_lt (by omega)).trans hm)
  have hnot := uncut_iff.mp h m htake
  rw [issuesOneOf_iff.mpr ⟨id, toolCallIdSet_subset hle hid, hm'⟩] at hnot
  cases hnot

/-! ### The loop -/

theorem moveBoundary_uncut (messages : List Message) {fuel boundary : ℕ} (hlt : boundary < fuel) :
    Uncut (· ≠ "") messages (moveBoundary messages fuel boundary) := by
  induction fuel generalizing boundary with
  | zero => omega
  | succ fuel ih =>
    unfold moveBoundary
    split_ifs with hzero
    · intro id _ _ m hm
      simp at hm
    · dsimp only
      split_ifs with hids
      · refine uncut_iff.mpr fun m _ => ?_
        simp [hids, issuesOneOf]
      · split
        · next hnone => exact uncut_iff.mpr (matchingAssistantIndex_none hnone)
        · next index hsome =>
          have := matchingAssistantIndex_lt hsome
          exact ih (by omega)

theorem Uncut.le_moveBoundary {messages : List Message} {cut : ℕ}
    (h : Uncut (· ≠ "") messages cut) {fuel boundary : ℕ} (hle : cut ≤ boundary) :
    cut ≤ moveBoundary messages fuel boundary := by
  induction fuel generalizing boundary with
  | zero => exact hle
  | succ fuel ih =>
    unfold moveBoundary
    split_ifs with hzero
    · omega
    · dsimp only
      split_ifs with hids
      · exact hle
      · split
        · exact hle
        · next index hsome => exact ih (h.le_matching hle hsome)

/-- The loop is over before its turns are: with more of them it ends where it ended. -/
theorem moveBoundary_fuel (messages : List Message) {fuel more boundary : ℕ}
    (hlt : boundary < fuel) (hmore : fuel ≤ more) :
    moveBoundary messages more boundary = moveBoundary messages fuel boundary := by
  apply le_antisymm
  · exact (moveBoundary_uncut messages (by omega)).le_moveBoundary (moveBoundary_le _ _ _)
  · exact (moveBoundary_uncut messages hlt).le_moveBoundary (moveBoundary_le _ _ _)

/-! ### The boundary -/

/-- The loop ends, and what it returns is the greatest cut that is not behind the boundary
asked for and parts no answer with an id from its call. -/
theorem preserveToolCallBoundary_greatest (messages : List Message) (boundary : ℤ) :
    (∀ fuel, messages.length < fuel →
      moveBoundary messages fuel (clampBoundary messages boundary) =
        preserveToolCallBoundary messages boundary) ∧
    IsGreatest {cut | cut ≤ clampBoundary messages boundary ∧ Uncut (· ≠ "") messages cut}
      (preserveToolCallBoundary messages boundary) := by
  have hclamp : clampBoundary messages boundary < messages.length + 1 :=
    Nat.lt_succ_of_le (clampBoundary_le messages boundary)
  refine ⟨fun fuel hfuel => moveBoundary_fuel messages hclamp hfuel, ⟨?_, ?_⟩, ?_⟩
  · exact preserveToolCallBoundary_le messages boundary
  · exact moveBoundary_uncut messages hclamp
  · rintro cut ⟨hle, hcut⟩
    exact hcut.le_moveBoundary hle

/-- A call and its answer, both with an empty id. -/
def blankExchange : List Message :=
  [{ role := .assistant, content := .text "", toolCalls := [{ id := "", name := "lookup", arguments := [] }] },
    { role := .tool, content := .text "", toolCallId := some "" }]

/-- An empty id counts for none: the cut between a call and its answer stays. -/
theorem not_greatest_blank :
    ¬ IsGreatest {cut | cut ≤ clampBoundary blankExchange 1 ∧ Uncut (fun _ => True) blankExchange cut}
      (preserveToolCallBoundary blankExchange 1) := by
  intro h
  have hone : preserveToolCallBoundary blankExchange 1 = 1 := by decide
  rw [hone] at h
  exact h.1.2 "" trivial ⟨_, List.mem_cons_self, rfl, rfl⟩ _ List.mem_cons_self
    ⟨rfl, _, List.mem_cons_self, rfl⟩

end Blackgeorge.WorkerRunner
