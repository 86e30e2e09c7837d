import Mathlib.Data.List.Pairwise
import Mathlib.Data.List.Sort
import Mathlib.Order.Lattice

/-! Tables whose rows are numbered, as SQL statements read and change them. -/

namespace Blackgeorge.Relational

variable {α β : Type}

structure Row (α : Type) where
  rowid : ℕ
  cells : α

abbrev Table (α : Type) := List (Row α)

namespace Table

def cells (t : Table α) : List α := t.map Row.cells

/-- A new row gets the number after the largest. -/
def nextRowid (t : Table α) : ℕ := (t.map Row.rowid).foldr max 0 + 1

def insert (t : Table α) (a : α) : Table α := t ++ [⟨t.nextRowid, a⟩]

/-- `UPDATE … WHERE p`. -/
def update (t : Table α) (p : α → Bool) (f : α → α) : Table α :=
  t.map fun r => if p r.cells then { r with cells := f r.cells } else r

/-- `DELETE … WHERE p`. -/
def delete (t : Table α) (p : α → Bool) : Table α := t.filter fun r => !p r.cells

/-- `SELECT … WHERE p`. -/
def select (t : Table α) (p : α → Bool) : Table α := t.filter fun r => p r.cells

/-- `ORDER BY key ASC, rowid ASC`. -/
def orderAsc {κ : Type} [LinearOrder κ] (t : Table α) (key : α → κ) : List α :=
  (t.mergeSort fun r s =>
    key r.cells < key s.cells ∨ key r.cells = key s.cells ∧ r.rowid ≤ s.rowid).map Row.cells

/-- `ORDER BY key DESC, rowid DESC`. -/
def orderDesc (t : Table α) (key : α → ℕ) : List α :=
  (t.mergeSort fun r s =>
    key s.cells < key r.cells ∨ key r.cells = key s.cells ∧ s.rowid ≤ r.rowid).map Row.cells

/-- The rows stand in the order of their numbers. -/
def Numbered (t : Table α) : Prop := t.Pairwise fun r s => r.rowid < s.rowid

theorem cells_insert (t : Table α) (a : α) : (t.insert a).cells = t.cells ++ [a] := by
  simp [cells, insert]

theorem cells_update (t : Table α) (p : α → Bool) (f : α → α) :
    (t.update p f).cells = t.cells.map fun a => if p a then f a else a := by
  simp only [cells, update, List.map_map]
  apply List.map_congr_left
  intro r _
  by_cases hp : p r.cells = true <;> simp [hp]

theorem cells_delete (t : Table α) (p : α → Bool) :
    (t.delete p).cells = t.cells.filter fun a => !p a := by
  simp only [cells, delete, List.filter_map]
  rfl

theorem cells_select (t : Table α) (p : α → Bool) : (t.select p).cells = t.cells.filter p := by
  simp only [cells, select, List.filter_map]
  rfl

theorem rowid_lt_nextRowid {t : Table α} {r : Row α} (h : r ∈ t) : r.rowid < t.nextRowid := by
  have hle : r.rowid ≤ (t.map Row.rowid).foldr max 0 := by
    induction t with
    | nil => cases h
    | cons s t ih =>
      rw [List.map_cons, List.foldr_cons]
      obtain rfl | h := List.mem_cons.mp h
      · exact le_max_left _ _
      · exact (ih h).trans (le_max_right _ _)
  exact Nat.lt_succ_of_le hle

theorem Numbered.nil : Numbered ([] : Table α) := List.Pairwise.nil

theorem Numbered.insert {t : Table α} (h : t.Numbered) (a : α) : (t.insert a).Numbered := by
  rw [Numbered, Table.insert, List.pairwise_append]
  refine ⟨h, List.pairwise_singleton _ _, ?_⟩
  intro r hr s hs
  obtain rfl := List.mem_singleton.mp hs
  exact rowid_lt_nextRowid hr

theorem Numbered.update {t : Table α} (h : t.Numbered) (p : α → Bool) (f : α → α) :
    (t.update p f).Numbered := by
  rw [Numbered, Table.update, List.pairwise_map]
  refine h.imp fun {r s} hrs => ?_
  by_cases hr : p r.cells = true <;> by_cases hs : p s.cells = true <;> simpa [hr, hs] using hrs

theorem Numbered.delete {t : Table α} (h : t.Numbered) (p : α → Bool) : (t.delete p).Numbered :=
  List.Pairwise.filter _ h

theorem Numbered.select {t : Table α} (h : t.Numbered) (p : α → Bool) : (t.select p).Numbered :=
  List.Pairwise.filter _ h

/-- Where the key does not fall from row to row, the rows are in order. -/
theorem orderAsc_eq {κ : Type} [LinearOrder κ] {t : Table α} (h : t.Numbered) {key : α → κ}
    (hkey : t.cells.Pairwise fun a b => key a ≤ key b) : t.orderAsc key = t.cells := by
  have hkey' : t.Pairwise fun r s => key r.cells ≤ key s.cells := by
    simpa [cells, List.pairwise_map] using hkey
  rw [orderAsc, cells, List.mergeSort_of_pairwise]
  refine (List.Pairwise.and h hkey').imp fun {r s} hrs => ?_
  rw [decide_eq_true_eq]
  obtain hlt | heq := lt_or_eq_of_le hrs.2
  · exact Or.inl hlt
  · exact Or.inr ⟨heq, hrs.1.le⟩

/-- The list that Python's sort makes, from the largest key to the smallest. -/
def sortedDesc (key : α → ℕ) (l : List α) : List α := l.mergeSort fun a b => key b ≤ key a

theorem perm_sortedDesc (key : α → ℕ) (l : List α) : (sortedDesc key l).Perm l :=
  List.mergeSort_perm l _

theorem sortedDesc_map (f : β → α) (key : α → ℕ) (l : List β) :
    sortedDesc key (l.map f) = (sortedDesc (fun b => key (f b)) l).map f := by
  rw [sortedDesc, sortedDesc, List.map_mergeSort]
  intro a _ b _
  rfl

theorem pairwise_sortedDesc (key : α → ℕ) (l : List α) :
    (sortedDesc key l).Pairwise fun a b => key b ≤ key a := by
  refine List.Pairwise.imp (by simp) (List.pairwise_mergeSort ?_ ?_ l)
  · simp only [decide_eq_true_eq]
    omega
  · simp only [Bool.or_eq_true, decide_eq_true_eq]
    omega

/-- Where no two keys are equal, rows from the largest key on are what Python's sort
makes. -/
theorem orderDesc_eq {t : Table α} {key : α → ℕ}
    (hkey : t.cells.Pairwise fun a b => key a ≠ key b) :
    t.orderDesc key = sortedDesc key t.cells := by
  have hrows : (t.mergeSort fun r s => key s.cells < key r.cells ∨
      key r.cells = key s.cells ∧ s.rowid ≤ r.rowid).Pairwise
        fun r s => key s.cells ≤ key r.cells := by
    refine List.Pairwise.imp ?_ (List.pairwise_mergeSort ?_ ?_ t)
    · intro r s hrs
      rw [decide_eq_true_eq] at hrs
      omega
    · simp only [decide_eq_true_eq]
      omega
    · simp only [Bool.or_eq_true, decide_eq_true_eq]
      omega
  have hordered : (t.orderDesc key).Pairwise fun a b => key b ≤ key a := by
    rwa [orderDesc, List.pairwise_map]
  have hperm : (t.orderDesc key).Perm (sortedDesc key t.cells) :=
    ((List.mergeSort_perm t _).map Row.cells).trans (perm_sortedDesc key t.cells).symm
  refine hperm.eq_of_pairwise ?_ hordered (pairwise_sortedDesc key t.cells)
  intro a b ha hb hab hba
  have hsymm : Std.Symm fun a b : α => key a ≠ key b := ⟨fun _ _ h => h.symm⟩
  have hsorted := perm_sortedDesc key t.cells
  by_contra hne
  exact hkey.forall ((hperm.trans hsorted).mem_iff.mp ha) (hsorted.mem_iff.mp hb) hne
    (le_antisymm hba hab)

end Table

end Blackgeorge.Relational
