import Mathlib.Data.List.Basic

/-! Dictionaries in insertion order: a key keeps the place it was first given. -/

namespace Blackgeorge.Relational

variable {κ β γ : Type} [DecidableEq κ]

abbrev Dictionary (κ β : Type) := List (κ × β)

namespace Dictionary

def get (d : Dictionary κ β) (key : κ) : Option β := List.lookup key d

/-- `d[key] = value`. -/
def set (d : Dictionary κ β) (key : κ) (value : β) : Dictionary κ β :=
  match d with
  | [] => [(key, value)]
  | (k, v) :: rest => if k = key then (k, value) :: rest else (k, v) :: set rest key value

/-- `d.pop(key, None)`. -/
def pop (d : Dictionary κ β) (key : κ) : Dictionary κ β := d.filter fun p => p.1 ≠ key

def keys (d : Dictionary κ β) : List κ := d.map Prod.fst

theorem get_eq_none {d : Dictionary κ β} {key : κ} : d.get key = none ↔ key ∉ d.keys := by
  induction d with
  | nil => simp [get, keys]
  | cons p d ih =>
    obtain ⟨k, v⟩ := p
    by_cases hk : key = k
    · simp [get, keys, hk]
    · have hk' : (key == k) = false := by simpa using hk
      simpa [get, keys, List.lookup_cons, hk, hk'] using ih

theorem mem_of_get {d : Dictionary κ β} {key : κ} {v : β} (h : d.get key = some v) :
    (key, v) ∈ d := by
  induction d with
  | nil => cases h
  | cons p d ih =>
    obtain ⟨k, w⟩ := p
    by_cases hk : key = k
    · subst hk
      obtain rfl : w = v := by simpa [get] using h
      exact List.mem_cons_self
    · have hk' : (key == k) = false := by simpa using hk
      refine List.mem_cons_of_mem _ (ih ?_)
      simpa [get, List.lookup_cons, hk'] using h

theorem get_of_mem {d : Dictionary κ β} {key : κ} {v : β} (hnodup : d.keys.Nodup)
    (h : (key, v) ∈ d) : d.get key = some v := by
  induction d with
  | nil => cases h
  | cons p d ih =>
    obtain ⟨k, w⟩ := p
    simp only [keys, List.map_cons, List.nodup_cons] at hnodup
    obtain heq | hmem := List.mem_cons.mp h
    · obtain ⟨rfl, rfl⟩ := Prod.mk.inj heq
      simp [get]
    · have hne : key ≠ k := by
        rintro rfl
        exact hnodup.1 (List.mem_map_of_mem hmem)
      have hne' : (key == k) = false := by simpa using hne
      have hrest := ih hnodup.2 hmem
      simpa [get, List.lookup_cons, hne'] using hrest

theorem get_set_self (d : Dictionary κ β) (key : κ) (v : β) : (d.set key v).get key = some v := by
  induction d with
  | nil => simp [set, get]
  | cons p d ih =>
    obtain ⟨k, w⟩ := p
    rw [set]
    by_cases hk : k = key
    · rw [if_pos hk]
      simp [get, hk]
    · have hk' : (key == k) = false := by simpa using Ne.symm hk
      rw [if_neg hk]
      simpa [get, List.lookup_cons, hk'] using ih

theorem get_set_of_ne (d : Dictionary κ β) {key other : κ} (h : other ≠ key) (v : β) :
    (d.set key v).get other = d.get other := by
  induction d with
  | nil =>
    have h' : (other == key) = false := by simpa using h
    simp [set, get, List.lookup_cons, h']
  | cons p d ih =>
    obtain ⟨k, w⟩ := p
    rw [set]
    by_cases hk : k = key
    · have hk' : (other == k) = false := by simpa [hk] using h
      rw [if_pos hk]
      simp [get, List.lookup_cons, hk']
    · rw [if_neg hk]
      simp only [get, List.lookup_cons] at ih ⊢
      rw [ih]

theorem get_pop_self (d : Dictionary κ β) (key : κ) : (d.pop key).get key = none := by
  rw [get_eq_none]
  simp [pop, keys]

theorem get_pop_of_ne (d : Dictionary κ β) {key other : κ} (h : other ≠ key) :
    (d.pop key).get other = d.get other := by
  induction d with
  | nil => rfl
  | cons p d ih =>
    obtain ⟨k, w⟩ := p
    simp only [pop, get] at ih ⊢
    by_cases hk : k = key
    · have hk' : (other == k) = false := by simpa [hk] using h
      rw [List.filter_cons_of_neg (by simp [hk]), ih, List.lookup_cons, hk']
    · rw [List.filter_cons_of_pos (by simp [hk]), List.lookup_cons, List.lookup_cons, ih]

/-- A new key is put last. -/
theorem set_of_get_none {d : Dictionary κ β} {key : κ} (h : d.get key = none) (v : β) :
    d.set key v = d ++ [(key, v)] := by
  rw [get_eq_none] at h
  induction d with
  | nil => rfl
  | cons p d ih =>
    obtain ⟨k, w⟩ := p
    simp only [keys, List.map_cons, List.mem_cons, not_or] at h
    rw [set, if_neg (Ne.symm h.1), ih h.2, List.cons_append]

/-- An old key gets its value where it stands. -/
theorem set_of_get {d : Dictionary κ β} {key : κ} {w : β} (h : d.get key = some w)
    (hnodup : d.keys.Nodup) (v : β) :
    d.set key v = d.map fun p => if p.1 = key then (key, v) else p := by
  induction d with
  | nil => cases h
  | cons p d ih =>
    obtain ⟨k, u⟩ := p
    simp only [keys, List.map_cons, List.nodup_cons] at hnodup
    rw [set]
    by_cases hk : k = key
    · subst hk
      have hrest : (d.map fun p => if p.1 = k then (k, v) else p) = d := by
        conv_rhs => rw [← List.map_id d]
        apply List.map_congr_left
        intro q hq
        have hne : q.1 ≠ k := by
          rintro rfl
          exact hnodup.1 (List.mem_map_of_mem hq)
        rw [if_neg hne, id]
      rw [if_pos rfl, List.map_cons, if_pos rfl, hrest]
    · have hk' : (key == k) = false := by simpa using Ne.symm hk
      have hrest : Dictionary.get d key = some w := by
        simpa [get, List.lookup_cons, hk'] using h
      rw [if_neg hk, List.map_cons, if_neg hk, ih hrest hnodup.2]

theorem keys_set_of_get {d : Dictionary κ β} {key : κ} {w : β} (h : d.get key = some w)
    (hnodup : d.keys.Nodup) (v : β) : (d.set key v).keys = d.keys := by
  rw [set_of_get h hnodup, keys, keys, List.map_map]
  apply List.map_congr_left
  intro p _
  by_cases hp : p.1 = key <;> simp [hp]

theorem nodup_keys_set {d : Dictionary κ β} (hnodup : d.keys.Nodup) (key : κ) (v : β) :
    (d.set key v).keys.Nodup := by
  cases h : d.get key with
  | none =>
    have hnew := get_eq_none.mp h
    rw [set_of_get_none h, keys, List.map_append, List.nodup_append]
    refine ⟨hnodup, by simp, ?_⟩
    intro a ha b hb hab
    obtain rfl : b = key := by simpa using hb
    exact hnew (hab ▸ ha)
  | some w => rwa [keys_set_of_get h hnodup]

theorem mem_set {d : Dictionary κ β} {key : κ} {v : β} {p : κ × β} (h : p ∈ d.set key v) :
    p ∈ d ∨ p = (key, v) := by
  induction d with
  | nil => exact Or.inr (by simpa [set] using h)
  | cons q d ih =>
    obtain ⟨k, w⟩ := q
    rw [set] at h
    split_ifs at h with hk
    · obtain rfl | h := List.mem_cons.mp h
      · exact Or.inr (by rw [hk])
      · exact Or.inl (List.mem_cons_of_mem _ h)
    · obtain rfl | h := List.mem_cons.mp h
      · exact Or.inl List.mem_cons_self
      · exact (ih h).imp_left (List.mem_cons_of_mem _)

end Dictionary

end Blackgeorge.Relational
