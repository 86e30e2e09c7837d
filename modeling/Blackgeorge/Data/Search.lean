import Blackgeorge.Data.Text

/-! Searching a text: the first and the last place of a character, and what stands in front
of a place or behind it. -/

namespace Blackgeorge.Data.Text

/-- `s.find(c)`. -/
def find (s : List Char) (c : Char) : ℤ := if c ∈ s then s.idxOf c else -1

/-- `s.rfind(c)`. -/
def rfind (s : List Char) (c : Char) : ℤ :=
  if c ∈ s then s.length - 1 - s.reverse.idxOf c else -1

/-- `s[i:j]` of two places that are not negative. -/
def slice (s : List Char) (i j : ℤ) : List Char := (s.take j.toNat).drop i.toNat

/-- `s.partition(c)[2]`. -/
def afterFirst (s : List Char) (c : Char) : List Char := (s.dropWhile (· ≠ c)).drop 1

/-- `s.rstrip()`. -/
def rstrip (s : List Char) : List Char := s.rdropWhile isSpace

/-- `s.removesuffix(tail)`. -/
def removeSuffix (s tail : List Char) : List Char :=
  if tail <:+ s then s.take (s.length - tail.length) else s

/-- `s.strip()`. -/
def stripped (s : List Char) : List Char := rstrip (s.dropWhile isSpace)

theorem toList_strip (s : String) : (strip s).toList = stripped s.toList := by
  rw [strip, String.toList_ofList]
  rfl

/-! ### Places -/

theorem find_append {u : List Char} {c : Char} (hu : c ∉ u) (w : List Char) :
    find (u ++ w) c = if c ∈ w then (u.length : ℤ) + w.idxOf c else -1 := by
  unfold find
  by_cases hw : c ∈ w
  · rw [if_pos (List.mem_append_right u hw), if_pos hw, List.idxOf_append_of_notMem hu]
    exact Nat.cast_add _ _
  · have hnot : c ∉ u ++ w := by simp [hu, hw]
    rw [if_neg hnot, if_neg hw]

theorem find_of_first {u : List Char} {c : Char} (hu : c ∉ u) (w : List Char) :
    find (u ++ c :: w) c = u.length := by
  rw [find_append hu, if_pos List.mem_cons_self, List.idxOf_cons_self]
  exact add_zero _

/-- No place in front of what does not hold the character. -/
theorem le_find {u : List Char} {c : Char} (hu : c ∉ u) (w : List Char) :
    find (u ++ w) c = -1 ∨ (u.length : ℤ) ≤ find (u ++ w) c := by
  rw [find_append hu]
  split_ifs
  · right
    omega
  · exact .inl rfl

theorem rfind_of_last {w : List Char} {c : Char} (hw : c ∉ w) (u : List Char) :
    rfind (u ++ c :: w) c = u.length := by
  have hmem : c ∈ u ++ c :: w := List.mem_append_right u List.mem_cons_self
  have hrev : (u ++ c :: w).reverse = w.reverse ++ c :: u.reverse := by simp
  have hidx : (u ++ c :: w).reverse.idxOf c = w.length := by
    rw [hrev, List.idxOf_append_of_notMem (by simpa using hw), List.idxOf_cons_self,
      List.length_reverse]
    rfl
  have hlen : (u ++ c :: w).length = u.length + (w.length + 1) := by simp
  rw [rfind, if_pos hmem, hidx, hlen]
  omega

/-- No place behind where the character stands last. -/
theorem rfind_lt {w : List Char} {c : Char} (hw : c ∉ w) (u : List Char) :
    rfind (u ++ w) c < u.length := by
  unfold rfind
  split_ifs with hmem
  · have hrev : (u ++ w).reverse = w.reverse ++ u.reverse := by simp
    rw [hrev, List.idxOf_append_of_notMem (by simpa using hw), List.length_reverse,
      List.length_append]
    omega
  · omega

theorem slice_middle (u m w : List Char) :
    slice (u ++ (m ++ w)) u.length (u.length + m.length) = m := by
  have hj : ((u.length : ℤ) + m.length).toNat = u.length + m.length := by omega
  have htake : (u ++ (m ++ w)).take (u.length + m.length) = u ++ m := by
    rw [← List.append_assoc]
    exact List.take_left' (by simp)
  rw [slice, Int.toNat_natCast, hj, htake]
  exact List.drop_left' rfl

/-! ### The first and the last of a kind -/

theorem notMem_of_kind {p : Char → Bool} {s : List Char} (h : ∀ d ∈ s, p d = false) {c : Char}
    (hc : p c = true) : c ∉ s := by
  intro hmem
  rw [h c hmem] at hc
  cases hc

/-- A text up to the first character of a kind. -/
theorem exists_first {p : Char → Bool} {s : List Char} (h : ∃ c ∈ s, p c = true) :
    ∃ u c w, s = u ++ c :: w ∧ p c = true ∧ ∀ d ∈ u, p d = false := by
  induction s with
  | nil => simp at h
  | cons a s ih =>
    by_cases ha : p a = true
    · exact ⟨[], a, s, rfl, ha, fun d hd => nomatch hd⟩
    · obtain ⟨c, hc, hp⟩ := h
      have htail : ∃ c ∈ s, p c = true := by
        rcases List.mem_cons.mp hc with rfl | hc
        · exact absurd hp ha
        · exact ⟨c, hc, hp⟩
      obtain ⟨u, c, w, rfl, hc, hu⟩ := ih htail
      refine ⟨a :: u, c, w, rfl, hc, fun d hd => ?_⟩
      rcases List.mem_cons.mp hd with rfl | hd
      · simpa using ha
      · exact hu d hd

/-- A text from the last character of a kind on. -/
theorem exists_last {p : Char → Bool} {s : List Char} (h : ∃ c ∈ s, p c = true) :
    ∃ u c w, s = u ++ c :: w ∧ p c = true ∧ ∀ d ∈ w, p d = false := by
  obtain ⟨u, c, w, hs, hc, hu⟩ := exists_first (p := p) (s := s.reverse) (by simpa using h)
  refine ⟨w.reverse, c, u.reverse, ?_, hc, fun d hd => hu d (List.mem_reverse.mp hd)⟩
  have hrev := congrArg List.reverse hs
  simpa using hrev

/-! ### Stripping -/

/-- Spaces in front of a character that is none are those in front of the text. -/
theorem lstrip_append (u : List Char) {c : Char} (hc : isSpace c = false) (w : List Char) :
    (u ++ c :: w).dropWhile isSpace = u.dropWhile isSpace ++ c :: w := by
  rw [List.dropWhile_append]
  cases h : u.dropWhile isSpace with
  | nil => simp [hc]
  | cons a l => rfl

/-- Spaces behind a character that is none are those at the end of the text. -/
theorem rstrip_append (u : List Char) {c : Char} (hc : isSpace c = false) (w : List Char) :
    rstrip (u ++ c :: w) = u ++ c :: rstrip w := by
  have hrev : (u ++ c :: w).reverse = w.reverse ++ c :: u.reverse := by simp
  unfold rstrip List.rdropWhile
  rw [hrev, lstrip_append w.reverse hc]
  simp

theorem stripped_append {o c : Char} (ho : isSpace o = false) (hc : isSpace c = false)
    (u m w : List Char) :
    stripped (u ++ o :: (m ++ c :: w)) = u.dropWhile isSpace ++ o :: (m ++ c :: rstrip w) := by
  have hassoc : ∀ v : List Char, u.dropWhile isSpace ++ o :: (m ++ c :: v) =
      (u.dropWhile isSpace ++ o :: m) ++ c :: v := by simp
  rw [stripped, lstrip_append u ho, hassoc, rstrip_append _ hc, ← hassoc]

theorem rstrip_sublist (s : List Char) : (rstrip s).Sublist s :=
  (List.rdropWhile_prefix isSpace s).sublist

theorem stripped_sublist (s : List Char) : (stripped s).Sublist s :=
  (rstrip_sublist _).trans (List.dropWhile_suffix isSpace).sublist

theorem rstrip_spaces (u : List Char) {w : List Char} (hw : ∀ c ∈ w, isSpace c = true) :
    rstrip (u ++ w) = rstrip u := by
  unfold rstrip List.rdropWhile
  rw [List.reverse_append, List.dropWhile_append_of_pos (by simpa using hw)]

/-- Nothing is stripped of a text that has no spaces around it, at either end. -/
theorem strip_ends {s : List Char} (h : stripped s = s) :
    s.dropWhile isSpace = s ∧ rstrip s = s := by
  have hsuffix := List.dropWhile_suffix (l := s) isSpace
  have hlen := (rstrip_sublist (s.dropWhile isSpace)).length_le
  rw [show rstrip (s.dropWhile isSpace) = s from h] at hlen
  have hfront : s.dropWhile isSpace = s := hsuffix.eq_of_length_le hlen
  refine ⟨hfront, ?_⟩
  rw [stripped, hfront] at h
  exact h

theorem stripped_stripped (s : List Char) : stripped (stripped s) = stripped s := by
  have h := congrArg String.toList (strip_strip (String.ofList s))
  rwa [toList_strip, toList_strip, String.toList_ofList] at h

/-! ### Cutting off -/

theorem removeSuffix_sublist (s tail : List Char) : (removeSuffix s tail).Sublist s := by
  unfold removeSuffix
  split_ifs
  · exact List.take_sublist _ _
  · exact List.Sublist.refl s

/-- A tail without the character ends behind it. -/
theorem removeSuffix_append (u : List Char) {c : Char} {tail : List Char} (hc : c ∉ tail)
    (w : List Char) : ∃ w', removeSuffix (u ++ c :: w) tail = u ++ c :: w' ∧ w' <+: w := by
  unfold removeSuffix
  split_ifs with htail
  · have hw : tail <:+ w := by
      rcases List.suffix_or_suffix_of_suffix htail (List.suffix_append u (c :: w)) with h | h
      · rcases List.suffix_cons_iff.mp h with rfl | h
        · exact absurd List.mem_cons_self hc
        · exact h
      · exact absurd (h.subset List.mem_cons_self) hc
    obtain ⟨w', rfl⟩ := hw
    refine ⟨w', ?_, List.prefix_append w' tail⟩
    have hassoc : u ++ c :: (w' ++ tail) = (u ++ c :: w') ++ tail := by simp
    rw [hassoc, List.length_append, Nat.add_sub_cancel]
    exact List.take_left' rfl
  · exact ⟨w, rfl, List.prefix_rfl⟩

theorem afterFirst_append {u : List Char} {c : Char} (hu : c ∉ u) (w : List Char) :
    afterFirst (u ++ w) c = afterFirst w c := by
  unfold afterFirst
  rw [List.dropWhile_append_of_pos]
  intro d hd
  have hne : d ≠ c := fun h => hu (h ▸ hd)
  simpa using hne

theorem afterFirst_cons (c : Char) (w : List Char) : afterFirst (c :: w) c = w := by
  simp [afterFirst]

theorem afterFirst_sublist (s : List Char) (c : Char) : (afterFirst s c).Sublist s :=
  (List.drop_sublist _ _).trans (List.dropWhile_suffix _).sublist

theorem slice_sublist (s : List Char) (i j : ℤ) : (slice s i j).Sublist s :=
  (List.drop_sublist _ _).trans (List.take_sublist _ _)

/-- A head without the character ends in front of it. -/
theorem isPrefixOf_append {head u : List Char} {c : Char} (hc : c ∉ head) (w : List Char) :
    head.isPrefixOf (u ++ c :: w) = head.isPrefixOf u := by
  rw [Bool.eq_iff_iff, List.isPrefixOf_iff_prefix, List.isPrefixOf_iff_prefix]
  constructor
  · intro h
    rcases List.prefix_or_prefix_of_prefix h (List.prefix_append u (c :: w)) with h' | ⟨v, rfl⟩
    · exact h'
    · have hv : v <+: c :: w := (List.prefix_append_right_inj u).mp h
      cases v with
      | nil => simp
      | cons d v =>
        obtain ⟨v', hv'⟩ := hv
        obtain ⟨rfl, -⟩ := List.cons.inj hv'
        exact absurd (List.mem_append_right u List.mem_cons_self) hc
  · exact fun h => h.trans (List.prefix_append u (c :: w))

end Blackgeorge.Data.Text
