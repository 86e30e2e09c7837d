import Blackgeorge.Data.Scans
import Blackgeorge.Data.Search

/-! The texts of JSON documents by their first characters: an object or an array begins and
ends with a bracket, a string begins with a quote, and the rest hold no bracket at all. -/

namespace Blackgeorge.Data.Json

variable {float : String → ℚ × String}

def isOpening (c : Char) : Bool := c = '\x7b' || c = '['

def isClosing (c : Char) : Bool := c = '\x7d' || c = ']'

def isBracket (c : Char) : Bool := isOpening c || isClosing c

theorem bracket_of_opening {c : Char} (h : isOpening c = true) : isBracket c = true := by
  simp [isBracket, h]

theorem bracket_of_closing {c : Char} (h : isClosing c = true) : isBracket c = true := by
  simp [isBracket, h]

theorem not_bracket {c : Char} (h : isBracket c = false) :
    isOpening c = false ∧ isClosing c = false := by
  simpa [isBracket] using h

theorem of_isBracket {P : Char → Prop} {c : Char} (h : isBracket c = true)
    (hall : (P '\x7b' ∧ P '[') ∧ P '\x7d' ∧ P ']') : P c := by
  simp only [isBracket, isOpening, isClosing, Bool.or_eq_true, decide_eq_true_iff] at h
  obtain (rfl | rfl) | (rfl | rfl) := h
  · exact hall.1.1
  · exact hall.1.2
  · exact hall.2.1
  · exact hall.2.2

/-- A character of a number or of a constant. -/
def isMark (c : Char) : Bool := c.isAlphanum || c = '-' || c = '+' || c = '.'

/-- An object or an array. -/
def isContainer : Value → Bool
  | .dict _ | .list _ => true
  | _ => false

/-! ### Numbers and constants -/

/-- The text of a number or a constant. -/
def Marks (s : List Char) : Prop := ∀ c ∈ s, isMark c = true

theorem Marks.append {s t : List Char} (hs : Marks s) (ht : Marks t) : Marks (s ++ t) := by
  intro c hc
  rcases List.mem_append.mp hc with hc | hc
  · exact hs c hc
  · exact ht c hc

theorem Marks.cons {c : Char} {s : List Char} (hc : isMark c = true) (hs : Marks s) :
    Marks (c :: s) := by
  intro d hd
  rcases List.mem_cons.mp hd with rfl | hd
  · exact hc
  · exact hs d hd

theorem marks_of_all {s : List Char} (h : s.all isMark = true) : Marks s :=
  List.all_eq_true.mp h

theorem marks_nil : Marks [] := fun _ h => nomatch h

theorem marks_digitsOf (s : List Char) : Marks (digitsOf s) := by
  intro c hc
  have hdigit := List.mem_takeWhile_imp hc
  simp [isMark, Char.isAlphanum, hdigit]

theorem marks_scanSign (s : List Char) : Marks (scanSign s).1 := by
  unfold scanSign
  split
  · exact .cons (by decide) marks_nil
  · exact marks_nil

theorem marks_scanExponentSign (s : List Char) : Marks (scanExponentSign s).1 := by
  unfold scanExponentSign
  split
  · exact .cons (by decide) marks_nil
  · exact marks_scanSign s

theorem marks_scanWhole {s whole rest : List Char} (h : scanWhole s = some (whole, rest)) :
    Marks whole := by
  unfold scanWhole at h
  split at h
  · obtain ⟨rfl, -⟩ := Prod.mk.inj (Option.some.inj h)
    exact .cons (by decide) marks_nil
  · split_ifs at h
    obtain ⟨rfl, -⟩ := Prod.mk.inj (Option.some.inj h)
    exact marks_digitsOf s

theorem marks_scanFraction (s : List Char) : Marks (scanFraction s).1 := by
  unfold scanFraction
  split
  · split_ifs
    · exact marks_nil
    · exact .cons (by decide) (marks_digitsOf _)
  · exact marks_nil

theorem marks_scanExponent (s : List Char) : Marks (scanExponent s).1 := by
  cases s with
  | nil => exact marks_nil
  | cons c s =>
    rw [scanExponent]
    split_ifs with h
    · have hc : isMark c = true := by
        rcases h.1 with rfl | rfl
        · decide
        · decide
      exact .append (.cons hc (marks_scanExponentSign s)) (marks_digitsOf _)
    · exact marks_nil

theorem marks_scanNumber {s : List Char} {v : Value} (h : scanNumber float s = some (v, [])) :
    Marks s := by
  simp only [scanNumber, Option.bind_eq_bind, Option.bind_eq_some_iff] at h
  obtain ⟨⟨sign, whole, rest, t⟩, hparts, h⟩ := h
  obtain ⟨-, rfl⟩ := Prod.mk.inj (Option.some.inj h)
  have htext := scanParts_eq hparts
  simp only [scanParts, Option.bind_eq_bind, Option.bind_eq_some_iff] at hparts
  obtain ⟨⟨w, r⟩, hwhole, hparts⟩ := hparts
  simp only [Option.some.injEq, Prod.mk.injEq] at hparts
  obtain ⟨rfl, rfl, rfl, -⟩ := hparts
  rw [List.append_nil] at htext
  rw [← htext]
  exact ((marks_scanSign s).append (marks_scanWhole hwhole)).append
    ((marks_scanFraction r).append (marks_scanExponent _))

/-! ### Objects and arrays -/

theorem closed_items {n : ℕ} {s t : List Char} {vs : List Value}
    (h : scanItems float n s = some (vs, t)) : ']' :: t <:+ s := by
  induction n generalizing s vs with
  | zero => cases h
  | succ n ih =>
    simp only [scanItems, Option.bind_eq_bind, Option.bind_eq_some_iff] at h
    obtain ⟨⟨v, u⟩, hv, h⟩ := h
    have hu := (settled_once n s u v hv).1.suffix
    dsimp only at h
    split at h
    · rename_i w hclose
      cases h
      exact (hclose ▸ suffix_skipSpace u).trans hu
    · rename_i w hcomma
      simp only [Option.bind_eq_some_iff] at h
      obtain ⟨⟨ws, r⟩, hrest, h⟩ := h
      obtain ⟨-, rfl⟩ := Prod.mk.inj (Option.some.inj h)
      exact ((ih hrest).trans (suffix_skipSpace w)).trans ((suffix_of_skipSpace hcomma).trans hu)
    · cases h

theorem closed_pairs {n : ℕ} {s t : List Char} {fs : List (String × Value)}
    (h : scanPairs float n s = some (fs, t)) : '\x7d' :: t <:+ s := by
  induction n generalizing s fs with
  | zero => cases h
  | succ n ih =>
    simp only [scanPairs, Option.bind_eq_bind, Option.bind_eq_some_iff] at h
    obtain ⟨⟨k, r⟩, hk, ⟨v, u⟩, hv, h⟩ := h
    have hu := (settled_once n r u v hv).1.suffix.trans (behind_of_scanKey hk).suffix
    dsimp only at h
    split at h
    · rename_i w hclose
      cases h
      exact (hclose ▸ suffix_skipSpace u).trans hu
    · rename_i w hcomma
      simp only [Option.bind_eq_some_iff] at h
      obtain ⟨⟨gs, r'⟩, hrest, h⟩ := h
      obtain ⟨-, rfl⟩ := Prod.mk.inj (Option.some.inj h)
      exact ((ih hrest).trans (suffix_skipSpace w)).trans ((suffix_of_skipSpace hcomma).trans hu)
    · cases h

/-! ### Documents -/

/-- The text of a document, by its first character. -/
inductive Shape : List Char → Value → Prop
  | container {o c : Char} {u : List Char} {v : Value} (ho : isOpening o = true)
      (hc : isClosing c = true) (hv : isContainer v = true) : Shape (o :: (u ++ [c])) v
  | quoted {u : List Char} {text : String} : Shape ('"' :: u) (.str text)
  | plain {s : List Char} {v : Value} (hs : Marks s) (hv : isContainer v = false) : Shape s v

theorem shape_of_scanLeaf {s : List Char} {v : Value} (h : scanLeaf float s = some (v, [])) :
    Shape s v := by
  unfold scanLeaf at h
  split at h
  · simp only [Option.bind_eq_bind, Option.bind_eq_some_iff] at h
    obtain ⟨⟨cs, u⟩, -, h⟩ := h
    cases h
    exact .quoted
  case h_8 =>
    refine .plain (marks_scanNumber h) ?_
    simp only [scanNumber, Option.bind_eq_bind, Option.bind_eq_some_iff] at h
    obtain ⟨⟨sign, whole, rest, t⟩, -, h⟩ := h
    obtain ⟨rfl, -⟩ := Prod.mk.inj (Option.some.inj h)
    split_ifs <;> rfl
  all_goals
    cases h
    exact .plain (marks_of_all rfl) rfl

theorem Shape.of_suffix {o c : Char} {s : List Char} {v : Value} (ho : isOpening o = true)
    (hc : isClosing c = true) (hv : isContainer v = true) (h : [c] <:+ s) : Shape (o :: s) v := by
  obtain ⟨u, rfl⟩ := h
  exact .container ho hc hv

theorem shape_list {n : ℕ} {s : List Char} {v : Value}
    (h : scanOnce float (n + 1) ('[' :: s) = some (v, [])) : Shape ('[' :: s) v := by
  have hskip := suffix_skipSpace s
  simp only [scanOnce] at h
  split at h
  · rename_i u hclose
    cases h
    rw [hclose] at hskip
    exact .of_suffix (by decide) (by decide) rfl hskip
  · simp only [Option.bind_eq_bind, Option.bind_eq_some_iff] at h
    obtain ⟨⟨vs, u⟩, hitems, h⟩ := h
    cases h
    exact .of_suffix (by decide) (by decide) rfl ((closed_items hitems).trans hskip)

theorem shape_dict {n : ℕ} {s : List Char} {v : Value}
    (h : scanOnce float (n + 1) ('\x7b' :: s) = some (v, [])) : Shape ('\x7b' :: s) v := by
  have hskip := suffix_skipSpace s
  simp only [scanOnce] at h
  split at h
  · rename_i u hclose
    cases h
    rw [hclose] at hskip
    exact .of_suffix (by decide) (by decide) rfl hskip
  · simp only [Option.bind_eq_bind, Option.bind_eq_some_iff] at h
    obtain ⟨⟨fs, u⟩, hpairs, h⟩ := h
    cases h
    exact .of_suffix (by decide) (by decide) rfl ((closed_pairs hpairs).trans hskip)

theorem shape_of_scanOnce {n : ℕ} {s : List Char} {v : Value}
    (h : scanOnce float n s = some (v, [])) : Shape s v := by
  cases n with
  | zero => cases h
  | succ n =>
    by_cases hlist : ∃ u, s = '[' :: u
    · obtain ⟨u, rfl⟩ := hlist
      exact shape_list h
    · by_cases hdict : ∃ u, s = '\x7b' :: u
      · obtain ⟨u, rfl⟩ := hdict
        exact shape_dict h
      · have hleaf : scanOnce float (n + 1) s = scanLeaf float s := by
          rw [scanOnce]
          · exact fun u hu => hlist ⟨u, hu⟩
          · exact fun u hu => hdict ⟨u, hu⟩
        rw [hleaf] at h
        exact shape_of_scanLeaf h

theorem isSpace_of_isJsonSpace {c : Char} (h : isJsonSpace c = true) : Text.isSpace c = true := by
  simp only [isJsonSpace, Bool.or_eq_true, decide_eq_true_iff] at h
  obtain ((rfl | rfl) | rfl) | rfl := h <;> decide

theorem skipSpace_of_strip {s : List Char} (h : s.dropWhile Text.isSpace = s) :
    skipSpace s = s := by
  rw [skipSpace, List.dropWhile_eq_self_iff]
  intro hpos hspace
  exact List.dropWhile_eq_self_iff.mp h hpos (isSpace_of_isJsonSpace hspace)

/-- Spaces at the end of a text without spaces there are none. -/
theorem nil_of_rstrip {s t : List Char} (hs : Text.rstrip s = s) (hsuffix : t <:+ s)
    (ht : skipSpace t = []) : t = [] := by
  obtain ⟨u, rfl⟩ := hsuffix
  have hspaces : ∀ c ∈ t, Text.isSpace c = true := fun c hc =>
    isSpace_of_isJsonSpace (List.dropWhile_eq_nil_iff.mp ht c hc)
  have hlen := (Text.rstrip_sublist u).length_le
  rw [← Text.rstrip_spaces u hspaces, hs, List.length_append] at hlen
  exact List.length_eq_zero_iff.mp (by omega)

/-- A text without spaces around it is a document as it stands. -/
theorem shape_of_loads {text : String} {v : Value} (hstrip : Text.strip text = text)
    (h : loads float text = some v) : Shape text.toList v := by
  have htext := congrArg String.toList hstrip
  rw [Text.toList_strip] at htext
  obtain ⟨hfront, hback⟩ := Text.strip_ends htext
  rw [loads, skipSpace_of_strip hfront] at h
  split at h
  · rename_i u t hscan
    split_ifs at h with ht
    obtain rfl := Option.some.inj h
    have hrest : t = [] := nil_of_rstrip hback (settled_once _ _ _ _ hscan).1.suffix ht
    exact shape_of_scanOnce (hrest ▸ hscan)
  · cases h

end Blackgeorge.Data.Json
