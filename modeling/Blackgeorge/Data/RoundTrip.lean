import Blackgeorge.Data.Json

/-! `json.loads` reads back what `json.dumps` wrote. -/

namespace Blackgeorge.Data.Json

open Value

/-! ### Strings -/

theorem hexValue_hexDigit : ∀ n < 16, hexValue (hexDigit n) = some n := by decide

theorem scanHex_hexDigits {n : ℕ} (h : n < 65536) (s : List Char) :
    scanHex (hexDigit (n / 4096 % 16) :: hexDigit (n / 256 % 16) :: hexDigit (n / 16 % 16) ::
      hexDigit (n % 16) :: s) = some (n, s) := by
  have h₁ := hexValue_hexDigit (n / 4096 % 16) (by omega)
  have h₂ := hexValue_hexDigit (n / 256 % 16) (by omega)
  have h₃ := hexValue_hexDigit (n / 16 % 16) (by omega)
  have h₄ := hexValue_hexDigit (n % 16) (by omega)
  simp only [scanHex, h₁, h₂, h₃, h₄, Option.bind_eq_bind, Option.bind_some]
  congr 2
  omega

theorem scanUnicode_lone {c : Char} (h : c.toNat < 65536) (s : List Char) :
    scanUnicode (hexDigit (c.toNat / 4096 % 16) :: hexDigit (c.toNat / 256 % 16) ::
      hexDigit (c.toNat / 16 % 16) :: hexDigit (c.toNat % 16) :: s) = some (c, s) := by
  have hvalid : c.toNat < 55296 ∨ 57343 < c.toNat := by
    obtain hv | ⟨hv, _⟩ := c.valid
    · exact Or.inl hv
    · exact Or.inr hv
  have hunit : loneUnit c.toNat = c := by
    rw [loneUnit, if_neg (by omega), Char.ofNat_toNat]
  simp only [scanUnicode, scanHex_hexDigits h, Option.bind_eq_bind, Option.bind_some]
  rw [if_neg (by omega), hunit]

/-- A surrogate pair is read as the character it stands for. -/
theorem scanUnicode_halves {n m : ℕ} (hn : 55296 ≤ n) (hn' : n ≤ 56319) (hm : 56320 ≤ m)
    (hm' : m ≤ 57343) (s : List Char) :
    scanUnicode ((unicodeEscape n ++ unicodeEscape m ++ s).drop 2) =
      some (Char.ofNat (65536 + (n - 55296) * 1024 + (m - 56320)), s) := by
  have hhigh := scanHex_hexDigits (show n < 65536 by omega) (unicodeEscape m ++ s)
  have hlow := scanHex_hexDigits (show m < 65536 by omega) s
  simp only [unicodeEscape, List.cons_append, List.nil_append, List.drop_succ_cons, List.drop_zero]
    at hhigh hlow ⊢
  simp only [scanUnicode, hhigh, Option.bind_eq_bind, Option.bind_some]
  rw [if_pos ⟨hn, hn'⟩]
  simp only [scanLow, hlow, Option.bind_eq_bind, Option.bind_some]
  rw [if_pos ⟨hm, hm'⟩]

theorem scanUnicode_pair {c : Char} (h : 65536 ≤ c.toNat) (s : List Char) :
    scanUnicode ((unicodeEscape (55296 + (c.toNat - 65536) / 1024) ++
      unicodeEscape (56320 + (c.toNat - 65536) % 1024) ++ s).drop 2) = some (c, s) := by
  have hvalid : c.toNat < 1114112 := by
    obtain hv | ⟨_, hv⟩ := c.valid
    · exact hv.trans (by decide)
    · exact hv
  have hhalves := @scanUnicode_halves (55296 + (c.toNat - 65536) / 1024)
    (56320 + (c.toNat - 65536) % 1024) (by omega) (by omega) (by omega) (by omega) s
  have hcode : 65536 + (55296 + (c.toNat - 65536) / 1024 - 55296) * 1024 +
      (56320 + (c.toNat - 65536) % 1024 - 56320) = c.toNat := by
    omega
  rw [hhalves, hcode, Char.ofNat_toNat]

/-- How a character is escaped: by a letter, not at all, by its code, or by two halves. -/
theorem escapeChar_cases (ascii : Bool) (c : Char) :
    (∃ d, escapeChar ascii c = ['\\', d] ∧ ∀ s, scanEscape (d :: s) = some (c, s)) ∨
    (escapeChar ascii c = [c] ∧ c ≠ '"' ∧ c ≠ '\\' ∧ ¬c.toNat < 32) ∨
    (escapeChar ascii c = unicodeEscape c.toNat ∧ c.toNat < 65536) ∨
    (escapeChar ascii c = unicodeEscape (55296 + (c.toNat - 65536) / 1024) ++
      unicodeEscape (56320 + (c.toNat - 65536) % 1024) ∧ 65536 ≤ c.toNat) := by
  have hsame : ∀ n : ℕ, c.toNat = n → Char.ofNat n = c := by
    intro n h
    rw [← h, Char.ofNat_toNat]
  by_cases h₁ : c = '"'
  · exact Or.inl ⟨'"', by rw [escapeChar, if_pos h₁], fun s => by rw [h₁]; rfl⟩
  by_cases h₂ : c = '\\'
  · exact Or.inl ⟨'\\', by rw [escapeChar, if_neg h₁, if_pos h₂], fun s => by rw [h₂]; rfl⟩
  by_cases h₃ : c = '\n'
  · exact Or.inl ⟨'n', by rw [escapeChar, if_neg h₁, if_neg h₂, if_pos h₃], fun s => by rw [h₃]; rfl⟩
  by_cases h₄ : c = '\r'
  · exact Or.inl ⟨'r', by rw [escapeChar, if_neg h₁, if_neg h₂, if_neg h₃, if_pos h₄],
      fun s => by rw [h₄]; rfl⟩
  by_cases h₅ : c = '\t'
  · exact Or.inl ⟨'t', by rw [escapeChar, if_neg h₁, if_neg h₂, if_neg h₃, if_neg h₄, if_pos h₅],
      fun s => by rw [h₅]; rfl⟩
  rw [escapeChar, if_neg h₁, if_neg h₂, if_neg h₃, if_neg h₄, if_neg h₅]
  by_cases h₆ : c.toNat = 8
  · exact Or.inl ⟨'b', if_pos h₆, fun s => by rw [← hsame 8 h₆]; rfl⟩
  rw [if_neg h₆]
  by_cases h₇ : c.toNat = 12
  · exact Or.inl ⟨'f', if_pos h₇, fun s => by rw [← hsame 12 h₇]; rfl⟩
  rw [if_neg h₇]
  by_cases h₈ : c.toNat < 32
  · exact Or.inr (Or.inr (Or.inl ⟨if_pos h₈, by omega⟩))
  rw [if_neg h₈]
  by_cases h₉ : !ascii || c.toNat < 127
  · exact Or.inr (Or.inl ⟨if_pos h₉, h₁, h₂, h₈⟩)
  rw [if_neg h₉]
  by_cases h₁₀ : c.toNat < 65536
  · exact Or.inr (Or.inr (Or.inl ⟨if_pos h₁₀, h₁₀⟩))
  · exact Or.inr (Or.inr (Or.inr ⟨if_neg h₁₀, by omega⟩))

/-- An escaped character is read as itself. -/
theorem scanChar_escapeChar (ascii : Bool) (c : Char) (s : List Char) :
    scanChar (escapeChar ascii c ++ s) = some (c, s) := by
  obtain ⟨d, htext, hd⟩ | ⟨htext, _, hslash, hcode⟩ | ⟨htext, hcode⟩ | ⟨htext, hcode⟩ :=
    escapeChar_cases ascii c
  · rw [htext]
    exact hd s
  · rw [htext, List.singleton_append, scanChar, if_neg hcode]
    exact hslash
  · rw [htext]
    exact scanUnicode_lone hcode s
  · rw [htext]
    exact scanUnicode_pair hcode s

/-- No escaped character looks like the quote that closes a string. -/
theorem head_escapeChar (ascii : Bool) (c : Char) (s : List Char) :
    ∃ d t, escapeChar ascii c ++ s = d :: t ∧ d ≠ '"' := by
  obtain ⟨d, htext, _⟩ | ⟨htext, hquote, _⟩ | ⟨htext, _⟩ | ⟨htext, _⟩ := escapeChar_cases ascii c
  · exact ⟨'\\', d :: s, by rw [htext]; rfl, by decide⟩
  · exact ⟨c, s, by rw [htext]; rfl, hquote⟩
  · exact ⟨'\\', _, by rw [htext]; rfl, by decide⟩
  · exact ⟨'\\', _, by rw [htext]; rfl, by decide⟩

theorem scanString_cons {fuel : ℕ} {s : List Char} (h : ∃ d t, s = d :: t ∧ d ≠ '"') :
    scanString (fuel + 1) s =
      (scanChar s).bind fun p => (scanString fuel p.2).bind fun q => some (p.1 :: q.1, q.2) := by
  obtain ⟨d, t, rfl, hd⟩ := h
  rw [scanString]
  · rfl
  · intro s' hs
    exact hd (List.cons.inj hs).1

theorem scanString_escaped (ascii : Bool) (cs : List Char) (s : List Char) :
    ∀ fuel, (cs.flatMap (escapeChar ascii)).length < fuel →
      scanString fuel (cs.flatMap (escapeChar ascii) ++ '"' :: s) = some (cs, s) := by
  induction cs with
  | nil =>
    intro fuel h
    obtain ⟨fuel, rfl⟩ := Nat.exists_eq_add_of_lt h
    simp [scanString]
  | cons c cs ih =>
    intro fuel h
    obtain ⟨d, t, hhead, _⟩ := head_escapeChar ascii c []
    have hpos : 0 < (escapeChar ascii c).length := by
      rw [List.append_nil] at hhead
      simp [hhead]
    simp only [List.flatMap_cons, List.length_append] at h
    obtain ⟨fuel, rfl⟩ : ∃ n, fuel = n + 1 := ⟨fuel - 1, by omega⟩
    rw [List.flatMap_cons, List.append_assoc, scanString_cons (head_escapeChar ascii c _),
      scanChar_escapeChar]
    simp [ih fuel (by omega)]

theorem toList_quote (ascii : Bool) (text : String) :
    (quote ascii text).toList = '"' :: (text.toList.flatMap (escapeChar ascii) ++ ['"']) := by
  simp [quote]

/-! ### Numbers -/

/-- What can follow a value: nothing, or a mark that ends it. -/
def Ends : List Char → Prop
  | [] => True
  | c :: _ => c = ',' ∨ c = ']' ∨ c = '\x7d'

theorem digitsOf_append {s : List Char} (hs : Ends s) (t : List Char) :
    digitsOf (t ++ s) = digitsOf t := by
  induction t with
  | nil =>
    cases s with
    | nil => rfl
    | cons c s => obtain rfl | rfl | rfl := hs <;> rfl
  | cons c t ih =>
    by_cases hc : c.isDigit = true
    · simpa [digitsOf, hc] using ih
    · simp [digitsOf, hc]

theorem afterDigits_append {s : List Char} (hs : Ends s) (t : List Char) :
    afterDigits (t ++ s) = afterDigits t ++ s := by
  induction t with
  | nil =>
    cases s with
    | nil => rfl
    | cons c s => obtain rfl | rfl | rfl := hs <;> rfl
  | cons c t ih =>
    by_cases hc : c.isDigit = true
    · simpa [afterDigits, hc] using ih
    · simp [afterDigits, hc]

theorem scanSign_append {s : List Char} (hs : Ends s) (t : List Char) :
    scanSign (t ++ s) = ((scanSign t).1, (scanSign t).2 ++ s) := by
  cases t with
  | nil =>
    cases s with
    | nil => rfl
    | cons c s => obtain rfl | rfl | rfl := hs <;> rfl
  | cons c t =>
    by_cases hc : c = '-'
    · subst hc; rfl
    · simp [scanSign, hc]

theorem scanExponentSign_append {s : List Char} (hs : Ends s) (t : List Char) :
    scanExponentSign (t ++ s) = ((scanExponentSign t).1, (scanExponentSign t).2 ++ s) := by
  cases t with
  | nil =>
    cases s with
    | nil => rfl
    | cons c s => obtain rfl | rfl | rfl := hs <;> rfl
  | cons c t =>
    by_cases hc : c = '+'
    · subst hc; rfl
    · simpa [scanExponentSign, hc] using scanSign_append hs (c :: t)

theorem scanWhole_of_ne_zero {c : Char} (hc : c ≠ '0') (t : List Char) :
    scanWhole (c :: t) =
      if digitsOf (c :: t) = [] then Option.none
      else some (digitsOf (c :: t), afterDigits (c :: t)) := by
  rw [scanWhole]
  intro s hs
  exact hc (List.cons.inj hs).1

theorem scanWhole_append {s : List Char} (hs : Ends s) {t whole rest : List Char}
    (h : scanWhole t = some (whole, rest)) : scanWhole (t ++ s) = some (whole, rest ++ s) := by
  cases t with
  | nil => simp [scanWhole, digitsOf] at h
  | cons c t =>
    by_cases hc : c = '0'
    · subst hc
      simp only [scanWhole, Option.some.injEq, Prod.mk.injEq] at h
      simp [scanWhole, h]
    · rw [scanWhole_of_ne_zero hc] at h
      rw [List.cons_append, scanWhole_of_ne_zero hc, ← List.cons_append, digitsOf_append hs,
        afterDigits_append hs]
      split_ifs at h ⊢ with hnone
      simpa using h

theorem scanFraction_append {s : List Char} (hs : Ends s) (t : List Char) :
    scanFraction (t ++ s) = ((scanFraction t).1, (scanFraction t).2 ++ s) := by
  cases t with
  | nil =>
    cases s with
    | nil => rfl
    | cons c s => obtain rfl | rfl | rfl := hs <;> rfl
  | cons c t =>
    by_cases hc : c = '.'
    · subst hc
      simp only [List.cons_append, scanFraction, digitsOf_append hs, afterDigits_append hs]
      split_ifs <;> rfl
    · simp [scanFraction, hc]

theorem scanExponent_append {s : List Char} (hs : Ends s) (t : List Char) :
    scanExponent (t ++ s) = ((scanExponent t).1, (scanExponent t).2 ++ s) := by
  cases t with
  | nil =>
    cases s with
    | nil => rfl
    | cons c s => obtain rfl | rfl | rfl := hs <;> rfl
  | cons c t =>
    simp only [List.cons_append, scanExponent, scanExponentSign_append hs, digitsOf_append hs,
      afterDigits_append hs]
    split_ifs <;> rfl

/-- A number ends where a mark follows it. -/
theorem scanParts_append {s : List Char} (hs : Ends s) {t sign whole rest after : List Char}
    (h : scanParts t = some (sign, whole, rest, after)) :
    scanParts (t ++ s) = some (sign, whole, rest, after ++ s) := by
  simp only [scanParts, Option.bind_eq_bind, Option.bind_eq_some_iff] at h
  obtain ⟨⟨w, r⟩, hwhole, h⟩ := h
  simp only [Option.some.injEq, Prod.mk.injEq] at h
  obtain ⟨rfl, rfl, rfl, rfl⟩ := h
  simp [scanParts, scanSign_append hs, scanWhole_append hs hwhole, scanFraction_append hs,
    scanExponent_append hs]

theorem scanFraction_eq (s : List Char) : (scanFraction s).1 ++ (scanFraction s).2 = s := by
  unfold scanFraction
  split
  · split_ifs
    · rfl
    · simp [digitsOf, afterDigits]
  · rfl

theorem scanSign_eq (s : List Char) : (scanSign s).1 ++ (scanSign s).2 = s := by
  unfold scanSign
  split <;> rfl

theorem scanExponentSign_eq (s : List Char) :
    (scanExponentSign s).1 ++ (scanExponentSign s).2 = s := by
  unfold scanExponentSign
  split
  · rfl
  · exact scanSign_eq s

theorem scanExponent_eq (s : List Char) : (scanExponent s).1 ++ (scanExponent s).2 = s := by
  cases s with
  | nil => rfl
  | cons c s =>
    rw [scanExponent]
    split_ifs
    · have hsign := scanExponentSign_eq s
      simpa [digitsOf, afterDigits] using hsign
    · rfl

theorem scanWhole_eq {s whole rest : List Char} (h : scanWhole s = some (whole, rest)) :
    whole ++ rest = s := by
  unfold scanWhole at h
  split at h
  · simp only [Option.some.injEq, Prod.mk.injEq] at h
    obtain ⟨rfl, rfl⟩ := h
    rfl
  · split_ifs at h
    simp only [Option.some.injEq, Prod.mk.injEq] at h
    obtain ⟨rfl, rfl⟩ := h
    simp [digitsOf, afterDigits]

/-- The parts of a number are the text. -/
theorem scanParts_eq {s sign whole rest after : List Char}
    (h : scanParts s = some (sign, whole, rest, after)) : sign ++ whole ++ rest ++ after = s := by
  simp only [scanParts, Option.bind_eq_bind, Option.bind_eq_some_iff] at h
  obtain ⟨⟨w, r⟩, hwhole, h⟩ := h
  simp only [Option.some.injEq, Prod.mk.injEq] at h
  obtain ⟨rfl, rfl, rfl, rfl⟩ := h
  have h₁ := scanSign_eq s
  have h₂ := scanWhole_eq hwhole
  have h₃ := scanFraction_eq r
  have h₄ := scanExponent_eq (scanFraction r).2
  calc (scanSign s).1 ++ w ++ ((scanFraction r).1 ++ (scanExponent (scanFraction r).2).1) ++
        (scanExponent (scanFraction r).2).2
      = (scanSign s).1 ++ (w ++ ((scanFraction r).1 ++ ((scanExponent (scanFraction r).2).1 ++
          (scanExponent (scanFraction r).2).2))) := by simp only [List.append_assoc]
    _ = s := by rw [h₄, h₃, h₂, h₁]

theorem digitChar_ne_zero : ∀ n < 10, n = 0 ∨ Nat.digitChar n ≠ '0' := by decide

/-- Only zero is written with a zero in front. -/
theorem toDigits_head (n : ℕ) : n = 0 ∨ ∀ t, Nat.toDigits 10 n ≠ '0' :: t := by
  induction n using Nat.strong_induction_on with
  | _ n ih =>
    by_cases hlt : n < 10
    · rw [Nat.toDigits_of_lt_base hlt]
      obtain hzero | hne := digitChar_ne_zero n hlt
      · exact Or.inl hzero
      · exact Or.inr fun t ht => hne (List.cons.inj ht).1
    · right
      intro t ht
      rw [Nat.toDigits_of_base_le (by omega) (by omega)] at ht
      obtain hzero | hne := ih (n / 10) (by omega)
      · omega
      · cases hd : Nat.toDigits 10 (n / 10) with
        | nil => exact Nat.toDigits_ne_nil hd
        | cons d ds =>
          rw [hd, List.cons_append] at ht
          obtain rfl := (List.cons.inj ht).1
          exact hne ds hd

theorem scanWhole_toDigits (n : ℕ) : scanWhole (Nat.toDigits 10 n) = some (Nat.toDigits 10 n, []) := by
  have hdigits : ∀ c ∈ Nat.toDigits 10 n, c.isDigit = true := fun c hc =>
    Nat.isDigit_of_mem_toDigits (by omega) (by omega) hc
  have hall : digitsOf (Nat.toDigits 10 n) = Nat.toDigits 10 n := List.takeWhile_eq_self_iff.mpr hdigits
  have hnone : afterDigits (Nat.toDigits 10 n) = [] := List.dropWhile_eq_nil_iff.mpr hdigits
  obtain rfl | hne := toDigits_head n
  · rfl
  · rw [scanWhole, hall, hnone, if_neg Nat.toDigits_ne_nil]
    exact hne

theorem scanParts_int (n : ℤ) :
    ∃ sign, scanParts (toString n).toList = some (sign, Nat.toDigits 10 n.natAbs, [], []) ∧
      intOf sign (Nat.toDigits 10 n.natAbs) = n := by
  obtain m | m := n
  · refine ⟨[], ?_, by simp [intOf]⟩
    have htext : (toString (Int.ofNat m)).toList = Nat.toDigits 10 m := Nat.toList_repr
    have hsign : scanSign (Nat.toDigits 10 m) = ([], Nat.toDigits 10 m) := by
      cases hd : Nat.toDigits 10 m with
      | nil => rfl
      | cons d ds =>
        have hdigit : d.isDigit = true :=
          Nat.isDigit_of_mem_toDigits (by omega) (by omega) (hd ▸ List.mem_cons_self)
        have hd : d ≠ '-' := fun h => by simp [h] at hdigit
        simp [scanSign, hd]
    rw [scanParts, htext, hsign]
    simp [scanWhole_toDigits, scanFraction, scanExponent]
  · refine ⟨['-'], ?_, by rw [Int.natAbs_negSucc]; simp [intOf, Int.negSucc_eq]⟩
    have htext : (toString (Int.negSucc m)).toList = '-' :: Nat.toDigits 10 (m + 1) := by
      change ("-" ++ (m + 1).repr).toList = _
      simp
    rw [scanParts, htext]
    simp [scanSign, scanWhole_toDigits, scanFraction, scanExponent]

/-! ### Values -/

section Scanner

variable (float : String → ℚ × String)

/-- The text of a float is read as the float it was written for. -/
def IsFloat (q : ℚ) (text : String) : Prop :=
  (∃ sign whole rest, scanParts text.toList = some (sign, whole, rest, []) ∧ rest ≠ []) ∧
    float text = (q, text)

mutual

/-- A JSON value: a dictionary has each key once, a float a text that is its own. -/
def IsJson : Value → Prop
  | .list items => IsJsonItems items
  | .dict fields => (fields.map Prod.fst).Nodup ∧ IsJsonFields fields
  | .float q text => IsFloat float q text
  | .none => True
  | .bool _ => True
  | .int _ => True
  | .str _ => True
  | _ => False

def IsJsonItems : List Value → Prop
  | [] => True
  | v :: vs => IsJson v ∧ IsJsonItems vs

def IsJsonFields : List (String × Value) → Prop
  | [] => True
  | (_, v) :: fs => IsJson v ∧ IsJsonFields fs

end

/-! ### Texts and their heads -/

variable {float}

/-- What begins a value: no space, and no mark that ends one. -/
def Begins (s : List Char) : Prop :=
  ∃ c t, s = c :: t ∧ isJsonSpace c = false ∧ c ≠ ']' ∧ c ≠ '\x7d'

theorem Begins.append {s : List Char} (h : Begins s) (t : List Char) : Begins (s ++ t) := by
  obtain ⟨c, u, rfl, hc⟩ := h
  exact ⟨c, u ++ t, rfl, hc⟩

theorem Begins.skipSpace {s : List Char} (h : Begins s) : skipSpace s = s := by
  obtain ⟨c, t, rfl, hc, _⟩ := h
  simp [Json.skipSpace, hc]

theorem begins_of_scanParts {s : List Char} {p : List Char × List Char × List Char × List Char}
    (h : scanParts s = some p) : Begins s := by
  cases s with
  | nil => simp [scanParts, scanSign, scanWhole, digitsOf] at h
  | cons c t =>
    have hmark : ∀ d, (d ≠ '-' ∧ d ≠ '0' ∧ d.isDigit = false) → c ≠ d := by
      rintro d ⟨hd, hzero, hdigit⟩ rfl
      simp [scanParts, scanSign, hd, scanWhole_of_ne_zero hzero, digitsOf, hdigit] at h
    refine ⟨c, t, rfl, ?_, hmark ']' (by decide), hmark '\x7d' (by decide)⟩
    have h₁ := hmark ' ' (by decide)
    have h₂ := hmark '\t' (by decide)
    have h₃ := hmark '\n' (by decide)
    have h₄ := hmark '\r' (by decide)
    simp [isJsonSpace, h₁, h₂, h₃, h₄]

/-- What begins neither a list nor a dictionary is scanned as a leaf. -/
theorem scanOnce_leaf {c : Char} (hlist : c ≠ '[') (hdict : c ≠ '\x7b') (s : List Char)
    (fuel : ℕ) : scanOnce float (fuel + 1) (c :: s) = scanLeaf float (c :: s) := by
  rw [scanOnce]
  · intro t ht
    exact hlist (List.cons.inj ht).1
  · intro t ht
    exact hdict (List.cons.inj ht).1

theorem scanOnce_number {s : List Char} {p : List Char × List Char × List Char × List Char}
    (h : scanParts s = some p) (fuel : ℕ) : scanOnce float (fuel + 1) s = scanNumber float s := by
  have hleaf : scanLeaf float s = scanNumber float s := by
    rw [scanLeaf]
    all_goals
      rintro t rfl
      simp [scanParts, scanSign, scanWhole, digitsOf] at h
  rw [← hleaf]
  rw [scanOnce]
  all_goals
    rintro t rfl
    simp [scanParts, scanSign, scanWhole, digitsOf] at h

theorem toList_dumps_str (text : String) :
    (Value.str text).dumps.toList = '"' :: (text.toList.flatMap (escapeChar true) ++ ['"']) :=
  toList_quote true text

/-- The texts of a list's items with their separators. -/
def itemsText (vs : List Value) : List Char := (", ".intercalate (writeItems .dumps vs)).toList

def pairsText (fs : List (String × Value)) : List Char :=
  (", ".intercalate (writeFields .dumps fs)).toList

theorem toList_dumps_list (vs : List Value) :
    (Value.list vs).dumps.toList = '[' :: (itemsText vs ++ [']']) := by
  simp [Value.dumps, Value.write, itemsText, Layout.dumps]

theorem toList_dumps_dict (fs : List (String × Value)) :
    (Value.dict fs).dumps.toList = '\x7b' :: (pairsText fs ++ ['\x7d']) := by
  simp [Value.dumps, Value.write, pairsText, Layout.dumps]

theorem itemsText_singleton (v : Value) : itemsText [v] = v.dumps.toList := by
  simp [itemsText, writeItems, Value.dumps]

theorem itemsText_cons (v w : Value) (vs : List Value) :
    itemsText (v :: w :: vs) = v.dumps.toList ++ ',' :: ' ' :: itemsText (w :: vs) := by
  simp only [itemsText, writeItems, String.intercalate_cons_cons, String.toList_append, Value.dumps]
  simp

/-- A pair's text. -/
def pairText (f : String × Value) : List Char :=
  (quote true f.1).toList ++ ':' :: ' ' :: f.2.dumps.toList

theorem pairsText_singleton (f : String × Value) : pairsText [f] = pairText f := by
  simp [pairsText, writeFields, pairText, Layout.dumps, Value.dumps]

theorem pairsText_cons (f g : String × Value) (fs : List (String × Value)) :
    pairsText (f :: g :: fs) = pairText f ++ ',' :: ' ' :: pairsText (g :: fs) := by
  simp only [pairsText, writeFields, String.intercalate_cons_cons, String.toList_append, pairText,
    Value.dumps]
  simp [Layout.dumps]

theorem begins_dumps {v : Value} (h : IsJson float v) : Begins v.dumps.toList := by
  cases v with
  | none => exact ⟨'n', _, rfl, by decide⟩
  | bool b => cases b <;> exact ⟨_, _, rfl, by decide⟩
  | int n =>
    obtain ⟨sign, hparts, _⟩ := scanParts_int n
    exact begins_of_scanParts hparts
  | float q text =>
    obtain ⟨⟨sign, whole, rest, hparts, _⟩, _⟩ := h
    exact begins_of_scanParts hparts
  | str text => exact ⟨'"', _, toList_dumps_str text, by decide⟩
  | list items => exact ⟨'[', _, toList_dumps_list items, by decide⟩
  | dict fields => exact ⟨'\x7b', _, toList_dumps_dict fields, by decide⟩
  | _ => exact h.elim

theorem begins_itemsText {v : Value} (h : IsJson float v) (vs : List Value) :
    Begins (itemsText (v :: vs)) := by
  cases vs with
  | nil => rw [itemsText_singleton]; exact begins_dumps h
  | cons w vs => rw [itemsText_cons]; exact (begins_dumps h).append _

theorem begins_pairsText (f : String × Value) (fs : List (String × Value)) :
    Begins (pairsText (f :: fs)) := by
  have hpair : Begins (pairText f) := by
    rw [pairText, toList_quote]
    exact ⟨'"', _, rfl, by decide⟩
  cases fs with
  | nil => rw [pairsText_singleton]; exact hpair
  | cons g fs => rw [pairsText_cons]; exact hpair.append _

/-! ### Dictionaries -/

theorem set_of_notMem {d : Dict} {key : String} (h : key ∉ d.map Prod.fst) (v : Value) :
    d.set key v = d ++ [(key, v)] := by
  induction d with
  | nil => rfl
  | cons f d ih =>
    simp only [List.map_cons, List.mem_cons, not_or] at h
    rw [Dict.set, if_neg (Ne.symm h.1), ih h.2, List.cons_append]

theorem foldl_set {d pairs : Dict} (h : ((d ++ pairs).map Prod.fst).Nodup) :
    pairs.foldl (fun d p => Dict.set d p.1 p.2) d = d ++ pairs := by
  induction pairs generalizing d with
  | nil => simp
  | cons p pairs ih =>
    have hnew : p.1 ∉ d.map Prod.fst := by
      intro hmem
      rw [List.map_append, List.nodup_append] at h
      exact h.2.2 p.1 hmem p.1 (by simp) rfl
    rw [List.foldl_cons, set_of_notMem hnew, ih (by simpa using h)]
    simp

theorem dictOf_of_nodup {pairs : Dict} (h : (pairs.map Prod.fst).Nodup) : dictOf pairs = pairs :=
  foldl_set (d := []) h

/-! ### The scanner on written texts -/

theorem scanKey_quote (key : String) {s : List Char} (hs : Begins s) :
    scanKey ((quote true key).toList ++ ':' :: ' ' :: s) = some (key, s) := by
  rw [toList_quote, List.cons_append, List.append_assoc, List.singleton_append]
  have hspace : skipSpace (' ' :: s) = s := hs.skipSpace
  have hcolon : skipSpace (':' :: ' ' :: s) = ':' :: ' ' :: s := rfl
  simp only [scanKey, Option.bind_eq_bind]
  rw [scanString_escaped true key.toList _ _ (by simp), Option.bind_some]
  simp [hcolon, hspace]

theorem ends_comma (s : List Char) : Ends (',' :: s) := Or.inl rfl

theorem ends_bracket (s : List Char) : Ends (']' :: s) := Or.inr (Or.inl rfl)

theorem ends_brace (s : List Char) : Ends ('\x7d' :: s) := Or.inr (Or.inr rfl)

theorem scanOnce_list {fuel : ℕ} {s t : List Char} {items : List Value} (hs : Begins s)
    (h : scanItems float fuel s = some (items, t)) :
    scanOnce float (fuel + 1) ('[' :: s) = some (.list items, t) := by
  have hskip := hs.skipSpace
  obtain ⟨c, u, rfl, _, hc, _⟩ := hs
  simp [scanOnce, hskip, hc, h]

theorem scanOnce_dict {fuel : ℕ} {s t : List Char} {pairs : List (String × Value)} (hs : Begins s)
    (h : scanPairs float fuel s = some (pairs, t)) :
    scanOnce float (fuel + 1) ('\x7b' :: s) = some (.dict (dictOf pairs), t) := by
  have hskip := hs.skipSpace
  obtain ⟨c, u, rfl, _, _, hc⟩ := hs
  simp [scanOnce, hskip, hc, h]

theorem scanItems_last {fuel : ℕ} {s t : List Char} {v : Value}
    (h : scanOnce float fuel s = some (v, ']' :: t)) :
    scanItems float (fuel + 1) s = some ([v], t) := by
  have hskip : skipSpace (']' :: t) = ']' :: t := rfl
  simp [scanItems, h, hskip]

theorem scanItems_next {fuel : ℕ} {s t u : List Char} {v : Value} {vs : List Value} (ht : Begins t)
    (h : scanOnce float fuel s = some (v, ',' :: ' ' :: t))
    (hrest : scanItems float fuel t = some (vs, u)) :
    scanItems float (fuel + 1) s = some (v :: vs, u) := by
  have hskip : skipSpace (',' :: ' ' :: t) = ',' :: ' ' :: t := rfl
  have hspace : skipSpace (' ' :: t) = t := ht.skipSpace
  simp [scanItems, h, hskip, hspace, hrest]

theorem scanPairs_last {fuel : ℕ} {s r t : List Char} {k : String} {v : Value}
    (hk : scanKey s = some (k, r)) (h : scanOnce float fuel r = some (v, '\x7d' :: t)) :
    scanPairs float (fuel + 1) s = some ([(k, v)], t) := by
  have hskip : skipSpace ('\x7d' :: t) = '\x7d' :: t := rfl
  simp [scanPairs, hk, h, hskip]

theorem scanPairs_next {fuel : ℕ} {s r t u : List Char} {k : String} {v : Value}
    {fs : List (String × Value)} (ht : Begins t) (hk : scanKey s = some (k, r))
    (h : scanOnce float fuel r = some (v, ',' :: ' ' :: t))
    (hrest : scanPairs float fuel t = some (fs, u)) :
    scanPairs float (fuel + 1) s = some ((k, v) :: fs, u) := by
  have hskip : skipSpace (',' :: ' ' :: t) = ',' :: ' ' :: t := rfl
  have hspace : skipSpace (' ' :: t) = t := ht.skipSpace
  simp [scanPairs, hk, h, hskip, hspace, hrest]

theorem exists_fuel {v : Value} {fuel : ℕ} (h : IsJson float v)
    (hfuel : v.dumps.toList.length ≤ fuel) : ∃ n, fuel = n + 1 := by
  obtain ⟨c, t, htext, _⟩ := begins_dumps h
  rw [htext, List.length_cons] at hfuel
  exact ⟨fuel - 1, by omega⟩

/-- With fuel for its text, a value is read from its text, whatever mark follows it. -/
def Reads (float : String → ℚ × String) (v : Value) : Prop :=
  ∀ fuel s, Ends s → v.dumps.toList.length ≤ fuel →
    scanOnce float fuel (v.dumps.toList ++ s) = some (v, s)

theorem reads_none : Reads float .none := by
  intro fuel s _ hfuel
  obtain ⟨fuel, rfl⟩ := @exists_fuel float (.none) _ trivial hfuel
  rfl

theorem reads_bool (b : Bool) : Reads float (.bool b) := by
  intro fuel s _ hfuel
  obtain ⟨fuel, rfl⟩ := @exists_fuel float (.bool b) _ trivial hfuel
  cases b <;> rfl

theorem reads_int (n : ℤ) : Reads float (.int n) := by
  intro fuel s hs hfuel
  obtain ⟨fuel, rfl⟩ := @exists_fuel float (.int n) _ trivial hfuel
  obtain ⟨sign, hparts, hn⟩ := scanParts_int n
  have happend := scanParts_append hs hparts
  change scanOnce float (fuel + 1) ((toString n).toList ++ s) = _
  rw [scanOnce_number happend, scanNumber, happend]
  simp [hn]

theorem reads_float {q : ℚ} {text : String} (h : IsFloat float q text) :
    Reads float (.float q text) := by
  intro fuel s hs hfuel
  obtain ⟨fuel, rfl⟩ := @exists_fuel float (.float q text) _ h hfuel
  obtain ⟨⟨sign, whole, rest, hparts, hrest⟩, hfloat⟩ := h
  have happend := scanParts_append hs hparts
  have hwhole := scanParts_eq hparts
  rw [List.append_nil] at hwhole
  change scanOnce float (fuel + 1) (text.toList ++ s) = _
  rw [scanOnce_number happend, scanNumber, happend]
  simp only [Option.bind_eq_bind, Option.bind_some, if_neg hrest, floatOf, hwhole,
    String.ofList_toList, hfloat, List.nil_append]

theorem reads_str (text : String) : Reads float (.str text) := by
  intro fuel s _ hfuel
  obtain ⟨fuel, rfl⟩ := @exists_fuel float (.str text) _ trivial hfuel
  rw [toList_dumps_str, List.cons_append, List.append_assoc, List.singleton_append,
    scanOnce_leaf (by decide) (by decide)]
  simp only [scanLeaf, Option.bind_eq_bind]
  rw [scanString_escaped true text.toList _ _ (by simp), Option.bind_some]
  simp

theorem reads_list {vs : List Value} (h : IsJsonItems float vs)
    (hitems : vs ≠ [] → ∀ fuel s, (itemsText vs).length < fuel →
      scanItems float fuel (itemsText vs ++ ']' :: s) = some (vs, s)) :
    Reads float (.list vs) := by
  intro fuel s _ hfuel
  obtain ⟨fuel, rfl⟩ := @exists_fuel float (.list vs) _ h hfuel
  cases vs with
  | nil => rfl
  | cons v vs =>
    rw [toList_dumps_list] at hfuel ⊢
    simp only [List.length_cons, List.length_append] at hfuel
    rw [List.cons_append, List.append_assoc, List.singleton_append]
    exact scanOnce_list ((begins_itemsText h.1 vs).append _)
      (hitems (List.cons_ne_nil v vs) fuel s (by omega))

theorem reads_dict {fs : List (String × Value)} (hnodup : (fs.map Prod.fst).Nodup)
    (h : IsJsonFields float fs)
    (hpairs : fs ≠ [] → ∀ fuel s, (pairsText fs).length < fuel →
      scanPairs float fuel (pairsText fs ++ '\x7d' :: s) = some (fs, s)) :
    Reads float (.dict fs) := by
  intro fuel s _ hfuel
  obtain ⟨fuel, rfl⟩ := @exists_fuel float (.dict fs) _ ⟨hnodup, h⟩ hfuel
  cases fs with
  | nil => rfl
  | cons f fs =>
    rw [toList_dumps_dict] at hfuel ⊢
    simp only [List.length_cons, List.length_append] at hfuel
    rw [List.cons_append, List.append_assoc, List.singleton_append,
      scanOnce_dict ((begins_pairsText f fs).append _)
        (hpairs (List.cons_ne_nil f fs) fuel s (by omega)), dictOf_of_nodup hnodup]

mutual

/-- The text of a value is read as the value. -/
theorem reads : ∀ v : Value, IsJson float v → Reads float v
  | .none, _ => reads_none
  | .bool b, _ => reads_bool b
  | .int n, _ => reads_int n
  | .float _ _, h => reads_float h
  | .str text, _ => reads_str text
  | .list vs, h => reads_list h fun hne => readsItems vs hne h
  | .dict fs, h => reads_dict h.1 h.2 fun hne => readsPairs fs hne h.2
  | .tuple _, h | .model .., h | .dataclass .., h | .native .., h | .collection .., h
  | .object .., h => h.elim

theorem readsItems : ∀ vs : List Value, vs ≠ [] → IsJsonItems float vs → ∀ fuel s,
    (itemsText vs).length < fuel → scanItems float fuel (itemsText vs ++ ']' :: s) = some (vs, s)
  | [], hne => absurd rfl hne
  | [v], _ => fun h fuel s hfuel => by
    obtain ⟨fuel, rfl⟩ : ∃ n, fuel = n + 1 := ⟨fuel - 1, by omega⟩
    rw [itemsText_singleton] at hfuel ⊢
    exact scanItems_last (reads v h.1 fuel _ (ends_bracket s) (Nat.le_of_lt_succ hfuel))
  | v :: w :: vs, _ => fun h fuel s hfuel => by
    obtain ⟨fuel, rfl⟩ : ∃ n, fuel = n + 1 := ⟨fuel - 1, by omega⟩
    rw [itemsText_cons] at hfuel ⊢
    simp only [List.length_append, List.length_cons] at hfuel
    have hv := reads v h.1 fuel _ (ends_comma (' ' :: (itemsText (w :: vs) ++ ']' :: s))) (by omega)
    have hrest := readsItems (w :: vs) (List.cons_ne_nil w vs) h.2 fuel s (by omega)
    rw [List.append_assoc, List.cons_append, List.cons_append]
    exact scanItems_next ((begins_itemsText h.2.1 vs).append _) hv hrest

theorem readsPairs : ∀ fs : List (String × Value), fs ≠ [] → IsJsonFields float fs → ∀ fuel s,
    (pairsText fs).length < fuel → scanPairs float fuel (pairsText fs ++ '\x7d' :: s) = some (fs, s)
  | [], hne => absurd rfl hne
  | [(k, v)], _ => fun h fuel s hfuel => by
    obtain ⟨fuel, rfl⟩ : ∃ n, fuel = n + 1 := ⟨fuel - 1, by omega⟩
    simp only [pairsText_singleton, pairText, List.length_append, List.length_cons] at hfuel ⊢
    have hv := reads v h.1 fuel _ (ends_brace s) (by omega)
    rw [List.append_assoc, List.cons_append, List.cons_append]
    exact scanPairs_last (scanKey_quote k ((begins_dumps h.1).append _)) hv
  | (k, v) :: g :: fs, _ => fun h fuel s hfuel => by
    obtain ⟨fuel, rfl⟩ : ∃ n, fuel = n + 1 := ⟨fuel - 1, by omega⟩
    have hfields : IsJson float v ∧ IsJsonFields float (g :: fs) := h
    simp only [pairsText_cons, pairText, List.length_append, List.length_cons] at hfuel ⊢
    have hv := reads v hfields.1 fuel _
      (ends_comma (' ' :: (pairsText (g :: fs) ++ '\x7d' :: s))) (by omega)
    have hrest := readsPairs (g :: fs) (List.cons_ne_nil g fs) hfields.2 fuel s (by omega)
    have hkey := scanKey_quote k
      ((begins_dumps hfields.1).append (',' :: ' ' :: (pairsText (g :: fs) ++ '\x7d' :: s)))
    simp only [List.append_assoc, List.cons_append]
    exact scanPairs_next ((begins_pairsText g fs).append _) hkey hv hrest

end

/-- What `json.dumps` wrote, `json.loads` reads back. -/
theorem loads_dumps {v : Value} (h : IsJson float v) : loads float v.dumps = some v := by
  have hscan := reads v h _ [] trivial (Nat.le_succ v.dumps.toList.length)
  rw [List.append_nil] at hscan
  rw [loads, (begins_dumps h).skipSpace, hscan]
  rfl

mutual

theorem plain_of_isJson : ∀ v : Value, IsJson float v → v.plain = true
  | .none, _ => rfl
  | .bool _, _ => rfl
  | .int _, _ => rfl
  | .float _ _, _ => rfl
  | .str _, _ => rfl
  | .list vs, h => plain_of_isJsonItems vs h
  | .dict fs, h => plain_of_isJsonFields fs h.2
  | .tuple _, h | .model .., h | .dataclass .., h | .native .., h | .collection .., h
  | .object .., h => h.elim

theorem plain_of_isJsonItems : ∀ vs : List Value, IsJsonItems float vs →
    Value.plainItems vs = true
  | [], _ => rfl
  | v :: vs, h => by
    rw [Value.plainItems, plain_of_isJson v h.1, plain_of_isJsonItems vs h.2]
    rfl

theorem plain_of_isJsonFields : ∀ fs : List (String × Value), IsJsonFields float fs →
    Value.plainFields fs = true
  | [], _ => rfl
  | (k, v) :: fs, h => by
    rw [Value.plainFields, plain_of_isJson v h.1, plain_of_isJsonFields fs h.2]
    rfl

end

end Scanner

/-- Every number's text stands for zero. -/
def noFloats (text : String) : ℚ × String := (0, text)

end Blackgeorge.Data.Json
