import Mathlib.Data.List.DropRight
import Mathlib.Data.Rat.Floor

/-! The string methods the program compares with: `strip`, `lower` and substring
search. All constants compared with are ASCII, so `lower` needs to be exact only where
its result is. -/

namespace Blackgeorge.Data.Text

/-- `str.isspace` of one character. -/
def isSpace (c : Char) : Bool :=
  let n := c.toNat
  (9 ≤ n && n ≤ 13) || (28 ≤ n && n ≤ 32) || n = 133 || n = 160 || n = 5760 ||
    (8192 ≤ n && n ≤ 8202) || n = 8232 || n = 8233 || n = 8239 || n = 8287 || n = 12288

/-- `str.strip()`. -/
def strip (s : String) : String :=
  String.ofList (((s.toList.dropWhile isSpace).reverse.dropWhile isSpace).reverse)

/-- Lower case of the characters whose lower case is ASCII; the Kelvin sign is the one
among them that is not ASCII itself. -/
def lowerChar (c : Char) : Char :=
  if 65 ≤ c.toNat ∧ c.toNat ≤ 90 then Char.ofNat (c.toNat + 32)
  else if c.toNat = 8490 then 'k' else c

/-- `str.lower()`. -/
def lower (s : String) : String := String.ofList (s.toList.map lowerChar)

/-- `needle in haystack`. -/
def contains (haystack needle : String) : Bool :=
  haystack.toList.tails.any needle.toList.isPrefixOf

/-- `s.startswith(head)`. -/
def startsWith (s head : String) : Bool := head.toList.isPrefixOf s.toList

/-- `s[:n]`. -/
def take (n : ℕ) (s : String) : String := String.ofList (s.toList.take n)

theorem startsWith_self (s : String) : startsWith s s = true := by
  simp [startsWith]

theorem strip_strip (s : String) : strip (strip s) = strip s := by
  unfold strip
  set l := s.toList.dropWhile isSpace with hl
  have hstart : (l.rdropWhile isSpace).dropWhile isSpace = l.rdropWhile isSpace := by
    rw [List.dropWhile_eq_self_iff]
    intro hpos hspace
    have htrimmed := List.rdropWhile_prefix isSpace l
    have hlen := hpos.trans_le htrimmed.length_le
    have hself : l.dropWhile isSpace = l := by rw [hl, List.dropWhile_idempotent]
    rw [htrimmed.getElem hpos] at hspace
    exact List.dropWhile_eq_self_iff.mp hself hlen hspace
  change String.ofList (((String.ofList (l.rdropWhile isSpace)).toList.dropWhile isSpace).rdropWhile
    isSpace) = String.ofList (l.rdropWhile isSpace)
  rw [String.toList_ofList, hstart, List.rdropWhile_idempotent]

/-! ### Numbers -/

/-- Round to the nearest integer, halves to the even one. -/
def roundHalfEven (q : ℚ) : ℕ :=
  let n := q.floor.toNat
  let rest := q - n
  if rest < 1 / 2 ∨ (rest = 1 / 2 ∧ n % 2 = 0) then n else n + 1

/-- The exponent `e` with `10 ^ e ≤ q < 10 ^ (e + 1)`, searched from `e` up and down. -/
def decimalExponent (q : ℚ) : ℕ → ℤ → ℤ
  | 0, e => e
  | fuel + 1, e =>
    if q < 10 ^ e then decimalExponent q fuel (e - 1)
    else if 10 ^ (e + 1) ≤ q then decimalExponent q fuel (e + 1)
    else e

def stripZeros (digits : List Char) : List Char := (digits.reverse.dropWhile (· = '0')).reverse

def withPoint (whole rest : List Char) : String :=
  String.ofList (if rest = [] then whole else whole ++ '.' :: rest)

/-- The format `.6g` of a number that is not negative. -/
def formatG6 (q : ℚ) : String :=
  if q ≤ 0 then "0" else
    let e₀ := decimalExponent q 400 0
    let m₀ := roundHalfEven (q * 10 ^ (5 - e₀))
    let e := if m₀ = 1000000 then e₀ + 1 else e₀
    let digits := (toString (if m₀ = 1000000 then 100000 else m₀)).toList
    if -4 ≤ e ∧ e < 0 then
      withPoint ['0'] (List.replicate (-e - 1).toNat '0' ++ stripZeros digits)
    else if 0 ≤ e ∧ e < 6 then
      withPoint (digits.take (e.toNat + 1)) (stripZeros (digits.drop (e.toNat + 1)))
    else
      let mark := if e < 0 then "e-" else "e+"
      let size := toString e.natAbs
      withPoint (digits.take 1) (stripZeros (digits.drop 1)) ++ mark ++
        (if e.natAbs < 10 then "0" ++ size else size)

end Blackgeorge.Data.Text
