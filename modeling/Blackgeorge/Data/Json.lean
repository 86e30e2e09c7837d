import Blackgeorge.Data.Records

/-! `json.loads`, the scanner of JSON texts. What `float(text)` makes of a number's text
is a parameter: the double next to it and the shortest text of that double. -/

namespace Blackgeorge.Data.Json

open Value

/-! ### Strings -/

/-- The value of a hexadecimal digit. -/
def hexValue (c : Char) : Option ℕ :=
  if c.isDigit then some (c.toNat - 48)
  else if 97 ≤ c.toNat ∧ c.toNat ≤ 102 then some (c.toNat - 87)
  else if 65 ≤ c.toNat ∧ c.toNat ≤ 70 then some (c.toNat - 55)
  else Option.none

/-- The four digits of a unicode escape. -/
def scanHex : List Char → Option (ℕ × List Char)
  | a :: b :: c :: d :: s => do
    let a ← hexValue a
    let b ← hexValue b
    let c ← hexValue c
    let d ← hexValue d
    some (((a * 16 + b) * 16 + c) * 16 + d, s)
  | _ => Option.none

/-- The second half of a surrogate pair. -/
def scanLow : List Char → Option (ℕ × List Char)
  | '\\' :: 'u' :: s => do
    let (n, s) ← scanHex s
    if 56320 ≤ n ∧ n ≤ 57343 then some (n, s) else Option.none
  | _ => Option.none

/-- The character of a UTF-16 unit that stands alone. A surrogate is none: Python keeps
it as it is, here it becomes the replacement character. -/
def loneUnit (n : ℕ) : Char :=
  if 55296 ≤ n ∧ n ≤ 57343 then Char.ofNat 65533 else Char.ofNat n

def scanUnicode (s : List Char) : Option (Char × List Char) := do
  let (n, s) ← scanHex s
  if 55296 ≤ n ∧ n ≤ 56319 then
    match scanLow s with
    | some (m, s) => some (Char.ofNat (65536 + (n - 55296) * 1024 + (m - 56320)), s)
    | Option.none => some (loneUnit n, s)
  else some (loneUnit n, s)

/-- What follows a backslash. -/
def scanEscape : List Char → Option (Char × List Char)
  | 'u' :: s => scanUnicode s
  | '"' :: s => some ('"', s)
  | '\\' :: s => some ('\\', s)
  | '/' :: s => some ('/', s)
  | 'b' :: s => some (Char.ofNat 8, s)
  | 'f' :: s => some (Char.ofNat 12, s)
  | 'n' :: s => some ('\n', s)
  | 'r' :: s => some ('\r', s)
  | 't' :: s => some ('\t', s)
  | _ => Option.none

/-- One character inside a string. -/
def scanChar : List Char → Option (Char × List Char)
  | '\\' :: s => scanEscape s
  | c :: s => if c.toNat < 32 then Option.none else some (c, s)
  | [] => Option.none

/-- `scanstring`: the rest of a string up to its closing quote. -/
def scanString : ℕ → List Char → Option (List Char × List Char)
  | 0, _ => Option.none
  | _ + 1, '"' :: s => some ([], s)
  | fuel + 1, s => do
    let (c, s) ← scanChar s
    let (cs, s) ← scanString fuel s
    some (c :: cs, s)

/-! ### Numbers -/

def digitsOf (s : List Char) : List Char := s.takeWhile Char.isDigit

def afterDigits (s : List Char) : List Char := s.dropWhile Char.isDigit

def scanSign : List Char → List Char × List Char
  | '-' :: s => (['-'], s)
  | s => ([], s)

/-- The integer part: a zero, or digits that do not start with one. -/
def scanWhole : List Char → Option (List Char × List Char)
  | '0' :: s => some (['0'], s)
  | s => if digitsOf s = [] then Option.none else some (digitsOf s, afterDigits s)

def scanFraction : List Char → List Char × List Char
  | '.' :: s => if digitsOf s = [] then ([], '.' :: s) else ('.' :: digitsOf s, afterDigits s)
  | s => ([], s)

def scanExponentSign : List Char → List Char × List Char
  | '+' :: s => (['+'], s)
  | s => scanSign s

def scanExponent : List Char → List Char × List Char
  | c :: s =>
    if (c = 'e' ∨ c = 'E') ∧ digitsOf (scanExponentSign s).2 ≠ [] then
      (c :: (scanExponentSign s).1 ++ digitsOf (scanExponentSign s).2,
        afterDigits (scanExponentSign s).2)
    else ([], c :: s)
  | [] => ([], [])

/-- The parts of a number: its sign, its integer part, the rest of a float, and what
follows. -/
def scanParts (s : List Char) : Option (List Char × List Char × List Char × List Char) := do
  let (sign, s) := scanSign s
  let (whole, s) ← scanWhole s
  let (fraction, s) := scanFraction s
  let (exponent, s) := scanExponent s
  some (sign, whole, fraction ++ exponent, s)

/-- `int(text)`. -/
def intOf (sign whole : List Char) : ℤ :=
  if sign = [] then Nat.ofDigitChars 10 whole 0 else -Nat.ofDigitChars 10 whole 0

section Scanner

variable (float : String → ℚ × String)

def floatOf (text : List Char) : Value :=
  .float (float (String.ofList text)).1 (float (String.ofList text)).2

def scanNumber (s : List Char) : Option (Value × List Char) := do
  let (sign, whole, rest, s) ← scanParts s
  some (if rest = [] then .int (intOf sign whole) else floatOf float (sign ++ whole ++ rest), s)

/-! ### Values -/

def isJsonSpace (c : Char) : Bool := c = ' ' || c = '\t' || c = '\n' || c = '\r'

def skipSpace (s : List Char) : List Char := s.dropWhile isJsonSpace

/-- `dict(pairs)`: of two pairs with one key the later gives the value. -/
def dictOf (pairs : List (String × Value)) : Dict := pairs.foldl (fun d p => d.set p.1 p.2) []

/-- A key with its colon. -/
def scanKey : List Char → Option (String × List Char)
  | '"' :: s => do
    let (key, s) ← scanString s.length s
    match skipSpace s with
    | ':' :: s => some (String.ofList key, skipSpace s)
    | _ => Option.none
  | _ => Option.none

/-- The part of `scan_once` for a value without parts: strings, constants and numbers. -/
def scanLeaf : List Char → Option (Value × List Char)
  | '"' :: s => do
    let (text, s) ← scanString s.length s
    some (.str (String.ofList text), s)
  | 'n' :: 'u' :: 'l' :: 'l' :: s => some (.none, s)
  | 't' :: 'r' :: 'u' :: 'e' :: s => some (.bool true, s)
  | 'f' :: 'a' :: 'l' :: 's' :: 'e' :: s => some (.bool false, s)
  | 'N' :: 'a' :: 'N' :: s => some (floatOf float "NaN".toList, s)
  | 'I' :: 'n' :: 'f' :: 'i' :: 'n' :: 'i' :: 't' :: 'y' :: s =>
    some (floatOf float "Infinity".toList, s)
  | '-' :: 'I' :: 'n' :: 'f' :: 'i' :: 'n' :: 'i' :: 't' :: 'y' :: s =>
    some (floatOf float "-Infinity".toList, s)
  | s => scanNumber float s

mutual

/-- `scan_once`. -/
def scanOnce : ℕ → List Char → Option (Value × List Char)
  | 0, _ => Option.none
  | fuel + 1, '[' :: s =>
    match skipSpace s with
    | ']' :: s => some (.list [], s)
    | s => do
      let (items, s) ← scanItems fuel s
      some (.list items, s)
  | fuel + 1, '\x7b' :: s =>
    match skipSpace s with
    | '\x7d' :: s => some (.dict [], s)
    | s => do
      let (pairs, s) ← scanPairs fuel s
      some (.dict (dictOf pairs), s)
  | _ + 1, s => scanLeaf float s

/-- The items of an array up to its closing bracket. -/
def scanItems : ℕ → List Char → Option (List Value × List Char)
  | 0, _ => Option.none
  | fuel + 1, s => do
    let (v, s) ← scanOnce fuel s
    match skipSpace s with
    | ']' :: s => some ([v], s)
    | ',' :: s => do
      let (vs, s) ← scanItems fuel (skipSpace s)
      some (v :: vs, s)
    | _ => Option.none

/-- The pairs of an object up to its closing brace. -/
def scanPairs : ℕ → List Char → Option (List (String × Value) × List Char)
  | 0, _ => Option.none
  | fuel + 1, s => do
    let (key, s) ← scanKey s
    let (v, s) ← scanOnce fuel s
    match skipSpace s with
    | '\x7d' :: s => some ([(key, v)], s)
    | ',' :: s => do
      let (pairs, s) ← scanPairs fuel (skipSpace s)
      some ((key, v) :: pairs, s)
    | _ => Option.none

end

/-- `json.loads`, which raises where this is nothing. -/
def loads (text : String) : Option Value :=
  match scanOnce float (text.toList.length + 1) (skipSpace text.toList) with
  | some (v, s) => if skipSpace s = [] then some v else Option.none
  | Option.none => Option.none

end Scanner

end Blackgeorge.Data.Json
