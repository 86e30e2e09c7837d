import Mathlib.Data.List.Basic
import Mathlib.Data.String.Basic

/-! Instants as `datetime` has them, with the ISO text that SQLite sorts them by. -/

namespace Blackgeorge.Store

/-- `datetime`, with the minutes of its UTC offset if it is an aware one. -/
structure Timestamp where
  year : ℕ
  month : ℕ
  day : ℕ
  hour : ℕ
  minute : ℕ
  second : ℕ
  microsecond : ℕ
  offset : Option ℤ
  deriving DecidableEq

namespace Timestamp

/-- A number with zeros before it. -/
def padded (width n : ℕ) : String := String.ofList (List.leftpad width '0' (Nat.toDigits 10 n))

def offsetText (minutes : ℤ) : String :=
  (if minutes < 0 then "-" else "+") ++ padded 2 (minutes.natAbs / 60) ++ ":" ++
    padded 2 (minutes.natAbs % 60)

/-- `datetime.isoformat`, which leaves out a fraction of zero. -/
def isoformat (t : Timestamp) : String :=
  padded 4 t.year ++ "-" ++ padded 2 t.month ++ "-" ++ padded 2 t.day ++ "T" ++
    padded 2 t.hour ++ ":" ++ padded 2 t.minute ++ ":" ++ padded 2 t.second ++
    (if t.microsecond = 0 then "" else "." ++ padded 6 t.microsecond) ++
    t.offset.elim "" offsetText

def isLeap (year : ℕ) : Bool := year % 4 = 0 && (year % 100 ≠ 0 || year % 400 = 0)

def daysBeforeMonth (year month : ℕ) : ℕ :=
  [0, 31, 59, 90, 120, 151, 181, 212, 243, 273, 304, 334].getD (month - 1) 0 +
    if 2 < month && isLeap year then 1 else 0

/-- `datetime.toordinal`. -/
def ordinal (t : Timestamp) : ℕ :=
  let years := t.year - 1
  years * 365 + years / 4 - years / 100 + years / 400 + daysBeforeMonth t.year t.month + t.day

/-- The microseconds from the first day on, in UTC where the offset is known. -/
def instant (t : Timestamp) : ℤ :=
  ((((t.ordinal * 24 + t.hour) * 60 + t.minute - t.offset.getD 0) * 60 + t.second) * 1000000 +
    t.microsecond)

/-- `t <= u`, which raises where only one of the two has an offset. -/
def NotAfter (t u : Timestamp) : Prop :=
  t.offset.isSome = u.offset.isSome ∧ t.instant ≤ u.instant

/-- Noon in Berlin is before half past eleven in London, in time and not in the text. -/
example :
    let noon : Timestamp := ⟨2026, 7, 1, 12, 0, 0, 0, some 120⟩
    let halfPast : Timestamp := ⟨2026, 7, 1, 11, 30, 0, 0, some 60⟩
    noon.NotAfter halfPast ∧ ¬noon.isoformat ≤ halfPast.isoformat := by
  refine ⟨⟨rfl, ?_⟩, ?_⟩ <;> decide +kernel

end Timestamp

end Blackgeorge.Store
