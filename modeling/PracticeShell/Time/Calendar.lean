/-! The Gregorian calendar, extended to all years: dates, the days between them and their weekdays.
Years are counted from March inside, so that the leap day comes last. -/
namespace PracticeShell

structure Date where
  year : Int
  month : Nat
  day : Nat
deriving DecidableEq, Repr

namespace Date

def isLeap (year : Int) : Bool := year % 4 == 0 && (year % 100 != 0 || year % 400 == 0)

def daysInMonth (year : Int) (month : Nat) : Nat :=
  if month = 2 then (if isLeap year then 29 else 28)
  else if month = 4 ∨ month = 6 ∨ month = 9 ∨ month = 11 then 30
  else 31

def IsValid (d : Date) : Prop :=
  1 ≤ d.month ∧ d.month ≤ 12 ∧ 1 ≤ d.day ∧ d.day ≤ daysInMonth d.year d.month

instance (d : Date) : Decidable d.IsValid := by unfold IsValid; infer_instance

/-- Days from the first of March to the first of the month `m` months later. -/
def daysBefore (m : Nat) : Nat := (153 * m + 2) / 5

/-- Days from 1 March of year 0 to 1 January 1970. -/
def epochOffset : Int := 719468

def toDays (d : Date) : Int :=
  let y := if d.month ≤ 2 then d.year - 1 else d.year
  let m := (d.month + 9) % 12
  365 * y + y / 4 - y / 100 + y / 400 + daysBefore m + d.day - 1 - epochOffset

/-- The date so many days after 1 January 1970. A span of 400 years is four centuries, the last a
day longer; a century is 25 spans of four years, the last a day shorter unless its century is longer;
such a span is four years, the last a day longer. -/
def ofDays (n : Int) : Date :=
  let era := (n + epochOffset) / 146097
  let inEra := ((n + epochOffset) % 146097).toNat
  let century := min (inEra / 36524) 3
  let inCentury := inEra - 36524 * century
  let span := inCentury / 1461
  let inSpan := inCentury % 1461
  let year := min (inSpan / 365) 3
  let inYear := inSpan - 365 * year
  let m := (5 * inYear + 2) / 153
  let y := 400 * era + (100 * century + 4 * span + year : Nat)
  { year := if m < 10 then y else y + 1
    month := if m < 10 then m + 3 else m - 9
    day := inYear - daysBefore m + 1 }

/-- Sunday is 0. -/
def weekday (n : Int) : Nat := ((n + 4) % 7).toNat

end Date

end PracticeShell
