import PracticeShell.Text.Digits
import PracticeShell.Time.Calendar
/-! Instants in UTC to the nanosecond, over the years -262143 to 262142. A leap second is kept as a
59th second whose nanoseconds pass a whole second. The shell shows them in a short form, in long
listings, and in the full form of `date`. -/
namespace PracticeShell

namespace Instant

def firstYear : Int := -262143

def lastYear : Int := 262142

/-- The first second of the first year, counted from 1970. -/
def firstSecond : Int := -8334601228800

/-- The last second of the last year, counted from 1970. -/
def lastSecond : Int := 8210266876799

def billion : Nat := 1000000000

end Instant

structure Instant where
  /-- Seconds since 1970-01-01T00:00:00Z. -/
  second : Int
  nano : Nat
  inRange : Instant.firstSecond ≤ second ∧ second ≤ Instant.lastSecond
  nano_lt : nano < Instant.billion ∨ second % 60 = 59 ∧ nano < 2 * Instant.billion
deriving DecidableEq, Repr

namespace Instant

def ofUnix? (second : Int) (nano : Nat) : Option Instant :=
  if h : (firstSecond ≤ second ∧ second ≤ lastSecond) ∧
      (nano < billion ∨ second % 60 = 59 ∧ nano < 2 * billion) then
    some ⟨second, nano, h.1, h.2⟩
  else none

def epoch : Instant := ⟨0, 0, by decide, by decide⟩

def le (a b : Instant) : Prop := a.second < b.second ∨ a.second = b.second ∧ a.nano ≤ b.nano

instance : LE Instant := ⟨le⟩

instance (a b : Instant) : Decidable (a ≤ b) :=
  inferInstanceAs (Decidable (a.second < b.second ∨ a.second = b.second ∧ a.nano ≤ b.nano))

def days (t : Instant) : Int := t.second / 86400

def date (t : Instant) : Date := Date.ofDays t.days

def secondOfDay (t : Instant) : Nat := (t.second % 86400).toNat

def hour (t : Instant) : Nat := t.secondOfDay / 3600

def minute (t : Instant) : Nat := t.secondOfDay / 60 % 60

/-- The second of the minute; 60 in a leap second. -/
def secondOfMinute (t : Instant) : Nat := t.secondOfDay % 60 + t.nano / billion

def fraction (t : Instant) : Nat := t.nano % billion

/-! ### Dates as the shell shows them -/

open Text

def monthNames : List String :=
  ["Jan", "Feb", "Mar", "Apr", "May", "Jun", "Jul", "Aug", "Sep", "Oct", "Nov", "Dec"]

def weekdayNames : List String := ["Sun", "Mon", "Tue", "Wed", "Thu", "Fri", "Sat"]

/-- Four digits from year 0 to 9999; any other year has a sign and at least four digits. -/
def yearText (year : Int) : String :=
  let digits := String.ofList (padStart 4 '0' (decimal year.natAbs))
  if 0 ≤ year ∧ year ≤ 9999 then digits
  else if 0 ≤ year then "+" ++ digits
  else "-" ++ digits

def twoDigits (n : Nat) : String := String.ofList (fixedDigits 2 n)

/-- Month, day padded with a blank, hour and minute: `Jan  5 12:34`. -/
def shortText (t : Instant) : String :=
  let d := t.date
  monthNames.getD (d.month - 1) "" ++ " " ++ String.ofList (padStart 2 ' ' (decimal d.day)) ++ " " ++
    twoDigits t.hour ++ ":" ++ twoDigits t.minute

/-- Weekday, date, time to the second and year: `Mon Jan  5 12:34:56 UTC 2026`. -/
def fullText (t : Instant) : String :=
  weekdayNames.getD (Date.weekday t.days) "" ++ " " ++ t.shortText ++ ":" ++
    twoDigits t.secondOfMinute ++ " UTC " ++ yearText t.date.year

end Instant

end PracticeShell
