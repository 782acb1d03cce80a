import PracticeShell.Text.Ends
import PracticeShell.Time.Instant
/-! Instants in the text of RFC 3339. One text is written; the reader also takes one-digit fields,
blanks before and after them, other separators of date and time, and offsets from UTC. -/
namespace PracticeShell.Instant
open Text

/-- The fraction in three, six or nine digits, the fewest that are exact; nothing if it is zero. -/
def fractionText (nano : Nat) : String :=
  if nano = 0 then ""
  else if nano % 1000000 = 0 then "." ++ String.ofList (fixedDigits 3 (nano / 1000000))
  else if nano % 1000 = 0 then "." ++ String.ofList (fixedDigits 6 (nano / 1000))
  else "." ++ String.ofList (fixedDigits 9 nano)

/-- The written text: `2024-03-05T06:07:08.500Z`. -/
def text (t : Instant) : String :=
  let d := t.date
  yearText d.year ++ "-" ++ twoDigits d.month ++ "-" ++ twoDigits d.day ++ "T" ++
    twoDigits t.hour ++ ":" ++ twoDigits t.minute ++ ":" ++ twoDigits t.secondOfMinute ++
    fractionText t.fraction ++ "Z"

def skipBlanks (cs : List Char) : List Char := cs.dropWhile isBlank

def readField (cs : List Char) : Option (Nat × List Char) := readNat (some 2) (skipBlanks cs)

def readMark (c : Char) (cs : List Char) : Option (List Char) :=
  match skipBlanks cs with
  | [] => none
  | d :: rest => if d = c then some rest else none

/-- A year: any number of digits after a sign, else at most four. -/
def readYear (cs : List Char) : Option (Int × List Char) :=
  match skipBlanks cs with
  | '-' :: rest => (readNat none rest).map fun (n, rest) => (-(n : Int), rest)
  | '+' :: rest => (readNat none rest).map fun (n, rest) => ((n : Int), rest)
  | cs => (readNat (some 4) cs).map fun (n, rest) => ((n : Int), rest)

def readDate (cs : List Char) : Option (Date × List Char) := do
  let (year, cs) ← readYear cs
  let (month, cs) ← readField (← readMark '-' cs)
  let (day, cs) ← readField (← readMark '-' cs)
  let date : Date := ⟨year, month, day⟩
  guard (date.IsValid ∧ firstYear ≤ year ∧ year ≤ lastYear)
  return (date, cs)

/-- A decimal point and digits, of which nine count, as nanoseconds; zero without a point. -/
def readFraction : List Char → Option (Nat × List Char)
  | '.' :: cs => (readDigits (some 9) cs).map fun (ds, rest) =>
      (digitsValue ds * Nat.pow 10 (9 - ds.length), rest.dropWhile Char.isDigit)
  | cs => some (0, cs)

/-- The second of the day and the nanosecond; second 60 is a leap second. -/
def readTime (cs : List Char) : Option (Nat × Nat × List Char) := do
  let (hour, cs) ← readField cs
  let (minute, cs) ← readField (← readMark ':' cs)
  let (second, cs) ← readField (← readMark ':' cs)
  guard (hour ≤ 23 ∧ minute ≤ 59 ∧ second ≤ 60)
  let (nano, cs) ← readFraction cs
  if second = 60 then return (hour * 3600 + minute * 60 + 59, nano + billion, cs)
  else return (hour * 3600 + minute * 60 + second, nano, cs)

/-- Two digits of hours, any colons and blanks, and two digits of minutes, in seconds. -/
def readHoursMinutes (cs : List Char) : Option (Nat × List Char) := do
  let (h₁ :: h₂ :: cs) := cs | none
  let (m₁ :: m₂ :: rest) := cs.dropWhile fun c => c == ':' || isBlank c | none
  guard (h₁.isDigit ∧ h₂.isDigit ∧ m₁.isDigit ∧ m₂.isDigit ∧ digitsValue [m₁, m₂] ≤ 59)
  let offset := digitsValue [h₁, h₂] * 3600 + digitsValue [m₁, m₂] * 60
  guard (offset < 86400)
  return (offset, rest)

/-- Seconds east of UTC: `UTC` in any case, `Z`, or hours and minutes after a sign. -/
def readOffset : List Char → Option (Int × List Char)
  | 'z' :: rest | 'Z' :: rest => some (0, rest)
  | '+' :: rest => (readHoursMinutes rest).map fun (n, rest) => ((n : Int), rest)
  | '-' :: rest | '\u2212' :: rest =>
    (readHoursMinutes rest).map fun (n, rest) => (-(n : Int), rest)
  | u :: t :: c :: rest => if [u, t, c].map Char.toUpper = ['U', 'T', 'C'] then some (0, rest) else none
  | _ => none

def read? (s : String) : Option Instant := do
  let (date, cs) ← readDate s.toList
  let (mark :: cs) := cs | none
  guard (mark = 't' ∨ mark = 'T' ∨ mark = ' ')
  let (second, nano, cs) ← readTime cs
  let (offset, cs) ← readOffset (skipBlanks cs)
  guard ((skipBlanks cs).isEmpty)
  ofUnix? (date.toDays * 86400 + second - offset) nano

end PracticeShell.Instant
