/-! Decimal and hexadecimal digits: numbers written with a least width, and read with a most one. -/
namespace PracticeShell.Text

def digitChar (n : Nat) : Char := Char.ofNat ('0'.toNat + n)

def fixedDigits : Nat → Nat → List Char
  | 0, _ => []
  | width + 1, n => fixedDigits width (n / 10) ++ [digitChar (n % 10)]

def decimal (n : Nat) : List Char := Nat.toDigits 10 n

def padStart (width : Nat) (fill : Char) (cs : List Char) : List Char :=
  List.replicate (width - cs.length) fill ++ cs

def digitsValue (ds : List Char) : Nat := ds.foldl (fun n c => 10 * n + (c.toNat - '0'.toNat)) 0

/-- Reads a run of digits, at least one; a bound on their number leaves the others unread. -/
def readDigits (most : Option Nat) (cs : List Char) : Option (List Char × List Char) :=
  let run := cs.takeWhile Char.isDigit
  let ds := match most with
    | some m => run.take m
    | none => run
  if ds.isEmpty then none else some (ds, cs.drop ds.length)

def readNat (most : Option Nat) (cs : List Char) : Option (Nat × List Char) :=
  (readDigits most cs).map fun (ds, rest) => (digitsValue ds, rest)

def hexValue? (c : Char) : Option Nat :=
  if c.isDigit then some (c.toNat - '0'.toNat)
  else if 'a' ≤ c ∧ c ≤ 'f' then some (c.toNat - 'a'.toNat + 10)
  else if 'A' ≤ c ∧ c ≤ 'F' then some (c.toNat - 'A'.toNat + 10)
  else none

def hexChar (n : Nat) : Char :=
  if n < 10 then digitChar n else Char.ofNat ('a'.toNat + (n - 10))

def hexDigits (n : Nat) : List Char := Nat.toDigits 16 n

end PracticeShell.Text
