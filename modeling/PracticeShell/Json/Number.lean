import PracticeShell.Number.Double
/-! Numbers in JSON texts, as they are spelled, and which of them are in range. A number is read as a
significand of 64 bits and a power of ten, and each is rounded to a double before they are multiplied. -/
namespace PracticeShell.Json

def isNumberTail : List Char → Bool
  | '.' :: cs =>
    match Decimal.afterDigits? cs with
    | some rest => Decimal.isExponentPart rest
    | none => false
  | cs => Decimal.isExponentPart cs

/-- The spelling of a number: no leading zeros, digits on both sides of a point. -/
def isNumber (cs : List Char) : Bool :=
  let unsigned := if cs.head? == some '-' then cs.tail else cs
  match unsigned with
  | '0' :: rest => isNumberTail rest
  | c :: _ => c.isDigit && (Decimal.afterDigits? unsigned).any isNumberTail
  | [] => false

def natOfSpelling? (cs : List Char) : Option Nat :=
  if !cs.isEmpty && cs.all Char.isDigit then some (Text.digitsValue cs) else none

/-- Takes digits into a significand as long as it has room for the next one, and counts the others. -/
def takeDigits (significand : Nat) : List Char → Nat × Nat
  | [] => (significand, 0)
  | c :: cs =>
    let next := Text.digitsValue [c] + 10 * significand
    if next < Nat.pow 2 64 then takeDigits next cs else (significand, cs.length + 1)

/-- The least product of two doubles that rounds to no finite one. -/
def productBound : Nat := Nat.pow 2 1024 - Nat.pow 2 970

/-- The number of a spelling is read as a finite double. Digits that the significand has no room for
count as zeros before the point, and not at all after it. -/
def isInRange (spelling : List Char) : Bool :=
  let parts := Decimal.Parts.ofSpelling spelling
  let (significand, zeros) := takeDigits 0 parts.whole
  let (significand, dropped) := takeDigits significand parts.fraction
  let exponent := parts.exponent + zeros - (parts.fraction.length - dropped : Nat)
  significand == 0 || exponent < 0 ||
    exponent ≤ 308 &&
      Double.nearest significand 1 * Double.nearest (Nat.pow 10 exponent.toNat) 1 < productBound

end PracticeShell.Json
