import PracticeShell.Text.Digits
import PracticeShell.Text.Ends
/-! Decimal numbers, spelled with or without a point and an exponent, and written without one. -/
namespace PracticeShell

/-- The number `digits · 10 ^ scale`, with a sign. -/
structure Decimal where
  negative : Bool
  digits : Nat
  scale : Int
deriving DecidableEq, Repr

namespace Decimal

def afterDigits? (cs : List Char) : Option (List Char) :=
  (Text.readDigits none cs).map Prod.snd

def isExponentPart : List Char → Bool
  | [] => true
  | c :: cs =>
    (c == 'e' || c == 'E') &&
      match cs with
      | '+' :: ds | '-' :: ds => afterDigits? ds == some []
      | ds => afterDigits? ds == some []

def unsigned : List Char → List Char
  | '-' :: cs | '+' :: cs => cs
  | cs => cs

/-- A number with digits on at least one side of a point, or without a point. -/
def isSpelling (cs : List Char) : Bool :=
  let whole := (unsigned cs).takeWhile Char.isDigit
  match (unsigned cs).drop whole.length with
  | '.' :: rest =>
    let fraction := rest.takeWhile Char.isDigit
    !(whole.isEmpty && fraction.isEmpty) && isExponentPart (rest.drop fraction.length)
  | rest => !whole.isEmpty && isExponentPart rest

structure Parts where
  whole : List Char
  fraction : List Char
  exponent : Int
deriving DecidableEq, Repr

def Parts.ofSpelling (cs : List Char) : Parts :=
  let isMark (c : Char) := c == 'e' || c == 'E'
  let mantissa := (unsigned cs).takeWhile fun c => !isMark c
  let exponent := (cs.dropWhile fun c => !isMark c).tail
  let size : Int := Text.digitsValue (unsigned exponent)
  { whole := mantissa.takeWhile (· != '.')
    fraction := (mantissa.dropWhile (· != '.')).tail
    exponent := if exponent.head? == some '-' then -size else size }

def ofSpelling (cs : List Char) : Decimal :=
  let p := Parts.ofSpelling cs
  { negative := cs.head? == some '-'
    digits := Text.digitsValue (p.whole ++ p.fraction)
    scale := p.exponent - p.fraction.length }

/-- How many digits stand before the point; negative for zeros right after it. -/
def magnitude (d : Decimal) : Int := (Text.decimal d.digits).length + d.scale

def sizeText (d : Decimal) : List Char :=
  let ds := Text.decimal d.digits
  if d.digits = 0 then ds
  else if 0 ≤ d.scale then ds ++ List.replicate d.scale.toNat '0'
  else
    let places := d.scale.natAbs
    let ds := Text.padStart (places + 1) '0' ds
    let fraction := Text.dropEndWhile (· == '0') (ds.drop (ds.length - places))
    ds.take (ds.length - places) ++ if fraction.isEmpty then [] else '.' :: fraction

end Decimal

end PracticeShell
