import PracticeShell.Number.Decimal
/-! Double-precision numbers: decimals rounded to the nearest of them, and their shortest decimals.
All is counted in exact whole numbers. -/
namespace PracticeShell

/-- A sign, and a size in units of `2 ^ -1074`, the least size above zero. A size of `Double.bound`
units is infinite. -/
structure Double where
  negative : Bool
  units : Nat
deriving DecidableEq, Repr

namespace Double

/-- `num / den` rounded to a whole number, a half to the even one. -/
def roundDiv (num den : Nat) : Nat :=
  let q := num / den
  let twice := 2 * (num % den)
  if den < twice ∨ twice = den ∧ q % 2 = 1 then q + 1 else q

def precision : Nat := 53

def one : Nat := Nat.pow 2 1074

/-- The size past all finite ones, `2 ^ 1024`. -/
def bound : Nat := Nat.pow 2 1024 * one

def shift (size : Nat) : Nat := Nat.log2 size + 1 - precision

def nearest (num den : Nat) : Nat :=
  let step := Nat.pow 2 (shift (num / den))
  roundDiv num (den * step) * step

def ofDecimal (d : Decimal) : Double :=
  let units :=
    if d.digits = 0 ∨ d.magnitude < -400 then 0
    else if 400 < d.magnitude then bound
    else if 0 ≤ d.scale then nearest (d.digits * Nat.pow 10 d.scale.toNat * one) 1
    else nearest (d.digits * one) (Nat.pow 10 d.scale.natAbs)
  { negative := d.negative, units := min units bound }

def infiniteWords : List String := ["inf", "infinity"]

def read? (cs : List Char) : Option Double :=
  let word := String.ofList ((Decimal.unsigned cs).map Char.toLower)
  if infiniteWords.contains word then some ⟨cs.head? == some '-', bound⟩
  else if Decimal.isSpelling cs then some (ofDecimal (Decimal.ofSpelling cs))
  else none

def value (d : Double) : Int := if d.negative then -(d.units : Int) else d.units

/-- The decimals that round to a size lie from `low` to `high`, both in quarters of a unit. -/
structure Neighbourhood where
  low : Nat
  high : Nat
  closed : Bool

/-- Half way to the next sizes. The one below a power of two is nearer than the one above. -/
def neighbourhood (units : Nat) : Neighbourhood :=
  let step := Nat.pow 2 (shift units)
  let least := Nat.pow 2 (precision - 1)
  { low := 4 * units - if units = least * step then step else 2 * step
    high := 4 * units + 2 * step
    closed := units < least || (units / step) % 2 == 0 }

/-- The multiple of `10 ^ scale` next to a size that rounds to it; of two the nearer, the upper one if
they are as near. -/
def onGrid? (units : Nat) (scale : Int) : Option Decimal :=
  let num := units * Nat.pow 10 (-scale).toNat
  let den := one * Nat.pow 10 scale.toNat
  let around := neighbourhood units
  let low := around.low * Nat.pow 10 (-scale).toNat
  let high := around.high * Nat.pow 10 (-scale).toNat
  let fits (n : Nat) : Bool :=
    let size := 4 * n * den
    if around.closed then low ≤ size && size ≤ high else low < size && size < high
  let down := num / den
  let isNearerUp := den ≤ 2 * (num % den)
  if fits (down + 1) && (isNearerUp || !fits down) then some ⟨false, down + 1, scale⟩
  else if fits down then some ⟨false, down, scale⟩
  else none

def magnitude (units : Nat) : Int :=
  ((Text.decimal (units * Nat.pow 10 400 / one)).length : Int) - 400

/-- Seventeen digits tell every size from all others. -/
def mostDigits : Nat := 17

def shortest (units : Nat) : Decimal :=
  if units = 0 then ⟨false, 0, 0⟩
  else
    let first := magnitude units - 1
    ((List.range mostDigits).findSome? fun (n : Nat) => onGrid? units (first - n)).getD ⟨false, 0, 0⟩

def text (d : Double) : String :=
  let size := if bound ≤ d.units then "inf" else String.ofList (shortest d.units).sizeText
  if d.negative then "-" ++ size else size

end Double

end PracticeShell
