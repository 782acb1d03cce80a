import PracticeShell.Number.Double
import PracticeShell.Pattern.Reader
/-! Fields of spans, and the values that a filter asks of them: truth values, numbers of several kinds,
and patterns for all others. -/
namespace PracticeShell.LogFilter

inductive Value where
  | boolean (b : Bool)
  | double (d : Double)
  | notANumber
  | natural (n : Nat)
  | integer (i : Int)
  | pattern (text : String)
deriving DecidableEq, Repr

structure Field where
  name : String
  value : Option Value := none
deriving DecidableEq, Repr

namespace Value

def ofWord? (cs : List Char) : Option Value :=
  if cs = ['t', 'r', 'u', 'e'] then some (.boolean true)
  else if cs = ['f', 'a', 'l', 's', 'e'] then some (.boolean false)
  else none

def digitsValue? (cs : List Char) : Option Nat :=
  if !cs.isEmpty && cs.all Char.isDigit then some (Text.digitsValue cs) else none

def natural? (cs : List Char) : Option Value := do
  let n ← digitsValue? (if cs.head? = some '+' then cs.tail else cs)
  if n < Nat.pow 2 64 then return .natural n else none

def integer? (cs : List Char) : Option Value := do
  let n ← digitsValue? (Decimal.unsigned cs)
  let i : Int := if cs.head? = some '-' then -n else n
  if -(Nat.pow 2 63 : Int) ≤ i ∧ i < Nat.pow 2 63 then return .integer i else none

def notANumber? (cs : List Char) : Option Value :=
  if (Decimal.unsigned cs).map Char.toLower = ['n', 'a', 'n'] then some .notANumber else none

def pattern? (cs : List Char) : Option Value :=
  if Pattern.isValid cs then some (.pattern (String.ofList cs)) else none

def ofChars? (cs : List Char) : Option Value :=
  ofWord? cs <|> natural? cs <|> integer? cs <|> notANumber? cs <|>
    (Double.read? cs).map .double <|> pattern? cs

def text : Value → String
  | .boolean b => if b then "true" else "false"
  | .double d => d.text
  | .notANumber => "NaN"
  | .natural n => String.ofList (Text.decimal n)
  | .integer i => (if i < 0 then "-" else "") ++ String.ofList (Text.decimal i.natAbs)
  | .pattern text => text

def rank : Value → Nat
  | .boolean _ => 0
  | .double _ => 1
  | .notANumber => 2
  | .natural _ => 3
  | .integer _ => 4
  | .pattern _ => 5

def compare (a b : Value) : Ordering :=
  match a, b with
  | .boolean a, .boolean b => Ord.compare a b
  | .double a, .double b => Ord.compare a.value b.value
  | .natural a, .natural b => Ord.compare a b
  | .integer a, .integer b => Ord.compare a b
  | .pattern a, .pattern b => Ord.compare a b
  | a, b => Ord.compare a.rank b.rank

end Value

namespace Field

/-- Reads `name` or `name=value`; what follows a second `=` does not count. -/
def ofChars? (cs : List Char) : Option Field :=
  match cs.splitOn '=' with
  | name :: value :: _ => (Value.ofChars? value).map fun v => ⟨String.ofList name, some v⟩
  | _ => some ⟨String.ofList cs, none⟩

def text (f : Field) : String :=
  match f.value with
  | some value => f.name ++ "=" ++ value.text
  | none => f.name

def compareValue : Option Value → Option Value → Ordering
  | some a, some b => a.compare b
  | a, b => Ord.compare a.isSome b.isSome

/-- The order of fields: without a value before with one, then by name, then by value. -/
def compare (a b : Field) : Ordering :=
  (Ord.compare a.value.isSome b.value.isSome).then <|
    (Ord.compare a.name b.name).then (compareValue a.value b.value)

end Field

end PracticeShell.LogFilter
