import PracticeShell.Pattern.Escape
/-! The reading of brackets in patterns, with the brackets not yet closed kept aside. -/
namespace PracticeShell.Pattern

/-- A bracket being read: the operand before the last operator, and the items after it, last first. -/
structure Bracket where
  negated : Bool
  left : Option CharClass := none
  items : List CharClass := []
  atStart : Bool := true

namespace Bracket

def push (b : Bracket) (c : CharClass) : Bracket := { b with items := c :: b.items, atStart := false }

def pushHyphen (b : Bracket) : Bracket := { b with items := .literal ⟨'-', false⟩ :: b.items }

def operand (b : Bracket) : CharClass :=
  match b.items with
  | [] => .empty
  | [c] => c
  | items => .union items.reverse

def content (b : Bracket) : CharClass :=
  match b.left with
  | none => b.operand
  | some left => .combined left b.operand

/-- After an operator. All operators have one rank and are taken from the left. -/
def afterOperator (b : Bracket) : Bracket :=
  { negated := b.negated, left := some b.content, atStart := false }

def close (b : Bracket) : CharClass := .bracket b.negated b.content

def begin (spaced : Bool) (cs : List Char) : Bracket × List Char :=
  match skipSpace spaced cs with
  | '^' :: cs => ({ negated := true }, cs)
  | cs => ({ negated := false }, cs)

end Bracket

def classNames : List String :=
  ["alnum", "alpha", "ascii", "blank", "cntrl", "digit", "graph", "lower", "print", "punct", "space",
    "upper", "word", "xdigit"]

def readNamed? (cs : List Char) : Option (CharClass × List Char) := do
  let (':' :: cs) := cs | none
  let (negated, cs) := match cs with
    | '^' :: cs => (true, cs)
    | cs => (false, cs)
  let name := cs.takeWhile (· != ':')
  let (':' :: ']' :: cs) := cs.drop name.length | none
  guard (classNames.contains (String.ofList name))
  return (.named negated, cs)

def readItem (spaced : Bool) : List Char → Option (CharClass × List Char)
  | [] => none
  | '\\' :: cs => do
    match ← readEscape spaced cs with
    | (.literal l, cs) => return (.literal l, cs)
    | (.escaped negated, cs) => return (.escaped negated, cs)
    | (.anchor, _) | (.wordEdge, _) => none
  | c :: cs => some (.literal ⟨c, false⟩, cs)

/-- The character after a hyphen. A `#` counts as one blank more, even if its comment goes on. -/
def charAfterHyphen? (spaced : Bool) (cs : List Char) : Option Char :=
  if !spaced then cs.head?
  else
    let next := match cs.dropWhile Text.isBlank with
      | '#' :: rest => (rest.dropWhile Text.isBlank).head?
      | rest => rest.head?
    next.or cs.head?

def readRange (spaced : Bool) (cs : List Char) : Option (CharClass × List Char) := do
  let (first, cs) ← readItem spaced cs
  match skipSpace spaced cs with
  | '-' :: rest =>
    let next := charAfterHyphen? spaced rest
    if next = some ']' ∨ next = some '-' then return (first, cs)
    let (.literal a, (.literal b, rest)) := (first, ← readItem spaced (skipSpace spaced rest)) | none
    guard (a.char ≤ b.char)
    return (.range a b, rest)
  | [] => none
  | cs => return (first, cs)

/-- Reads the rest of the bracket `b`, which is in the brackets `outer`. `fuel` bounds the characters
to come. -/
def readBracketFrom (spaced : Bool) : Nat → Bracket → List Bracket → List Char →
    Option (CharClass × List Char)
  | 0, _, _, _ => none
  | fuel + 1, b, outer, cs =>
    match skipSpace spaced cs with
    | [] => none
    | ']' :: cs =>
      if b.atStart && b.items.isEmpty then
        readBracketFrom spaced fuel (b.push (.literal ⟨']', false⟩)) outer cs
      else
        match outer with
        | [] => some (b.close, cs)
        | o :: outer => readBracketFrom spaced fuel (o.push b.close) outer cs
    | '-' :: '-' :: cs =>
      if b.atStart then readBracketFrom spaced fuel b.pushHyphen outer ('-' :: cs)
      else readBracketFrom spaced fuel b.afterOperator outer cs
    | '&' :: '&' :: cs | '~' :: '~' :: cs =>
      readBracketFrom spaced fuel b.afterOperator outer cs
    | '[' :: cs =>
      match readNamed? cs with
      | some (c, cs) => readBracketFrom spaced fuel (b.push c) outer cs
      | none =>
        let (inner, cs) := Bracket.begin spaced cs
        readBracketFrom spaced fuel inner (b :: outer) cs
    | c :: cs =>
      if c = '-' && b.atStart then readBracketFrom spaced fuel b.pushHyphen outer cs
      else
        match readRange spaced (c :: cs) with
        | some (item, cs) => readBracketFrom spaced fuel (b.push item) outer cs
        | none => none

def readBracket (spaced : Bool) (cs : List Char) : Option (CharClass × List Char) :=
  let (b, rest) := Bracket.begin spaced cs
  readBracketFrom spaced (cs.length + 1) b [] rest

end PracticeShell.Pattern
