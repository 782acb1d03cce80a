import PracticeShell.Pattern.Bracket
import PracticeShell.Text.Alphanumeric
/-! Patterns read from their texts, with the groups not yet closed kept aside. A pattern stands between
braces, so there is no closing brace in it, and nothing that needs one is read. -/
namespace PracticeShell.Pattern

/-- Items in a row, the last first, after branches that are done, the last first. -/
structure Part where
  items : List Pattern := []
  branches : List Pattern := []
  spaced : Bool := false

structure Group where
  change : Flags
  around : Part

namespace Part

def push (p : Part) (item : Pattern) : Part := { p with items := item :: p.items }

def sequence (p : Part) : Pattern :=
  match p.items with
  | [] => .empty
  | [item] => item
  | items => .sequence items.reverse

def nextBranch (p : Part) : Part := { p with items := [], branches := p.sequence :: p.branches }

def whole (p : Part) : Pattern :=
  if p.branches.isEmpty then p.sequence else .branches (p.sequence :: p.branches).reverse

def repeatLast? (p : Part) : Option Part :=
  match p.items with
  | [] | .flags _ :: _ => none
  | item :: items => some { p with items := .repeated item :: items }

end Part

structure Reading where
  part : Part := {}
  outer : List Group := []
  names : List (List Char) := []

/-- The letters of the switches to turn on, and after a hyphen at least one to turn off. -/
def flagLetters? (cs : List Char) : Option (List Char × List Char) :=
  match cs.splitOn '-' with
  | [on] => some (on, [])
  | [on, off] => if off.isEmpty then none else some (on, off)
  | _ => none

def flagsOfChars? (cs : List Char) : Option Flags := do
  let (on, off) ← flagLetters? cs
  let fs : Flags := { on := ← on.mapM Flag.ofChar?, off := ← off.mapM Flag.ofChar? }
  guard (fs.on ++ fs.off).Nodup
  return fs

/-- A letter or `_`, then also numerals, points and brackets. -/
def isGroupName (cs : List Char) : Bool :=
  let isNameStart (c : Char) := c == '_' || Text.isAlphabetic c
  match cs with
  | [] => false
  | c :: cs =>
    isNameStart c &&
      cs.all fun c => isNameStart c || Text.isNumeric c || c == '.' || c == '[' || c == ']'

namespace Reading

def push (r : Reading) (item : Pattern) : Reading := { r with part := r.part.push item }

def enter (r : Reading) (change : Flags) : Reading :=
  { r with
    part := { spaced := change.state .spaced r.part.spaced }
    outer := ⟨change, r.part⟩ :: r.outer }

def leave? (r : Reading) : Option Reading :=
  match r.outer with
  | [] => none
  | g :: outer => some { r with part := g.around.push (.group g.change r.part.whole), outer }

def enterNamed (r : Reading) (cs : List Char) : Option (Reading × List Char) := do
  let name := cs.takeWhile (· != '>')
  let ('>' :: cs) := cs.drop name.length | none
  guard (isGroupName name && !r.names.contains name)
  return ({ r.enter {} with names := name :: r.names }, cs)

/-- Reads what follows an opening bracket: a name, switches for the group, or switches for what is left
of the group around. -/
def openGroup (r : Reading) (cs : List Char) : Option (Reading × List Char) :=
  match skipSpace r.part.spaced cs with
  | '?' :: 'P' :: '<' :: cs => r.enterNamed cs
  | '?' :: '<' :: cs => r.enterNamed cs
  | '?' :: cs => do
    let letters := cs.takeWhile fun c => c != ':' && c != ')'
    let change ← flagsOfChars? letters
    match cs.drop letters.length with
    | ':' :: cs => return (r.enter change, cs)
    | ')' :: cs =>
      guard (!letters.isEmpty)
      let part := r.part.push (.flags change)
      return ({ r with part := { part with spaced := change.state .spaced part.spaced } }, cs)
    | _ => none
  | cs => some (r.enter {}, cs)

def ofEscape : Escape → Pattern
  | .literal l => .literal l
  | .escaped negated => .escaped negated
  | .anchor => .anchor
  | .wordEdge => .wordEdge

/-- Reads one thing more. A mark of repetition takes a question mark after it along. -/
def step (r : Reading) (c : Char) (cs : List Char) : Option (Reading × List Char) :=
  match c with
  | '(' => r.openGroup cs
  | ')' => r.leave?.map fun r => (r, cs)
  | '|' => some ({ r with part := r.part.nextBranch }, cs)
  | '[' => (readBracket r.part.spaced cs).map fun (c, cs) => (r.push (.bracket c), cs)
  | '?' | '*' | '+' => do
    let part ← r.part.repeatLast?
    let cs := match cs with
      | '?' :: cs => cs
      | cs => cs
    return ({ r with part }, cs)
  | '\x7b' => none
  | '\\' => (readEscape r.part.spaced cs).map fun (e, cs) => (r.push (ofEscape e), cs)
  | '.' => some (r.push .anyChar, cs)
  | '^' | '$' => some (r.push .anchor, cs)
  | c => some (r.push (.literal ⟨c, false⟩), cs)

/-- Reads up to the end. `fuel` bounds the characters to come. -/
def readFrom : Nat → Reading → List Char → Option Pattern
  | 0, _, _ => none
  | fuel + 1, r, cs =>
    match skipSpace r.part.spaced cs with
    | [] => if r.outer.isEmpty then some r.part.whole else none
    | c :: cs =>
      match r.step c cs with
      | some (r, cs) => readFrom fuel r cs
      | none => none

end Reading

def read? (cs : List Char) : Option Pattern := Reading.readFrom (cs.length + 1) {} cs

def isValid (cs : List Char) : Bool := (read? cs).any isUsable

end PracticeShell.Pattern
