/-! Patterns that texts can be matched against, and which of them can be used. Nothing is matched here:
of a pattern only so much is kept as decides whether it has a meaning. -/
namespace PracticeShell

inductive Pattern.Flag where
  | ignoreCase
  | lineAnchors
  | dotTakesAll
  | lazyFirst
  | unicode
  | longLineEnds
  | spaced
deriving DecidableEq, Repr

structure Pattern.Flags where
  on : List Pattern.Flag := []
  off : List Pattern.Flag := []
deriving DecidableEq, Repr

structure Pattern.Literal where
  char : Char
  /-- It is written as a byte, in two hexadecimal digits. -/
  isByte : Bool := false
deriving DecidableEq, Repr

inductive Pattern.CharClass where
  | empty
  | literal (l : Pattern.Literal)
  | range (first last : Pattern.Literal)
  | named (negated : Bool)
  | escaped (negated : Bool)
  | bracket (negated : Bool) (inside : Pattern.CharClass)
  | union (items : List Pattern.CharClass)
  | combined (left right : Pattern.CharClass)

inductive Pattern where
  | empty
  | flags (change : Pattern.Flags)
  | literal (l : Pattern.Literal)
  | anyChar
  | anchor
  | wordEdge
  | escaped (negated : Bool)
  | bracket (c : Pattern.CharClass)
  | repeated (p : Pattern)
  | group (change : Pattern.Flags) (p : Pattern)
  | sequence (ps : List Pattern)
  | branches (ps : List Pattern)

namespace Pattern

def Flag.ofChar? : Char → Option Flag
  | 'i' => some .ignoreCase
  | 'm' => some .lineAnchors
  | 's' => some .dotTakesAll
  | 'U' => some .lazyFirst
  | 'u' => some .unicode
  | 'R' => some .longLineEnds
  | 'x' => some .spaced
  | _ => none

def Flags.state (fs : Flags) (f : Flag) (before : Bool) : Bool :=
  fs.on.contains f || before && !fs.off.contains f

structure Mode where
  unicode : Bool := true
  ignoreCase : Bool := false
deriving DecidableEq, Repr

def Mode.change (m : Mode) (fs : Flags) : Mode :=
  { unicode := fs.state .unicode m.unicode
    ignoreCase := fs.state .ignoreCase m.ignoreCase }

/-- There is no table of the cases and classes of characters past ASCII. So whole characters must keep
their case and have no escaped classes, and no class of bytes may leave ASCII. -/
def Literal.isUsable (m : Mode) (l : Literal) : Bool :=
  if m.unicode then !m.ignoreCase else !l.isByte || l.char.toNat < 0x80

namespace CharClass

def literalIsUsable (m : Mode) (l : Literal) : Bool :=
  if m.unicode then !m.ignoreCase else l.char.toNat < 0x80

def escapedIsUsable (m : Mode) (negated : Bool) : Bool := !m.unicode && !negated

mutual
def isUsable (m : Mode) : CharClass → Bool
  | .empty => true
  | .literal l => literalIsUsable m l
  | .range first last => literalIsUsable m first && literalIsUsable m last
  | .named negated => if m.unicode then !m.ignoreCase else !negated
  | .escaped negated => escapedIsUsable m negated
  | .bracket negated inside => inside.isUsable m && (m.unicode || !negated)
  | .union items => areUsable m items
  | .combined left right => left.isUsable m && right.isUsable m

def areUsable (m : Mode) : List CharClass → Bool
  | [] => true
  | c :: cs => c.isUsable m && areUsable m cs
end

mutual
def depth : CharClass → Nat
  | .empty | .literal _ | .range .. | .named _ | .escaped _ => 0
  | .bracket _ inside => inside.depth + 1
  | .union items => depthOfAll items + 1
  | .combined left right => max left.depth right.depth + 1

def depthOfAll : List CharClass → Nat
  | [] => 0
  | c :: cs => max c.depth (depthOfAll cs)
end

end CharClass

mutual
/-- The mode after a pattern, if the pattern can be used. A group keeps its switches to itself. -/
def modeAfter? (m : Mode) : Pattern → Option Mode
  | .empty | .anchor => some m
  | .flags change => some (m.change change)
  | .literal l => if l.isUsable m then some m else none
  | .anyChar => if m.unicode then some m else none
  | .wordEdge => if m.unicode then none else some m
  | .escaped negated => if CharClass.escapedIsUsable m negated then some m else none
  | .bracket c => if c.isUsable m then some m else none
  | .repeated p => p.modeAfter? m
  | .group change p => (p.modeAfter? (m.change change)).map fun _ => m
  | .sequence ps | .branches ps => modeAfterAll? m ps

def modeAfterAll? (m : Mode) : List Pattern → Option Mode
  | [] => some m
  | p :: ps =>
    match p.modeAfter? m with
    | some m => modeAfterAll? m ps
    | none => none
end

mutual
def depth : Pattern → Nat
  | .empty | .flags _ | .literal _ | .anyChar | .anchor | .wordEdge | .escaped _ => 0
  | .bracket c => c.depth
  | .repeated p | .group _ p => p.depth + 1
  | .sequence ps | .branches ps => depthOfAll ps + 1

def depthOfAll : List Pattern → Nat
  | [] => 0
  | p :: ps => max p.depth (depthOfAll ps)
end

def maxDepth : Nat := 250

def isUsable (p : Pattern) : Bool := p.depth ≤ maxDepth && (p.modeAfter? {}).isSome

end Pattern

end PracticeShell
