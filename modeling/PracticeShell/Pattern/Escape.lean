import PracticeShell.Pattern.Basic
import PracticeShell.Text.Ends
import PracticeShell.Text.Digits
/-! Escapes in patterns, and the blanks and comments that do not count where they are switched off. -/
namespace PracticeShell.Pattern

def dropSpace (inComment : Bool) : List Char → List Char
  | [] => []
  | c :: cs =>
    if inComment then dropSpace (c != '\n') cs
    else if Text.isBlank c then dropSpace false cs
    else if c = '#' then dropSpace true cs
    else c :: cs

def skipSpace (spaced : Bool) (cs : List Char) : List Char :=
  if spaced then dropSpace false cs else cs

inductive Escape where
  | literal (l : Literal)
  | escaped (negated : Bool)
  | anchor
  | wordEdge

def readHex (spaced : Bool) : Nat → Nat → List Char → Option (Nat × List Char)
  | 0, code, cs => some (code, cs)
  | n + 1, code, cs =>
    match skipSpace spaced cs with
    | [] => none
    | c :: cs =>
      match Text.hexValue? c with
      | some v => readHex spaced n (16 * code + v) cs
      | none => none

def readCode (spaced : Bool) (n : Nat) (cs : List Char) : Option (Escape × List Char) := do
  let (code, cs) ← readHex spaced n 0 cs
  guard code.isValidChar
  return (.literal ⟨Char.ofNat code, n == 2⟩, cs)

/-- A letter with a meaning of its own; another ASCII character stands for itself, but not a letter, a
digit or an angle bracket. -/
def ofEscapedChar? (c : Char) : Option Escape :=
  match c with
  | 'd' | 's' | 'w' => some (.escaped false)
  | 'D' | 'S' | 'W' => some (.escaped true)
  | 'A' | 'z' => some .anchor
  | 'b' | 'B' | '<' | '>' => some .wordEdge
  | 'a' => some (.literal ⟨'\x07', false⟩)
  | 'f' => some (.literal ⟨'\x0c', false⟩)
  | 't' => some (.literal ⟨'\t', false⟩)
  | 'n' => some (.literal ⟨'\n', false⟩)
  | 'r' => some (.literal ⟨'\r', false⟩)
  | 'v' => some (.literal ⟨'\x0b', false⟩)
  | c => if c.toNat < 0x80 && !c.isAlphanum then some (.literal ⟨c, false⟩) else none

def readEscape (spaced : Bool) : List Char → Option (Escape × List Char)
  | [] => none
  | 'x' :: cs => readCode spaced 2 cs
  | 'u' :: cs => readCode spaced 4 cs
  | 'U' :: cs => readCode spaced 8 cs
  | c :: cs => (ofEscapedChar? c).map fun e => (e, cs)

end PracticeShell.Pattern
