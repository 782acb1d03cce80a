import PracticeShell.Line.Token
/-! Recalled lines. A reference to an earlier line stands for that line's tokens, whose own
references are dropped; the line that results is bounded in length. -/
namespace PracticeShell

inductive LineFault where
  | missingRedirectTarget
  | eventNotFound (reference : String)
  | expansionTooLong
deriving DecidableEq, Repr

/-- The longest line, in bytes, that recalling may produce. -/
def longestLine : Nat := 4096

def LineFault.message : LineFault → String
  | .missingRedirectTarget => "syntax error near unexpected token `newline'"
  | .eventNotFound reference => reference ++ ": event not found"
  | .expansionTooLong => "history expansion exceeds " ++ toString longestLine ++ " bytes"

namespace Token

/-- The bytes that a token adds to a line, with the blank before it. -/
def length : Token → Nat
  | .word w => w.utf8ByteSize + 1
  | .redirect .truncate => 2
  | .redirect .append => 3
  | .lastLine => 3
  | .lineNumber n => (toString n).utf8ByteSize + 2

def totalLength : List Token → Nat
  | [] => 0
  | t :: ts => t.length + totalLength ts

/-- The line numbered `n` from 1, or from the end if `n` is negative. -/
def lineAt? (history : List String) (n : Int) : Option String :=
  if 0 < n then history[n.toNat - 1]?
  else if n < 0 ∧ n.natAbs ≤ history.length then history[history.length - n.natAbs]?
  else none

def recalled (line : String) : List Token := (ofLine line).filter fun t => !t.isReference

def meaning (history : List String) : Token → Except LineFault (List Token)
  | .lastLine =>
    match history.getLast? with
    | some line => .ok (recalled line)
    | none => .error (.eventNotFound "!!")
  | .lineNumber n =>
    match lineAt? history n with
    | some line => .ok (recalled line)
    | none => .error (.eventNotFound ("!" ++ toString n))
  | t => .ok [t]

/-- Replaces each reference, `length` being the bytes of what stands before. The bound is looked at
after each reference. -/
def expandFrom (history : List String) (length : Nat) : List Token → Except LineFault (List Token)
  | [] => .ok []
  | t :: ts => do
    let here ← t.meaning history
    let length := length + totalLength here
    if t.isReference ∧ longestLine < length then throw .expansionTooLong
    let rest ← expandFrom history length ts
    return here ++ rest

def expand (history : List String) (ts : List Token) : Except LineFault (List Token) :=
  expandFrom history 0 ts

end Token

end PracticeShell
