import PracticeShell.Line.Recall
/-! Command lines: a name, its arguments and at most one redirection, read from a typed line and
written in one canonical text. -/
namespace PracticeShell

/-- A line as read. A fault leaves what was read before it in place. -/
structure CommandLine where
  name : String := ""
  args : List String := []
  redirect : Option Redirect := none
  expanded : Bool := false
  fault : Option LineFault := none
deriving DecidableEq, Repr

namespace CommandLine

def isEmpty (l : CommandLine) : Bool := l.name.isEmpty && l.fault.isNone

def sortOut : List Token → List String × Option Redirect × Option LineFault
  | [] => ([], none, none)
  | .word w :: ts =>
    let (words, redirect, fault) := sortOut ts
    (w :: words, redirect, fault)
  | .redirect mode :: .word target :: ts =>
    let (words, redirect, fault) := sortOut ts
    (words, redirect.or (some ⟨mode, target⟩), fault)
  | .redirect _ :: _ => ([], none, some .missingRedirectTarget)
  | .lastLine :: ts | .lineNumber _ :: ts => sortOut ts

def ofTokens (ts : List Token) : CommandLine :=
  let (words, redirect, fault) := sortOut ts
  { name := words.headD "", args := words.tail, redirect, fault }

def read (history : List String) (typed : String) : CommandLine :=
  let tokens := Token.ofLine typed
  match Token.expand history tokens with
  | .ok ts => { ofTokens ts with expanded := tokens.any Token.isReference }
  | .error e => { fault := some e }

def text (l : CommandLine) : String :=
  let words := " ".intercalate (l.name :: l.args)
  match l.redirect with
  | none => words
  | some r => words ++ " " ++ r.mode.symbol ++ " " ++ r.target

end CommandLine

end PracticeShell
