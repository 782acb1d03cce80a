import PracticeShell.Text.Ends
import PracticeShell.Text.Digits
/-! The tokens of a command line: words, redirections, and references to earlier lines. Words end at
an ASCII blank or at `>`; there is no quoting. -/
namespace PracticeShell

inductive OpenMode where
  | truncate
  | append
deriving DecidableEq, Repr

structure Redirect where
  mode : OpenMode
  target : String
deriving DecidableEq, Repr

def OpenMode.symbol : OpenMode → String
  | .truncate => ">"
  | .append => ">>"

inductive Token where
  | word (text : String)
  | redirect (mode : OpenMode)
  /-- `!!`: the last line. -/
  | lastLine
  /-- `!n` or `!-n`: a line by its number, from the front or from the end. -/
  | lineNumber (n : Int)
deriving DecidableEq, Repr

namespace Token

def isReference : Token → Bool
  | .lastLine | .lineNumber _ => true
  | .word _ | .redirect _ => false

/-- An optional minus and digits, if the number fits in 32 signed bits. -/
def number? (cs : List Char) : Option Int :=
  let negative := cs.head? == some '-'
  let ds := if negative then cs.tail else cs
  if ds.isEmpty || !ds.all Char.isDigit then none
  else
    let n : Int := if negative then -(Text.digitsValue ds : Int) else Text.digitsValue ds
    if -2147483648 ≤ n ∧ n ≤ 2147483647 then some n else none

def ofRun : List Char → Token
  | ['!', '!'] => .lastLine
  | '!' :: cs =>
    match number? cs with
    | some n => .lineNumber n
    | none => .word (String.ofList ('!' :: cs))
  | cs => .word (String.ofList cs)

/-- The token of a finished run, given last character first; none if nothing was read. -/
def flush (run : List Char) : List Token := if run.isEmpty then [] else [ofRun run.reverse]

def scan (run : List Char) : List Char → List Token
  | [] => flush run
  | '>' :: '>' :: cs => flush run ++ redirect .append :: scan [] cs
  | '>' :: cs => flush run ++ redirect .truncate :: scan [] cs
  | c :: cs => if Text.isSeparator c then flush run ++ scan [] cs else scan (c :: run) cs

def ofLine (line : String) : List Token := scan [] line.toList

end Token

end PracticeShell
