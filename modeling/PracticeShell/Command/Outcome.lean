import PracticeShell.Command.Basic
/-! What a line answers: a text to show or a cleared screen, success or not, and maybe a hint. -/
namespace PracticeShell

inductive Display where
  | print (text : String)
  | clearScreen
deriving DecidableEq, Repr

structure Outcome where
  display : Display
  success : Bool := true
  hint : Option String := none
deriving DecidableEq, Repr

namespace Outcome

def output (text : String) : Outcome := ⟨.print text, true, none⟩

def empty : Outcome := output ""

def cleared : Outcome := ⟨.clearScreen, true, none⟩

def failure (message : String) (hint : Option String) : Outcome := ⟨.print message, false, hint⟩

def ofError (e : Diagnostic) : Outcome := failure e.message e.hint?

/-- The output if nothing failed; else the output and each error on lines of their own, with the hint
of the first error. -/
def ofFailures (output : String) (errors : List Diagnostic) : Outcome :=
  match errors with
  | [] => .output output
  | e :: _ =>
    let messages := errors.map Diagnostic.message
    failure ("\n".intercalate (if output = "" then messages else output :: messages)) e.hint?

end Outcome

end PracticeShell
