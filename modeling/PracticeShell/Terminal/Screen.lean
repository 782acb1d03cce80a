import PracticeShell.Command.Outcome
import PracticeShell.Json.Writer
/-! What a terminal shows of an outcome: its output as plain text with hints apart, or one line of JSON
for each outcome. -/
namespace PracticeShell

@[ext]
structure Screen where
  output : String := ""
  errors : String := ""
deriving DecidableEq, Repr

namespace Screen

def append (a b : Screen) : Screen := ⟨a.output ++ b.output, a.errors ++ b.errors⟩

instance : Append Screen := ⟨append⟩

def blank : Screen := {}

section
variable (a b c : Screen)

@[simp] theorem output_append : (a ++ b).output = a.output ++ b.output := rfl

@[simp] theorem errors_append : (a ++ b).errors = a.errors ++ b.errors := rfl

theorem append_assoc : a ++ b ++ c = a ++ (b ++ c) := by
  ext1 <;> simp [String.append_assoc]

@[simp] theorem blank_append : blank ++ a = a := by
  ext1 <;> simp [blank]

@[simp] theorem append_blank : a ++ blank = a := by
  ext1 <;> simp [blank]

end

def clearCode : String := "\x1b[2J\x1b[H"

structure Style where
  json : Bool := false
  showHints : Bool := true
deriving DecidableEq, Repr

end Screen

namespace Display

def toJson : Display → Json
  | .print text => .ofMembers [("kind", .ofText "print"), ("text", .ofText text)]
  | .clearScreen => .ofMembers [("kind", .ofText "clear_screen")]

def plainText : Display → String
  | .clearScreen => Screen.clearCode
  | .print text => if text = "" ∨ Text.endsWith text '\n' then text else text ++ "\n"

end Display

namespace Outcome

def toJson (o : Outcome) : Json :=
  .ofMembers <|
    [("action", o.display.toJson), ("success", .boolean o.success)] ++
      match o.hint with
      | some hint => [("hint", .ofText hint)]
      | none => []

def render (style : Screen.Style) (o : Outcome) : Screen :=
  if style.json then { output := o.toJson.text ++ "\n" }
  else
    { output := o.display.plainText
      errors := match o.hint with
        | some hint => if style.showHints then "hint: " ++ hint ++ "\n" else ""
        | none => "" }

end Outcome

end PracticeShell
