import PracticeShell.Line.CommandLine
import PracticeShell.FileError
import PracticeShell.Text.Ends
/-! Commands, what their errors say, the reading of a command from the words of a line, and the text
that `help` shows. -/
namespace PracticeShell

inductive Diagnostic where
  | missingOperand (command usage : String)
  | unknownCommand (name : String)
  | line (cause : LineFault)
  | unsupportedRedirect (command : String)
  | file (command operand : String) (cause : FileError)
deriving DecidableEq, Repr

namespace Diagnostic

def message : Diagnostic → String
  | .missingOperand command _ => command ++ ": missing operand"
  | .unknownCommand name => name ++ ": command not found"
  | .line cause => cause.message
  | .unsupportedRedirect command => command ++ ": output redirection is only supported by echo"
  | .file command operand cause => command ++ ": " ++ operand ++ ": " ++ cause.reason

def isNotFound : Diagnostic → Bool
  | .file _ _ (.notFound _) => true
  | _ => false

def fileHint? (command : String) : FileError → Option String
  | .notFound _ =>
    if command = "cd" then some "Use 'ls' to see the directories you can enter."
    else some "Use 'ls' to check the name and location."
  | .notADirectory _ =>
    if command = "cd" then some "Use 'ls' to see the directories you can enter." else none
  | .isADirectory _ =>
    if command = "rm" then some "Use 'rm -r' to remove a directory and its contents."
    else if command = "cat" then some "Use 'ls' to list a directory's contents."
    else none
  | .alreadyExists _ =>
    if command = "mkdir" then some "Choose a different name, or 'cd' into the existing one."
    else none
  | _ => none

def hint? : Diagnostic → Option String
  | .missingOperand _ usage => some ("Usage: " ++ usage)
  | .unknownCommand _ => some "Type 'help' to see the available commands."
  | .line .missingRedirectTarget => some "Usage: echo <text> > <file>"
  | .line _ => some "Type 'history' to see the numbered lines."
  | .unsupportedRedirect _ => some "Try: echo <text> > <file>"
  | .file command _ cause => fileHint? command cause

end Diagnostic

inductive Command where
  | pwd
  | ls (paths : List String) (long all : Bool)
  | cd (path : Option String)
  | mkdir (paths : List String) (parents : Bool)
  | touch (paths : List String)
  | rm (paths : List String) (recursive force : Bool)
  | cat (paths : List String)
  | echo (text : String) (redirect : Option Redirect)
  | cp (sources : List String) (destination : String)
  | mv (sources : List String) (destination : String)
  | clear
  | help
  | history
  | whoami
  | date
deriving DecidableEq, Repr

namespace Command

def names : List String :=
  ["cat", "cd", "clear", "cp", "date", "echo", "help", "history", "ls", "mkdir", "mv", "pwd", "rm",
    "touch", "whoami"]

def name : Command → String
  | .pwd => "pwd"
  | .ls .. => "ls"
  | .cd _ => "cd"
  | .mkdir .. => "mkdir"
  | .touch _ => "touch"
  | .rm .. => "rm"
  | .cat _ => "cat"
  | .echo .. => "echo"
  | .cp .. => "cp"
  | .mv .. => "mv"
  | .clear => "clear"
  | .help => "help"
  | .history => "history"
  | .whoami => "whoami"
  | .date => "date"

/-- Parts the flag letters of `-xyz` arguments from the operands. `--` makes operands of all that
follow; a lone `-` is an operand. -/
def flagsAndOperands : List String → List Char × List String
  | [] => ([], [])
  | arg :: rest =>
    if arg = "--" then ([], rest)
    else
      let (flags, operands) := flagsAndOperands rest
      match arg.toList with
      | '-' :: c :: cs => (c :: cs ++ flags, operands)
      | _ => (flags, arg :: operands)

def someOperands (name usage : String) (operands : List String) : Except Diagnostic (List String) :=
  if operands.isEmpty then .error (.missingOperand name usage) else .ok operands

def lastAsDestination (name usage : String) (operands : List String) :
    Except Diagnostic (List String × String) :=
  match operands.dropLast, operands.getLast? with
  | [], _ | _, none => .error (.missingOperand name usage)
  | sources, some destination => .ok (sources, destination)

def ofOperands (name : String) (flags : List Char) (operands : List String) :
    Except Diagnostic Command :=
  match name with
  | "pwd" => .ok .pwd
  | "ls" => .ok (.ls operands (flags.contains 'l') (flags.contains 'a'))
  | "cd" => .ok (.cd operands.head?)
  | "mkdir" => do
    let paths ← someOperands "mkdir" "mkdir [-p] <dir>..." operands
    return .mkdir paths (flags.contains 'p')
  | "touch" => do return .touch (← someOperands "touch" "touch <file>..." operands)
  | "rm" => do
    let paths ← someOperands "rm" "rm [-r] [-f] <path>..." operands
    return .rm paths (flags.contains 'r' || flags.contains 'R') (flags.contains 'f')
  | "cat" => do return .cat (← someOperands "cat" "cat <file>..." operands)
  | "cp" => do
    let (sources, destination) ← lastAsDestination "cp" "cp [-r] <src>... <dst>" operands
    return .cp sources destination
  | "mv" => do
    let (sources, destination) ← lastAsDestination "mv" "mv <src>... <dst>" operands
    return .mv sources destination
  | "clear" => .ok .clear
  | "help" => .ok .help
  | "history" => .ok .history
  | "whoami" => .ok .whoami
  | "date" => .ok .date
  | _ => .error (.unknownCommand name)

/-- Reads a command from its name, arguments and redirection. `echo` takes its arguments as they
are, without one pair of quotes around them all, and alone takes a redirection. -/
def read (name : String) (args : List String) (redirect : Option Redirect) :
    Except Diagnostic Command :=
  if name = "echo" then
    let text := " ".intercalate args
    .ok (.echo ((Text.unquoted? text).getD text) redirect)
  else do
    let (flags, operands) := flagsAndOperands args
    let command ← ofOperands name flags operands
    if redirect.isSome then throw (.unsupportedRedirect name)
    return command

def helpLines : List String :=
  ["Available commands:",
    "",
    "  pwd                     print the current directory",
    "  ls [path] [-l] [-a]     list directory contents (-l long format, -a show hidden)",
    "  cd [path]               change directory (no argument or ~ goes home)",
    "  mkdir <name> [-p]       create a directory (-p creates missing parents)",
    "  touch <name>            create an empty file or update its timestamp",
    "  rm <path> [-r] [-f]     remove a file (-r for directories, -f ignores missing)",
    "  cat <file>...           print file contents",
    "  echo <text>             print text",
    "  echo <text> > <file>    write text to a file (>> appends)",
    "  cp <src> <dst>          copy a file or directory",
    "  mv <src> <dst>          move or rename a file or directory",
    "  clear                   clear the screen",
    "  history                 show previously entered commands",
    "  whoami                  print the current user",
    "  date                    print the current date and time",
    "  help                    show this help",
    "",
    "Paths: /absolute, relative, ~/from-home, . (here), .. (up one level)",
    "History: !! repeats the last command, !n runs command number n"]

def helpPage : String := "\n".intercalate helpLines

end Command

end PracticeShell
