import PracticeShell.Command.Outcome
import PracticeShell.Listing
import PracticeShell.Session.Edit
/-! Running commands, and lines of commands, on a session. Nothing escapes: every failure is an
outcome, and the session goes on from what the failed command left. -/
namespace PracticeShell

namespace Command

def attempt (command operand : String) (edit : Edit Unit) :
    StateM Session (Option Diagnostic) := do
  match ← edit.run with
  | .ok _ => return none
  | .error cause => return some (.file command operand cause)

def failures (act : String → StateM Session (Option Diagnostic)) :
    List String → StateM Session (List Diagnostic)
  | [] => return []
  | operand :: rest => do
    let error ← act operand
    let errors ← failures act rest
    return error.toList ++ errors

def runEach (operands : List String) (act : String → StateM Session (Option Diagnostic)) :
    StateM Session Outcome := do
  return Outcome.ofFailures "" (← failures act operands)

/-- What `ls` shows for one operand. A file shows as typed, hidden or not; a directory has a header
if there are several operands. -/
def section? (s : Session) (long all headers : Bool) (typed : String) : Except Diagnostic String := do
  let path := s.resolve typed
  let t ← (s.find path).mapError (.file "ls" typed)
  let items := match t.node.entries? with
    | none => [Listing.Item.ofNode typed t.node]
    | some entries =>
      (Listing.ofEntries entries).filter fun i => all || !i.isHidden
  let listing :=
    if long then "\n".intercalate (items.map Listing.Item.longText)
    else "  ".intercalate (items.map Listing.Item.name)
  return if headers && t.isDirectory then typed ++ ":\n" ++ listing else listing

def sections (s : Session) (long all headers : Bool) : List String → List String × List Diagnostic
  | [] => ([], [])
  | typed :: rest =>
    let (shown, errors) := sections s long all headers rest
    match section? s long all headers typed with
    | .ok text => (text :: shown, errors)
    | .error e => (shown, e :: errors)

def list (s : Session) (paths : List String) (long all : Bool) : Outcome :=
  let targets := if paths.isEmpty then ["."] else paths
  let headers := 1 < targets.length
  let (shown, errors) := sections s long all headers targets
  Outcome.ofFailures ((if headers then "\n\n" else "\n").intercalate shown) errors

def contents (s : Session) : List String → Except Diagnostic (List String)
  | [] => .ok []
  | typed :: rest => do
    let path := s.resolve typed
    let t ← (s.find path).mapError (.file "cat" typed)
    match t.node.content? with
    | none => throw (.file "cat" typed (.isADirectory path))
    | some text => return text :: (← contents s rest)

/-- Adds a text, on a new line if what stands before it has no line end. -/
def appendContent (before text : String) : String :=
  if before ≠ "" ∧ ¬ Text.endsWith before '\n' then before ++ "\n" ++ text else before ++ text

def concatenate (s : Session) (paths : List String) : Outcome :=
  match contents s paths with
  | .ok texts => .output (texts.foldl appendContent "")
  | .error e => .ofError e

def targetName (target : String) : String :=
  match Text.unquoted? target with
  | some inner => if inner = "" then target else inner
  | none => target

def echoText (now : Instant) (text : String) : Option Redirect → StateM Session Outcome
  | none => return .output text
  | some r => do
    let target := targetName r.target
    let path := (← get).resolve target
    runEach [target] fun typed => attempt "echo" typed (Edit.write now path (text ++ "\n") r.mode)

def destinationError? (s : Session) (path : Path) : Option FileError :=
  match s.find path with
  | .ok t => if t.isDirectory then none else some (.notADirectory path)
  | .error e => some e

/-- Copies or moves a source to a path that was typed as `destination`. The error of the source, or of a
directory above it, names the source; any other names the destination. -/
def transfer (name : String) (edit : Path → Path → Edit Path) (target : Path) (destination typed : String) :
    StateM Session (Option Diagnostic) := do
  let source := (← get).resolve typed
  match ← (edit source target).run with
  | .ok _ => return none
  | .error cause =>
    let operand := if source.isAtOrBelow cause.path then typed else destination
    return some (.file name operand cause)

def copyOrMove (name : String) (edit : Path → Path → Edit Path) (sources : List String)
    (destination : String) : StateM Session Outcome := do
  let s ← get
  let target := s.resolve destination
  match if sources.length > 1 then destinationError? s target else none with
  | some cause => return .ofError (.file name destination cause)
  | none => runEach sources (transfer name edit target destination)

def removeOperand (now : Instant) (recursive force : Bool) (typed : String) :
    StateM Session (Option Diagnostic) := do
  let error ← attempt "rm" typed (Edit.remove now ((← get).resolve typed) recursive)
  return if force && error.any Diagnostic.isNotFound then none else error

def run (now : Instant) : Command → StateM Session Outcome
  | .pwd => do return .output (← get).cursor.text
  | .ls paths long all => do return list (← get) paths long all
  | .cd path => do
    let typed := path.getD "~"
    runEach [typed] fun typed => do
      attempt "cd" typed (Edit.enter ((← get).resolve typed))
  | .mkdir paths parents => runEach paths fun typed => do
      attempt "mkdir" typed (Edit.createDirectory now ((← get).resolve typed) parents)
  | .touch paths => runEach paths fun typed => do
      attempt "touch" typed (Edit.touch now ((← get).resolve typed))
  | .rm paths recursive force => runEach paths (removeOperand now recursive force)
  | .cat paths => do return concatenate (← get) paths
  | .echo text redirect => echoText now text redirect
  | .cp sources destination => copyOrMove "cp" (Edit.copy now) sources destination
  | .mv sources destination => copyOrMove "mv" (Edit.move now) sources destination
  | .clear => return .cleared
  | .help => return .output helpPage
  | .history => do return .output (Listing.historyText (← get).history)
  | .whoami => return .output Session.userName
  | .date => return .output now.fullText

end Command

namespace Session

/-- Runs a typed line. A line of more than blanks is recorded before it runs, as typed but for blanks
at its ends, or in canonical text if an earlier line was recalled.

The clock is read once for a line: `now` is the time of all that the line stamps, where a shell that
reads the clock at each stamp may give its later stamps later times. -/
def runLine (now : Instant) (typed : String) : StateM Session Outcome := do
  let line := CommandLine.read (← get).history typed
  let trimmed := Text.trim typed
  match line.fault with
  | some cause =>
    if trimmed ≠ "" then modify (·.record trimmed)
    return .ofError (.line cause)
  | none =>
    if line.isEmpty then return .empty
    modify (·.record (if line.expanded then line.text else trimmed))
    match Command.read line.name line.args line.redirect with
    | .ok command => command.run now
    | .error e => return .ofError e

end Session

end PracticeShell
