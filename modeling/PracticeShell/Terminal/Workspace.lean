import PracticeShell.Command.Run
import PracticeShell.Durable
import PracticeShell.Terminal.World
import PracticeShell.Text.Utf8
/-! A session kept in a state file, and the two ways to run lines on it: a list of lines, or a
conversation at a prompt. The file is written after every line. Lines come from a source that gives
with each the reading of the clock: in a workspace on a disk from a list, else as they are typed. -/
namespace PracticeShell

structure Workspace where
  session : Session
  stateFile : Option String
  disk : Disk

namespace Workspace

/-- The session that a state file holds, as far as it can be read; else a new one. -/
def savedSession (now : Instant) : Except DiskError String → Session
  | .ok text => Session.restore now text
  | .error _ => Session.seeded now

/-- The lines of an input, each with its line end if it has one. -/
def rawLines (current : List UInt8) : List UInt8 → List (List UInt8)
  | [] => if current.isEmpty then [] else [current.reverse]
  | b :: bs =>
    if b = 10 then (b :: current).reverse :: rawLines [] bs else rawLines (b :: current) bs

def exitLine : String := "exit"

/-- The line in the given bytes, without its line end; none if it ends the conversation. -/
def lineOf? (bytes : List UInt8) : Option String :=
  let line := Text.Utf8.decode bytes
  if Text.trim line = exitLine then none
  else some (Text.trimEndWhile (fun c => c == '\n' || c == '\r') line)

def promptScreen (style : Screen.Style) (s : Session) : Screen :=
  { output := if style.json then "" else s.prompt }

def endScreen (style : Screen.Style) : Screen := { output := if style.json then "" else "\n" }

end Workspace

namespace Shell
open Workspace
variable {m : Type → Type} [World m] {ρ : Type}

def start (now : Instant) : Option String → m Session
  | none => return Session.seeded now
  | some name => do return savedSession now (← World.read name)

def put (screen : Screen) : Shell m Unit := (World.put screen : m Unit)

def save : Option String → Shell m Unit
  | none => return
  | some name => do
    match ← (World.write name (← get).encode : m (Except DiskError Unit)) with
    | .ok _ => return
    | .error cause => throw (.write name cause)

/-- Runs a line and saves the session. If it cannot be saved there is no outcome. -/
def runLine (stateFile : Option String) (now : Instant) (typed : String) : Shell m Outcome := do
  let (outcome, session) := (Session.runLine now typed).run (← get)
  set session
  save stateFile
  return outcome

/-- Runs each line at its time; `success` is that of the line before. -/
def runLines [ForIn (Shell m) ρ (Instant × String)] (style : Screen.Style)
    (stateFile : Option String) (success : Bool) (lines : ρ) : Shell m Bool := do
  let mut success := success
  for (now, typed) in lines do
    let outcome ← runLine stateFile now typed
    put (outcome.render style)
    success := outcome.success
  return success

/-- Prompts for each line of input and runs it at its time, up to the end of the input or a line that
says `exit`. -/
def converse [ForIn (Shell m) ρ (Instant × List UInt8)] (style : Screen.Style)
    (stateFile : Option String) (input : ρ) : Shell m Bool := do
  put (promptScreen style (← get))
  for (now, bytes) in input do
    let some typed := lineOf? bytes | return true
    let outcome ← runLine stateFile now typed
    put (outcome.render style)
    put (promptScreen style (← get))
  put (endScreen style)
  return true

end Shell

/-- What a run writes, what it leaves, and how it ends: whether its last line succeeded. -/
structure Report where
  screen : Screen
  workspace : Workspace
  ending : Except Failure Bool

namespace Workspace

def play {α : Type} (w : Workspace) (x : Shell OnDisk α) : Played (Except Failure α × Session) :=
  (x.run.run w.session).play w.disk

def after {α : Type} (w : Workspace) (played : Played (α × Session)) : Workspace :=
  { w with session := played.value.2, disk := played.disk }

def report (w : Workspace) (x : Shell OnDisk Bool) : Report :=
  let played := w.play x
  ⟨played.screen, w.after played, played.value.1⟩

def start (now : Instant) (stateFile : Option String) (disk : Disk) : Workspace :=
  let opened := (Shell.start now stateFile : OnDisk Session).play disk
  { session := opened.value, stateFile, disk }

def runLine (now : Instant) (typed : String) (w : Workspace) : Except Failure Outcome × Workspace :=
  let played := w.play (Shell.runLine w.stateFile now typed)
  (played.value.1, w.after played)

def runLines (style : Screen.Style) (success : Bool) (lines : List (Instant × String))
    (w : Workspace) : Report :=
  w.report (Shell.runLines style w.stateFile success lines)

def converse (style : Screen.Style) (input : List (Instant × List UInt8)) (w : Workspace) : Report :=
  w.report (Shell.converse style w.stateFile input)

end Workspace

end PracticeShell
