import PracticeShell.Terminal.Program
import Std.Time.DateTime.Timestamp
/-! The command line. It reads arguments, environment, clock, files and input, and writes what the
library answers. -/
namespace PracticeShell.Main

def usage : String :=
  "Usage: termlab [-c LINE]... [--state FILE] [--json] [--config FILE] [--log-level LEVEL]"

def readClock : IO Instant := do
  let t ← Std.Time.Timestamp.now
  return (Instant.ofUnix? t.val.second.val t.val.nano.val.toNat).getD Instant.epoch

def diskError : IO.Error → DiskError
  | .noFileOrDirectory .. => .missing
  | .inappropriateType _ 20 _ => .notADirectory
  | .inappropriateType _ 21 _ => .isADirectory
  | .invalidArgument _ 36 _ => .nameTooLong
  | e => .other (toString e)

def readText (name : String) : IO (Except DiskError String) := do
  match ← (IO.FS.readBinFile name).toBaseIO with
  | .error e => return .error (diskError e)
  | .ok bytes =>
    match String.fromUTF8? bytes with
    | some text => return .ok text
    | none => return .error (.other "stream did not contain valid UTF-8")

def writeText (name text : String) : IO (Except DiskError Unit) := do
  match ← (IO.FS.writeFile name text).toBaseIO with
  | .error e => return .error (diskError e)
  | .ok _ => return .ok ()

def put (screen : Screen) : IO Unit := do
  let output ← IO.getStdout
  output.putStr screen.output
  output.flush
  (← IO.getStderr).putStr screen.errors

instance : World IO where
  read := readText
  write := writeText
  put := put

/-- Lines from the arguments, each taken when it is its turn. -/
structure GivenLines where
  lines : List String

instance : ForIn (Shell IO) GivenLines (Instant × String) where
  forIn given b act := forIn given.lines b fun typed b => do act (← readClock, typed) b

structure TypedLines where
  stream : IO.FS.Stream

partial def readLine (input : IO.FS.Stream) (line : List UInt8) : IO (List UInt8) := do
  match (← input.read 1).toList with
  | [] => return line.reverse
  | b :: _ => if b = 10 then return (b :: line).reverse else readLine input (b :: line)

partial def TypedLines.forEach {β : Type} (input : TypedLines)
    (act : Instant × List UInt8 → β → Shell IO (ForInStep β)) (b : β) : Shell IO β := do
  let bytes ← readLine input.stream []
  if bytes.isEmpty then return b
  match ← act (← readClock, bytes) b with
  | .done b => return b
  | .yield b => input.forEach act b

instance : ForIn (Shell IO) TypedLines (Instant × List UInt8) where
  forIn input b act := input.forEach act b

def run (o : Options) : IO (Except Failure Bool) := do
  let environment ← IO.getEnv "TERMLAB_LOG"
  (Program.perform readClock environment GivenLines.mk (TypedLines.mk (← IO.getStdin)) o).run

end PracticeShell.Main

open PracticeShell in
def main (args : List String) : IO UInt32 := do
  match Options.read args with
  | .error .displayHelp =>
    IO.println Main.usage
    return 0
  | .error .displayVersion =>
    IO.println "termlab 0.1.0"
    return 0
  | .error stop =>
    IO.eprintln Main.usage
    return stop.code.toUInt32
  | .ok o =>
    let ending ← Main.run o
    if let .error failure := ending then IO.eprintln ("termlab: " ++ failure.message)
    return (Program.codeOf ending).toUInt32
