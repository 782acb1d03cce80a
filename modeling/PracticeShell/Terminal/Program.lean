import PracticeShell.Terminal.ConfigFile
import PracticeShell.Terminal.LogFilter
import PracticeShell.Terminal.Workspace
/-! The program: options, config file and log filter first, then lines or a conversation. -/
namespace PracticeShell

namespace Program

def configOf (name : String) : Except DiskError String → Except Failure ConfigFile
  | .error cause => .error (.read name cause)
  | .ok text =>
    match ConfigFile.read? text with
    | some config => .ok config
    | none => .error (.config name)

def settle (environment : Option String) (o : Options) (c : ConfigFile) : Except Failure Settings :=
  let settings := Settings.merge o c
  match LogFilter.inForce? o.logLevel environment settings.logLevel with
  | some _ => .ok settings
  | none => .error (.logLevel (LogFilter.chosen o.logLevel environment settings.logLevel))

/-- The exit status: 0 after success, 1 if the last line failed, 2 if the program could not go on. -/
def codeOf : Except Failure Bool → Nat
  | .ok true => 0
  | .ok false => 1
  | .error _ => 2

section
variable {m : Type → Type} [World m] {ρ σ : Type}

def prepare (environment : Option String) (o : Options) : ExceptT Failure m Settings := do
  let config ← match o.configFile with
    | some name => configOf name (← (World.read name : m (Except DiskError String)))
    | none => pure {}
  settle environment o config

variable [ForIn (Shell m) ρ (Instant × String)] [ForIn (Shell m) σ (Instant × List UInt8)]

def talk (settings : Settings) (o : Options) (lines : List String → ρ) (input : σ) : Shell m Bool :=
  let style : Screen.Style := ⟨settings.json, settings.showHints⟩
  if o.lines.isEmpty then Shell.converse style settings.stateFile input
  else Shell.runLines style settings.stateFile true (lines o.lines)

/-- The whole program. Lines to run come from `lines`, those of a conversation from `input`. -/
def perform (clock : m Instant) (environment : Option String) (lines : List String → ρ) (input : σ)
    (o : Options) : ExceptT Failure m Bool := do
  let settings ← prepare environment o
  let session ← (do Shell.start (← clock) settings.stateFile : m Session)
  ExceptT.mk ((talk settings o lines input).run.run' session)

end

structure Setting where
  /-- The reading of the clock, which stands still. -/
  now : Instant
  environment : Option String
  input : List UInt8
  disk : Disk

def Setting.timed {α : Type} (s : Setting) (xs : List α) : List (Instant × α) :=
  xs.map fun x => (s.now, x)

structure Result where
  screen : Screen
  disk : Disk
  ending : Except Failure Bool

def run (s : Setting) (o : Options) : Result :=
  let input := s.timed (Workspace.rawLines [] s.input)
  let performed : ExceptT Failure OnDisk Bool :=
    perform (pure s.now) s.environment s.timed input o
  let played := performed.run.play s.disk
  ⟨played.screen, played.disk, played.value⟩

end Program

end PracticeShell
