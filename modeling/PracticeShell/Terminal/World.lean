import PracticeShell.Session.Basic
import PracticeShell.Terminal.Disk
import PracticeShell.Terminal.Screen
import PracticeShell.Text.Quoted
/-! The world that the program runs in: files to read and write, and a screen. What the program does is
written once, for every such world, and a disk in memory is one of them. -/
namespace PracticeShell

class World (m : Type → Type) extends Monad m where
  read (name : String) : m (Except DiskError String)
  write (name text : String) : m (Except DiskError Unit)
  put (screen : Screen) : m Unit

/-- Why the program ends early. Failed commands are no such reason. -/
inductive Failure where
  | read (name : String) (cause : DiskError)
  | write (name : String) (cause : DiskError)
  | config (name : String)
  | logLevel (level : String)
deriving DecidableEq, Repr

def Failure.message : Failure → String
  | .read name cause => "cannot read " ++ name ++ ": " ++ cause.message
  | .write name cause => "cannot write " ++ name ++ ": " ++ cause.message
  | .config name => "invalid config file " ++ name
  | .logLevel level => "invalid log level " ++ Text.quoted level

/-- What is done in a world with a session at hand, which is left also on a failure. -/
abbrev Shell (m : Type → Type) := ExceptT Failure (StateT Session m)

structure Played (α : Type) where
  value : α
  disk : Disk
  screen : Screen

structure OnDisk (α : Type) where
  play : Disk → Played α

namespace OnDisk

instance : Monad OnDisk where
  pure a := ⟨fun disk => ⟨a, disk, .blank⟩⟩
  bind x f := ⟨fun disk =>
    let first := x.play disk
    let second := (f first.value).play first.disk
    { second with screen := first.screen ++ second.screen }⟩

instance : World OnDisk where
  read name := ⟨fun disk => ⟨disk.read name, disk, .blank⟩⟩
  write name text := ⟨fun disk =>
    match disk.write name text with
    | .ok disk => ⟨.ok (), disk, .blank⟩
    | .error cause => ⟨.error cause, disk, .blank⟩⟩
  put screen := ⟨fun disk => ⟨(), disk, screen⟩⟩

section
variable {α β : Type} (disk : Disk)

@[simp] theorem play_pure (a : α) : (pure a : OnDisk α).play disk = ⟨a, disk, .blank⟩ := rfl

@[simp] theorem play_bind (x : OnDisk α) (f : α → OnDisk β) : (x >>= f).play disk =
    let first := x.play disk
    let second := (f first.value).play first.disk
    { second with screen := first.screen ++ second.screen } := rfl

@[simp] theorem play_map (f : α → β) (x : OnDisk α) : (f <$> x).play disk =
    let played := x.play disk
    { played with value := f played.value } :=
  congrArg (Played.mk _ _) (Screen.append_blank _)

@[simp] theorem play_read (name : String) :
    (World.read name : OnDisk _).play disk = ⟨disk.read name, disk, .blank⟩ := rfl

@[simp] theorem play_put (screen : Screen) :
    (World.put screen : OnDisk Unit).play disk = ⟨(), disk, screen⟩ := rfl

end

theorem play_inj {α : Type} {x y : OnDisk α} (h : x.play = y.play) : x = y := by
  cases x
  cases y
  cases h
  rfl

instance : LawfulMonad OnDisk := LawfulMonad.mk' OnDisk
  (fun _ => play_inj (funext fun _ => congrArg (Played.mk _ _) (Screen.append_blank _)))
  (fun _ _ => play_inj (funext fun _ => congrArg (Played.mk _ _) (Screen.blank_append _)))
  (fun _ _ _ => play_inj (funext fun _ => congrArg (Played.mk _ _) (Screen.append_assoc _ _ _)))

end OnDisk

end PracticeShell
