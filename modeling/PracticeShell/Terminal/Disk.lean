import PracticeShell.Path
import PracticeShell.Text.Ends
/-! The files that the program reads and writes: a working directory with files and directories in it,
the system around it, and the errors of that system. -/
namespace PracticeShell

inductive DiskError where
  | missing
  | notADirectory
  | isADirectory
  | nameTooLong
  | other (text : String)
deriving DecidableEq, Repr

def DiskError.message : DiskError → String
  | .missing => "No such file or directory (os error 2)"
  | .notADirectory => "Not a directory (os error 20)"
  | .isADirectory => "Is a directory (os error 21)"
  | .nameTooLong => "File name too long (os error 36)"
  | .other text => text

/-- A place on a disk: a path from the working directory of the program, or one from the root that does
not lead into it. The name of the working directory is not known, so no typed name leads into it from
the root. -/
inductive Location where
  | inside (p : Path)
  | outside (p : Path)
deriving DecidableEq, Repr

namespace Location

def working : Location := .inside Path.root

def aboveWorking : Location := .outside ["tmp"]

def child : Location → String → Location
  | .inside p, name => .inside (p.child name)
  | .outside p, name => .outside (p.child name)

def parent : Location → Location
  | .inside p => if p.isEmpty then aboveWorking else .inside p.dropLast
  | .outside p => .outside p.dropLast

def enter (base : Location) (part : String) : Location :=
  if part = "" ∨ part = "." then base
  else if part = ".." then base.parent
  else base.child part

def start (name : List Char) : Location × List String :=
  match name with
  | '/' :: rest => (.outside Path.root, Path.parts rest)
  | chars => (working, Path.parts chars)

def ofName (name : String) : Location :=
  let (base, parts) := start name.toList
  parts.foldl enter base

def upward : Location → List Location
  | .inside p => (List.range (p.length + 1)).map fun n => .inside (p.take n)
  | .outside p => (List.range (p.length + 1)).map fun n => .outside (p.take n)

/-- The device that is always empty and takes any text. -/
def nullDevice : Location := .outside ["dev", "null"]

def systemDirectories : List Location :=
  List.map .outside <|
    [[], ["bin"], ["dev"], ["etc"], ["home"], ["lib"], ["media"], ["mnt"], ["opt"], ["proc"], ["root"],
      ["run"], ["sbin"], ["srv"], ["sys"], ["tmp"], ["usr"], ["usr", "bin"], ["usr", "lib"],
      ["usr", "local"], ["usr", "local", "bin"], ["usr", "sbin"], ["usr", "share"], ["var"],
      ["var", "lib"], ["var", "log"], ["var", "tmp"]]

end Location

structure Disk where
  files : List (Location × String) := []
  directories : List Location := []
deriving DecidableEq, Repr

namespace Disk

def ofNames (files : List (String × String)) (directories : List String) : Disk :=
  let files := files.map fun f => (Location.ofName f.1, f.2)
  let directories := directories.map Location.ofName ++ files.map fun f => f.1.parent
  { files, directories := directories.flatMap Location.upward }

def file? (d : Disk) (p : Location) : Option String :=
  if p = Location.nullDevice then some "" else d.files.lookup p

def isDirectory (d : Disk) (p : Location) : Bool :=
  p == Location.working || Location.systemDirectories.contains p || d.directories.contains p

def maxPartLength : Nat := 255

def maxNameLength : Nat := 4095

/-- The place that the parts of a name lead to from the directory at `base`. All but the last have to
be directories. -/
def walk (d : Disk) (base : Location) : List String → Except DiskError Location
  | [] => .ok base
  | part :: rest =>
    if !d.isDirectory base then
      .error (if (d.file? base).isSome then .notADirectory else .missing)
    else if maxPartLength < part.utf8ByteSize then .error .nameTooLong
    else walk d (base.enter part) rest

def locate (d : Disk) (name : List Char) : Except DiskError Location :=
  if name.isEmpty then .error .missing
  else
    let (base, parts) := Location.start name
    walk d base parts

def checkName (name : String) : Except DiskError Unit :=
  if name.toList.contains '\x00' then
    .error (.other "file name contained an unexpected NUL byte")
  else if maxNameLength < name.utf8ByteSize then .error .nameTooLong
  else .ok ()

def read (d : Disk) (name : String) : Except DiskError String := do
  checkName name
  let p ← d.locate name.toList
  if d.isDirectory p then throw .isADirectory
  match d.file? p with
  | some text => return text
  | none => throw .missing

def upToLastPart (name : List Char) : List Char :=
  Text.dropEndWhile (· != '/') (Text.dropEndWhile (· == '/') name)

/-- The place that a text can be written to. A name with a slash at its end is that of a directory, in
a directory that has to be there. -/
def target (d : Disk) (name : String) : Except DiskError Location := do
  checkName name
  if Text.endsWith name '/' then
    discard (d.locate (upToLastPart name.toList ++ ['.']))
    throw .isADirectory
  let p ← d.locate name.toList
  if d.isDirectory p then throw .isADirectory
  return p

def write (d : Disk) (name text : String) : Except DiskError Disk := do
  let p ← d.target name
  if p = Location.nullDevice then return d
  return { d with files := (p, text) :: d.files.filter fun f => f.1 ≠ p }

end Disk

end PracticeShell
