import PracticeShell.Tree.Basic
/-! A session: a tree, a cursor in it, and the lines entered so far. Nothing else of the shell lives
from one line to the next. -/
namespace PracticeShell

structure Session where
  root : Tree
  cursor : Path
  /-- Entered lines, oldest first. -/
  history : List String
deriving DecidableEq

namespace Session

def userName : String := "user"

def hostName : String := "termlab"

/-- The greatest number of names below the root on any path. -/
def maxDepth : Nat := 32

def empty (now : Instant) : Session := ⟨Tree.emptyDirectory (Stamps.fresh now), Path.root, []⟩

def welcomeText : String :=
  "Welcome to termlab!\n" ++
  "This is a safe sandbox: nothing you do here touches a real disk.\n" ++
  "Try `ls`, `cd documents`, and `cat notes.md` to look around.\n"

def notesText : String :=
  "# Notes\n\n- `pwd` shows where you are\n- `cd ..` goes up one level\n- `cd ~` brings you home\n"

def startupText : String := "# ~/.bashrc\nalias ll='ls -l'\n"

/-- A new session: a home directory with a few files, and the cursor there. -/
def seeded (now : Instant) : Session :=
  let stamps := Stamps.fresh now
  let directory (entries : List (String × Tree)) := Tree.directory entries stamps
  let file (content : String) := Tree.file content stamps
  let user := directory
    [(".bashrc", file startupText),
     ("documents", directory [("notes.md", file notesText)]),
     ("projects", directory []),
     ("welcome.txt", file welcomeText)]
  ⟨directory [("home", directory [("user", user)]), ("tmp", directory [])], Path.home, []⟩

def prompt (s : Session) : String :=
  userName ++ "@" ++ hostName ++ ":" ++ s.cursor.shortText ++ "$ "

def record (s : Session) (line : String) : Session := { s with history := s.history ++ [line] }

def resolve (s : Session) (typed : String) : Path := s.cursor.resolve typed

def find (s : Session) (p : Path) : Except FileError Tree := s.root.find p

def get? (s : Session) (p : Path) : Option Tree := s.root.get? p

def isDirectory (s : Session) (p : Path) : Bool := (s.get? p).any Tree.isDirectory

def contains (s : Session) (typed : String) : Bool := (s.get? (s.resolve typed)).isSome

def read? (s : Session) (typed : String) : Option String := do
  (← s.get? (s.resolve typed)).node.content?

def names? (s : Session) (typed : String) : Option (List String) := do
  let entries ← (← s.get? (s.resolve typed)).node.entries?
  return entries.map Prod.fst

end Session

end PracticeShell
