/-! Absolute paths in the tree, as the list of names from the root down, and the reading of a typed
path against the cursor. A path is only a name: nothing need exist at it. -/
namespace PracticeShell

abbrev Path := List String

namespace Path

def root : Path := []

def home : Path := ["home", "user"]

/-- Goes one typed part further: nothing for `""` and `.`, up for `..`, never above the root. -/
def enter (base : Path) (part : String) : Path :=
  if part = "" ∨ part = "." then base
  else if part = ".." then base.dropLast
  else base ++ [part]

def parts (text : List Char) : List String := (text.splitOn '/').map String.ofList

def follow (base : Path) (text : List Char) : Path := (parts text).foldl enter base

/-- Reads a typed path: from the root after `/` (and for the empty text), from home after `~`, else
from the cursor. -/
def resolve (cursor : Path) (typed : String) : Path :=
  match typed.toList with
  | [] => root
  | '/' :: rest => follow root rest
  | '~' :: rest => follow home rest
  | chars => follow cursor chars

def text (p : Path) : String := "/" ++ "/".intercalate p

def shortText (p : Path) : String :=
  if home.isPrefixOf p then
    match p.drop home.length with
    | [] => "~"
    | rest => "~/" ++ "/".intercalate rest
  else p.text

def name? (p : Path) : Option String := p.getLast?

def parent? (p : Path) : Option Path := if p.isEmpty then none else some p.dropLast

def child (p : Path) (name : String) : Path := p ++ [name]

def isAtOrBelow (p q : Path) : Bool := q.isPrefixOf p

/-- Name by name, each by code points, which is the order of their UTF-8 bytes. -/
def order (p q : Path) : Ordering := List.compareLex compare p q

/-- A name that a typed path can reach: not empty, no slash in it, and neither `.` nor `..`. -/
def isValidName (name : String) : Bool :=
  name ≠ "" && name ≠ "." && name ≠ ".." && !name.toList.contains '/'

end Path

end PracticeShell
