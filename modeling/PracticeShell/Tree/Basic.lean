import PracticeShell.FileError
import PracticeShell.Tree.Node
/-! Trees: nodes whose directories are in order, and the two ways to use a path in them, to walk to
the tree at its end and to change that tree in place. -/
namespace PracticeShell

@[ext] structure Tree where
  node : Node
  ordered : node.Ordered

namespace Tree

instance : DecidableEq Tree := fun t u =>
  decidable_of_iff (t.node = u.node) Tree.ext_iff.symm

def file (content : String) (stamps : Stamps) : Tree := ⟨.file content stamps, trivial⟩

def emptyDirectory (stamps : Stamps) : Tree :=
  ⟨.directory [] stamps, List.Pairwise.nil, trivial⟩

def child? (t : Tree) (name : String) : Option Tree :=
  (t.node.child? name).pmap Tree.mk fun _ h => t.ordered.child h

def put (t : Tree) (name : String) (c : Tree) : Tree :=
  ⟨t.node.put name c.node, t.ordered.put c.ordered name⟩

def remove (t : Tree) (name : String) : Tree := ⟨t.node.remove name, t.ordered.remove name⟩

def touch (t : Tree) (now : Instant) : Tree := ⟨t.node.touch now, t.ordered.touch now⟩

def write (t : Tree) (mode : OpenMode) (text : String) : Tree :=
  ⟨t.node.write mode text, t.ordered.write mode text⟩

def withStamps (t : Tree) (stamps : Stamps) : Tree := ⟨t.node.withStamps stamps, t.ordered.withStamps⟩

/-- The directory of the given entries, a later one replacing an earlier one of its name. -/
def directory (entries : List (String × Tree)) (stamps : Stamps) : Tree :=
  entries.foldl (fun t e => t.put e.1 e.2) (emptyDirectory stamps)

def isDirectory (t : Tree) : Bool := t.node.isDirectory

/-- Walks down from `t`, which stands at `above`. The error names the file that is no directory, or
the first name that is missing. -/
def walk (above : Path) (t : Tree) : List String → Except FileError Tree
  | [] => .ok t
  | name :: rest =>
    if t.isDirectory then
      match t.child? name with
      | some c => walk (above.child name) c rest
      | none => .error (.notFound (above.child name))
    else .error (.notADirectory above)

def find (t : Tree) (p : Path) : Except FileError Tree := walk Path.root t p

def get? (t : Tree) (p : Path) : Option Tree := (t.find p).toOption

/-- Changes the tree at a path; without one there, nothing. -/
def update (f : Tree → Tree) (t : Tree) : Path → Tree
  | [] => f t
  | name :: rest =>
    match t.child? name with
    | some c => t.put name (update f c rest)
    | none => t

theorem node_child? (t : Tree) (name : String) :
    (t.child? name).map Tree.node = t.node.child? name := by
  simp [child?, Option.map_pmap]

end Tree

end PracticeShell
