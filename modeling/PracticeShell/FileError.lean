import PracticeShell.Path
/-! Why an operation on the tree is refused. -/
namespace PracticeShell

inductive FileError where
  | notFound (path : Path)
  | notADirectory (path : Path)
  | isADirectory (path : Path)
  | alreadyExists (path : Path)
  | rootDirectory (path : Path)
  | sameFile (source destination : Path)
  | intoItself (source destination : Path)
  | tooDeep (path : Path)
deriving DecidableEq, Repr

namespace FileError

/-- The path at fault; the source where there are two. -/
def path : FileError → Path
  | .notFound p | .notADirectory p | .isADirectory p | .alreadyExists p | .rootDirectory p
  | .tooDeep p | .sameFile p _ | .intoItself p _ => p

def reason : FileError → String
  | .notFound _ => "No such file or directory"
  | .notADirectory _ => "Not a directory"
  | .isADirectory _ => "Is a directory"
  | .alreadyExists _ => "File exists"
  | .rootDirectory _ => "Operation not permitted on the root directory"
  | .sameFile .. => "Source and destination are the same file"
  | .intoItself .. => "Cannot move a directory into itself"
  | .tooDeep _ => "File name too long"

def message : FileError → String
  | .sameFile source destination =>
    "'" ++ source.text ++ "' and '" ++ destination.text ++ "' are the same file"
  | .intoItself source destination =>
    "cannot move '" ++ source.text ++ "' to a subdirectory of itself, '" ++ destination.text ++ "'"
  | e => e.path.text ++ ": " ++ e.reason

end FileError

end PracticeShell
