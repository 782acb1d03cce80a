import PracticeShell.Command.Basic
import PracticeShell.Listing
/-! Completion of a partial line: its first word among the command names, a later word among the
entries of the directory typed so far. -/
namespace PracticeShell

inductive Completion where
  | none
  | single (line : String)
  /-- The line as far as all candidates agree, and the candidates. -/
  | multiple (line : String) (names : List String)
deriving DecidableEq, Repr

namespace Completion

def directoriesOnly? (command : String) : Option Bool :=
  if ["cd", "ls", "mkdir"].contains command then some true
  else if ["cat", "cp", "echo", "mv", "rm", "touch"].contains command then some false
  else Option.none

def commonStart : List Char → List Char → List Char
  | a :: as, b :: bs => if a = b then a :: commonStart as bs else []
  | _, _ => []

def commonStartOfAll : List String → List Char
  | [] => []
  | s :: rest => rest.foldl (fun start t => commonStart start t.toList) s.toList

def ofCommandNames (typed : String) : Completion :=
  match Command.names.filter fun name => Text.startsWith name typed with
  | [] => .none
  | [name] => .single (name ++ " ")
  | names => .multiple (String.ofList (commonStartOfAll names)) names

/-- The entries that may stand for a partial name. Names with a dot at the front are offered only to
a partial name with one. -/
def candidates (name : String) (directories : Bool) (items : List Listing.Item) : List Listing.Item :=
  items.filter fun i =>
    (!directories || i.isDirectory) && (Text.startsWith name "." || !i.isHidden) &&
      Text.startsWith i.name name

/-- `cs` up to and with its last character that satisfies `p`, and the rest. -/
def splitAfterLast (p : Char → Bool) (cs : List Char) : List Char × List Char :=
  let after := (cs.reverse.takeWhile fun c => !p c).reverse
  (cs.take (cs.length - after.length), after)

def ofPath (s : Session) (head typed : List Char) (directories : Bool) : Completion :=
  let (directory, name) := splitAfterLast (· == '/') typed
  let path := if directory.isEmpty then s.cursor else s.resolve (String.ofList directory)
  let before := String.ofList (head ++ directory)
  match (Listing.ofPath? s path).map (candidates (String.ofList name) directories) with
  | Option.none | some [] => .none
  | some [i] => .single (before ++ i.name ++ if i.isDirectory then "/" else " ")
  | some items =>
    .multiple (before ++ String.ofList (commonStartOfAll (items.map Listing.Item.name)))
      (items.map fun i => if i.isDirectory then i.name ++ "/" else i.name)

def ofLine (s : Session) (typed : String) : Completion :=
  let line := typed.toList.dropWhile Text.isBlank
  if line.isEmpty then .none
  else if !line.any Text.isSeparator then ofCommandNames (String.ofList line)
  else
    let (head, word) := splitAfterLast Text.isSeparator line
    let command := String.ofList (line.takeWhile fun c => !Text.isSeparator c)
    if word.head? == some '-' || word.contains '>' then .none
    else
      match directoriesOnly? command with
      | some directories => ofPath s head word directories
      | Option.none => .none

end Completion

end PracticeShell
