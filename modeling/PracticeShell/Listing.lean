import PracticeShell.Session.Basic
import PracticeShell.Time.Instant
import PracticeShell.Text.Ends
/-! Listings: what is shown of an entry of a directory, and the numbered history. -/
namespace PracticeShell

structure Listing.Item where
  name : String
  isDirectory : Bool
  size : Nat
  modified : Instant
deriving DecidableEq, Repr

namespace Listing

def Item.ofNode (name : String) (n : Node) : Item := ⟨name, n.isDirectory, n.size, n.stamps.modified⟩

def Item.isHidden (i : Item) : Bool := Text.startsWith i.name "."

def directorySize : Nat := 4096

def Item.longText (i : Item) : String :=
  let permissions := if i.isDirectory then "drwxr-xr-x" else "-rw-r--r--"
  let size := if i.isDirectory then directorySize else i.size
  permissions ++ " 1 " ++ Session.userName ++ " " ++ Session.userName ++ " " ++
    String.ofList (Text.padStart 6 ' ' (Text.decimal size)) ++ " " ++
    i.modified.shortText ++ " " ++ i.name

def ofEntries (entries : Entries Node) : List Item := entries.map fun e => Item.ofNode e.1 e.2

def ofPath? (s : Session) (p : Path) : Option (List Item) := do
  let entries ← (← s.get? p).node.entries?
  return ofEntries entries

def numbered (i : Nat) (line : String) : String :=
  String.ofList (Text.padStart 5 ' ' (Text.decimal (i + 1))) ++ "  " ++ line

def historyText (lines : List String) : String := "\n".intercalate (lines.mapIdx numbered)

end Listing

end PracticeShell
