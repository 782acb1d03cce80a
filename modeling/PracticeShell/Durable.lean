import PracticeShell.Json.Reader
import PracticeShell.Json.Writer
import PracticeShell.Session.Basic
import PracticeShell.Text.Quoted
import PracticeShell.Time.Rfc3339
/-! The durable form of a session: one JSON object with a version, the tree, the cursor and the history.
To read it back, a text is first read into an envelope, whose parts may be written as objects or as
arrays of their fields in order; the session in it is then checked. -/
namespace PracticeShell

def Durable.version : Nat := 1

def Stamps.toJson (s : Stamps) : Json :=
  .ofMembers [("created_at", .ofText s.created.text), ("modified_at", .ofText s.modified.text)]

mutual
def Node.toJson : Node → Json
  | .file content s =>
    .ofMembers [("type", .ofText "file"), ("content", .ofText content), ("meta", s.toJson)]
  | .directory es s =>
    .ofMembers
      [("type", .ofText "directory"), ("children", .object (Node.entriesToJson es)),
        ("meta", s.toJson)]

def Node.entriesToJson : List (String × Node) → List (Option String × Json)
  | [] => []
  | (name, n) :: es => (some name, n.toJson) :: Node.entriesToJson es
end

namespace Session

def toJson (s : Session) : Json :=
  .ofMembers
    [("version", .ofNat Durable.version), ("root", s.root.node.toJson),
      ("cwd", .array (s.cursor.map Json.ofText)), ("history", .array (s.history.map Json.ofText))]

def encode (s : Session) : String := s.toJson.text

end Session

namespace Durable

inductive Rejection where
  /-- No JSON text, or not of the right shape. -/
  | malformed
  | unsupportedVersion (found : Nat)
  | rootNotDirectory
  | invalidName (name : String)
  | tooDeep
  | invalidCursor (cursor : Path)
deriving DecidableEq, Repr

def Rejection.message : Rejection → String
  | .malformed => "malformed durable form"
  | .unsupportedVersion found =>
    "unsupported durable form version " ++ toString found ++ " (expected " ++ toString version ++ ")"
  | .rootNotDirectory => "root node is not a directory"
  | .invalidName name => "invalid entry name " ++ Text.quoted name
  | .tooDeep => "tree is deeper than 32 levels"
  | .invalidCursor cursor => "working directory " ++ cursor.text ++ " is not an existing directory"

def textOf? : Json → Option String
  | .string text => text
  | _ => none

def textsOf? : Json → Option (List String)
  | .array items => items.mapM textOf?
  | _ => none

/-- The only value with the given key; none at all if the key is missing, an error if it comes twice. -/
def only? (key : String) (members : List (Option String × Json)) : Option (Option Json) :=
  match members.filter fun m => m.1 == some key with
  | [] => some none
  | [m] => some (some m.2)
  | _ => none

def instant? (j : Json) : Option Instant := (textOf? j).bind Instant.read?

def stamps? : Json → Option Stamps
  | .array [created, modified] => do return ⟨← instant? created, ← instant? modified⟩
  | .object members => do
    let created ← (← only? "created_at" members)
    let modified ← (← only? "modified_at" members)
    return ⟨← instant? created, ← instant? modified⟩
  | _ => none

inductive Kind where
  | directory
  | file

/-- The kind of a node by its name; below the root also by its number. -/
def kind? (belowRoot : Bool) : Json → Option Kind
  | .string text =>
    if text = some "directory" then some .directory
    else if text = some "file" then some .file
    else none
  | .number spelling =>
    if !belowRoot then none
    else match Json.natOfSpelling? spelling with
      | some 0 => some .directory
      | some 1 => some .file
      | _ => none
  | _ => none

/-- The members of an object that describes a node, by key, each list in order. The entries are read
as soon as they are met; whether they matter depends on the kind. -/
structure Draft where
  kinds : List Json := []
  contents : List Json := []
  stamps : List Json := []
  children : List (Option (List (String × Tree))) := []

def Draft.tree? (belowRoot : Bool) (d : Draft) : Option Tree :=
  match d.kinds, d.stamps with
  | [kind], [stamps] => do
    match ← kind? belowRoot kind, d.contents, d.children with
    | .directory, _, [children] => return Tree.directory (← children) (← stamps? stamps)
    | .file, [content], _ => return Tree.file (← textOf? content) (← stamps? stamps)
    | _, _, _ => none
  | _, _ => none

mutual
def tree? (belowRoot : Bool) : Json → Option Tree
  | .object members => (draft members).tree? belowRoot
  | .array [kind, field, stamps] => do
    match ← kind? belowRoot kind with
    | .directory => return Tree.directory (← children? field) (← stamps? stamps)
    | .file => return Tree.file (← textOf? field) (← stamps? stamps)
  | _ => none

def draft : List (Option String × Json) → Draft
  | [] => {}
  | (key, j) :: rest =>
    let d := draft rest
    if key = some "type" then { d with kinds := j :: d.kinds }
    else if key = some "content" then { d with contents := j :: d.contents }
    else if key = some "meta" then { d with stamps := j :: d.stamps }
    else if key = some "children" then { d with children := children? j :: d.children }
    else d

def children? : Json → Option (List (String × Tree))
  | .object members => entries? members
  | _ => none

def entries? : List (Option String × Json) → Option (List (String × Tree))
  | [] => some []
  | (key, j) :: rest => do
    let name ← key
    let t ← tree? true j
    return (name, t) :: (← entries? rest)
end

structure Envelope where
  version : Nat
  root : Tree
  cursor : Path
  history : List String

/-- The greatest nesting of the parts of an envelope, which is itself one level. -/
def maxNesting : Nat := 126

def version? : Json → Option Nat
  | .number spelling => (Json.natOfSpelling? spelling).filter (· < 4294967296)
  | _ => none

def Envelope.ofParts? (version root cursor : Json) (history : Option Json) : Option Envelope := do
  guard (([version, root, cursor] ++ history.toList).all (Json.isSound maxNesting))
  return {
    version := ← version? version
    root := ← tree? false root
    cursor := ← textsOf? cursor
    history := ← match history with
      | some h => textsOf? h
      | none => some [] }

/-- Reads an envelope. Members with other keys are skipped, whatever is in them. -/
def Envelope.ofJson? : Json → Option Envelope
  | .object members => do
    guard (members.all fun m => m.1.isSome)
    ofParts? (← (← only? "version" members)) (← (← only? "root" members))
      (← (← only? "cwd" members)) (← only? "history" members)
  | .array [version, root, cursor] => ofParts? version root cursor none
  | .array [version, root, cursor, history] => ofParts? version root cursor (some history)
  | _ => none

def Envelope.read? (text : String) : Option Envelope := (Json.read? text).bind ofJson?

mutual
/-- Refuses a directory with entries below the greatest depth, and bad names, in the order of the
tree. `depth` is that of the entries. -/
def check (depth : Nat) : Node → Except Rejection Unit
  | .file .. => .ok ()
  | .directory es _ =>
    if !es.isEmpty && Session.maxDepth < depth then .error .tooDeep else checkEntries depth es

def checkEntries (depth : Nat) : List (String × Node) → Except Rejection Unit
  | [] => .ok ()
  | (name, n) :: es =>
    if Path.isValidName name then do
      check (depth + 1) n
      checkEntries depth es
    else .error (.invalidName name)
end

def Envelope.session (e : Envelope) : Except Rejection Session := do
  if e.version ≠ Durable.version then throw (.unsupportedVersion e.version)
  if !e.root.isDirectory then throw .rootNotDirectory
  check 1 e.root.node
  let s : Session := ⟨e.root, e.cursor, e.history⟩
  if s.isDirectory e.cursor then return s else throw (.invalidCursor e.cursor)

end Durable

namespace Session
open Durable

def decode (text : String) : Except Rejection Session :=
  match Envelope.read? text with
  | some e => e.session
  | none => .error .malformed

/-- Reads a durable form; any other text gives a new session. -/
def restore (now : Instant) (text : String) : Session :=
  match decode text with
  | .ok s => s
  | .error _ => seeded now

end Session

end PracticeShell
