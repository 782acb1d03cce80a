import PracticeShell.Json.Number
/-! JSON values as a text holds them: members of objects in their order, repeated keys included, and
numbers as they are spelled. A string is `none` where its escapes leave half of a surrogate pair, so
that it is no text. -/
namespace PracticeShell

inductive Json where
  | null
  | boolean (b : Bool)
  | number (spelling : List Char)
  | string (text : Option String)
  | array (items : List Json)
  | object (members : List (Option String × Json))

namespace Json

def ofText (s : String) : Json := .string (some s)

def ofNat (n : Nat) : Json := .number (Text.decimal n)

def ofMembers (members : List (String × Json)) : Json :=
  .object (members.map fun m => (some m.1, m.2))

mutual
/-- Every string in the value is a text, every number is in range, and arrays and objects are nested at
most `depth` deep. -/
def isSound (depth : Nat) : Json → Bool
  | .null | .boolean _ => true
  | .number spelling => isInRange spelling
  | .string text => text.isSome
  | .array items => 0 < depth && areSound (depth - 1) items
  | .object members => 0 < depth && membersAreSound (depth - 1) members

def areSound (depth : Nat) : List Json → Bool
  | [] => true
  | j :: js => j.isSound depth && areSound depth js

def membersAreSound (depth : Nat) : List (Option String × Json) → Bool
  | [] => true
  | (key, j) :: ms => key.isSome && j.isSound depth && membersAreSound depth ms
end

end Json

end PracticeShell
