import PracticeShell.Json.Value
/-! The text of a JSON value: no blanks, and in strings the fewest escapes. -/
namespace PracticeShell.Json

def escape (c : Char) : List Char :=
  if c = '"' then ['\\', '"']
  else if c = '\\' then ['\\', '\\']
  else if c = '\n' then ['\\', 'n']
  else if c = '\r' then ['\\', 'r']
  else if c = '\t' then ['\\', 't']
  else if c = '\x08' then ['\\', 'b']
  else if c = '\x0c' then ['\\', 'f']
  else if c.toNat < 0x20 then
    ['\\', 'u', '0', '0', Text.hexChar (c.toNat / 16), Text.hexChar (c.toNat % 16)]
  else [c]

def quote (s : String) : List Char := '"' :: s.toList.flatMap escape ++ ['"']

/-- A string that is no text has the form of a lone half of a surrogate pair. -/
def stringChars : Option String → List Char
  | some s => quote s
  | none => ['"', '\\', 'u', 'd', '8', '0', '0', '"']

mutual
def chars : Json → List Char
  | .null => ['n', 'u', 'l', 'l']
  | .boolean true => ['t', 'r', 'u', 'e']
  | .boolean false => ['f', 'a', 'l', 's', 'e']
  | .number spelling => spelling
  | .string text => stringChars text
  | .array [] => ['[', ']']
  | .array (j :: js) => '[' :: j.chars ++ itemChars js ++ [']']
  | .object [] => ['\x7b', '\x7d']
  | .object ((key, j) :: ms) =>
    '\x7b' :: stringChars key ++ ':' :: j.chars ++ memberChars ms ++ ['\x7d']

def itemChars : List Json → List Char
  | [] => []
  | j :: js => ',' :: j.chars ++ itemChars js

def memberChars : List (Option String × Json) → List Char
  | [] => []
  | (key, j) :: ms => ',' :: stringChars key ++ ':' :: j.chars ++ memberChars ms
end

def text (j : Json) : String := String.ofList j.chars

end PracticeShell.Json
