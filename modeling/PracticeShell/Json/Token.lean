import PracticeShell.Json.Value
/-! The tokens of a JSON text, read one character at a time. -/
namespace PracticeShell.Json

inductive Token where
  | openArray
  | closeArray
  | openObject
  | closeObject
  | comma
  | colon
  | null
  | boolean (b : Bool)
  | number (spelling : List Char)
  | string (text : Option String)
deriving DecidableEq, Repr

inductive Reading where
  | nothing
  | word (letters : List Char)
  | number (spelling : List Char)
  | string (codes : List Nat)
  | escape (codes : List Nat)
  | hex (codes : List Nat) (digits value : Nat)
deriving DecidableEq, Repr

/-- The text of code points in which each first half of a surrogate pair is followed by a second. -/
def textOfCodes : List Nat → Option (List Char)
  | [] => some []
  | a :: rest =>
    if 0xD800 ≤ a ∧ a < 0xDC00 then
      match rest with
      | b :: rest =>
        if 0xDC00 ≤ b ∧ b < 0xE000 then
          (textOfCodes rest).map (Char.ofNat (0x10000 + (a - 0xD800) * 0x400 + (b - 0xDC00)) :: ·)
        else none
      | [] => none
    else if 0xDC00 ≤ a ∧ a < 0xE000 then none
    else (textOfCodes rest).map (Char.ofNat a :: ·)

def wordToken? (letters : List Char) : Option Token :=
  if letters = ['n', 'u', 'l', 'l'] then some .null
  else if letters = ['t', 'r', 'u', 'e'] then some (.boolean true)
  else if letters = ['f', 'a', 'l', 's', 'e'] then some (.boolean false)
  else none

def isBlank (c : Char) : Bool := c == ' ' || c == '\t' || c == '\n' || c == '\r'

def isNumberChar (c : Char) : Bool := c.isDigit || c == '-' || c == '+' || c == '.' || c == 'e' || c == 'E'

def mark? : Char → Option Token
  | '[' => some .openArray
  | ']' => some .closeArray
  | '\x7b' => some .openObject
  | '\x7d' => some .closeObject
  | ',' => some .comma
  | ':' => some .colon
  | _ => none

def begin (done : List Token) (c : Char) : Option (List Token × Reading) :=
  if isBlank c then some (done, .nothing)
  else if c = '"' then some (done, .string [])
  else if c.isDigit || c == '-' then some (done, .number [c])
  else if c.isAlpha then some (done, .word [c])
  else (mark? c).map fun t => (t :: done, .nothing)

def escapedCode? : Char → Option Nat
  | '"' => some 0x22
  | '\\' => some 0x5C
  | '/' => some 0x2F
  | 'b' => some 0x08
  | 'f' => some 0x0C
  | 'n' => some 0x0A
  | 'r' => some 0x0D
  | 't' => some 0x09
  | _ => none

def finish (done : List Token) : Reading → Option (List Token)
  | .nothing => some done
  | .word letters => (wordToken? letters.reverse).map (· :: done)
  | .number spelling =>
    if isNumber spelling.reverse then some (.number spelling.reverse :: done) else none
  | .string _ | .escape _ | .hex .. => none

def step (done : List Token) (r : Reading) (c : Char) : Option (List Token × Reading) :=
  match r with
  | .nothing => begin done c
  | .word letters =>
    if c.isAlpha then some (done, .word (c :: letters))
    else do begin (← finish done r) c
  | .number spelling =>
    if isNumberChar c then some (done, .number (c :: spelling))
    else do begin (← finish done r) c
  | .string codes =>
    if c = '"' then
      some (.string ((textOfCodes codes.reverse).map String.ofList) :: done, .nothing)
    else if c = '\\' then some (done, .escape codes)
    else if c.toNat < 0x20 then none
    else some (done, .string (c.toNat :: codes))
  | .escape codes =>
    if c = 'u' then some (done, .hex codes 4 0)
    else (escapedCode? c).map fun code => (done, .string (code :: codes))
  | .hex codes digits value => do
    let value := 16 * value + (← Text.hexValue? c)
    if digits = 1 then return (done, .string (value :: codes))
    else return (done, .hex codes (digits - 1) value)

def scan (done : List Token) (r : Reading) : List Char → Option (List Token)
  | [] => finish done r
  | c :: cs =>
    match step done r c with
    | some (done, r) => scan done r cs
    | none => none

def tokens? (text : List Char) : Option (List Token) := (scan [] .nothing text).map List.reverse

end PracticeShell.Json
