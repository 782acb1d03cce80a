import PracticeShell.Text.Digits
import PracticeShell.Terminal.Options
/-! The config file: lines of a key, `=` and a value, with comments after `#`. Of TOML, it takes what
its three keys can hold, strings of the four kinds and truth values; anything else is an error. -/
namespace PracticeShell

structure ConfigFile where
  stateFile : Option String := none
  logLevel : Option String := none
  showHints : Bool := true
deriving DecidableEq, Repr

namespace ConfigFile

inductive Value where
  | string (text : String)
  | boolean (b : Bool)
deriving DecidableEq, Repr

def isSpace (c : Char) : Bool := c == ' ' || c == '\t'

def skipSpace (cs : List Char) : List Char := cs.dropWhile isSpace

/-- A character of a text or comment: no control character but the tab. -/
def isPlain (c : Char) : Bool := c == '\t' || 0x20 ≤ c.toNat && c.toNat != 0x7F

def isBareKeyChar (c : Char) : Bool := c.isAlphanum || c == '_' || c == '-'

def afterNewline? : List Char → Option (List Char)
  | '\n' :: cs => some cs
  | '\r' :: '\n' :: cs => some cs
  | _ => none

def readHex (n : Nat) (cs : List Char) : Option (Char × List Char) := do
  let ds := cs.take n
  guard (ds.length = n)
  let code ← ds.foldlM (fun v c => (Text.hexValue? c).map (16 * v + ·)) 0
  guard code.isValidChar
  return (Char.ofNat code, cs.drop n)

def readEscape : List Char → Option (Char × List Char)
  | 'b' :: cs => some ('\x08', cs)
  | 't' :: cs => some ('\t', cs)
  | 'n' :: cs => some ('\n', cs)
  | 'f' :: cs => some ('\x0c', cs)
  | 'r' :: cs => some ('\r', cs)
  | '"' :: cs => some ('"', cs)
  | '\\' :: cs => some ('\\', cs)
  | 'u' :: cs => readHex 4 cs
  | 'U' :: cs => readHex 8 cs
  | _ => none

/-- The rest of a string on one line, after its opening quote. Escapes count only in double quotes.
`fuel` bounds the characters to come. -/
def readLineString (quote : Char) : Nat → List Char → Option (List Char × List Char)
  | 0, _ | _, [] => none
  | fuel + 1, c :: cs =>
    if c = quote then some ([], cs)
    else if c = '\\' && quote == '"' then do
      let (d, cs) ← readEscape cs
      let (text, rest) ← readLineString quote fuel cs
      return (d :: text, rest)
    else if isPlain c then do
      let (text, rest) ← readLineString quote fuel cs
      return (c :: text, rest)
    else none

def dropLineEnds : List Char → List Char
  | ' ' :: cs | '\t' :: cs | '\n' :: cs | '\r' :: '\n' :: cs => dropLineEnds cs
  | cs => cs

/-- A backslash at the end of a line takes with it all spaces and line ends up to the next text. -/
def skipLineEnds (cs : List Char) : Option (List Char) :=
  (afterNewline? (skipSpace cs)).map dropLineEnds

/-- The rest of a string over several lines, after its three opening quotes. Three quotes end it, and
up to two more before them belong to it. -/
def readBlockString (quote : Char) : Nat → List Char → Option (List Char × List Char)
  | 0, _ | _, [] => none
  | fuel + 1, c :: cs =>
    if c = quote then
      let run := (c :: cs).takeWhile (· == quote)
      let rest := (c :: cs).drop run.length
      if run.length < 3 then do
        let (text, rest) ← readBlockString quote fuel rest
        return (run ++ text, rest)
      else if run.length ≤ 5 then some (run.drop 3, rest)
      else none
    else if c = '\\' && quote == '"' then
      match skipLineEnds cs with
      | some cs => readBlockString quote fuel cs
      | none => do
        let (d, cs) ← readEscape cs
        let (text, rest) ← readBlockString quote fuel cs
        return (d :: text, rest)
    else
      match afterNewline? (c :: cs) with
      | some cs => do
        let (text, rest) ← readBlockString quote fuel cs
        return ('\n' :: text, rest)
      | none =>
        if isPlain c then do
          let (text, rest) ← readBlockString quote fuel cs
          return (c :: text, rest)
        else none

def readBlock (quote : Char) (cs : List Char) : Option (List Char × List Char) :=
  let cs := (afterNewline? cs).getD cs
  readBlockString quote (cs.length + 1) cs

def isQuote (c : Char) : Bool := c == '"' || c == '\x27'

def readString (cs : List Char) : Option (List Char × List Char) :=
  match cs with
  | a :: b :: c :: rest =>
    if isQuote a && a == b && b == c then readBlock a rest
    else if isQuote a then readLineString a cs.length (b :: c :: rest)
    else none
  | a :: rest => if isQuote a then readLineString a cs.length rest else none
  | [] => none

def readValue (cs : List Char) : Option (Value × List Char) :=
  if cs.head?.any isQuote then
    (readString cs).map fun (text, rest) => (.string (String.ofList text), rest)
  else
    let word := cs.takeWhile Char.isAlpha
    let rest := cs.drop word.length
    if word = ['t', 'r', 'u', 'e'] then some (.boolean true, rest)
    else if word = ['f', 'a', 'l', 's', 'e'] then some (.boolean false, rest)
    else none

def readKey (cs : List Char) : Option (String × List Char) :=
  match cs with
  | [] => none
  | c :: rest =>
    if isQuote c then
      (readLineString c cs.length rest).map fun (key, rest) => (String.ofList key, rest)
    else
      let key := cs.takeWhile isBareKeyChar
      if key.isEmpty then none else some (String.ofList key, cs.drop key.length)

def readLineEnd (cs : List Char) : Option (List Char) :=
  let cs := match skipSpace cs with
    | '#' :: rest => rest.dropWhile isPlain
    | cs => cs
  if cs.isEmpty then some [] else afterNewline? cs

def readLines : Nat → List Char → Option (List (String × Value))
  | _, [] => some []
  | 0, _ => none
  | fuel + 1, cs =>
    match readLineEnd cs with
    | some rest => readLines fuel rest
    | none => do
      let (key, cs) ← readKey (skipSpace cs)
      let ('=' :: cs) := skipSpace cs | none
      let (value, cs) ← readValue (skipSpace cs)
      let rest ← readLineEnd cs
      return (key, value) :: (← readLines fuel rest)

def set? (c : ConfigFile) (key : String) (value : Value) : Option ConfigFile :=
  match key, value with
  | "state_file", .string text => some { c with stateFile := some text }
  | "log_level", .string text => some { c with logLevel := some text }
  | "show_hints", .boolean b => some { c with showHints := b }
  | _, _ => none

def read? (text : String) : Option ConfigFile := do
  let cs := match text.toList with
    | '\ufeff' :: cs => cs
    | cs => cs
  let entries ← readLines (cs.length + 1) cs
  guard (entries.map Prod.fst).Nodup
  entries.foldlM (fun c e => set? c e.1 e.2) {}

end ConfigFile

/-- What the options and the config file come to, the options first. -/
structure Settings where
  stateFile : Option String
  logLevel : Option String
  json : Bool
  showHints : Bool
deriving DecidableEq, Repr

def Settings.merge (o : Options) (c : ConfigFile) : Settings :=
  { stateFile := o.stateFile.or c.stateFile
    logLevel := o.logLevel.or c.logLevel
    json := o.json
    showHints := c.showHints }

end PracticeShell
