import PracticeShell.Terminal.LogFilter.Field
import PracticeShell.Text.Utf8
/-! Log filters: directives that each give a level to some messages, to those of a target, of a span, or
of spans with a field. The directive that asks for more stands first. -/
namespace PracticeShell.LogFilter

/-! ### Levels -/

inductive Level where
  | off
  | error
  | warn
  | info
  | debug
  | trace
deriving DecidableEq, Repr

namespace Level

def all : List Level := [.off, .error, .warn, .info, .debug, .trace]

def text : Level → String
  | .off => "off"
  | .error => "error"
  | .warn => "warn"
  | .info => "info"
  | .debug => "debug"
  | .trace => "trace"

/-- A level by its name in any case, or by its number from 0. No name at all is that of errors. -/
def ofChars? (cs : List Char) : Option Level :=
  let digits := if cs.head? == some '+' then cs.tail else cs
  if !digits.isEmpty && digits.all Char.isDigit then all[Text.digitsValue digits]?
  else if cs.isEmpty then some .error
  else all.find? fun level => level.text.toList == cs.map Char.toLower

end Level

/-! ### Directives -/

structure Directive where
  target : Option String := none
  span : Option String := none
  fields : List Field := []
  level : Level := .trace
deriving DecidableEq, Repr

namespace Directive

def beginsTarget (c : Char) : Bool := Text.isAlphanumeric c || c == '-' || c == ':' || c == '_'

/-- The level after `=`; none written means all. -/
def levelAfter? (cs : List Char) : Option Level :=
  if cs.isEmpty then some .trace else Level.ofChars? cs

def afterSpan (d : Directive) (marks text : List Char) : Option Directive :=
  match marks with
  | [] => some d
  | '=' :: _ => (levelAfter? (Text.Utf8.dropBytes 1 text)).map fun level => { d with level }
  | _ => none

def readSpan (target : Option String) (marks text : List Char) : Option Directive := do
  let name := marks.takeWhile fun c => c != ']' && c != '\x7b'
  let size := Text.Utf8.byteLength name
  let span := String.ofList (Text.Utf8.takeBytes size text)
  let text := Text.Utf8.dropBytes (size + 1) text
  match marks.drop name.length with
  | ']' :: marks => afterSpan { target, span := some span } marks text
  | '\x7b' :: marks =>
    let field := marks.takeWhile (· != '\x7d')
    guard (!field.isEmpty)
    let ('\x7d' :: ']' :: marks) := marks.drop field.length | none
    let width := Text.Utf8.byteLength field
    let field ← Field.ofChars? (Text.Utf8.takeBytes width text)
    let span := if size = 0 then none else some span
    afterSpan { target, span, fields := [field] } marks (Text.Utf8.dropBytes (width + 2) text)
  | _ => none

/-- Reads one directive: a level or a target alone, `target=level`, or a span in brackets. Its marks
are looked for in the text without blanks around it, and its parts are taken from as many bytes into the
text with them. -/
def ofChars? (text : List Char) : Option Directive :=
  let marks := Text.trimChars text
  let name := marks.takeWhile fun c => c != '=' && c != '['
  let size := Text.Utf8.byteLength name
  let target := some (String.ofList (Text.Utf8.takeBytes size text))
  let after := Text.Utf8.dropBytes (size + 1) text
  match marks, marks.drop name.length with
  | [], _ => none
  | '[' :: marks, _ => readSpan none marks after
  | c :: _, rest =>
    if !beginsTarget c then none
    else
      match rest with
      | '=' :: _ => (levelAfter? after).map fun level => { target, level }
      | '[' :: marks => readSpan target marks after
      | _ =>
        match Level.ofChars? text with
        | some level => some { level }
        | none => some { target := some (String.ofList text) }

def isDynamic (d : Directive) : Bool := !d.fields.isEmpty || d.span.isSome

def isStatic (d : Directive) : Bool := d.span.isNone && d.fields.all fun f => f.value.isNone

def text (d : Directive) : String :=
  let fields :=
    if d.fields.isEmpty then "" else "\x7b" ++ ",".intercalate (d.fields.map Field.text) ++ "\x7d"
  let brackets :=
    if d.isDynamic then "[" ++ d.span.getD "" ++ fields ++ "]" else ""
  let scope := d.target.getD "" ++ brackets
  if d.target.isSome || d.isDynamic then scope ++ "=" ++ d.level.text else d.level.text

/-- The order of directives by how much they ask for: first the length of the target, whether there is
a span, and the number of fields, then what these are. -/
def compare (a b : Directive) : Ordering :=
  (Ord.compare (a.target.map String.utf8ByteSize) (b.target.map String.utf8ByteSize)).then <|
    (Ord.compare a.span.isSome b.span.isSome).then <|
      (Ord.compare a.fields.length b.fields.length).then <|
        (Ord.compare a.target b.target).then <|
          (Ord.compare a.span b.span).then <|
            List.compareLex Field.compare a.fields b.fields

end Directive

/-! ### Filters -/

/-- Adds a directive in order, in place of one for the same messages. -/
def insert (d : Directive) : List Directive → List Directive
  | [] => [d]
  | e :: es =>
    match d.compare e with
    | .gt => d :: e :: es
    | .eq => d :: es
    | .lt => e :: insert d es

def sorted (ds : List Directive) : List Directive := ds.foldl (fun es d => insert d es) []

def staticOf (ds : List Directive) : List Directive :=
  ds.filter (fun d => !d.isDynamic) ++ (ds.filter Directive.isDynamic).filter Directive.isStatic

/-- The directives in canonical order: first those that need no span. -/
def canonical (ds : List Directive) : List Directive :=
  sorted (staticOf ds) ++ sorted (ds.filter Directive.isDynamic)

def text (ds : List Directive) : String := ",".intercalate (ds.map Directive.text)

def ofText? (text : String) : Option (List Directive) :=
  let parts := (text.toList.splitOn ',').filter fun p => !p.isEmpty
  (parts.mapM Directive.ofChars?).map canonical

def defaultText : String := "warn"

def chosen (option environment config : Option String) : String :=
  ((option.or environment).or config).getD defaultText

def inForce? (option environment config : Option String) : Option String :=
  (ofText? (chosen option environment config)).map text

end PracticeShell.LogFilter
