/-! The options of the program, read from its arguments. -/
namespace PracticeShell

structure Options where
  lines : List String := []
  stateFile : Option String := none
  json : Bool := false
  configFile : Option String := none
  logLevel : Option String := none
deriving DecidableEq, Repr

namespace Options

/-- Why arguments are not read to their end. Asking for help or the version is no fault. -/
inductive Stop where
  | unknownArgument
  | invalidValue
  | argumentConflict
  | tooManyValues
  | displayHelp
  | displayVersion
deriving DecidableEq, Repr

def Stop.code : Stop → Nat
  | .displayHelp | .displayVersion => 0
  | _ => 2

inductive Key where
  | line
  | stateFile
  | configFile
  | logLevel
deriving DecidableEq, Repr

inductive Name where
  | key (k : Key)
  | json
  | help
  | version
deriving DecidableEq, Repr

def longName? (name : String) : Option Name :=
  match name with
  | "command" => some (.key .line)
  | "state" => some (.key .stateFile)
  | "config" => some (.key .configFile)
  | "log-level" => some (.key .logLevel)
  | "json" => some .json
  | "help" => some .help
  | "version" => some .version
  | _ => none

def setOnce (old : Option String) (mayBeEmpty : Bool) (value : String) : Except Stop (Option String) :=
  if old.isSome then .error .argumentConflict
  else if value = "" && !mayBeEmpty then .error .invalidValue
  else .ok (some value)

def set (o : Options) (k : Key) (value : String) : Except Stop Options := do
  match k with
  | .line => return { o with lines := o.lines ++ [value] }
  | .stateFile => return { o with stateFile := ← setOnce o.stateFile false value }
  | .configFile => return { o with configFile := ← setOnce o.configFile false value }
  | .logLevel => return { o with logLevel := ← setOnce o.logLevel true value }

/-- An option met last, whose value is still to come or still to be set. -/
abbrev Pending := Option (Key × Option String)

def settle (o : Options) : Pending → Except Stop Options
  | none => .ok o
  | some (_, none) => .error .invalidValue
  | some (k, some value) => o.set k value

def take (o : Options) (pending : Pending) (name : Name) (attached : Option String) :
    Except Stop (Options × Pending) :=
  match name, attached with
  | .key k, none => do return (← o.settle pending, some (k, none))
  | .key k, some value => do return (← (← o.settle pending).set k value, none)
  | .json, none => do
    let o ← o.settle pending
    if o.json then throw .argumentConflict
    return ({ o with json := true }, none)
  | .help, none => do
    discard (o.settle pending)
    throw .displayHelp
  | .version, none => do
    discard (o.settle pending)
    throw .displayVersion
  | _, some _ => .error .tooManyValues

def splitAttached (cs : List Char) : String × Option String :=
  let name := cs.takeWhile (· != '=')
  match cs.drop name.length with
  | [] => (String.ofList name, none)
  | _ :: value => (String.ofList name, some (String.ofList value))

def takeArgument (o : Options) (pending : Pending) (arg : String) :
    Except Stop (Options × Pending) :=
  match arg.toList with
  | '-' :: '-' :: cs =>
    let (name, attached) := splitAttached cs
    match longName? name with
    | some name => o.take pending name attached
    | none => .error .unknownArgument
  | '-' :: 'c' :: cs =>
    let attached := match cs with
      | [] => none
      | '=' :: value => some (String.ofList value)
      | value => some (String.ofList value)
    o.take pending (.key .line) attached
  | '-' :: 'h' :: _ => o.take pending .help none
  | '-' :: 'V' :: _ => o.take pending .version none
  | '-' :: _ :: _ => .error .unknownArgument
  | _ =>
    match pending with
    | some (k, none) => .ok (o, some (k, some arg))
    | _ => .error .unknownArgument

def readFrom (o : Options) (pending : Pending) : List String → Except Stop Options
  | [] => o.settle pending
  | "--" :: rest => if rest.isEmpty then o.settle pending else .error .unknownArgument
  | arg :: rest => do
    let (o, pending) ← o.takeArgument pending arg
    readFrom o pending rest

def read (args : List String) : Except Stop Options := readFrom {} none args

end Options

end PracticeShell
