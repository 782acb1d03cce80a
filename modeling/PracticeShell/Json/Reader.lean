import PracticeShell.Json.Token
/-! JSON values read from their tokens, with the containers not yet closed kept aside. -/
namespace PracticeShell.Json

/-- A container around the value being read, with what stands in it before that value, last first. -/
inductive Container where
  | array (before : List Json)
  | object (before : List (Option String × Json)) (key : Option String)

inductive Place where
  | value (outer : List Container)
  | itemOrEnd (outer : List Container)
  | keyOrEnd (outer : List Container)
  | nextKey (before : List (Option String × Json)) (outer : List Container)
  | colon (before : List (Option String × Json)) (key : Option String) (outer : List Container)
  | after (j : Json) (outer : List Container)

namespace Place

def ofValueToken (outer : List Container) : Token → Option Place
  | .openArray => some (.itemOrEnd outer)
  | .openObject => some (.keyOrEnd outer)
  | .null => some (.after .null outer)
  | .boolean b => some (.after (.boolean b) outer)
  | .number spelling => some (.after (.number spelling) outer)
  | .string text => some (.after (.string text) outer)
  | .closeArray | .closeObject | .comma | .colon => none

def next (p : Place) (t : Token) : Option Place :=
  match p, t with
  | .value outer, t => ofValueToken outer t
  | .itemOrEnd outer, .closeArray => some (.after (.array []) outer)
  | .itemOrEnd outer, t => ofValueToken (.array [] :: outer) t
  | .keyOrEnd outer, .closeObject => some (.after (.object []) outer)
  | .keyOrEnd outer, .string key => some (.colon [] key outer)
  | .nextKey before outer, .string key => some (.colon before key outer)
  | .colon before key outer, .colon => some (.value (.object before key :: outer))
  | .after j (.array before :: outer), .comma => some (.value (.array (j :: before) :: outer))
  | .after j (.array before :: outer), .closeArray =>
    some (.after (.array (j :: before).reverse) outer)
  | .after j (.object before key :: outer), .comma => some (.nextKey ((key, j) :: before) outer)
  | .after j (.object before key :: outer), .closeObject =>
    some (.after (.object ((key, j) :: before).reverse) outer)
  | _, _ => none

def result? : Place → Option Json
  | .after j [] => some j
  | _ => none

def run (p : Place) : List Token → Option Place
  | [] => some p
  | t :: ts =>
    match p.next t with
    | some p => run p ts
    | none => none

end Place

def ofTokens? (ts : List Token) : Option Json := ((Place.value []).run ts).bind Place.result?

def read? (text : String) : Option Json := (tokens? text.toList).bind ofTokens?

end PracticeShell.Json
