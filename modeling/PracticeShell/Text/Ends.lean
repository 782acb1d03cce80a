/-! How a text begins and ends: what is left of it without an end or without blanks at its ends, and the
quotes around it. Words of a command line are separated by the five ASCII blanks; a recorded line is
trimmed of every Unicode white space. -/
namespace PracticeShell.Text

def startsWith (s : String) (start : String) : Bool := start.toList.isPrefixOf s.toList

def endsWith (s : String) (c : Char) : Bool := s.toList.getLast? == some c

/-- `cs` without the characters at its end that satisfy `p`. -/
def dropEndWhile (p : Char → Bool) (cs : List Char) : List Char :=
  (cs.reverse.dropWhile p).reverse

def trimEndWhile (p : Char → Bool) (s : String) : String := String.ofList (dropEndWhile p s.toList)

/-- The inside of a text that begins and ends with `quote`; a lone quote does not enclose. -/
def enclosed? (quote : Char) (s : String) : Option String :=
  match s.toList with
  | [] => none
  | c :: cs =>
    if c == quote && cs.getLast? == some quote then some (String.ofList cs.dropLast) else none

def unquoted? (s : String) : Option String := (enclosed? '"' s).or (enclosed? '\x27' s)

/-- The ASCII blanks: space, tab, line feed, form feed, carriage return. -/
def isSeparator (c : Char) : Bool :=
  c == ' ' || c == '\t' || c == '\n' || c == '\x0c' || c == '\r'

/-- The code points with the Unicode property White_Space. -/
def blankCodes : List Nat :=
  [0x09, 0x0A, 0x0B, 0x0C, 0x0D, 0x20, 0x85, 0xA0, 0x1680, 0x2000, 0x2001, 0x2002, 0x2003, 0x2004,
    0x2005, 0x2006, 0x2007, 0x2008, 0x2009, 0x200A, 0x2028, 0x2029, 0x202F, 0x205F, 0x3000]

def isBlank (c : Char) : Bool := blankCodes.contains c.toNat

theorem isBlank_of_isSeparator {c : Char} (h : isSeparator c = true) : isBlank c = true := by
  simp only [isSeparator, Bool.or_eq_true, beq_iff_eq] at h
  obtain (((rfl | rfl) | rfl) | rfl) | rfl := h <;> rfl

def trimChars (cs : List Char) : List Char := dropEndWhile isBlank (cs.dropWhile isBlank)

def trim (s : String) : String := String.ofList (trimChars s.toList)

end PracticeShell.Text
