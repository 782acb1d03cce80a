/-! Texts from bytes that should be UTF-8, and parts of a text by their place in its bytes. Bytes that
begin no character, and the longest beginning of a character that is not completed, are each replaced by
U+FFFD. -/
namespace PracticeShell.Text.Utf8

/-- The beginning of a character: its bits so far, how many bytes it still needs, and the bounds of the
next. -/
structure Unfinished where
  bits : Nat
  needed : Nat
  low : Nat
  high : Nat
deriving DecidableEq, Repr

def replacement : Char := '\ufffd'

def start (b : Nat) : List Char × Option Unfinished :=
  if b < 0x80 then ([Char.ofNat b], none)
  else if 0xC2 ≤ b ∧ b ≤ 0xDF then ([], some ⟨b - 0xC0, 1, 0x80, 0xBF⟩)
  else if 0xE0 ≤ b ∧ b ≤ 0xEF then
    ([], some ⟨b - 0xE0, 2, if b = 0xE0 then 0xA0 else 0x80, if b = 0xED then 0x9F else 0xBF⟩)
  else if 0xF0 ≤ b ∧ b ≤ 0xF4 then
    ([], some ⟨b - 0xF0, 3, if b = 0xF0 then 0x90 else 0x80, if b = 0xF4 then 0x8F else 0xBF⟩)
  else ([replacement], none)

/-- The characters that one more byte completes, and the beginning that is then left. -/
def step (u : Option Unfinished) (b : Nat) : List Char × Option Unfinished :=
  match u with
  | none => start b
  | some u =>
    if u.low ≤ b ∧ b ≤ u.high then
      let bits := 64 * u.bits + (b - 0x80)
      if u.needed = 1 then ([Char.ofNat bits], none)
      else ([], some ⟨bits, u.needed - 1, 0x80, 0xBF⟩)
    else
      let (cs, u) := start b
      (replacement :: cs, u)

def decodeFrom (u : Option Unfinished) : List UInt8 → List Char
  | [] => if u.isSome then [replacement] else []
  | b :: bs =>
    let (cs, u) := step u b.toNat
    cs ++ decodeFrom u bs

def decode (bytes : List UInt8) : String := String.ofList (decodeFrom none bytes)

def byteLength : List Char → Nat
  | [] => 0
  | c :: cs => c.utf8Size + byteLength cs

def takeBytes (n : Nat) : List Char → List Char
  | [] => []
  | c :: cs => if c.utf8Size ≤ n then c :: takeBytes (n - c.utf8Size) cs else []

def dropBytes (n : Nat) : List Char → List Char
  | [] => []
  | c :: cs => if n = 0 then c :: cs else dropBytes (n - c.utf8Size) cs

theorem byteLength_append (a b : List Char) : byteLength (a ++ b) = byteLength a + byteLength b := by
  induction a with
  | nil => simp [byteLength]
  | cons c a ih => simp [byteLength, ih, Nat.add_assoc]

theorem byteLength_eq_zero_iff {cs : List Char} : byteLength cs = 0 ↔ cs = [] := by
  cases cs with
  | nil => simp [byteLength]
  | cons c cs => simp [byteLength, Nat.ne_of_gt c.utf8Size_pos]

theorem takeBytes_zero (cs : List Char) : takeBytes 0 cs = [] := by
  cases cs with
  | nil => rfl
  | cons c cs => simp [takeBytes, Nat.ne_of_gt c.utf8Size_pos]

theorem takeBytes_append (a b : List Char) : takeBytes (byteLength a) (a ++ b) = a := by
  induction a with
  | nil => exact takeBytes_zero b
  | cons c a ih => simp [byteLength, takeBytes, ih]

theorem dropBytes_append (a b : List Char) : dropBytes (byteLength a) (a ++ b) = b := by
  induction a with
  | nil => cases b <;> rfl
  | cons c a ih =>
    have h : c.utf8Size ≠ 0 := Nat.ne_of_gt c.utf8Size_pos
    simp [byteLength, dropBytes, h, ih]

end PracticeShell.Text.Utf8
