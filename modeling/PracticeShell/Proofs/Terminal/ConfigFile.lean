import PracticeShell.Proofs.Text.Digits
import PracticeShell.Terminal.ConfigFile
import Mathlib.Control.Basic
import Mathlib.Data.List.TakeWhile
import Mathlib.Data.Option.Basic

/-! Config files written and read back. A line holds a key with its value, or a comment, and only the
former count. -/
namespace PracticeShell.ConfigFile
variable {rest : List Char} {fuel : Nat}

/-! ### Strings -/

/-- A character in a string. Quote, backslash and control characters other than the tab are escaped. -/
def escape (c : Char) : List Char :=
  if c = '"' || c = '\\' then ['\\', c]
  else if isPlain c then [c]
  else ['\\', 'u', '0', '0', Text.hexChar (c.toNat / 16), Text.hexChar (c.toNat % 16)]

theorem readHex_four {a b c d : Char} {p q r s : Nat} (ha : Text.hexValue? a = some p)
    (hb : Text.hexValue? b = some q) (hc : Text.hexValue? c = some r) (hd : Text.hexValue? d = some s)
    (hvalid : (16 * (16 * (16 * p + q) + r) + s).isValidChar) (rest : List Char) :
    readHex 4 (a :: b :: c :: d :: rest) =
      some (Char.ofNat (16 * (16 * (16 * p + q) + r) + s), rest) := by
  simp [readHex, ha, hb, hc, hd, hvalid]

theorem readEscape_control {c : Char} (h : isPlain c = false) (rest : List Char) :
    readEscape ('u' :: '0' :: '0' :: Text.hexChar (c.toNat / 16) :: Text.hexChar (c.toNat % 16) ::
      rest) = some (c, rest) := by
  have hlow : c.toNat < 0x80 := by
    simp [isPlain] at h
    omega
  have hzero : Text.hexValue? '0' = some 0 := by decide
  have hvalue : 16 * (16 * (16 * 0 + 0) + c.toNat / 16) + c.toNat % 16 = c.toNat := by omega
  have hvalid : (16 * (16 * (16 * 0 + 0) + c.toNat / 16) + c.toNat % 16).isValidChar := by
    rw [hvalue]
    exact c.valid
  have hhigh : Text.hexValue? (Text.hexChar (c.toNat / 16)) = some (c.toNat / 16) :=
    Text.hexValue?_hexChar (by omega)
  have hdigit : Text.hexValue? (Text.hexChar (c.toNat % 16)) = some (c.toNat % 16) :=
    Text.hexValue?_hexChar (by omega)
  have hread := readHex_four hzero hzero hhigh hdigit hvalid rest
  rw [hvalue, Char.ofNat_toNat] at hread
  exact hread

theorem readLineString_plain {c : Char} (hquote : c ≠ '"') (hback : c ≠ '\\') (hplain : isPlain c = true)
    (cs : List Char) : readLineString '"' (fuel + 1) (c :: cs) =
      (readLineString '"' fuel cs).map fun read => (c :: read.1, read.2) := by
  rw [readLineString, if_neg hquote, if_neg (by simp [hback]), if_pos hplain]
  cases readLineString '"' fuel cs <;> rfl

theorem readLineString_escape {cs after : List Char} {d : Char} (h : readEscape cs = some (d, after)) :
    readLineString '"' (fuel + 1) ('\\' :: cs) =
      (readLineString '"' fuel after).map fun read => (d :: read.1, read.2) := by
  rw [readLineString, if_neg (by decide), if_pos (by decide), h]
  cases h : readLineString '"' fuel after <;> simp [h]

theorem readLineString_escaped (c : Char) (cs : List Char) :
    readLineString '"' (fuel + 1) (escape c ++ cs) =
      (readLineString '"' fuel cs).map fun read => (c :: read.1, read.2) := by
  unfold escape
  split
  · next h =>
    obtain rfl | rfl : c = '"' ∨ c = '\\' := by simpa using h
    · exact readLineString_escape rfl
    · exact readLineString_escape rfl
  split
  · next h hplain =>
    obtain ⟨hquote, hback⟩ : c ≠ '"' ∧ c ≠ '\\' := by simpa using h
    exact readLineString_plain hquote hback hplain cs
  · next h hplain => exact readLineString_escape (readEscape_control (by simpa using hplain) cs)

theorem readLineString_text (text rest : List Char) (h : text.length < fuel) :
    readLineString '"' fuel (text.flatMap escape ++ '"' :: rest) = some (text, rest) := by
  induction text generalizing fuel with
  | nil =>
    cases fuel with
    | zero => simp at h
    | succ fuel => rfl
  | cons c text ih =>
    cases fuel with
    | zero => simp at h
    | succ fuel =>
      rw [List.flatMap_cons, List.append_assoc, readLineString_escaped,
        ih (Nat.lt_of_succ_lt_succ h)]
      rfl

/-! ### Values -/

def Value.chars : Value → List Char
  | .string text => '"' :: (text.toList.flatMap escape ++ ['"'])
  | .boolean true => ['t', 'r', 'u', 'e']
  | .boolean false => ['f', 'a', 'l', 's', 'e']

theorem head?_escape (c : Char) (cs : List Char) : (escape c ++ cs).head? ≠ some '"' := by
  unfold escape
  split
  · simp
  split
  · next h hplain =>
    obtain ⟨hquote, -⟩ : c ≠ '"' ∧ c ≠ '\\' := by simpa using h
    simpa using hquote
  · simp

theorem length_le_flatMap_escape (text : List Char) : text.length ≤ (text.flatMap escape).length := by
  induction text with
  | nil => exact Nat.le_refl 0
  | cons c text ih =>
    have hone : 1 ≤ (escape c).length := by
      unfold escape
      split_ifs <;> simp
    rw [List.flatMap_cons, List.length_append, List.length_cons]
    omega

theorem readString_line {cs : List Char} (h : ∀ after, cs ≠ '"' :: '"' :: after) :
    readString ('"' :: cs) = readLineString '"' (cs.length + 1) cs := by
  match cs with
  | [] => rfl
  | [b] => rfl
  | b :: c :: after =>
    have hthree : (isQuote '"' && '"' == b && b == c) = false := by
      rw [Bool.eq_false_iff]
      intro hquotes
      obtain ⟨⟨-, rfl⟩, rfl⟩ : (isQuote '"' = true ∧ '"' = b) ∧ b = c := by simpa using hquotes
      exact h after rfl
    rw [readString, if_neg (by simp [hthree]), if_pos (by decide)]
    rfl

theorem readString_text (text : List Char) {rest : List Char} (hrest : rest.head? ≠ some '"') :
    readString ('"' :: (text.flatMap escape ++ '"' :: rest)) = some (text, rest) := by
  rw [readString_line, readLineString_text]
  · have hlength := length_le_flatMap_escape text
    rw [List.length_append]
    omega
  · intro after h
    cases text with
    | nil => simp [(List.cons.inj h).2] at hrest
    | cons c text =>
      rw [List.flatMap_cons, List.append_assoc] at h
      exact head?_escape c _ (congrArg List.head? h)

theorem readValue_chars (v : Value) {rest : List Char} (hrest : ∀ c ∈ rest.head?, c = '\n') :
    readValue (v.chars ++ rest) = some (v, rest) := by
  have hword : rest.takeWhile Char.isAlpha = [] := by
    cases rest with
    | nil => rfl
    | cons c rest =>
      obtain rfl := hrest c rfl
      rfl
  cases v with
  | string text =>
    have hquote : rest.head? ≠ some '"' := by
      intro h
      exact absurd (hrest _ h) (by decide)
    simp [Value.chars, readValue, isQuote, readString_text text.toList hquote]
  | boolean b => cases b <;> simp [Value.chars, readValue, isQuote, hword]

/-! ### Lines -/

inductive Line where
  | comment (text : List Char)
  | entry (key : String) (value : Value)

namespace Line

def chars : Line → List Char
  | .comment text => '#' :: text
  | .entry key value => key.toList ++ ' ' :: '=' :: ' ' :: value.chars

def entry? : Line → Option (String × Value)
  | .comment _ => none
  | .entry key value => some (key, value)

/-- No control character but the tab is in a comment, and a key needs no quotes. -/
def IsWritable : Line → Prop
  | .comment text => ∀ c ∈ text, isPlain c = true
  | .entry key _ => key.toList ≠ [] ∧ ∀ c ∈ key.toList, isBareKeyChar c = true

end Line

theorem skipSpace_cons {c : Char} (h : isSpace c = false) (cs : List Char) :
    skipSpace (c :: cs) = c :: cs := by
  simp [skipSpace, h]

theorem readLineEnd_newline (rest : List Char) : readLineEnd ('\n' :: rest) = some rest := rfl

theorem readLines_comment {text : List Char} (h : ∀ c ∈ text, isPlain c = true) (rest : List Char) :
    readLines (fuel + 1) ('#' :: text ++ '\n' :: rest) = readLines fuel rest := by
  have hdrop : (text ++ '\n' :: rest).dropWhile isPlain = '\n' :: rest := by
    rw [List.dropWhile_append_of_pos h]
    rfl
  have hend : readLineEnd ('#' :: text ++ '\n' :: rest) = some rest := by
    simp [readLineEnd, skipSpace, isSpace, hdrop, afterNewline?]
  rw [readLines, hend]
  simp

theorem ne_of_isBareKeyChar {c d : Char} (hc : isBareKeyChar c = true) (hd : isBareKeyChar d = false) :
    c ≠ d := by
  rintro rfl
  simp [hc] at hd

theorem isSpace_of_isBareKeyChar {c : Char} (hc : isBareKeyChar c = true) : isSpace c = false := by
  simp [isSpace, ne_of_isBareKeyChar hc (d := ' ') (by decide),
    ne_of_isBareKeyChar hc (d := '\t') (by decide)]

theorem readKey_bare {key : String} {c : Char} {name : List Char} (hname : key.toList = c :: name)
    (hkey : ∀ d ∈ key.toList, isBareKeyChar d = true) (cs : List Char) :
    readKey (key.toList ++ ' ' :: cs) = some (key, ' ' :: cs) := by
  have htake : (key.toList ++ ' ' :: cs).takeWhile isBareKeyChar = key.toList := by
    rw [List.takeWhile_append_of_pos hkey]
    simp [isBareKeyChar]
  have hc : isBareKeyChar c = true := hkey c (by simp [hname])
  have hquote : isQuote c = false := by
    simp [isQuote, ne_of_isBareKeyChar hc (d := '"') (by decide),
      ne_of_isBareKeyChar hc (d := '\x27') (by decide)]
  have hne : key.toList ≠ [] := by simp [hname]
  rw [readKey.eq_def]
  simp only [hname, List.cons_append, hquote]
  rw [← List.cons_append, ← hname, htake]
  simp [hne]

theorem readLineEnd_bare {c : Char} (hc : isBareKeyChar c = true) (cs : List Char) :
    readLineEnd (c :: cs) = none := by
  have hcomment : c ≠ '#' := ne_of_isBareKeyChar hc (by decide)
  have hfeed : c ≠ '\n' := ne_of_isBareKeyChar hc (by decide)
  have hreturn : c ≠ '\r' := ne_of_isBareKeyChar hc (by decide)
  have hend : afterNewline? (c :: cs) = none := by
    unfold afterNewline?
    split
    · next h => exact absurd (List.cons.inj h).1 hfeed
    · next h => exact absurd (List.cons.inj h).1 hreturn
    · rfl
  rw [readLineEnd, skipSpace_cons (isSpace_of_isBareKeyChar hc)]
  split
  · next h => exact absurd (List.cons.inj h).1 hcomment
  · exact hend

theorem skipSpace_chars (v : Value) (rest : List Char) :
    skipSpace (' ' :: (v.chars ++ rest)) = v.chars ++ rest := by
  cases v with
  | string => rfl
  | boolean b => cases b <;> rfl

theorem readLines_entry {key : String} (value : Value) (hne : key.toList ≠ [])
    (hkey : ∀ c ∈ key.toList, isBareKeyChar c = true) (rest : List Char) :
    readLines (fuel + 1) ((Line.entry key value).chars ++ '\n' :: rest) =
      (readLines fuel rest).map ((key, value) :: ·) := by
  obtain ⟨c, name, hname⟩ := List.exists_cons_of_ne_nil hne
  have hc : isBareKeyChar c = true := hkey c (by simp [hname])
  let after := value.chars ++ '\n' :: rest
  let text := key.toList ++ ' ' :: '=' :: ' ' :: after
  have htext : (Line.entry key value).chars ++ '\n' :: rest = text := by simp [Line.chars, text, after]
  have hend : readLineEnd text = none := by
    simp only [text, hname, List.cons_append]
    exact readLineEnd_bare hc _
  have hskip : skipSpace text = text := by
    simp only [text, hname, List.cons_append]
    exact skipSpace_cons (isSpace_of_isBareKeyChar hc) _
  have hafter : skipSpace (' ' :: after) = after := skipSpace_chars value _
  have hvalue : readValue after = some (value, '\n' :: rest) := readValue_chars value (by simp)
  have hmark : skipSpace (' ' :: '=' :: ' ' :: after) = '=' :: ' ' :: after := rfl
  rw [htext, readLines]
  · simp only [hend, hskip, text, readKey_bare hname hkey]
    simp only [bind, Option.bind, hmark, hafter, hvalue, readLineEnd_newline]
    cases readLines fuel rest <;> rfl
  · simp [text]

def charsOf (lines : List Line) : List Char := lines.flatMap fun line => line.chars ++ ['\n']

theorem readLines_charsOf {lines : List Line} (h : ∀ line ∈ lines, line.IsWritable)
    (hfuel : lines.length ≤ fuel) :
    readLines fuel (charsOf lines) = some (lines.filterMap Line.entry?) := by
  induction lines generalizing fuel with
  | nil => cases fuel <;> rfl
  | cons line lines ih =>
    obtain ⟨hline, hlines⟩ := List.forall_mem_cons.1 h
    cases fuel with
    | zero => simp at hfuel
    | succ fuel =>
      have hrest := ih hlines (Nat.le_of_succ_le_succ hfuel)
      rw [charsOf, List.flatMap_cons, List.append_assoc, List.singleton_append]
      change readLines (fuel + 1) (line.chars ++ '\n' :: charsOf lines) = _
      cases line with
      | comment text => exact (readLines_comment hline _).trans hrest
      | entry key value => rw [readLines_entry value hline.1 hline.2, hrest]; rfl

/-! ### Whole files -/

theorem length_le_charsOf (lines : List Line) : lines.length ≤ (charsOf lines).length := by
  induction lines with
  | nil => exact Nat.le_refl 0
  | cons line lines ih =>
    rw [charsOf, List.flatMap_cons, List.length_append, List.length_cons]
    change lines.length + 1 ≤ _ + (charsOf lines).length
    simp
    omega

theorem head?_charsOf {lines : List Line} (h : ∀ line ∈ lines, line.IsWritable) :
    (charsOf lines).head? ≠ some '\ufeff' := by
  match lines with
  | [] => simp [charsOf]
  | .comment text :: lines => simp [charsOf, Line.chars]
  | .entry key value :: lines =>
    obtain ⟨hne, hkey⟩ := h (.entry key value) List.mem_cons_self
    obtain ⟨c, name, hname⟩ := List.exists_cons_of_ne_nil hne
    have hc : c ≠ '\ufeff' := ne_of_isBareKeyChar (hkey c (by simp [hname])) (by decide)
    simpa [charsOf, Line.chars, hname] using hc

/-- A file of written lines is read by its entries, if none of them has the key of another. -/
theorem read?_lines {lines : List Line} (h : ∀ line ∈ lines, line.IsWritable)
    (hnodup : (lines.filterMap Line.entry?).map Prod.fst |>.Nodup) :
    read? (String.ofList (charsOf lines)) =
      (lines.filterMap Line.entry?).foldlM (fun c e => set? c e.1 e.2) {} := by
  have hlines : readLines ((charsOf lines).length + 1) (charsOf lines) =
      some (lines.filterMap Line.entry?) :=
    readLines_charsOf h (Nat.le_succ_of_le (length_le_charsOf lines))
  rw [read?, String.toList_ofList]
  split
  · -- A byte order mark would be skipped.
    next heq => exact absurd (congrArg List.head? heq) (head?_charsOf h)
  · simp [hlines, hnodup]

def lines (c : ConfigFile) : List Line :=
  c.stateFile.toList.map (fun text => .entry "state_file" (.string text)) ++
    c.logLevel.toList.map (fun text => .entry "log_level" (.string text)) ++
    [.entry "show_hints" (.boolean c.showHints)]

theorem isWritable_of_mem_lines {c : ConfigFile} {line : Line} (h : line ∈ c.lines) :
    line.IsWritable := by
  have hbare : ∀ key ∈ ["state_file", "log_level", "show_hints"],
      key.toList ≠ [] ∧ ∀ c ∈ key.toList, isBareKeyChar c = true := by
    simp only [← List.all_eq_true]
    decide
  simp only [lines, List.mem_append, List.mem_map, List.mem_singleton] at h
  obtain (⟨text, -, rfl⟩ | ⟨text, -, rfl⟩) | rfl := h
  · exact hbare "state_file" (by simp)
  · exact hbare "log_level" (by simp)
  · exact hbare "show_hints" (by simp)

/-- A config is read as it was written. -/
theorem read?_text (c : ConfigFile) : read? (String.ofList (charsOf c.lines)) = some c := by
  rw [read?_lines fun line => isWritable_of_mem_lines]
  · obtain ⟨stateFile, logLevel, showHints⟩ := c
    cases stateFile <;> cases logLevel <;> rfl
  · obtain ⟨stateFile, logLevel, showHints⟩ := c
    cases stateFile <;> cases logLevel <;> simp [lines, Line.entry?]

end PracticeShell.ConfigFile
