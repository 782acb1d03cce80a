import PracticeShell.Proofs.LogFilter.Order
import PracticeShell.Proofs.Text.Digits
import PracticeShell.Proofs.Text.Ends
import Mathlib.Control.Basic
import Mathlib.Data.List.TakeWhile

/-! Log filters written and read back. What is in force is written as a text that means the same. -/
namespace PracticeShell.LogFilter

theorem head?_decimal_ne {c : Char} (n : Nat) (hc : c.isDigit = false) :
    (Text.decimal n).head? ≠ some c := by
  intro h
  rw [Text.isDigit_of_mem_decimal (List.mem_of_mem_head? h)] at hc
  exact Bool.noConfusion hc

theorem all_isDigit_decimal (n : Nat) : (Text.decimal n).all Char.isDigit = true :=
  List.all_eq_true.2 fun _ hc => Text.isDigit_of_mem_decimal hc

/-! ### Levels -/

namespace Level

theorem isDigit_of_toLower {c d : Char} (h : c.toLower = d) (hd : d.isDigit = false) :
    c.isDigit = false := by
  by_contra hdigit
  have hc : c.isDigit = true := by simpa using hdigit
  have hupper : ¬ (c.val ≥ 'A'.val ∧ c.val ≤ 'Z'.val) := by
    rw [Char.isDigit_iff_toNat] at hc
    rintro ⟨hA, -⟩
    have hle : 'A'.toNat ≤ c.toNat := hA
    simp at hc hle
    omega
  have hself : c.toLower = c := dif_neg hupper
  rw [← h, hself, hc] at hd
  exact Bool.noConfusion hd

theorem ofChars?_name {level : Level} {cs : List Char} (h : cs.map Char.toLower = level.text.toList) :
    ofChars? cs = some level := by
  have hfind : (all.find? fun l => l.text.toList == level.text.toList) = some level := by
    cases level <;> rfl
  have hhead : ∀ d ∈ level.text.toList.head?, d.isDigit = false ∧ d ≠ '+' := by
    cases level <;> simp [text]
  cases cs with
  | nil => cases level <;> simp [text] at h
  | cons c cs =>
    obtain ⟨hdigit, hplus⟩ := hhead c.toLower (by rw [← h]; rfl)
    have hc : c.isDigit = false := isDigit_of_toLower rfl hdigit
    have hsign : c ≠ '+' := by
      rintro rfl
      exact hplus rfl
    simp only [ofChars?, h]
    simp [hc, hsign, hfind]

theorem ofChars?_number (n : Nat) : ofChars? (Text.decimal n) = all[n]? := by
  have hne : Text.decimal n ≠ [] := Nat.toDigits_ne_nil
  have hsign : ((Text.decimal n).head? == some '+') = false := by
    simpa using head?_decimal_ne n (c := '+') (by decide)
  have hdigits : (Text.decimal n).all Char.isDigit = true := all_isDigit_decimal n
  simp only [ofChars?, hsign, Bool.false_eq_true, if_false, hdigits, Text.digitsValue_decimal]
  simp [hne]

theorem ofChars?_text (level : Level) : ofChars? level.text.toList = some level := by
  cases level <;> rfl

end Level

/-! ### Values and fields -/

namespace Value

/-- The value is read back from its text. Doubles are left out. -/
def IsPlain : Value → Prop
  | .boolean _ | .notANumber => True
  | .double _ => False
  | .natural n => n < Nat.pow 2 64
  | .integer i => i < 0 ∧ -(Nat.pow 2 63 : Int) ≤ i
  | .pattern text => ofChars? text.toList = some (.pattern text)

theorem digitsValue?_decimal (n : Nat) : digitsValue? (Text.decimal n) = some n := by
  have hne : Text.decimal n ≠ [] := Nat.toDigits_ne_nil
  have hdigits : (Text.decimal n).all Char.isDigit = true := all_isDigit_decimal n
  simp only [digitsValue?, hdigits, Text.digitsValue_decimal]
  simp [hne]

theorem ofChars?_text {v : Value} (h : v.IsPlain) : ofChars? v.text.toList = some v := by
  cases v with
  | boolean b => cases b <;> rfl
  | double d => exact h.elim
  | notANumber => rfl
  | natural n =>
    have hword : ofWord? (Text.decimal n) = none := by
      have htrue : Text.decimal n ≠ ['t', 'r', 'u', 'e'] := fun h =>
        head?_decimal_ne n (c := 't') (by decide) (by rw [h]; rfl)
      have hfalse : Text.decimal n ≠ ['f', 'a', 'l', 's', 'e'] := fun h =>
        head?_decimal_ne n (c := 'f') (by decide) (by rw [h]; rfl)
      simp [ofWord?, htrue, hfalse]
    have hn : n < Nat.pow 2 64 := h
    have hread : natural? (Text.decimal n) = some (.natural n) := by
      simp [natural?, head?_decimal_ne n (c := '+') (by decide), digitsValue?_decimal, hn]
    rw [text, String.toList_ofList, ofChars?, hword, hread]
    rfl
  | integer i =>
    obtain ⟨hneg, hi⟩ := h
    have htext : (Value.integer i).text.toList = '-' :: Text.decimal i.natAbs := by
      simp [text, hneg]
    have hnatural : natural? ('-' :: Text.decimal i.natAbs) = none := by
      simp [natural?, digitsValue?]
    have habs : -(i.natAbs : Int) = i := by omega
    have hbounds : -(Nat.pow 2 63 : Int) ≤ i ∧ i < Nat.pow 2 63 := ⟨hi, by omega⟩
    have hread : integer? ('-' :: Text.decimal i.natAbs) = some (.integer i) := by
      simp only [integer?, Decimal.unsigned, digitsValue?_decimal, List.head?_cons, if_true,
        Option.bind_eq_bind, Option.bind_some, habs, if_pos hbounds]
      rfl
    rw [htext, ofChars?, hnatural, hread]
    rfl
  | pattern text => exact h

end Value

namespace Field

structure IsPlain (f : Field) : Prop where
  name : '=' ∉ f.name.toList
  value : ∀ v ∈ f.value, v.IsPlain ∧ '=' ∉ v.text.toList

theorem ofChars?_text {f : Field} (h : f.IsPlain) : ofChars? f.text.toList = some f := by
  obtain ⟨name, value⟩ := f
  cases value with
  | none =>
    have hsplit : name.toList.splitOn '=' = [name.toList] := List.splitOn_eq_singleton h.name
    simp [text, ofChars?, hsplit]
  | some v =>
    obtain ⟨hv, hmark⟩ := h.value v rfl
    have hsplit : (name.toList ++ '=' :: v.text.toList).splitOn '=' = [name.toList, v.text.toList] := by
      rw [List.splitOn_append_cons_self_of_not_mem h.name, List.splitOn_eq_singleton hmark]
    simp [text, ofChars?, hsplit, Value.ofChars?_text hv]

end Field

/-! ### Directives -/

namespace Directive

/-- A target begins with a letter, a numeral, `-`, `:` or `_`, and holds no mark that ends it. -/
structure IsTarget (t : String) : Prop where
  begins : ∃ c cs, t.toList = c :: cs ∧ beginsTarget c = true
  marks : ∀ c ∈ t.toList, c ≠ '=' ∧ c ≠ '[' ∧ c ≠ ','

structure IsPlain (d : Directive) : Prop where
  target : ∀ t ∈ d.target, IsTarget t
  span : ∀ s ∈ d.span, ∀ c ∈ s.toList, c ≠ ']' ∧ c ≠ '\x7b' ∧ c ≠ ','
  fields : d.fields = [] ∨ ∃ f, d.fields = [f] ∧ d.span ≠ some "" ∧ f.IsPlain ∧ f.text ≠ "" ∧
    ∀ c ∈ f.text.toList, c ≠ '\x7d' ∧ c ≠ ','

theorem levelAfter?_text (level : Level) : levelAfter? level.text.toList = some level := by
  cases level <;> rfl

theorem dropBytes_past (a mark rest : List Char) :
    Text.Utf8.dropBytes (Text.Utf8.byteLength a + Text.Utf8.byteLength mark) (a ++ (mark ++ rest)) =
      rest := by
  rw [← Text.Utf8.byteLength_append, ← List.append_assoc, Text.Utf8.dropBytes_append]

theorem afterSpan_level (d : Directive) (level : Level) :
    afterSpan d ('=' :: level.text.toList) ('=' :: level.text.toList) = some { d with level } := by
  have hdrop : Text.Utf8.dropBytes 1 ('=' :: level.text.toList) = level.text.toList :=
    dropBytes_past [] ['='] _
  rw [afterSpan, hdrop, levelAfter?_text]
  rfl

theorem takeWhile_before {p : Char → Bool} {cs rest : List Char} {c : Char} (h : ∀ d ∈ cs, p d = true)
    (hc : p c = false) : (cs ++ c :: rest).takeWhile p = cs := by
  rw [List.takeWhile_append_of_pos h, List.takeWhile_cons_of_neg (by simp [hc]), List.append_nil]

/-- The part of a directive after its opening bracket. -/
def spanChars (d : Directive) : List Char :=
  match d.fields with
  | [] => (d.span.getD "").toList ++ ']' :: '=' :: d.level.text.toList
  | f :: _ => (d.span.getD "").toList ++
      '\x7b' :: (f.text.toList ++ '\x7d' :: ']' :: '=' :: d.level.text.toList)

theorem span_getD_marks {d : Directive} (h : d.IsPlain) :
    ∀ c ∈ (d.span.getD "").toList, (c != ']' && c != '\x7b') = true := by
  cases hs : d.span with
  | none => simp
  | some s =>
    intro c hc
    have hmarks := h.span s hs c hc
    simp [hmarks.1, hmarks.2.1]

variable {name : List Char}

theorem readSpan_bare (target : Option String) (level : Level)
    (hname : ∀ c ∈ name, (c != ']' && c != '\x7b') = true) :
    readSpan target (name ++ ']' :: '=' :: level.text.toList)
        (name ++ ']' :: '=' :: level.text.toList) =
      some { target, span := some (String.ofList name), level } := by
  have htake : (name ++ ']' :: '=' :: level.text.toList).takeWhile
      (fun c => c != ']' && c != '\x7b') = name := takeWhile_before hname rfl
  have hdrop : Text.Utf8.dropBytes (Text.Utf8.byteLength name + 1)
      (name ++ ']' :: '=' :: level.text.toList) = '=' :: level.text.toList :=
    dropBytes_past name [']'] _
  simp only [readSpan, htake, hdrop, Text.Utf8.takeBytes_append, List.drop_left, afterSpan_level]

theorem readSpan_field (target : Option String) (level : Level) {f : Field} (hf : f.IsPlain)
    (hne : f.text ≠ "") (hmarks : ∀ c ∈ f.text.toList, c ≠ '\x7d')
    (hname : ∀ c ∈ name, (c != ']' && c != '\x7b') = true) :
    let inner := f.text.toList ++ '\x7d' :: ']' :: '=' :: level.text.toList
    let span := if name = [] then none else some (String.ofList name)
    readSpan target (name ++ '\x7b' :: inner) (name ++ '\x7b' :: inner) =
      some { target, span, fields := [f], level } := by
  intro inner span
  let rest := '=' :: level.text.toList
  have htake : (name ++ '\x7b' :: inner).takeWhile (fun c => c != ']' && c != '\x7b') = name :=
    takeWhile_before hname rfl
  have hdrop : Text.Utf8.dropBytes (Text.Utf8.byteLength name + 1) (name ++ '\x7b' :: inner) = inner :=
    dropBytes_past name ['\x7b'] _
  have hfield : inner.takeWhile (· != '\x7d') = f.text.toList :=
    takeWhile_before (fun c hc => by simp [hmarks c hc]) rfl
  have hempty : f.text.toList.isEmpty = false := by simpa using hne
  have hskip : inner.drop f.text.toList.length = '\x7d' :: ']' :: rest := List.drop_left
  have hinside : Text.Utf8.takeBytes (Text.Utf8.byteLength f.text.toList) inner = f.text.toList :=
    Text.Utf8.takeBytes_append f.text.toList _
  have hafter : Text.Utf8.dropBytes (Text.Utf8.byteLength f.text.toList + 2) inner = rest :=
    dropBytes_past f.text.toList ['\x7d', ']'] _
  simp only [readSpan, htake, hdrop, Text.Utf8.takeBytes_append, List.drop_left]
  simp only [hfield, hempty, Bool.not_false, guard_true]
  simp only [hskip, hinside, Field.ofChars?_text hf, hafter, Text.Utf8.byteLength_eq_zero_iff]
  exact afterSpan_level _ level

theorem readSpan_spanChars {d : Directive} (h : d.IsPlain) (hd : d.isDynamic = true) :
    readSpan d.target d.spanChars d.spanChars = some d := by
  have hname := span_getD_marks h
  have hfields := h.fields
  obtain ⟨target, span, fields, level⟩ := d
  obtain rfl | ⟨f, rfl, hspan, hf, hne, hmarks⟩ := hfields
  · obtain ⟨s, rfl⟩ : ∃ s, span = some s := by simpa [isDynamic, Option.isSome_iff_exists] using hd
    have hread := readSpan_bare target level hname
    rwa [Option.getD_some, String.ofList_toList] at hread
  · -- Beside a field an empty span is read as none, which `hspan` rules out.
    have hgiven : (if (span.getD "").toList = [] then none
        else some (String.ofList (span.getD "").toList)) = span := by
      cases span with
      | none => rfl
      | some s =>
        have hs : s ≠ "" := fun hs => hspan (congrArg some hs)
        simp [hs]
    have hread := readSpan_field target level hf hne (fun c hc => (hmarks c hc).1) hname
    rwa [hgiven] at hread

theorem toList_text_dynamic {d : Directive} (h : d.IsPlain) (hd : d.isDynamic = true) :
    d.text.toList = (d.target.getD "").toList ++ '[' :: d.spanChars := by
  obtain hfields | ⟨f, hfields, -⟩ := h.fields
  · simp [text, hd, hfields, spanChars]
  · simp [text, hd, hfields, spanChars]

theorem toList_text_target {d : Directive} {t : String} (ht : d.target = some t)
    (hd : d.isDynamic = false) : d.text.toList = t.toList ++ '=' :: d.level.text.toList := by
  simp [text, hd, ht]

theorem not_isBlank_of_beginsTarget {c : Char} (h : beginsTarget c = true) : Text.isBlank c = false := by
  by_contra hblank
  have hmem : c.toNat ∈ Text.blankCodes := by simpa [Text.isBlank] using hblank
  have hall : ∀ k ∈ Text.blankCodes, beginsTarget (Char.ofNat k) = false := by decide +kernel
  have hc := hall c.toNat hmem
  rw [Char.ofNat_toNat, h] at hc
  exact Bool.noConfusion hc

/-- A directive ends in a level, so only its beginning can be trimmed. -/
theorem trimChars_level {cs : List Char} {level : Level}
    (h : ∀ c ∈ (cs ++ level.text.toList).head?, Text.isBlank c = false) :
    Text.trimChars (cs ++ level.text.toList) = cs ++ level.text.toList := by
  refine Text.trimChars_eq h ?_
  intro c hc
  rw [List.getLast?_append] at hc
  cases level <;> simp [Level.text] at hc <;> subst hc <;> decide

theorem exists_spanChars (d : Directive) : ∃ cs, d.spanChars = cs ++ d.level.text.toList := by
  unfold spanChars
  split
  · exact ⟨(d.span.getD "").toList ++ [']', '='], by simp⟩
  · next f _ _ =>
    exact ⟨(d.span.getD "").toList ++ '\x7b' :: (f.text.toList ++ ['\x7d', ']', '=']), by simp⟩

theorem ofChars?_bracket {d : Directive} (h : d.IsPlain) (hd : d.isDynamic = true)
    (ht : d.target = none) : ofChars? ('[' :: d.spanChars) = some d := by
  obtain ⟨cs, hcs⟩ := exists_spanChars d
  have htrim : Text.trimChars ('[' :: d.spanChars) = '[' :: d.spanChars := by
    rw [hcs, ← List.cons_append]
    exact trimChars_level (by simp; decide)
  have hafter : Text.Utf8.dropBytes 1 ('[' :: d.spanChars) = d.spanChars := dropBytes_past [] ['['] _
  have hread := readSpan_spanChars h hd
  rw [ht] at hread
  rw [ofChars?, htrim]
  simp [Text.Utf8.byteLength, hafter, hread]

theorem ofChars?_target {t : String} {mark : Char} {rest : List Char} (ht : IsTarget t)
    (hmark : mark = '=' ∨ mark = '[')
    (htrim : Text.trimChars (t.toList ++ mark :: rest) = t.toList ++ mark :: rest) :
    ofChars? (t.toList ++ mark :: rest) =
      if mark = '=' then (levelAfter? rest).map fun level => { target := some t, level }
      else readSpan (some t) rest rest := by
  obtain ⟨c, cs, hcs, hc⟩ := ht.begins
  have htake : (t.toList ++ mark :: rest).takeWhile (fun c => c != '=' && c != '[') = t.toList := by
    refine takeWhile_before (fun d hd => ?_) ?_
    · simp [(ht.marks d hd).1, (ht.marks d hd).2.1]
    · obtain rfl | rfl := hmark <;> rfl
  have hafter : Text.Utf8.dropBytes (Text.Utf8.byteLength t.toList + 1) (t.toList ++ mark :: rest) =
      rest := by
    obtain rfl | rfl := hmark
    · exact dropBytes_past t.toList ['='] rest
    · exact dropBytes_past t.toList ['['] rest
  simp only [ofChars?, htrim, htake, hafter, Text.Utf8.takeBytes_append, List.drop_left,
    String.ofList_toList]
  rw [hcs, List.cons_append]
  split
  · next heq => simp at heq
  · next heq =>
    rw [(List.cons.inj heq).1] at hc
    exact absurd hc (by decide +kernel)
  · next heq =>
    rw [← (List.cons.inj heq).1, hc]
    obtain rfl | rfl := hmark <;> rfl

theorem trimChars_target {t : String} (ht : IsTarget t) (cs : List Char) (level : Level) :
    Text.trimChars (t.toList ++ (cs ++ level.text.toList)) = t.toList ++ (cs ++ level.text.toList) := by
  obtain ⟨c, rest, hcs, hc⟩ := ht.begins
  rw [← List.append_assoc]
  refine trimChars_level fun d hd => ?_
  obtain rfl : c = d := by simpa [hcs] using hd
  exact not_isBlank_of_beginsTarget hc

theorem ofChars?_text {d : Directive} (h : d.IsPlain) : ofChars? d.text.toList = some d := by
  cases hd : d.isDynamic with
  | true =>
    rw [toList_text_dynamic h hd]
    cases ht : d.target with
    | none => exact ofChars?_bracket h hd ht
    | some t =>
      have htarget : IsTarget t := h.target t ht
      have htrim : Text.trimChars (t.toList ++ '[' :: d.spanChars) = t.toList ++ '[' :: d.spanChars := by
        obtain ⟨cs, hcs⟩ := exists_spanChars d
        rw [hcs]
        exact trimChars_target htarget ('[' :: cs) d.level
      have hread := readSpan_spanChars h hd
      rw [ht] at hread
      rw [Option.getD_some, ofChars?_target htarget (.inr rfl) htrim, if_neg (by decide), hread]
  | false =>
    obtain ⟨target, span, fields, level⟩ := d
    obtain ⟨hfields, hspan⟩ : fields = [] ∧ span = none := by simpa [isDynamic] using hd
    subst hfields hspan
    cases target with
    | none => cases level <;> rfl
    | some t =>
      have htarget : IsTarget t := h.target t rfl
      have htrim : Text.trimChars (t.toList ++ '=' :: level.text.toList) =
          t.toList ++ '=' :: level.text.toList := trimChars_target htarget ['='] level
      rw [toList_text_target rfl hd, ofChars?_target htarget (.inl rfl) htrim, if_pos rfl,
        levelAfter?_text]
      rfl

end Directive

/-! ### Filters -/

theorem Directive.text_ne_empty {d : Directive} (h : d.IsPlain) : d.text.toList ≠ [] := by
  intro hempty
  have hread := ofChars?_text h
  rw [hempty] at hread
  cases hread

theorem Level.comma_not_mem_text (level : Level) : ',' ∉ level.text.toList := by
  cases level <;> decide

theorem Directive.comma_not_mem_spanChars {d : Directive} (h : d.IsPlain) : ',' ∉ d.spanChars := by
  have hlevel := Level.comma_not_mem_text d.level
  have hspan : ',' ∉ (d.span.getD "").toList := by
    cases hs : d.span with
    | none => simp
    | some s => exact fun hmem => (h.span s hs ',' hmem).2.2 rfl
  unfold spanChars
  obtain hfields | ⟨f, hfields, -, -, -, hmarks⟩ := h.fields
  · simp [hfields, hspan, hlevel]
  · have hfield : ',' ∉ f.text.toList := fun hmem => (hmarks ',' hmem).2 rfl
    simp [hfields, hspan, hfield, hlevel]

theorem Directive.comma_not_mem_text {d : Directive} (h : d.IsPlain) : ',' ∉ d.text.toList := by
  have htarget : ',' ∉ (d.target.getD "").toList := by
    cases ht : d.target with
    | none => simp
    | some t => exact fun hmem => ((h.target t ht).marks ',' hmem).2.2 rfl
  cases hd : d.isDynamic with
  | true => simp [toList_text_dynamic h hd, htarget, comma_not_mem_spanChars h]
  | false =>
    have hlevel := Level.comma_not_mem_text d.level
    cases ht : d.target with
    | none => simp [text, hd, ht, hlevel]
    | some t =>
      rw [ht, Option.getD_some] at htarget
      simp [toList_text_target ht hd, htarget, hlevel]

theorem mapM_text {ds : List Directive} (h : ∀ d ∈ ds, d.IsPlain) :
    ((ds.map Directive.text).map String.toList).mapM Directive.ofChars? = some ds := by
  induction ds with
  | nil => rfl
  | cons d ds ih =>
    obtain ⟨hd, hds⟩ := List.forall_mem_cons.1 h
    rw [List.map_cons, List.map_cons, List.mapM_cons, Directive.ofChars?_text hd, ih hds]
    rfl

theorem ofText?_text {ds : List Directive} (h : ∀ d ∈ ds, d.IsPlain) :
    ofText? (text ds) = some (canonical ds) := by
  have hparts : ((text ds).toList.splitOn ',').filter (fun p => !p.isEmpty) =
      (ds.map Directive.text).map String.toList := by
    rw [text, String.toList_intercalate]
    cases ds with
    | nil => rfl
    | cons d ds =>
      have hsplit : ([','].intercalate (((d :: ds).map Directive.text).map String.toList)).splitOn ',' =
          ((d :: ds).map Directive.text).map String.toList := by
        refine List.splitOn_intercalate ',' ?_ (by simp)
        simpa using fun e he => Directive.comma_not_mem_text (h e he)
      change (List.splitOn ',' ([','].intercalate _)).filter _ = _
      rw [hsplit, List.filter_eq_self]
      simpa using fun e he => Directive.text_ne_empty (h e he)
  rw [ofText?, hparts, mapM_text h]
  rfl

/-- The text of a filter in force is in force unchanged. -/
theorem inForce?_text {ds : List Directive} (h : ∀ d ∈ ds, d.IsPlain)
    (environment config : Option String) :
    inForce? (some (text (canonical ds))) environment config = some (text (canonical ds)) := by
  have hcanonical : ∀ d ∈ canonical ds, d.IsPlain := fun d hd => h d (mem_canonical.1 hd).mem
  rw [inForce?, chosen, Option.some_or, Option.some_or, Option.getD_some, ofText?_text hcanonical,
    canonical_canonical]
  rfl

example : inForce? none (some "core=info,shell[run]=debug,core=OFF") none =
    some "core=off,shell[run]=debug" := by decide +kernel

end PracticeShell.LogFilter
