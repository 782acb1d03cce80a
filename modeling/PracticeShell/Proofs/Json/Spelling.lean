import PracticeShell.Json.Token
import PracticeShell.Proofs.Text.Digits

/-! How a JSON text spells numbers and strings. A number has no leading zeros, may have a fraction and
may have an exponent. In a string, a code stands as it is or as an escape, and two halves of a surrogate
pair make one character. -/
namespace PracticeShell.Json
variable {cs rest text : List Char} {codes : List Nat}

/-! ### Numbers -/

def IsDigits (cs : List Char) : Prop := cs ≠ [] ∧ ∀ c ∈ cs, c.isDigit = true

inductive IsWhole : List Char → Prop
  | zero : IsWhole ['0']
  | digits {c : Char} {ds : List Char} (hc : c ≠ '0') (h : IsDigits (c :: ds)) : IsWhole (c :: ds)

inductive IsFraction : List Char → Prop
  | absent : IsFraction []
  | digits {ds : List Char} (h : IsDigits ds) : IsFraction ('.' :: ds)

inductive IsExponent : List Char → Prop
  | absent : IsExponent []
  | digits {e : Char} {s ds : List Char} (he : e = 'e' ∨ e = 'E')
    (hs : s = [] ∨ s = ['+'] ∨ s = ['-']) (h : IsDigits ds) : IsExponent (e :: (s ++ ds))

inductive SpellsNumber : List Char → Prop
  | parts {sign whole fraction exponent : List Char} (hsign : sign = [] ∨ sign = ['-'])
    (hwhole : IsWhole whole) (hfraction : IsFraction fraction) (hexponent : IsExponent exponent) :
    SpellsNumber (sign ++ (whole ++ (fraction ++ exponent)))

theorem afterDigits?_append (hd : IsDigits cs) (hr : Text.EndsDigits rest) :
    Decimal.afterDigits? (cs ++ rest) = some rest := by
  rw [Decimal.afterDigits?, Text.readDigits_append hd.2 hd.1 (by simp) hr]
  rfl

theorem exists_digits_of_afterDigits? (h : Decimal.afterDigits? cs = some rest) :
    ∃ ds, cs = ds ++ rest ∧ IsDigits ds := by
  obtain ⟨⟨ds, rest'⟩, hread, rfl⟩ := Option.map_eq_some_iff.1 h
  obtain ⟨rfl, hne, hd⟩ := Text.readDigits_none_eq_some hread
  exact ⟨ds, rfl, hne, hd⟩

theorem afterDigits?_eq_nil_iff : (Decimal.afterDigits? cs == some []) = true ↔ IsDigits cs := by
  constructor
  · intro h
    obtain ⟨ds, rfl, hd⟩ := exists_digits_of_afterDigits? (eq_of_beq h)
    simpa using hd
  · intro hd
    have h := afterDigits?_append hd Text.endsDigits_nil
    rw [List.append_nil] at h
    simp [h]

theorem isExponentPart_iff : Decimal.isExponentPart cs = true ↔ IsExponent cs := by
  constructor
  · intro h
    cases cs with
    | nil => exact .absent
    | cons e cs =>
      unfold Decimal.isExponentPart at h
      simp only [Bool.and_eq_true, Bool.or_eq_true, beq_iff_eq] at h
      obtain ⟨he, hcs⟩ := h
      split at hcs
      · exact .digits (s := ['+']) he (by simp) (afterDigits?_eq_nil_iff.1 hcs)
      · exact .digits (s := ['-']) he (by simp) (afterDigits?_eq_nil_iff.1 hcs)
      · exact .digits (s := []) he (by simp) (afterDigits?_eq_nil_iff.1 hcs)
  · intro h
    cases h with
    | absent => rfl
    | @digits e s ds he hs hd =>
      have hmark : (e == 'e' || e == 'E') = true := by simpa using he
      have hdigits := afterDigits?_eq_nil_iff.2 hd
      obtain rfl | rfl | rfl := hs
      · obtain ⟨d, ds, rfl⟩ := List.exists_cons_of_ne_nil hd.1
        have hdigit : d.isDigit = true := hd.2 d List.mem_cons_self
        simp only [Decimal.isExponentPart, List.nil_append, hmark, Bool.true_and]
        split
        · next heq => simp [(List.cons.inj heq).1] at hdigit
        · next heq => simp [(List.cons.inj heq).1] at hdigit
        · exact hdigits
      · simpa [Decimal.isExponentPart, hmark] using hdigits
      · simpa [Decimal.isExponentPart, hmark] using hdigits

theorem endsDigits_of_isExponent (h : IsExponent cs) : Text.EndsDigits cs := by
  cases h with
  | absent => exact Text.endsDigits_nil
  | digits he =>
    obtain rfl | rfl := he
    · exact Text.endsDigits_cons rfl _
    · exact Text.endsDigits_cons rfl _

theorem isNumberTail_iff : isNumberTail cs = true ↔
    ∃ fraction exponent, cs = fraction ++ exponent ∧ IsFraction fraction ∧ IsExponent exponent := by
  constructor
  · intro h
    rw [isNumberTail.eq_def] at h
    split at h
    · next cs =>
      cases ha : Decimal.afterDigits? cs with
      | none => simp [ha] at h
      | some exponent =>
        simp only [ha] at h
        obtain ⟨ds, rfl, hd⟩ := exists_digits_of_afterDigits? ha
        exact ⟨'.' :: ds, exponent, rfl, .digits hd, isExponentPart_iff.1 h⟩
    · exact ⟨[], cs, rfl, .absent, isExponentPart_iff.1 h⟩
  · rintro ⟨fraction, exponent, rfl, hfraction, hexponent⟩
    cases hfraction with
    | absent =>
      rw [List.nil_append, isNumberTail.eq_def]
      split
      · cases hexponent with
        | digits he => simp at he
      · exact isExponentPart_iff.2 hexponent
    | digits hd =>
      have ha := afterDigits?_append hd (endsDigits_of_isExponent hexponent)
      simpa [isNumberTail, ha] using isExponentPart_iff.2 hexponent

theorem endsDigits_numberTail {fraction exponent : List Char} (hf : IsFraction fraction)
    (he : IsExponent exponent) : Text.EndsDigits (fraction ++ exponent) := by
  cases hf with
  | absent => exact endsDigits_of_isExponent he
  | digits => exact Text.endsDigits_cons rfl _

theorem isNumber_unsigned (h : cs.head? ≠ some '-') : isNumber cs = true ↔
    ∃ whole tail, cs = whole ++ tail ∧ IsWhole whole ∧ isNumberTail tail = true := by
  have hsign : (cs.head? == some '-') = false := by simpa using h
  constructor
  · intro hnumber
    simp only [isNumber, hsign] at hnumber
    split at hnumber
    · next tail heq => exact ⟨['0'], tail, by simpa using heq, .zero, hnumber⟩
    · next c ds hzero heq =>
      obtain rfl : cs = c :: ds := by simpa using heq
      simp only [Bool.and_eq_true, Option.any_eq_true] at hnumber
      obtain ⟨hc, tail, ha, htail⟩ := hnumber
      obtain ⟨whole, hcs, hd⟩ := exists_digits_of_afterDigits? ha
      obtain ⟨d, whole, rfl⟩ := List.exists_cons_of_ne_nil hd.1
      obtain ⟨rfl, rfl⟩ := List.cons.inj hcs
      exact ⟨c :: whole, tail, rfl, .digits hzero hd, htail⟩
    · simp at hnumber
  · rintro ⟨whole, tail, rfl, hwhole, htail⟩
    obtain ⟨fraction, exponent, rfl, hf, he⟩ := isNumberTail_iff.1 htail
    simp only [isNumber, hsign]
    cases hwhole with
    | zero => exact htail
    | @digits c ds _ hd =>
      have ha := afterDigits?_append hd (endsDigits_numberTail hf he)
      rw [List.cons_append] at ha
      simp [hd.2 c List.mem_cons_self, ha, htail]

theorem head?_whole (h : IsWhole cs) (tail : List Char) : (cs ++ tail).head? ≠ some '-' := by
  cases h with
  | zero => simp
  | @digits c ds hc hd =>
    have hdigit : c.isDigit = true := hd.2 c List.mem_cons_self
    rintro heq
    obtain rfl : c = '-' := by simpa using heq
    simp at hdigit

theorem isNumber_minus (h : cs.head? ≠ some '-') : isNumber ('-' :: cs) = isNumber cs := by
  simp [isNumber, h]

theorem isNumber_minus_minus (cs : List Char) : isNumber ('-' :: '-' :: cs) = false := rfl

theorem spellsNumber_of_isNumber {sign : List Char} (hsign : sign = [] ∨ sign = ['-'])
    (hminus : cs.head? ≠ some '-') (h : isNumber cs = true) : SpellsNumber (sign ++ cs) := by
  obtain ⟨whole, tail, rfl, hwhole, htail⟩ := (isNumber_unsigned hminus).1 h
  obtain ⟨fraction, exponent, rfl, hfraction, hexponent⟩ := isNumberTail_iff.1 htail
  exact .parts hsign hwhole hfraction hexponent

theorem isNumber_iff : isNumber cs = true ↔ SpellsNumber cs := by
  constructor
  · intro h
    by_cases hminus : cs.head? = some '-'
    · obtain ⟨rest, rfl⟩ := List.head?_eq_some_iff.1 hminus
      have hrest : rest.head? ≠ some '-' := by
        intro hrest
        obtain ⟨rest, rfl⟩ := List.head?_eq_some_iff.1 hrest
        rw [isNumber_minus_minus] at h
        exact Bool.noConfusion h
      rw [isNumber_minus hrest] at h
      exact spellsNumber_of_isNumber (.inr rfl) hrest h
    · exact spellsNumber_of_isNumber (.inl rfl) hminus h
  · rintro ⟨hsign, hwhole, hfraction, hexponent⟩
    have hminus := head?_whole hwhole
    have hunsigned := (isNumber_unsigned (hminus _)).2
      ⟨_, _, rfl, hwhole, isNumberTail_iff.2 ⟨_, _, rfl, hfraction, hexponent⟩⟩
    obtain rfl | rfl := hsign
    · exact hunsigned
    · exact (isNumber_minus (hminus _)).trans hunsigned

theorem isNumberChar_of_mem (h : SpellsNumber cs) : ∀ c ∈ cs, isNumberChar c = true := by
  have hdigits {ds : List Char} (hd : IsDigits ds) : ∀ c ∈ ds, isNumberChar c = true := by
    intro c hc
    simp [isNumberChar, hd.2 c hc]
  obtain ⟨hsign, hwhole, hfraction, hexponent⟩ := h
  simp only [List.forall_mem_append]
  refine ⟨?sign, ?whole, ?fraction, ?exponent⟩
  case sign => obtain rfl | rfl := hsign <;> simp [isNumberChar]
  case whole =>
    cases hwhole with
    | zero => simp [isNumberChar]
    | digits _ hd => exact hdigits hd
  case fraction =>
    cases hfraction with
    | absent => simp
    | digits hd => exact List.forall_mem_cons.2 ⟨rfl, hdigits hd⟩
  case exponent =>
    cases hexponent with
    | absent => simp
    | digits he hs hd =>
      refine List.forall_mem_cons.2 ⟨?_, List.forall_mem_append.2 ⟨?_, hdigits hd⟩⟩
      · obtain rfl | rfl := he <;> rfl
      · obtain rfl | rfl | rfl := hs <;> simp [isNumberChar]

theorem exists_cons_of_spellsNumber (h : SpellsNumber cs) :
    ∃ c ds, cs = c :: ds ∧ (c.isDigit || c == '-') = true := by
  obtain ⟨rfl | rfl, hwhole, -, -⟩ := h
  · cases hwhole with
    | zero => exact ⟨'0', _, rfl, rfl⟩
    | @digits c ds _ hd => exact ⟨c, _, rfl, by simp [hd.2 c List.mem_cons_self]⟩
  · exact ⟨'-', _, rfl, rfl⟩

/-! ### Strings -/

def shortEscapes : List (Char × Char) :=
  [('"', '"'), ('\\', '\\'), ('/', '/'), ('b', '\x08'), ('f', '\x0c'), ('n', '\n'), ('r', '\r'),
    ('t', '\t')]

/-- The number of a run of hexadecimal digits, of either case. -/
inductive SpellsHex : List Char → Nat → Prop
  | nil : SpellsHex [] 0
  | concat {ds : List Char} {value n : Nat} {c : Char} (h : SpellsHex ds value) (hn : n < 16)
    (hc : c = n.digitChar ∨ c = n.digitChar.toUpper) : SpellsHex (ds ++ [c]) (16 * value + n)

inductive SpellsCode : Nat → List Char → Prop
  | plain {c : Char} (hquote : c ≠ '"') (hback : c ≠ '\\') (hlow : 0x20 ≤ c.toNat) :
    SpellsCode c.toNat [c]
  | short {c d : Char} (h : (c, d) ∈ shortEscapes) : SpellsCode d.toNat ['\\', c]
  | hex {ds : List Char} {code : Nat} (hlength : ds.length = 4) (h : SpellsHex ds code) :
    SpellsCode code ('\\' :: 'u' :: ds)

inductive SpellsCodes : List Nat → List Char → Prop
  | nil : SpellsCodes [] []
  | cons {code : Nat} {codes : List Nat} {spelling cs : List Char}
    (hcode : SpellsCode code spelling) (h : SpellsCodes codes cs) :
    SpellsCodes (code :: codes) (spelling ++ cs)

inductive IsTextOf : List Nat → List Char → Prop
  | nil : IsTextOf [] []
  | char {c : Char} {codes : List Nat} {cs : List Char} (h : IsTextOf codes cs) :
    IsTextOf (c.toNat :: codes) (c :: cs)
  | pair {c : Char} {codes : List Nat} {cs : List Char} (hc : 0x10000 ≤ c.toNat)
    (h : IsTextOf codes cs) :
    IsTextOf ((0xD800 + (c.toNat - 0x10000) / 0x400) :: (0xDC00 + (c.toNat - 0x10000) % 0x400) ::
      codes) (c :: cs)

theorem escapedCode?_eq_some_iff {c : Char} {code : Nat} :
    escapedCode? c = some code ↔ ∃ d, (c, d) ∈ shortEscapes ∧ d.toNat = code := by
  constructor
  · intro h
    unfold escapedCode? at h
    split at h <;> simp_all [shortEscapes]
  · rintro ⟨d, h, rfl⟩
    simp only [shortEscapes, List.mem_cons, List.not_mem_nil, or_false, Prod.mk.injEq] at h
    obtain ⟨rfl, rfl⟩ | ⟨rfl, rfl⟩ | ⟨rfl, rfl⟩ | ⟨rfl, rfl⟩ | ⟨rfl, rfl⟩ | ⟨rfl, rfl⟩ | ⟨rfl, rfl⟩ |
      ⟨rfl, rfl⟩ := h <;> rfl

theorem bounds_of_hexValue? {c : Char} {n : Nat} (h : Text.hexValue? c = some n) :
    c.toNat < 0x80 ∧ n < 16 := by
  simp only [Text.hexValue?, Char.isDigit_iff_toNat, Char.le_def, UInt32.le_iff_toNat_le] at h
  split_ifs at h with hdigit hlower hupper
  · simp at h hdigit; omega
  · simp at h hlower; omega
  · simp at h hupper; omega

theorem hexValue?_eq_some_iff {c : Char} {n : Nat} :
    Text.hexValue? c = some n ↔ n < 16 ∧ (c = n.digitChar ∨ c = n.digitChar.toUpper) := by
  constructor
  · intro h
    obtain ⟨hc, hn⟩ := bounds_of_hexValue? h
    have hall : ∀ k < 0x80, ∀ n < 16, Text.hexValue? (Char.ofNat k) = some n →
      Char.ofNat k = n.digitChar ∨ Char.ofNat k = n.digitChar.toUpper := by decide +kernel
    have hdigit := hall c.toNat hc n hn
    rw [Char.ofNat_toNat] at hdigit
    exact ⟨hn, hdigit h⟩
  · rintro ⟨hn, hc⟩
    have hall : ∀ n < 16, Text.hexValue? n.digitChar = some n ∧
      Text.hexValue? n.digitChar.toUpper = some n := by decide
    obtain rfl | rfl := hc
    · exact (hall n hn).1
    · exact (hall n hn).2

theorem SpellsCodes.append {codes' : List Nat} {cs' : List Char} (h : SpellsCodes codes cs)
    (h' : SpellsCodes codes' cs') : SpellsCodes (codes ++ codes') (cs ++ cs') := by
  induction h with
  | nil => exact h'
  | cons hcode _ ih =>
    rw [List.cons_append, List.append_assoc]
    exact .cons hcode ih

theorem SpellsCodes.concat {code : Nat} {spelling : List Char} (h : SpellsCodes codes.reverse cs)
    (hcode : SpellsCode code spelling) : SpellsCodes (code :: codes).reverse (cs ++ spelling) := by
  rw [List.reverse_cons]
  exact h.append (by simpa using SpellsCodes.cons hcode .nil)

theorem SpellsHex.lt {ds : List Char} {value : Nat} (h : SpellsHex ds value) :
    value < 16 ^ ds.length := by
  induction h with
  | nil => decide
  | concat _ hn _ ih =>
    rw [List.length_append, List.length_singleton, Nat.pow_succ]
    omega

theorem toNat_lt (c : Char) : c.toNat < 0x110000 := by
  have hvalid : c.toNat < 0xD800 ∨ 0xDFFF < c.toNat ∧ c.toNat < 0x110000 := c.valid
  omega

theorem SpellsCode.lt {code : Nat} (h : SpellsCode code cs) : code < 0x110000 := by
  cases h with
  | @plain c => exact toNat_lt c
  | @short c d => exact toNat_lt d
  | hex hlength h =>
    have hlt := h.lt
    rw [hlength] at hlt
    omega

theorem SpellsCodes.lt (h : SpellsCodes codes cs) : ∀ a ∈ codes, a < 0x110000 := by
  induction h with
  | nil => simp
  | cons hcode _ ih => exact List.forall_mem_cons.2 ⟨hcode.lt, ih⟩

theorem textOfCodes_char {a : Nat} (ha : a < 0xD800 ∨ 0xE000 ≤ a) (codes : List Nat) :
    textOfCodes (a :: codes) = (textOfCodes codes).map (Char.ofNat a :: ·) := by
  have hfirst : ¬ (0xD800 ≤ a ∧ a < 0xDC00) := by omega
  have hsecond : ¬ (0xDC00 ≤ a ∧ a < 0xE000) := by omega
  rw [textOfCodes.eq_def]
  simp only [hfirst, hsecond, if_false]

theorem textOfCodes_pair {a b : Nat} (ha : 0xD800 ≤ a ∧ a < 0xDC00) (hb : 0xDC00 ≤ b ∧ b < 0xE000)
    (codes : List Nat) : textOfCodes (a :: b :: codes) =
      (textOfCodes codes).map (Char.ofNat (0x10000 + (a - 0xD800) * 0x400 + (b - 0xDC00)) :: ·) := by
  rw [textOfCodes.eq_def]
  simp only [ha, hb, and_self, if_true]

theorem toNat_ofNat_of_valid {n : Nat} (h : n.isValidChar) : (Char.ofNat n).toNat = n := by
  rw [Char.ofNat, dif_pos h]
  rfl

theorem isTextOf_of_textOfCodes (h : ∀ a ∈ codes, a < 0x110000) (htext : textOfCodes codes = some text) :
    IsTextOf codes text := by
  induction codes using textOfCodes.induct generalizing text with
  | case1 =>
    obtain rfl : [] = text := by simpa [textOfCodes] using htext
    exact .nil
  | case2 a ha b codes hb ih =>
    simp only [List.forall_mem_cons] at h
    rw [textOfCodes_pair ha hb] at htext
    obtain ⟨cs, hcs, rfl⟩ := Option.map_eq_some_iff.1 htext
    let n := 0x10000 + (a - 0xD800) * 0x400 + (b - 0xDC00)
    have hn : (Char.ofNat n).toNat = n := toNat_ofNat_of_valid (.inr (by omega))
    have hpair := IsTextOf.pair (c := Char.ofNat n) (by omega) (ih h.2.2 hcs)
    have hfirst : 0xD800 + ((Char.ofNat n).toNat - 0x10000) / 0x400 = a := by omega
    have hsecond : 0xDC00 + ((Char.ofNat n).toNat - 0x10000) % 0x400 = b := by omega
    rwa [hfirst, hsecond] at hpair
  | case3 a ha b codes hb => simp [textOfCodes, ha, hb] at htext
  | case4 a ha => simp [textOfCodes, ha] at htext
  | case5 a codes hfirst hsecond => simp [textOfCodes.eq_def, hfirst, hsecond] at htext
  | case6 a codes hfirst hsecond ih =>
    obtain ⟨ha, hcodes⟩ := List.forall_mem_cons.1 h
    rw [textOfCodes_char (by omega)] at htext
    obtain ⟨cs, hcs, rfl⟩ := Option.map_eq_some_iff.1 htext
    have hn : (Char.ofNat a).toNat = a := toNat_ofNat_of_valid (by unfold Nat.isValidChar; omega)
    have hchar := IsTextOf.char (c := Char.ofNat a) (ih hcodes hcs)
    rwa [hn] at hchar

theorem textOfCodes_eq_some_iff (h : ∀ a ∈ codes, a < 0x110000) :
    textOfCodes codes = some text ↔ IsTextOf codes text := by
  refine ⟨isTextOf_of_textOfCodes h, fun htext => ?_⟩
  clear h
  induction htext with
  | nil => rfl
  | @char c codes cs _ ih =>
    have hvalid : c.toNat < 0xD800 ∨ 0xDFFF < c.toNat ∧ c.toNat < 0x110000 := c.valid
    rw [textOfCodes_char (by omega), ih, Option.map_some, Char.ofNat_toNat]
  | @pair c codes cs hc _ ih =>
    have hlt := toNat_lt c
    have hcode : 0x10000 + (0xD800 + (c.toNat - 0x10000) / 0x400 - 0xD800) * 0x400 +
        (0xDC00 + (c.toNat - 0x10000) % 0x400 - 0xDC00) = c.toNat := by omega
    rw [textOfCodes_pair (by omega) (by omega), hcode, ih, Option.map_some, Char.ofNat_toNat]

theorem isText_iff {s : Option String} (h : ∀ a ∈ codes, a < 0x110000) :
    (∀ t, s = some t ↔ IsTextOf codes t.toList) ↔ s = (textOfCodes codes).map String.ofList := by
  rw [Option.ext_iff]
  refine forall_congr' fun t => ?_
  have htext : (textOfCodes codes).map String.ofList = some t ↔ IsTextOf codes t.toList := by
    rw [← textOfCodes_eq_some_iff h, Option.map_eq_some_iff]
    constructor
    · rintro ⟨cs, hcs, rfl⟩
      rw [hcs, String.toList_ofList]
    · exact fun hcs => ⟨_, hcs, String.ofList_toList⟩
  rw [htext]

end PracticeShell.Json
