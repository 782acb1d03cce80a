import PracticeShell.Proofs.Json.Spelling
import Mathlib.Data.List.Chain

/-! The tokens of a text are those that are laid out in it, with any blanks around them. From the
layout to the tokens, the scan goes on after each token as it would from the start. From the tokens to
the layout, every step keeps what has been read of the token that is not done. -/
namespace PracticeShell.Json
variable {done done' : List Token} {cs rest x y : List Char} {ts ts' : List Token} {t : Token}

inductive Spells : Token → List Char → Prop
  | openArray : Spells .openArray ['[']
  | closeArray : Spells .closeArray [']']
  | openObject : Spells .openObject ['\x7b']
  | closeObject : Spells .closeObject ['\x7d']
  | comma : Spells .comma [',']
  | colon : Spells .colon [':']
  | null : Spells .null ['n', 'u', 'l', 'l']
  | true : Spells (.boolean true) ['t', 'r', 'u', 'e']
  | false : Spells (.boolean false) ['f', 'a', 'l', 's', 'e']
  | number {spelling : List Char} (h : SpellsNumber spelling) : Spells (.number spelling) spelling
  | string {codes : List Nat} {body : List Char} {text : Option String} (h : SpellsCodes codes body)
    (htext : ∀ s, text = some s ↔ IsTextOf codes s.toList) :
    Spells (.string text) ('"' :: (body ++ ['"']))

def IsBlanks (cs : List Char) : Prop := ∀ c ∈ cs, c = ' ' ∨ c = '\t' ∨ c = '\n' ∨ c = '\r'

inductive LaidOut : List Token → List Char → Prop
  | nil {blanks : List Char} (hblanks : IsBlanks blanks) : LaidOut [] blanks
  | cons {t : Token} {ts : List Token} {blanks spelling rest : List Char} (hblanks : IsBlanks blanks)
    (ht : Spells t spelling) (h : LaidOut ts rest) : LaidOut (t :: ts) (blanks ++ (spelling ++ rest))

theorem isBlank_iff {c : Char} : isBlank c = true ↔ c = ' ' ∨ c = '\t' ∨ c = '\n' ∨ c = '\r' := by
  simp [isBlank, or_assoc]

theorem isBlanks_nil : IsBlanks [] := by simp [IsBlanks]

theorem LaidOut.token (ht : Spells t x) : LaidOut [t] x := by
  simpa using LaidOut.cons isBlanks_nil ht (.nil isBlanks_nil)

theorem LaidOut.blanks_append (hx : IsBlanks x) (h : LaidOut ts y) : LaidOut ts (x ++ y) := by
  cases h with
  | nil hy => exact .nil (List.forall_mem_append.2 ⟨hx, hy⟩)
  | cons hy ht h =>
    rw [← List.append_assoc]
    exact .cons (List.forall_mem_append.2 ⟨hx, hy⟩) ht h

theorem LaidOut.append (h : LaidOut ts x) (h' : LaidOut ts' y) : LaidOut (ts ++ ts') (x ++ y) := by
  induction h with
  | nil hblanks => exact h'.blanks_append hblanks
  | cons hblanks ht _ ih =>
    rw [List.cons_append, List.append_assoc, List.append_assoc]
    exact .cons hblanks ht ih

/-! ### From the layout to the tokens -/

theorem scan_cons {r r' : Reading} {c : Char} (h : step done r c = some (done', r')) :
    scan done r (c :: rest) = scan done' r' rest := by
  rw [scan, h]

theorem scan_blanks (h : IsBlanks x) (rest : List Char) :
    scan done .nothing (x ++ rest) = scan done .nothing rest := by
  induction x with
  | nil => rfl
  | cons c x ih =>
    obtain ⟨hc, hx⟩ := List.forall_mem_cons.1 h
    have hstep : step done .nothing c = some (done, .nothing) := by
      simp [step, begin, isBlank_iff.2 hc]
    rw [List.cons_append, scan_cons hstep, ih hx]

/-- Words and numbers have no closing character. -/
def Token.IsWord : Token → Prop
  | .null | .boolean _ | .number _ => True
  | _ => False

def EndsWord (rest : List Char) : Prop := ∀ c ∈ rest.head?, c.isAlpha = false ∧ isNumberChar c = false

theorem scan_finish {r : Reading} (hf : finish done r = some done')
    (hstep : ∀ c, EndsWord [c] → step done r c = (finish done r).bind fun done => begin done c)
    (hr : EndsWord rest) : scan done r rest = scan done' .nothing rest := by
  cases rest with
  | nil => exact hf
  | cons c rest =>
    have hc : step done r c = step done' .nothing c := by
      rw [hstep c (by simpa [EndsWord] using hr), hf]
      rfl
    rw [scan, scan, hc]

theorem scan_word {letters : List Char} (ht : wordToken? letters.reverse = some t)
    (hr : EndsWord rest) : scan done (.word letters) rest = scan (t :: done) .nothing rest := by
  refine scan_finish (by rw [finish, ht]; rfl) (fun c hc => ?_) hr
  have halpha : c.isAlpha = false := (hc c rfl).1
  rw [step, halpha]
  rfl

theorem scan_numberChars {acc : List Char} (hcs : ∀ c ∈ cs, isNumberChar c = true)
    (rest : List Char) :
    scan done (.number acc) (cs ++ rest) = scan done (.number (cs.reverse ++ acc)) rest := by
  induction cs generalizing acc with
  | nil => rfl
  | cons c cs ih =>
    obtain ⟨hc, hcs⟩ := List.forall_mem_cons.1 hcs
    have hstep : step done (.number acc) c = some (done, .number (c :: acc)) := by
      rw [step, if_pos hc]
    rw [List.cons_append, scan_cons hstep, ih hcs]
    simp

theorem begin_number {c : Char} (h : (c.isDigit || c == '-') = true) :
    begin done c = some (done, .number [c]) := by
  have hblank : isBlank c = false := by
    cases hb : isBlank c with
    | false => rfl
    | true => obtain rfl | rfl | rfl | rfl := isBlank_iff.1 hb <;> simp at h
  have hquote : c ≠ '"' := by
    rintro rfl
    simp at h
  simp [begin, hblank, hquote, h]

theorem scan_number (h : SpellsNumber cs) (hr : EndsWord rest) :
    scan done .nothing (cs ++ rest) = scan (.number cs :: done) .nothing rest := by
  obtain ⟨c, ds, rfl, hc⟩ := exists_cons_of_spellsNumber h
  obtain ⟨-, hds⟩ := List.forall_mem_cons.1 (isNumberChar_of_mem h)
  have hbegin : step done .nothing c = some (done, .number [c]) := begin_number hc
  rw [List.cons_append, scan_cons hbegin, scan_numberChars hds]
  have hspelling : (ds.reverse ++ [c]).reverse = c :: ds := by simp
  refine scan_finish (by rw [finish, hspelling, if_pos (isNumber_iff.2 h)]) (fun d hd => ?_) hr
  have hchar : isNumberChar d = false := (hd d rfl).2
  rw [step, hchar]
  rfl

theorem scan_hex {codes : List Nat} {ds : List Char} {value digits : Nat} (h : SpellsHex ds value)
    (hdigits : 0 < digits) (rest : List Char) :
    scan done (.hex codes (ds.length + digits) 0) (ds ++ rest) =
      scan done (.hex codes digits value) rest := by
  induction h generalizing digits rest with
  | nil => simp
  | @concat ds value n c _ hn hc ih =>
    have hvalue : Text.hexValue? c = some n := hexValue?_eq_some_iff.2 ⟨hn, hc⟩
    have hstep : step done (.hex codes (1 + digits) value) c =
        some (done, .hex codes digits (16 * value + n)) := by
      simp [step, hvalue, Nat.ne_of_gt hdigits]
    rw [List.length_append, List.length_singleton, Nat.add_assoc, List.append_assoc,
      ih (Nat.add_pos_left Nat.one_pos _), List.singleton_append, scan_cons hstep]

theorem scan_code {codes : List Nat} {code : Nat} (h : SpellsCode code cs) (rest : List Char) :
    scan done (.string codes) (cs ++ rest) = scan done (.string (code :: codes)) rest := by
  cases h with
  | @plain c hquote hback hlow =>
    have hstep : step done (.string codes) c = some (done, .string (c.toNat :: codes)) := by
      simp [step, hquote, hback, Nat.not_lt.2 hlow]
    exact scan_cons hstep
  | @short c d h =>
    have hback : step done (.string codes) '\\' = some (done, .escape codes) := rfl
    have hcode : escapedCode? c = some d.toNat := escapedCode?_eq_some_iff.2 ⟨d, h, rfl⟩
    have hu : c ≠ 'u' := by
      rintro rfl
      simp [escapedCode?] at hcode
    have hstep : step done (.escape codes) c = some (done, .string (d.toNat :: codes)) := by
      simp [step, hu, hcode]
    rw [List.cons_append, scan_cons hback]
    exact scan_cons hstep
  | hex hlength h =>
    have hback : step done (.string codes) '\\' = some (done, .escape codes) := rfl
    have hu : step done (.escape codes) 'u' = some (done, .hex codes 4 0) := rfl
    cases h with
    | nil => simp at hlength
    | @concat ds value n c h hn hc =>
      have hvalue : Text.hexValue? c = some n := hexValue?_eq_some_iff.2 ⟨hn, hc⟩
      have hlast : step done (.hex codes 1 value) c =
          some (done, .string ((16 * value + n) :: codes)) := by
        simp [step, hvalue]
      have hfour : 4 = ds.length + 1 := by simpa [eq_comm] using hlength
      rw [List.cons_append, scan_cons hback, List.cons_append, scan_cons hu, hfour, List.append_assoc,
        scan_hex h Nat.one_pos, List.singleton_append, scan_cons hlast]

theorem scan_codes {codes codes' : List Nat} (h : SpellsCodes codes' cs) (rest : List Char) :
    scan done (.string codes) (cs ++ rest) = scan done (.string (codes'.reverse ++ codes)) rest := by
  induction h generalizing codes with
  | nil => rfl
  | cons hcode _ ih =>
    rw [List.append_assoc, scan_code hcode, ih]
    simp

theorem scan_token (ht : Spells t cs) (hr : t.IsWord → EndsWord rest) :
    scan done .nothing (cs ++ rest) = scan (t :: done) .nothing rest := by
  cases ht with
  | openArray | closeArray | openObject | closeObject | comma | colon => rfl
  | null | true | false => exact scan_word rfl (hr trivial)
  | number h => exact scan_number h (hr trivial)
  | @string codes body text h htext =>
    have hopen : step done .nothing '"' = some (done, .string []) := rfl
    have hclose : step done (.string codes.reverse) '"' = some (.string text :: done, .nothing) := by
      rw [step, if_pos rfl, List.reverse_reverse, ← (isText_iff h.lt).1 htext]
    rw [List.cons_append, scan_cons hopen, List.append_assoc, scan_codes h, List.append_nil]
    exact scan_cons hclose

theorem endsWord_of_isBlank {c : Char} (hc : c = ' ' ∨ c = '\t' ∨ c = '\n' ∨ c = '\r') :
    c.isAlpha = false ∧ isNumberChar c = false := by
  obtain rfl | rfl | rfl | rfl := hc <;> decide

theorem endsWord_of_spells (ht : Spells t cs) (hword : ¬ t.IsWord) : EndsWord (cs ++ rest) := by
  intro c hc
  cases ht with
  | openArray | closeArray | openObject | closeObject | comma | colon | string =>
    obtain rfl := Option.some.inj hc
    decide
  | null | true | false | number => exact absurd trivial hword

theorem endsWord_of_laidOut (h : LaidOut ts rest) (hword : ∀ t ∈ ts.head?, ¬ t.IsWord) :
    EndsWord rest := by
  cases h with
  | nil hblanks => exact fun c hc => endsWord_of_isBlank (hblanks c (List.mem_of_mem_head? hc))
  | @cons t ts blanks spelling rest hblanks ht h =>
    cases blanks with
    | nil =>
      rw [List.nil_append]
      exact endsWord_of_spells ht (hword t rfl)
    | cons b blanks =>
      rintro c hc
      obtain rfl := Option.some.inj hc
      exact endsWord_of_isBlank (hblanks b List.mem_cons_self)

def Apart (ts : List Token) : Prop := ts.IsChain fun a b => a.IsWord → ¬ b.IsWord

theorem scan_laidOut (h : LaidOut ts cs) (hts : Apart ts) :
    scan done .nothing cs = some (ts.reverse ++ done) := by
  induction h generalizing done with
  | @nil blanks hblanks =>
    have hscan : scan done .nothing (blanks ++ []) = some done := scan_blanks hblanks []
    rwa [List.append_nil] at hscan
  | @cons t ts blanks spelling rest hblanks ht h ih =>
    obtain ⟨hhead, hchain⟩ := List.isChain_cons.1 hts
    have hends : t.IsWord → EndsWord rest := fun hword =>
      endsWord_of_laidOut h fun u hu => hhead u hu hword
    rw [scan_blanks hblanks, scan_token ht hends, ih hchain]
    simp

theorem tokens?_of_laidOut (h : LaidOut ts cs) (hts : Apart ts) : tokens? cs = some ts := by
  rw [tokens?, scan_laidOut h hts]
  simp

/-! ### From the tokens to the layout -/

/-- The text of a token that is still being read. -/
inductive Pending : Reading → List Char → Prop
  | nothing : Pending .nothing []
  | word (letters : List Char) : Pending (.word letters) letters.reverse
  | number (spelling : List Char) : Pending (.number spelling) spelling.reverse
  | string {codes : List Nat} {body : List Char} (h : SpellsCodes codes.reverse body) :
    Pending (.string codes) ('"' :: body)
  | escape {codes : List Nat} {body : List Char} (h : SpellsCodes codes.reverse body) :
    Pending (.escape codes) ('"' :: (body ++ ['\\']))
  | hex {codes : List Nat} {body ds : List Char} {digits value : Nat}
    (h : SpellsCodes codes.reverse body) (hds : SpellsHex ds value)
    (hlength : ds.length + digits = 4) (hdigits : 0 < digits) :
    Pending (.hex codes digits value) ('"' :: (body ++ ('\\' :: 'u' :: ds)))

def Adds (done : List Token) (x : List Char) (done' : List Token) : Prop :=
  ∃ ts, done' = ts.reverse ++ done ∧ LaidOut ts x

theorem Adds.blanks (h : IsBlanks x) : Adds done x done := ⟨[], rfl, .nil h⟩

theorem Adds.token (h : Spells t x) : Adds done x (t :: done) := ⟨[t], rfl, .token h⟩

theorem Adds.trans {done'' : List Token} (h : Adds done x done') (h' : Adds done' y done'') :
    Adds done (x ++ y) done'' := by
  obtain ⟨ts, rfl, hx⟩ := h
  obtain ⟨ts', rfl, hy⟩ := h'
  exact ⟨ts ++ ts', by simp, hx.append hy⟩

def Leads (done : List Token) (x : List Char) (done' : List Token) (r' : Reading) : Prop :=
  ∃ y z, x = y ++ z ∧ Adds done y done' ∧ Pending r' z

theorem Leads.pending {r : Reading} (h : Pending r x) : Leads done x done r :=
  ⟨[], x, rfl, .blanks isBlanks_nil, h⟩

theorem Leads.nothing (h : Adds done x done') : Leads done x done' .nothing :=
  ⟨x, [], by simp, h, .nothing⟩

theorem Adds.leads {done'' : List Token} {r : Reading} (h : Adds done x done')
    (h' : Leads done' y done'' r) : Leads done (x ++ y) done'' r := by
  obtain ⟨u, v, rfl, hadds, hpending⟩ := h'
  exact ⟨x ++ u, v, by simp, h.trans hadds, hpending⟩

theorem spells_of_mark? {c : Char} (h : mark? c = some t) : Spells t [c] := by
  unfold mark? at h
  split at h <;> cases h
  · exact .openArray
  · exact .closeArray
  · exact .openObject
  · exact .closeObject
  · exact .comma
  · exact .colon

theorem spells_of_wordToken? (h : wordToken? cs = some t) : Spells t cs := by
  unfold wordToken? at h
  split_ifs at h with hnull htrue hfalse
  · obtain rfl := Option.some.inj h
    exact hnull ▸ .null
  · obtain rfl := Option.some.inj h
    exact htrue ▸ .true
  · obtain rfl := Option.some.inj h
    exact hfalse ▸ .false

theorem leads_of_begin {r' : Reading} {c : Char} (h : begin done c = some (done', r')) :
    Leads done [c] done' r' := by
  unfold begin at h
  split_ifs at h with hblank hquote hnumber halpha
  · obtain ⟨rfl, rfl⟩ := Prod.mk.inj (Option.some.inj h)
    exact .nothing (.blanks (by simpa [IsBlanks] using isBlank_iff.1 hblank))
  · obtain ⟨rfl, rfl⟩ := Prod.mk.inj (Option.some.inj h)
    exact hquote ▸ .pending (.string .nil)
  · obtain ⟨rfl, rfl⟩ := Prod.mk.inj (Option.some.inj h)
    exact .pending (.number [c])
  · obtain ⟨rfl, rfl⟩ := Prod.mk.inj (Option.some.inj h)
    exact .pending (.word [c])
  · obtain ⟨t, ht, heq⟩ := Option.map_eq_some_iff.1 h
    obtain ⟨rfl, rfl⟩ := Prod.mk.inj heq
    exact .nothing (.token (spells_of_mark? ht))

theorem adds_of_finish {r : Reading} (h : finish done r = some done') (hr : Pending r x) :
    Adds done x done' := by
  cases hr with
  | nothing =>
    obtain rfl := Option.some.inj h
    exact .blanks isBlanks_nil
  | word letters =>
    obtain ⟨t, ht, rfl⟩ := Option.map_eq_some_iff.1 h
    exact .token (spells_of_wordToken? ht)
  | number spelling =>
    rw [finish] at h
    split_ifs at h with hnumber
    obtain rfl := Option.some.inj h
    exact .token (.number (isNumber_iff.1 hnumber))
  | string | escape | hex => simp [finish] at h

theorem leads_of_step {r r' : Reading} {c : Char} (h : step done r c = some (done', r'))
    (hr : Pending r x) : Leads done (x ++ [c]) done' r' := by
  cases hr with
  | nothing => exact leads_of_begin h
  | word letters =>
    rw [step] at h
    split_ifs at h with halpha
    · obtain ⟨rfl, rfl⟩ := Prod.mk.inj (Option.some.inj h)
      exact .pending (by simpa using Pending.word (c :: letters))
    · -- The character that ends a word is read as the first one after it.
      obtain ⟨done₁, hfinish, hbegin⟩ := Option.bind_eq_some_iff.1 h
      exact (adds_of_finish hfinish (.word letters)).leads (leads_of_begin hbegin)
  | number spelling =>
    rw [step] at h
    split_ifs at h with hchar
    · obtain ⟨rfl, rfl⟩ := Prod.mk.inj (Option.some.inj h)
      exact .pending (by simpa using Pending.number (c :: spelling))
    · obtain ⟨done₁, hfinish, hbegin⟩ := Option.bind_eq_some_iff.1 h
      exact (adds_of_finish hfinish (.number spelling)).leads (leads_of_begin hbegin)
  | @string codes body hcodes =>
    rw [step] at h
    split_ifs at h with hquote hback hlow
    · obtain ⟨rfl, rfl⟩ := Prod.mk.inj (Option.some.inj h)
      subst hquote
      exact .nothing (.token (.string hcodes ((isText_iff hcodes.lt).2 rfl)))
    · obtain ⟨rfl, rfl⟩ := Prod.mk.inj (Option.some.inj h)
      exact hback ▸ .pending (.escape hcodes)
    · obtain ⟨rfl, rfl⟩ := Prod.mk.inj (Option.some.inj h)
      exact .pending (.string (hcodes.concat (.plain hquote hback (Nat.le_of_not_lt hlow))))
  | @escape codes body hcodes =>
    rw [step] at h
    split_ifs at h with hu
    · obtain ⟨rfl, rfl⟩ := Prod.mk.inj (Option.some.inj h)
      have hhex : Pending (.hex codes 4 0) ('"' :: (body ++ ['\\', 'u'])) :=
        .hex hcodes .nil rfl (by decide)
      exact .pending (by simpa [hu] using hhex)
    · obtain ⟨code, hcode, heq⟩ := Option.map_eq_some_iff.1 h
      obtain ⟨rfl, rfl⟩ := Prod.mk.inj heq
      obtain ⟨d, hd, rfl⟩ := escapedCode?_eq_some_iff.1 hcode
      exact .pending (by simpa using Pending.string (hcodes.concat (.short hd)))
  | @hex codes body ds digits value hcodes hds hlength hdigits =>
    obtain ⟨n, hvalue, h⟩ := Option.bind_eq_some_iff.1 h
    obtain ⟨hn, hc⟩ := hexValue?_eq_some_iff.1 hvalue
    have hds' := hds.concat hn hc
    split_ifs at h with hlast
    · obtain ⟨rfl, rfl⟩ := Prod.mk.inj (Option.some.inj h)
      have hfour : (ds ++ [c]).length = 4 := by simpa [hlast] using hlength
      exact .pending (by simpa using Pending.string (hcodes.concat (.hex hfour hds')))
    · obtain ⟨rfl, rfl⟩ := Prod.mk.inj (Option.some.inj h)
      have hlength' : (ds ++ [c]).length + (digits - 1) = 4 := by
        rw [List.length_append, List.length_singleton]
        omega
      exact .pending (by simpa using Pending.hex hcodes hds' hlength' (by omega))

theorem adds_of_scan {r : Reading} (h : scan done r cs = some done') (hr : Pending r x) :
    Adds done (x ++ cs) done' := by
  -- `x` is what the characters so far have left pending, so it changes from step to step.
  induction cs generalizing done r x with
  | nil =>
    rw [List.append_nil]
    exact adds_of_finish h hr
  | cons c cs ih =>
    rw [scan] at h
    cases hstep : step done r c with
    | none => simp [hstep] at h
    | some next =>
      rw [hstep] at h
      obtain ⟨y, z, hx, hadds, hpending⟩ := leads_of_step hstep hr
      have hrest := hadds.trans (ih h hpending)
      rw [← List.append_assoc, ← hx, List.append_assoc, List.singleton_append] at hrest
      exact hrest

theorem laidOut_of_tokens? (h : tokens? cs = some ts) : LaidOut ts cs := by
  obtain ⟨done, hscan, rfl⟩ := Option.map_eq_some_iff.1 h
  obtain ⟨ts, rfl, hlaid⟩ := adds_of_scan hscan .nothing
  simpa using hlaid

example : tokens? "[ 1.5E+2 ,\t\"\\u00E9\\/\\ud83d\\ude00\"]\n".toList =
    some [.openArray, .number ['1', '.', '5', 'E', '+', '2'], .comma, .string (some "é/😀"),
      .closeArray] := by decide +kernel

end PracticeShell.Json
