import PracticeShell.Proofs.Line.Token
import PracticeShell.Proofs.Text.Digits
import Mathlib.Data.List.SplitBy

/-! The grammar of a line. A text is cut at separators, and its pieces where `>` meets other
characters; each of the runs is read on its own. Main statement: the tokens of a line are what its
runs are read as, and the runs leave out only separators. -/
namespace PracticeShell.Token
variable {cs run : List Char} {ts : List Token} {n : Int}

def sameKind (c d : Char) : Bool := (c == '>') == (d == '>')

/-- The longest pieces of a text without separators, each of `>` alone or without `>`. -/
def runs (cs : List Char) : List (List Char) :=
  (cs.splitOnP Text.isSeparator).flatMap (List.splitBy sameKind)

inductive Numeral : List Char → Int → Prop where
  | plain {ds : List Char} (hne : ds ≠ []) (hdigits : ∀ c ∈ ds, c.isDigit = true) :
    Numeral ds (Nat.ofDigitChars 10 ds 0)
  | minus {ds : List Char} (hne : ds ≠ []) (hdigits : ∀ c ∈ ds, c.isDigit = true) :
    Numeral ('-' :: ds) (-(Nat.ofDigitChars 10 ds 0 : Int))

def Fits (n : Int) : Prop := -2147483648 ≤ n ∧ n ≤ 2147483647

instance (n : Int) : Decidable (Fits n) := inferInstanceAs (Decidable (_ ∧ _))

/-- The tokens of a run. Two `>` make an append, one left over a truncate; other characters make a
reference or else a word. -/
inductive Reads : List Char → List Token → Prop where
  | marks (k : Nat) : Reads (List.replicate k '>')
      (List.replicate (k / 2) (.redirect .append) ++ List.replicate (k % 2) (.redirect .truncate))
  | lastLine : Reads ['!', '!'] [.lastLine]
  | lineNumber {cs : List Char} {n : Int} (hcs : Numeral cs n) (hn : Fits n) :
    Reads ('!' :: cs) [.lineNumber n]
  | word {cs : List Char} (hne : cs ≠ []) (hmark : '>' ∉ cs) (hlast : cs ≠ ['!', '!'])
      (hnumber : ∀ ds n, cs = '!' :: ds → Numeral ds n → ¬ Fits n) :
    Reads cs [.word (String.ofList cs)]

/-! ### Numbers -/

theorem numeral_minus_iff : Numeral ('-' :: cs) n ↔
    cs ≠ [] ∧ (∀ c ∈ cs, c.isDigit = true) ∧ n = -(Nat.ofDigitChars 10 cs 0 : Int) := by
  constructor
  · intro h
    cases h with
    | plain _ hdigits =>
      have hminus : '-'.isDigit = true := hdigits '-' List.mem_cons_self
      simp at hminus
    | minus hne hdigits => exact ⟨hne, hdigits, rfl⟩
  · rintro ⟨hne, hdigits, rfl⟩
    exact .minus hne hdigits

theorem numeral_plain_iff (hhead : cs.head? ≠ some '-') : Numeral cs n ↔
    cs ≠ [] ∧ (∀ c ∈ cs, c.isDigit = true) ∧ n = Nat.ofDigitChars 10 cs 0 := by
  constructor
  · intro h
    cases h with
    | plain hne hdigits => exact ⟨hne, hdigits, rfl⟩
    | minus => exact absurd rfl hhead
  · rintro ⟨hne, hdigits, rfl⟩
    exact .plain hne hdigits

theorem Numeral.isDigit_or_minus {c : Char} (h : Numeral cs n) (hc : c ∈ cs) :
    c.isDigit = true ∨ c = '-' := by
  cases h with
  | plain _ hdigits => exact .inl (hdigits c hc)
  | minus _ hdigits =>
    cases hc with
    | head => exact .inr rfl
    | tail _ hc => exact .inl (hdigits c hc)

theorem Numeral.unique {m : Int} (h : Numeral cs n) (h' : Numeral cs m) : n = m := by
  by_cases hhead : cs.head? = some '-'
  · obtain ⟨ds, rfl⟩ := List.head?_eq_some_iff.1 hhead
    rw [(numeral_minus_iff.1 h).2.2, (numeral_minus_iff.1 h').2.2]
  · rw [((numeral_plain_iff hhead).1 h).2.2, ((numeral_plain_iff hhead).1 h').2.2]

theorem guarded_eq_some_iff (ds : List Char) (v : Int) :
    (if ds.isEmpty || !ds.all Char.isDigit then none
      else if -2147483648 ≤ v ∧ v ≤ 2147483647 then some v else none) = some n ↔
    (ds ≠ [] ∧ (∀ c ∈ ds, c.isDigit = true) ∧ n = v) ∧ Fits n := by
  have hread : (if ds.isEmpty || !ds.all Char.isDigit then none
      else if -2147483648 ≤ v ∧ v ≤ 2147483647 then some v else none) = some n ↔
      (ds ≠ [] ∧ ∀ c ∈ ds, c.isDigit = true) ∧ Fits v ∧ v = n := by
    simp [Fits, and_assoc]
  rw [hread]
  constructor
  · rintro ⟨⟨hne, hdigits⟩, hv, rfl⟩
    exact ⟨⟨hne, hdigits, rfl⟩, hv⟩
  · rintro ⟨⟨hne, hdigits, rfl⟩, hv⟩
    exact ⟨⟨hne, hdigits⟩, hv, rfl⟩

theorem number?_eq_some_iff : number? cs = some n ↔ Numeral cs n ∧ Fits n := by
  by_cases hhead : cs.head? = some '-'
  · obtain ⟨ds, rfl⟩ := List.head?_eq_some_iff.1 hhead
    rw [numeral_minus_iff]
    exact guarded_eq_some_iff ds _
  · have hplain : (cs.head? == some '-') = false := by simpa using hhead
    rw [numeral_plain_iff hhead, number?, hplain]
    exact guarded_eq_some_iff cs _

/-! ### Runs of one kind -/

theorem ofRun_number (h : number? cs = some n) : ofRun ('!' :: cs) = lineNumber n := by
  have hcs : cs ≠ ['!'] := by
    rintro rfl
    simp [number?] at h
  rw [ofRun.eq_def]
  split
  · next heq => exact absurd (List.cons.inj heq).2 hcs
  · next heq =>
    obtain rfl := (List.cons.inj heq).2
    simp [h]
  · next hne => exact absurd rfl (hne cs)

theorem ofRun_word (hlast : run ≠ ['!', '!']) (h : ∀ ds, run = '!' :: ds → number? ds = none) :
    ofRun run = word (String.ofList run) := by
  rw [ofRun.eq_def]
  split
  · exact absurd rfl hlast
  · next ds _ => rw [h ds rfl]
  · rfl

theorem reads_letters_iff (hne : run ≠ []) (hmark : '>' ∉ run) : Reads run ts ↔ ts = [ofRun run] := by
  constructor
  · intro h
    cases h with
    | marks k =>
      cases k with
      | zero => exact absurd rfl hne
      | succ k => simp [List.replicate_succ] at hmark
    | lastLine => rfl
    | lineNumber hcs hn => rw [ofRun_number (number?_eq_some_iff.2 ⟨hcs, hn⟩)]
    | word _ _ hlast hnumber =>
      rw [ofRun_word hlast]
      intro ds hds
      rw [Option.eq_none_iff_forall_ne_some]
      intro n hn
      obtain ⟨hnumeral, hfits⟩ := number?_eq_some_iff.1 hn
      exact hnumber ds n hds hnumeral hfits
  · rintro rfl
    rw [ofRun.eq_def]
    split
    · exact .lastLine
    · next ds hlast =>
      split
      · next n hn =>
        obtain ⟨hnumeral, hfits⟩ := number?_eq_some_iff.1 hn
        exact .lineNumber hnumeral hfits
      · next hnone =>
        refine .word hne hmark (by simpa using hlast) ?_
        intro ds n hds hnumeral hfits
        obtain rfl := (List.cons.inj hds).2
        simp [number?_eq_some_iff.2 ⟨hnumeral, hfits⟩] at hnone
    · next hlast hfirst =>
      exact .word hne hmark hlast fun ds n hds => absurd hds (hfirst ds)

theorem reads_large_number (hcs : Numeral cs n) (hn : ¬ Fits n) :
    Reads ('!' :: cs) [.word (String.ofList ('!' :: cs))] := by
  have hdigits (c : Char) (hdigit : c.isDigit = false) (hminus : c ≠ '-') : c ∉ cs := by
    intro hc
    obtain h | h := hcs.isDigit_or_minus hc
    · simp [h] at hdigit
    · exact hminus h
  have hmark : '>' ∉ cs := hdigits '>' rfl (by decide)
  have hlast : '!' ∉ cs := hdigits '!' rfl (by decide)
  refine .word (by simp) (by simpa using hmark) ?_ ?_
  · intro h
    obtain rfl := (List.cons.inj h).2
    simp at hlast
  · intro ds m hds hm
    obtain rfl := (List.cons.inj hds).2
    rwa [← hcs.unique hm]

theorem scan_marks (k : Nat) : scan [] (List.replicate k '>') =
    List.replicate (k / 2) (.redirect .append) ++ List.replicate (k % 2) (.redirect .truncate) := by
  induction k using Nat.twoStepInduction with
  | zero => rfl
  | one => rfl
  | more k ih _ =>
    have hhalf : (k + 2) / 2 = k / 2 + 1 := by omega
    have hrest : (k + 2) % 2 = k % 2 := by omega
    rw [List.replicate_succ, List.replicate_succ, scan_append_mark, ih, hhalf, hrest,
      List.replicate_succ]
    rfl

theorem reads_marks_iff (k : Nat) :
    Reads (List.replicate (k + 1) '>') ts ↔ ts = scan [] (List.replicate (k + 1) '>') := by
  rw [scan_marks]
  constructor
  · intro h
    generalize hrun : List.replicate (k + 1) '>' = run at h
    cases h with
    | marks j =>
      have hlength : k + 1 = j := by simpa using congrArg List.length hrun
      rw [hlength]
    | lastLine | lineNumber => simp [List.replicate_succ] at hrun
    | word _ hmark =>
      rw [← hrun] at hmark
      simp at hmark
  · rintro rfl
    exact .marks (k + 1)

theorem marks_or_letters (h : run.IsChain fun c d => sameKind c d = true) :
    (∀ c ∈ run, c = '>') ∨ ∀ c ∈ run, c ≠ '>' := by
  induction run with
  | nil => exact .inl (by simp)
  | cons c run ih =>
    obtain ⟨hnext, hrest⟩ := List.isChain_cons.1 h
    cases run with
    | nil => simpa using Decidable.em (c = '>')
    | cons d run =>
      have hkind : c = '>' ↔ d = '>' := by simpa [sameKind] using hnext d rfl
      obtain hmarks | hletters := ih hrest
      · have hc : c = '>' := hkind.2 (hmarks d List.mem_cons_self)
        exact .inl (List.forall_mem_cons.2 ⟨hc, hmarks⟩)
      · have hc : c ≠ '>' := fun hc => hletters d List.mem_cons_self (hkind.1 hc)
        exact .inr (List.forall_mem_cons.2 ⟨hc, hletters⟩)

/-! ### A text and its runs -/

theorem flatten_splitOnP (p : Char → Bool) (cs : List Char) :
    (cs.splitOnP p).flatten = cs.filter fun c => !p c := by
  induction cs with
  | nil => rfl
  | cons c cs ih =>
    rw [List.splitOnP_cons_eq_if_modifyHead]
    cases hc : p c with
    | true => simp [hc, ih]
    | false =>
      cases hs : cs.splitOnP p with
      | nil => exact absurd hs (List.splitOnP_ne_nil p cs)
      | cons x xs => simpa [hc, hs] using ih

theorem flatten_runs (cs : List Char) :
    (runs cs).flatten = cs.filter fun c => !Text.isSeparator c := by
  rw [← flatten_splitOnP, runs]
  induction cs.splitOnP Text.isSeparator with
  | nil => rfl
  | cons x xs ih => simp [ih]

theorem scan_splitOnP (x cs : List Char) (hx : ∀ c ∈ x, Text.isSeparator c = false) :
    scan [] (x ++ cs) = ((x ++ cs).splitOnP Text.isSeparator).flatMap (scan []) := by
  -- `x` gathers the piece that ends at the next separator
  induction cs generalizing x with
  | nil => simp [List.splitOnP_eq_singleton hx]
  | cons c cs ih =>
    cases hc : Text.isSeparator c with
    | true =>
      have hcs : scan [] cs = (cs.splitOnP Text.isSeparator).flatMap (scan []) := ih [] (by simp)
      rw [scan_append_separator hc, List.splitOnP_append_cons_of_forall_mem hx c hc, hcs]
      rfl
    | false =>
      have hxc : ∀ d ∈ x ++ [c], Text.isSeparator d = false := by
        simpa [or_imp, forall_and, hc] using hx
      simpa using ih (x ++ [c]) hxc

theorem scan_flatten {rs : List (List Char)}
    (h : rs.IsChain fun x y => ∃ hx hy, sameKind (x.getLast hx) (y.head hy) = false) :
    scan [] rs.flatten = rs.flatMap (scan []) := by
  induction rs with
  | nil => simp
  | cons x rs ih =>
    obtain ⟨hnext, hrest⟩ := List.isChain_cons.1 h
    rw [List.flatten_cons, List.flatMap_cons, ← ih hrest]
    apply scan_append
    intro c hc d hd
    cases rs with
    | nil => simp at hd
    | cons y rs =>
      obtain ⟨hx, hy, hkind⟩ := hnext y rfl
      have hlast : x.getLast hx = c := List.getLast_of_mem_getLast? hc
      have hhead : y.head hy = d := by
        rw [List.flatten_cons, List.head?_append_of_ne_nil y hy] at hd
        exact List.head_of_mem_head? hd
      -- of two kinds, one is a mark and the other is none, so no token holds both
      refine .inr (.inr ?_)
      simpa [sameKind, hlast, hhead] using hkind

theorem scan_runs (cs : List Char) : scan [] cs = (runs cs).flatMap (scan []) := by
  have hpieces : scan [] cs = (cs.splitOnP Text.isSeparator).flatMap (scan []) :=
    scan_splitOnP [] cs (by simp)
  have hruns (x : List Char) : scan [] x = (x.splitBy sameKind).flatMap (scan []) := by
    rw [← scan_flatten (List.isChain_getLast_head_splitBy sameKind x), List.flatten_splitBy]
  rw [hpieces, runs, List.flatMap_assoc]
  exact congrArg (fun f => List.flatMap f _) (funext hruns)

theorem reads_iff_of_mem_runs (h : run ∈ runs cs) : Reads run ts ↔ ts = scan [] run := by
  have hsep : ∀ c ∈ run, Text.isSeparator c = false := by
    intro c hc
    have hmem : c ∈ (runs cs).flatten := List.mem_flatten.2 ⟨run, h, hc⟩
    rw [flatten_runs] at hmem
    simpa using (List.mem_filter.1 hmem).2
  obtain ⟨x, -, hrun⟩ := List.mem_flatMap.1 h
  have hne : run ≠ [] := List.ne_nil_of_mem_splitBy hrun
  obtain hmarks | hletters := marks_or_letters (List.isChain_of_mem_splitBy hrun)
  · obtain ⟨k, hk⟩ := Nat.exists_eq_succ_of_ne_zero (List.length_pos_iff.2 hne).ne'
    rw [List.eq_replicate_of_mem hmarks, hk]
    exact reads_marks_iff k
  · have hends : ∀ c ∈ run, endsWord c = false := by
      intro c hc
      simp [endsWord, hsep c hc, hletters c hc]
    rw [scan_run hne hends]
    exact reads_letters_iff hne fun hm => hletters '>' hm rfl

theorem forall₂_reads_iff {rs : List (List Char)} {parts : List (List Token)}
    (h : ∀ run ∈ rs, ∀ ts, Reads run ts ↔ ts = scan [] run) :
    List.Forall₂ Reads rs parts ↔ parts = rs.map (scan []) := by
  induction rs generalizing parts with
  | nil => simp
  | cons run rs ih =>
    obtain ⟨hrun, hrs⟩ := List.forall_mem_cons.1 h
    cases parts with
    | nil => simp
    | cons ts parts => rw [List.forall₂_cons, hrun, ih hrs, List.map_cons, List.cons.injEq]

/-- The tokens of a line are those that its runs are read as, in order and in no other way; the runs
leave out the separators only. -/
theorem ofLine_eq_iff_reads (line : String) (ts : List Token) :
    (ofLine line = ts ↔
      ∃ parts, List.Forall₂ Reads (runs line.toList) parts ∧ ts = parts.flatten) ∧
    (runs line.toList).flatten = line.toList.filter fun c => !Text.isSeparator c := by
  refine ⟨?_, flatten_runs line.toList⟩
  have hparts (parts : List (List Token)) : List.Forall₂ Reads (runs line.toList) parts ↔
      parts = (runs line.toList).map (scan []) :=
    forall₂_reads_iff fun run hrun us => reads_iff_of_mem_runs hrun
  simp only [hparts, exists_eq_left]
  rw [ofLine, scan_runs, List.flatMap_def, eq_comm]

example : ofLine "a>>>!-2>!2147483648" = [word "a", .redirect .append, .redirect .truncate,
    lineNumber (-2), .redirect .truncate, word "!2147483648"] := by decide +kernel

/-! ### Words and references -/

def RefersToLine (cs : List Char) : Prop :=
  cs = ['!', '!'] ∨ ∃ ds n, cs = '!' :: ds ∧ Numeral ds n ∧ Fits n

theorem ofRun_of_refersToLine (h : RefersToLine cs) : (ofRun cs).isReference = true := by
  cases h with
  | inl hlast => rw [hlast]; rfl
  | inr hnumber =>
    obtain ⟨ds, n, rfl, hds, hn⟩ := hnumber
    rw [ofRun_number (number?_eq_some_iff.2 ⟨hds, hn⟩)]
    rfl

theorem ofRun_of_not_refersToLine (h : ¬ RefersToLine cs) : ofRun cs = word (String.ofList cs) := by
  apply ofRun_word
  · exact fun hlast => h (.inl hlast)
  · intro ds hds
    rw [Option.eq_none_iff_forall_ne_some]
    intro n hn
    obtain ⟨hnumeral, hfits⟩ := number?_eq_some_iff.1 hn
    exact h (.inr ⟨ds, n, hds, hnumeral, hfits⟩)

theorem RefersToLine.head (h : RefersToLine cs) : cs.head? = some '!' := by
  cases h with
  | inl hlast => simp [hlast]
  | inr hnumber =>
    obtain ⟨ds, n, rfl, -⟩ := hnumber
    rfl

theorem RefersToLine.slash_not_mem (h : RefersToLine cs) : '/' ∉ cs := by
  cases h with
  | inl hlast => simp [hlast]
  | inr hnumber =>
    obtain ⟨ds, n, rfl, hds, -⟩ := hnumber
    intro hmem
    cases List.mem_cons.1 hmem with
    | inl hmark => simp at hmark
    | inr hdigit => simpa using hds.isDigit_or_minus hdigit

/-- A text that is one word of a line as it stands, and no reference. -/
structure IsPlain (w : String) : Prop where
  ne_empty : w ≠ ""
  letters : ∀ c ∈ w.toList, Text.isSeparator c = false ∧ c ≠ '>'
  recalls_nothing : ¬ RefersToLine w.toList

theorem isWord_iff_isPlain {w : String} : IsWord w ↔ IsPlain w := by
  have hends {c : Char} : endsWord c = false ↔ Text.isSeparator c = false ∧ c ≠ '>' := by
    simp [endsWord]
  constructor
  · intro h
    have hne : w.toList ≠ [] := fun hnil => h.ne_empty (String.toList_eq_nil_iff.1 hnil)
    have hread : scan [] w.toList = [word w] := h
    have hrun : [ofRun w.toList] = [word w] := (scan_run hne h.isLettered).symm.trans hread
    refine ⟨h.ne_empty, fun c hc => hends.1 (h.isLettered c hc), fun hrefers => ?_⟩
    have href : (word w).isReference = true :=
      (List.singleton_inj.1 hrun) ▸ ofRun_of_refersToLine hrefers
    simp [isReference] at href
  · intro h
    have hne : w.toList ≠ [] := fun hnil => h.ne_empty (String.toList_eq_nil_iff.1 hnil)
    rw [IsWord, ofLine, scan_run hne fun c hc => hends.2 (h.letters c hc),
      ofRun_of_not_refersToLine h.recalls_nothing, String.ofList_toList]

instance (w : String) : Decidable (IsPlain w) := decidable_of_iff (IsWord w) isWord_iff_isPlain

end PracticeShell.Token
