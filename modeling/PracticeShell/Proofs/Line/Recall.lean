import PracticeShell.Listing
import PracticeShell.Proofs.Line.Grammar
import PracticeShell.Proofs.Line.Length

/-! Lines that recall others. References name lines of the history by their numbers in its listing,
or counted from its end. Main statements: a line is read as if each reference were replaced by the
tokens of the line it names; a number that names no line is refused, if it is not too large for a
reference. -/
namespace PracticeShell

namespace Listing
variable {history : List String} {line line' : String} {i j : Nat}

theorem dropWhile_numbered (i : Nat) (line : String) :
    (numbered i line).toList.dropWhile (· == ' ') =
      Text.decimal (i + 1) ++ ' ' :: ' ' :: line.toList := by
  have hlist : (numbered i line).toList =
      List.replicate (5 - (Text.decimal (i + 1)).length) ' ' ++
        (Text.decimal (i + 1) ++ ' ' :: ' ' :: line.toList) := by
    simp [numbered, Text.padStart]
  rw [hlist, List.dropWhile_append_of_pos (by simp)]
  cases hdigits : Text.decimal (i + 1) with
  | nil => exact absurd hdigits Nat.toDigits_ne_nil
  | cons d ds =>
    have hd : d.isDigit = true := Text.isDigit_of_mem_decimal (hdigits ▸ List.mem_cons_self)
    have hne : d ≠ ' ' := by
      rintro rfl
      simp at hd
    rw [List.cons_append, List.dropWhile_cons_of_neg (by simpa using hne)]

theorem numbered_inj : numbered i line = numbered j line' ↔ i = j ∧ line = line' := by
  constructor
  · intro h
    have hrest : Text.decimal (i + 1) ++ ' ' :: ' ' :: line.toList =
        Text.decimal (j + 1) ++ ' ' :: ' ' :: line'.toList := by
      rw [← dropWhile_numbered, ← dropWhile_numbered, h]
    have hends (l : String) : Text.EndsDigits (' ' :: ' ' :: l.toList) := Text.endsDigits_cons rfl _
    have hdigits : Text.decimal (i + 1) = Text.decimal (j + 1) := by
      have htake := congrArg (List.takeWhile Char.isDigit) hrest
      rwa [Text.takeWhile_isDigit_append (fun _ => Text.isDigit_of_mem_decimal) (hends line),
        Text.takeWhile_isDigit_append (fun _ => Text.isDigit_of_mem_decimal) (hends line')] at htake
    have hij : i + 1 = j + 1 := by
      rw [← Text.digitsValue_decimal (i + 1), hdigits, Text.digitsValue_decimal]
    rw [hdigits] at hrest
    refine ⟨by omega, String.toList_inj.1 ?_⟩
    simpa using hrest
  · rintro ⟨rfl, rfl⟩
    rfl

theorem numbered_mem_iff :
    numbered i line ∈ history.mapIdx numbered ↔ history[i]? = some line := by
  rw [List.mem_mapIdx, List.getElem?_eq_some_iff]
  constructor
  · rintro ⟨j, hj, heq⟩
    obtain ⟨rfl, rfl⟩ := numbered_inj.1 heq
    exact ⟨hj, rfl⟩
  · rintro ⟨hi, rfl⟩
    exact ⟨i, hi, rfl⟩

end Listing

namespace Token
variable {history : List String} {t r : Token} {ts us : List Token} {line : String} {n : Int}

/-- The line that a reference names: the last one, the one listed under a number, or the one counted
from the end. -/
inductive Names (history : List String) : Token → String → Prop where
  | lastLine {before : List String} {line : String} (h : history = before ++ [line]) :
    Names history .lastLine line
  | listed {i : Nat} {line : String}
      (h : Listing.numbered i line ∈ history.mapIdx Listing.numbered) :
    Names history (.lineNumber (i + 1)) line
  | fromEnd {before after : List String} {line : String} (h : history = before ++ line :: after) :
    Names history (.lineNumber (-(after.length + 1))) line

/-- Each reference is replaced by the tokens of its line, less the references among them. -/
inductive Replaced (history : List String) : List Token → List Token → Prop where
  | nil : Replaced history [] []
  | kept {t : Token} {ts us : List Token} (ht : t.isReference = false)
      (h : Replaced history ts us) : Replaced history (t :: ts) (t :: us)
  | reference {t : Token} {line : String} {ts us : List Token} (ht : Names history t line)
      (h : Replaced history ts us) :
    Replaced history (t :: ts) ((ofLine line).filter (fun u => !u.isReference) ++ us)

def FirstUnnamed (history : List String) (ts : List Token) (r : Token) : Prop :=
  ∃ before after, ts = before ++ r :: after ∧ r.isReference = true ∧
    (∀ line, ¬ Names history r line) ∧
    ∀ t ∈ before, t.isReference = true → ∃ line, Names history t line

def shown : Token → String
  | .lineNumber n => "!" ++ toString n
  | _ => "!!"

/-! ### The line of a reference -/

theorem lineAt?_listed (history : List String) (i : Nat) :
    lineAt? history (i + 1) = history[i]? := by
  rw [lineAt?, if_pos (by omega)]
  rfl

theorem lineAt?_fromEnd (before after : List String) (line : String) :
    lineAt? (before ++ line :: after) (-(after.length + 1)) = some line := by
  have hlength : (before ++ line :: after).length = before.length + (after.length + 1) := by simp
  have hplace : (before ++ line :: after).length - (-(after.length + 1 : Int)).natAbs =
      before.length := by omega
  rw [lineAt?, if_neg (by omega), if_pos (by omega), hplace, List.getElem?_append_right (le_refl _),
    Nat.sub_self]
  rfl

theorem lineAt?_eq_some_iff :
    lineAt? history n = some line ↔ Names history (.lineNumber n) line := by
  constructor
  · intro h
    rw [lineAt?] at h
    split at h
    · have hn : n = (n.toNat - 1 : Nat) + 1 := by omega
      rw [hn]
      exact .listed (Listing.numbered_mem_iff.2 h)
    · split at h
      · obtain ⟨hlt, hline⟩ := List.getElem?_eq_some_iff.1 h
        have hsplit := List.take_append_drop (history.length - n.natAbs) history
        rw [List.drop_eq_getElem_cons hlt, hline] at hsplit
        have hn : n = -((history.drop (history.length - n.natAbs + 1)).length + 1) := by
          rw [List.length_drop]
          omega
        rw [hn]
        exact .fromEnd hsplit.symm
      · simp at h
  · intro h
    generalize ht : lineNumber n = t at h
    cases h with
    | lastLine => simp at ht
    | listed h =>
      rw [lineNumber.inj ht, lineAt?_listed]
      exact Listing.numbered_mem_iff.1 h
    | fromEnd h =>
      rw [lineNumber.inj ht, h]
      exact lineAt?_fromEnd _ _ _

theorem lineAt?_eq_none_iff : lineAt? history n = none ↔ n = 0 ∨ history.length < n.natAbs := by
  rw [lineAt?]
  split
  · rw [List.getElem?_eq_none_iff]
    omega
  · split
    · rw [List.getElem?_eq_none_iff]
      omega
    · simp
      omega

theorem meaning_of_names (h : Names history t line) : t.meaning history = .ok (recalled line) := by
  cases t with
  | word | redirect => cases h
  | lastLine =>
    cases h with
    | lastLine h => simp [meaning, h]
  | lineNumber n => simp [meaning, lineAt?_eq_some_iff.2 h]

theorem meaning_of_unnamed (href : t.isReference = true) (h : ∀ line, ¬ Names history t line) :
    t.meaning history = .error (.eventNotFound t.shown) := by
  cases t with
  | word | redirect => simp [isReference] at href
  | lastLine =>
    have hnone : history.getLast? = none := by
      rw [Option.eq_none_iff_forall_ne_some]
      intro line hline
      obtain ⟨before, hbefore⟩ := List.getLast?_eq_some_iff.1 hline
      exact h line (.lastLine hbefore)
    simp [meaning, hnone, shown]
  | lineNumber n =>
    have hnone : lineAt? history n = none := by
      rw [Option.eq_none_iff_forall_ne_some]
      exact fun line hline => h line (lineAt?_eq_some_iff.1 hline)
    simp [meaning, hnone, shown]

/-! ### References replaced -/

theorem substitute_of_replaced (h : Replaced history ts us) : substitute history ts = .ok us := by
  induction h with
  | nil => rfl
  | kept ht _ ih =>
    rw [substitute_cons (meaning_of_no_reference ht), ih]
    rfl
  | reference ht _ ih =>
    rw [substitute_cons (meaning_of_names ht), ih]
    rfl

theorem FirstUnnamed.cons (ht : t.isReference = true → ∃ line, Names history t line)
    (h : FirstUnnamed history ts r) : FirstUnnamed history (t :: ts) r := by
  obtain ⟨before, after, rfl, href, hr, hbefore⟩ := h
  exact ⟨t :: before, after, rfl, href, hr, List.forall_mem_cons.2 ⟨ht, hbefore⟩⟩

theorem replaced_or_firstUnnamed (history : List String) (ts : List Token) :
    (∃ us, Replaced history ts us) ∨ ∃ r, FirstUnnamed history ts r := by
  induction ts with
  | nil => exact .inl ⟨[], .nil⟩
  | cons t ts ih =>
    by_cases hnamed : t.isReference = true → ∃ line, Names history t line
    · cases ih with
      | inl h =>
        obtain ⟨us, hus⟩ := h
        cases href : t.isReference with
        | false => exact .inl ⟨t :: us, .kept href hus⟩
        | true =>
          obtain ⟨line, hline⟩ := hnamed href
          exact .inl ⟨_, .reference hline hus⟩
      | inr h =>
        obtain ⟨r, hr⟩ := h
        exact .inr ⟨r, hr.cons hnamed⟩
    · obtain ⟨href, hnone⟩ := Classical.not_imp.1 hnamed
      exact .inr ⟨t, [], ts, rfl, href, not_exists.1 hnone, by simp⟩

theorem substitute_of_firstUnnamed (h : FirstUnnamed history ts r) :
    substitute history ts = .error (.eventNotFound r.shown) := by
  obtain ⟨before, after, rfl, href, hr, hbefore⟩ := h
  induction before with
  | nil => exact substitute_cons_error (meaning_of_unnamed href hr)
  | cons t before ih =>
    obtain ⟨ht, hbefore⟩ := List.forall_mem_cons.1 hbefore
    have hrest := ih hbefore
    cases htref : t.isReference with
    | false =>
      rw [List.cons_append, substitute_cons (meaning_of_no_reference htref), hrest]
      rfl
    | true =>
      obtain ⟨line, hline⟩ := ht htref
      rw [List.cons_append, substitute_cons (meaning_of_names hline), hrest]
      rfl

end Token

namespace CommandLine
open Token
variable {history : List String} {typed line : String} {cs : List Char} {n : Int} {e : LineFault}

theorem read_of_error (h : expand history (ofLine typed) = .error e) :
    read history typed = { fault := some e } := by
  simp [read, h]

theorem expand_eq_substitute (h : (read history typed).fault ≠ some .expansionTooLong) :
    expand history (ofLine typed) = substitute history (ofLine typed) := by
  apply expandFrom_eq_substitute
  intro hlong
  rw [read_of_error hlong] at h
  exact h rfl

/-- Unless it is refused for its length, a line is read as if the tokens of the recalled lines were
typed in place of the references. The first reference that names no line is refused. -/
theorem read_replaced (hshort : (read history typed).fault ≠ some .expansionTooLong) :
    ((∃ us, Replaced history (ofLine typed) us) ∨ ∃ r, FirstUnnamed history (ofLine typed) r) ∧
    (∀ us, Replaced history (ofLine typed) us →
      expand history (ofLine typed) = .ok us ∧ (∀ u ∈ us, u.isReference = false) ∧
      read history typed = { ofTokens us with expanded := (ofLine typed).any isReference }) ∧
    ∀ r, FirstUnnamed history (ofLine typed) r →
      read history typed = { fault := some (.eventNotFound r.shown) } := by
  have hexpand := expand_eq_substitute hshort
  refine ⟨replaced_or_firstUnnamed history (ofLine typed), ?_, ?_⟩
  · intro us hus
    rw [substitute_of_replaced hus] at hexpand
    refine ⟨hexpand, isReference_of_mem_expandFrom hexpand, ?_⟩
    simp only [read, hexpand]
  · intro r hr
    rw [substitute_of_firstUnnamed hr] at hexpand
    exact read_of_error hexpand

theorem read_replaced_unfinished_redirection :
    let history := ["echo hi >", "draft !7"]
    let typed := "!1 !! there"
    let us := [word "echo", word "hi", .redirect .truncate, word "draft", word "there"]
    (read history typed).fault ≠ some .expansionTooLong ∧ Replaced history (ofLine typed) us ∧
      read history typed =
        { name := "echo", args := ["hi", "there"], redirect := some ⟨.truncate, "draft"⟩,
          expanded := true } := by
  intro history typed us
  have hshort : (read history typed).fault ≠ some .expansionTooLong := by decide +kernel
  have htyped : ofLine typed = [.lineNumber ((0 : Nat) + 1), .lastLine, word "there"] := by
    decide +kernel
  have hfirst : Names history (.lineNumber ((0 : Nat) + 1)) "echo hi >" :=
    .listed (Listing.numbered_mem_iff.2 rfl)
  have hlast : Names history .lastLine "draft !7" :=
    .lastLine (show history = ["echo hi >"] ++ ["draft !7"] from rfl)
  have hus : Replaced history (ofLine typed) us := by
    rw [htyped]
    exact .reference hfirst (.reference hlast (.kept rfl .nil))
  obtain ⟨-, hread, -⟩ := read_replaced hshort
  refine ⟨hshort, hus, ?_⟩
  rw [(hread us hus).2.2]
  decide +kernel

/-! ### Numbers that name no line -/

theorem ofLine_of_runs {run : List Char} {ts : List Token} (hruns : runs line.toList = [run])
    (h : Reads run ts) : ofLine line = ts := by
  have hmem : run ∈ runs line.toList := by simp [hruns]
  rw [ofLine, scan_runs, hruns, List.flatMap_singleton, (reads_iff_of_mem_runs hmem).1 h]

/-- A number that names no line is refused if it fits in 32 signed bits. Otherwise the reference is
read as the name of a command. -/
theorem unrecorded_number_refused_iff (hcs : Numeral cs n)
    (hnone : n = 0 ∨ history.length < n.natAbs) (hruns : runs typed.toList = ['!' :: cs]) :
    (read history typed = { fault := some (.eventNotFound ("!" ++ toString n)) } ↔ Fits n) ∧
      (¬ Fits n → read history typed = { name := String.ofList ('!' :: cs) }) := by
  have hrefused (hfits : Fits n) :
      read history typed = { fault := some (.eventNotFound ("!" ++ toString n)) } := by
    have htyped : ofLine typed = [.lineNumber n] := ofLine_of_runs hruns (.lineNumber hcs hfits)
    have hmeaning : (Token.lineNumber n).meaning history =
        .error (.eventNotFound ("!" ++ toString n)) := by
      simp [meaning, lineAt?_eq_none_iff.2 hnone]
    apply read_of_error
    rw [htyped]
    exact expandFrom_cons_error hmeaning
  have htaken (hlarge : ¬ Fits n) : read history typed = { name := String.ofList ('!' :: cs) } := by
    have htyped : ofLine typed = [word (String.ofList ('!' :: cs))] :=
      ofLine_of_runs hruns (reads_large_number hcs hlarge)
    rw [read_of_no_reference (by simp [htyped, isReference]), htyped]
    rfl
  refine ⟨⟨?_, hrefused⟩, htaken⟩
  intro h
  by_contra hlarge
  simp [htaken hlarge] at h

theorem unrecorded_number_refused_with_zeros :
    let history := ["pwd"]
    let typed := " !-007\t"
    Numeral ['-', '0', '0', '7'] (-7) ∧ history.length < (-7 : Int).natAbs ∧
      runs typed.toList = ['!' :: ['-', '0', '0', '7']] ∧ Fits (-7) ∧
      read history typed = { fault := some (.eventNotFound "!-7") } := by
  intro history typed
  have hvalue : Nat.ofDigitChars 10 ['0', '0', '7'] 0 = 7 := rfl
  have hcs : Numeral ['-', '0', '0', '7'] (-7) :=
    numeral_minus_iff.2 ⟨by simp, by simp, by simp [hvalue]⟩
  have hlength : history.length < (-7 : Int).natAbs := by decide
  have hruns : runs typed.toList = ['!' :: ['-', '0', '0', '7']] := by decide +kernel
  have hfits : Fits (-7) := by decide
  exact ⟨hcs, hlength, hruns, hfits,
    (unrecorded_number_refused_iff hcs (.inr hlength) hruns).1.2 hfits⟩

theorem large_number_unrefused :
    Numeral "2147483648".toList 2147483648 ∧ ([] : List String).length < (2147483648 : Int).natAbs ∧
      runs "!2147483648".toList = ['!' :: "2147483648".toList] ∧
      (read [] "!2147483648").fault = none ∧ (read [] "!2147483648").name = "!2147483648" := by
  have hvalue : Nat.ofDigitChars 10 "2147483648".toList 0 = 2147483648 := by decide +kernel
  have hhead : "2147483648".toList.head? ≠ some '-' := by decide +kernel
  have hdigits : "2147483648".toList.all Char.isDigit = true := by decide +kernel
  have hcs : Numeral "2147483648".toList 2147483648 :=
    (numeral_plain_iff hhead).2 ⟨by decide +kernel, List.all_eq_true.1 hdigits, by rw [hvalue]; rfl⟩
  exact ⟨hcs, by decide, by decide +kernel, by decide +kernel, by decide +kernel⟩

end CommandLine

end PracticeShell
