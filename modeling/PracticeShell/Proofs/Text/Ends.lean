import PracticeShell.Text.Ends
import Mathlib.Data.List.DropRight

/-! What is taken off the ends of a text: blanks at the front and at the end, and at most one pair
of quotes of one kind. -/
namespace PracticeShell.Text
variable {c : Char} {s text inner : String} {quote : Char}

/-! ### Blanks -/

def frontBlanks (s : String) : List Char := s.toList.takeWhile isBlank

def endBlanks (s : String) : List Char := (s.toList.dropWhile isBlank).rtakeWhile isBlank

/-- Trimming takes off nothing but separators. -/
def TrimsSeparators (s : String) : Prop := ∀ c ∈ frontBlanks s ++ endBlanks s, isSeparator c = true

instance (s : String) : Decidable (TrimsSeparators s) :=
  List.decidableBAll (fun c => isSeparator c = true) (frontBlanks s ++ endBlanks s)

theorem toList_eq_trim (s : String) :
    s.toList = frontBlanks s ++ ((trim s).toList ++ endBlanks s) := by
  have hend : (trim s).toList ++ endBlanks s = s.toList.dropWhile isBlank := by
    rw [trim, String.toList_ofList]
    exact List.rdropWhile_append_rtakeWhile
  rw [hend]
  exact List.takeWhile_append_dropWhile.symm

theorem isBlank_of_mem_frontBlanks (h : c ∈ frontBlanks s) : isBlank c = true :=
  List.mem_takeWhile_imp h

theorem isBlank_of_mem_endBlanks (h : c ∈ endBlanks s) : isBlank c = true :=
  List.mem_rtakeWhile_imp h

theorem isBlank_of_trim_eq_empty (h : trim s = "") (hc : c ∈ s.toList) : isBlank c = true := by
  rw [toList_eq_trim, h] at hc
  obtain hc | hc := List.mem_append.1 hc
  · exact isBlank_of_mem_frontBlanks hc
  · exact isBlank_of_mem_endBlanks (by simpa using hc)

/-! ### Ends -/

theorem dropEndWhile_append {p : Char → Bool} {y : List Char} (hy : ∀ c ∈ y, p c = true)
    (x : List Char) : dropEndWhile p (x ++ y) = dropEndWhile p x := by
  rw [dropEndWhile, List.reverse_append, List.dropWhile_append_of_pos (by simpa using hy)]
  rfl

theorem exists_end (p : Char → Bool) (s : String) : ∃ y : List Char,
    (∀ c ∈ y, p c = true) ∧ s.toList = (trimEndWhile p s).toList ++ y := by
  refine ⟨s.toList.rtakeWhile p, fun c => List.mem_rtakeWhile_imp, ?_⟩
  rw [trimEndWhile, String.toList_ofList]
  exact List.rdropWhile_append_rtakeWhile.symm

theorem trimChars_eq {cs : List Char} (hfront : ∀ c ∈ cs.head?, isBlank c = false)
    (hend : ∀ c ∈ cs.getLast?, isBlank c = false) : trimChars cs = cs := by
  have hdrop : cs.dropWhile isBlank = cs := by
    cases cs with
    | nil => rfl
    | cons c cs => exact List.dropWhile_cons_of_neg (by simp [hfront c rfl])
  rw [trimChars, hdrop]
  exact List.rdropWhile_eq_self_iff.2 fun hne => by simp [hend _ (List.getLast?_eq_some_getLast hne)]

theorem trim_of_append {t : String} {y : List Char} (hy : ∀ c ∈ y, isBlank c = true)
    (h : s.toList = t.toList ++ y) : trim s = trim t := by
  rw [trim, trim, trimChars, trimChars, h, List.dropWhile_append]
  split
  · next hempty =>
    have hnil : y.dropWhile isBlank = [] := List.dropWhile_eq_nil_iff.2 hy
    rw [hnil, List.isEmpty_iff.1 hempty]
  · rw [dropEndWhile_append hy]

/-! ### Quotes -/

def Encloses (text inner : String) : Prop :=
  ∃ quote, (quote = '"' ∨ quote = '\x27') ∧ text.toList = quote :: (inner.toList ++ [quote])

inductive Unquotes (text : String) : String → Prop
  | enclosed {inner : String} (h : Encloses text inner) : Unquotes text inner
  | bare (h : ∀ inner, ¬ Encloses text inner) : Unquotes text text

theorem enclosed?_eq_some_iff :
    enclosed? quote text = some inner ↔ text.toList = quote :: (inner.toList ++ [quote]) := by
  rw [enclosed?]
  cases text.toList with
  | nil => simp
  | cons c cs =>
    constructor
    · intro h
      obtain ⟨⟨hc, hlast⟩, hinner⟩ : (c = quote ∧ cs.getLast? = some quote) ∧
          String.ofList cs.dropLast = inner := by simpa using h
      rw [hc, ← hinner, String.toList_ofList, List.dropLast_append_getLast? _ hlast]
    · intro h
      obtain ⟨rfl, rfl⟩ := List.cons.inj h
      simp

theorem unquoted?_eq_some_iff : unquoted? text = some inner ↔ Encloses text inner := by
  rw [unquoted?, Option.or_eq_some_iff, enclosed?_eq_some_iff, enclosed?_eq_some_iff]
  constructor
  · intro h
    cases h with
    | inl hdouble => exact ⟨'"', .inl rfl, hdouble⟩
    | inr hsingle => exact ⟨'\x27', .inr rfl, hsingle.2⟩
  · intro h
    obtain ⟨quote, rfl | rfl, h⟩ := h
    · exact .inl h
    · refine .inr ⟨?_, h⟩
      simp [enclosed?, h]

theorem Encloses.subset (h : Encloses text inner) : inner.toList ⊆ text.toList := by
  obtain ⟨quote, -, htext⟩ := h
  rw [htext]
  exact List.subset_cons_of_subset quote (List.subset_append_left _ _)

theorem unquoted?_eq_none_iff : unquoted? text = none ↔ ∀ inner, ¬ Encloses text inner := by
  simp only [Option.eq_none_iff_forall_ne_some, ne_eq, unquoted?_eq_some_iff]

theorem unquotes_iff : Unquotes text inner ↔ inner = (unquoted? text).getD text := by
  constructor
  · intro h
    cases h with
    | enclosed h => rw [unquoted?_eq_some_iff.2 h, Option.getD_some]
    | bare h => rw [unquoted?_eq_none_iff.2 h, Option.getD_none]
  · intro h
    subst h
    cases h : unquoted? text with
    | some inner => exact .enclosed (unquoted?_eq_some_iff.1 h)
    | none => exact .bare (unquoted?_eq_none_iff.1 h)

end PracticeShell.Text
