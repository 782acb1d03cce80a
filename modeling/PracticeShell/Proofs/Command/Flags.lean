import Mathlib.Data.Finset.Dedup
import Mathlib.Data.List.TakeWhile
import PracticeShell.Command.Basic

/-! Flags and operands among the arguments of a command. Reading depends on the operands in their
order and on the set of flag letters, not on where the letters stand or how often one is given. -/
namespace PracticeShell.Command
variable {name arg : String} {args args' rest operands : List String} {flags flags' : List Char}

def IsOperand (arg : String) : Prop := arg.toList.head? ≠ some '-' ∨ arg = "-"

instance (arg : String) : Decidable (IsOperand arg) := inferInstanceAs (Decidable (_ ∨ _))

def operandsOf (args : List String) : List String := args.filter fun arg => IsOperand arg

def lettersOf (args : List String) : List Char :=
  (args.filter fun arg => ¬ IsOperand arg).flatMap fun arg => arg.toList.tail

def beforeMark (args : List String) : List String := args.takeWhile fun arg => arg ≠ "--"

def afterMark (args : List String) : List String := (args.dropWhile fun arg => arg ≠ "--").tail

theorem beforeMark_of_not_mem (h : "--" ∉ args) : beforeMark args = args := by
  refine List.takeWhile_eq_self_iff.2 fun arg harg => decide_eq_true ?_
  rintro rfl
  exact h harg

theorem afterMark_of_not_mem (h : "--" ∉ args) : afterMark args = [] := by
  have hdrop : args.dropWhile (fun arg => decide (arg ≠ "--")) = [] := by
    refine List.dropWhile_eq_nil_iff.2 fun arg harg => decide_eq_true ?_
    rintro rfl
    exact h harg
  rw [afterMark, hdrop, List.tail_nil]

theorem not_isOperand_iff : ¬ IsOperand arg ↔ ∃ c cs, arg.toList = '-' :: c :: cs := by
  have hdash : arg = "-" ↔ arg.toList = ['-'] := by
    rw [← String.toList_inj]
    rfl
  rw [IsOperand, hdash]
  cases arg.toList with
  | nil => simp
  | cons d cs => cases cs <;> simp

/-! ### One argument after the other -/

theorem flagsAndOperands_mark (rest : List String) : flagsAndOperands ("--" :: rest) = ([], rest) := by
  rw [flagsAndOperands, if_pos rfl]

theorem flagsAndOperands_cluster {c : Char} {cs : List Char} (hne : arg ≠ "--")
    (harg : arg.toList = '-' :: c :: cs) (rest : List String) : flagsAndOperands (arg :: rest) =
      (c :: cs ++ (flagsAndOperands rest).1, (flagsAndOperands rest).2) := by
  rw [flagsAndOperands, if_neg hne, harg]
  rfl

theorem flagsAndOperands_isOperand (h : IsOperand arg) (rest : List String) :
    flagsAndOperands (arg :: rest) =
      ((flagsAndOperands rest).1, arg :: (flagsAndOperands rest).2) := by
  have hne : arg ≠ "--" := by
    rintro rfl
    exact absurd h (by decide)
  rw [flagsAndOperands, if_neg hne]
  dsimp only
  split
  · next c cs harg => exact absurd h (not_isOperand_iff.2 ⟨c, cs, harg⟩)
  · rfl

/-- Up to the first `--` the clusters are taken out; all behind it is left in. -/
theorem flagsAndOperands_eq (args : List String) : flagsAndOperands args =
    (lettersOf (beforeMark args), operandsOf (beforeMark args) ++ afterMark args) := by
  induction args with
  | nil => rfl
  | cons arg rest ih =>
    by_cases hmark : arg = "--"
    · -- What is behind the mark is not looked at, so nothing is asked of the induction here.
      subst hmark
      rw [flagsAndOperands_mark]
      rfl
    have hbefore : beforeMark (arg :: rest) = arg :: beforeMark rest := by
      simp [beforeMark, hmark]
    have hafter : afterMark (arg :: rest) = afterMark rest := by
      simp [afterMark, hmark]
    rw [hbefore, hafter]
    by_cases hoperand : IsOperand arg
    · rw [flagsAndOperands_isOperand hoperand, ih]
      simp [lettersOf, operandsOf, hoperand]
    · obtain ⟨c, cs, harg⟩ := not_isOperand_iff.1 hoperand
      rw [flagsAndOperands_cluster hmark harg, ih]
      simp [lettersOf, operandsOf, hoperand, harg]

/-! ### Commands -/

theorem ofOperands_congr (h : ∀ c, c ∈ flags ↔ c ∈ flags') :
    ofOperands name flags operands = ofOperands name flags' operands := by
  have hcontains (c : Char) : flags.contains c = flags'.contains c := by
    rw [Bool.eq_iff_iff, List.contains_iff_mem, List.contains_iff_mem, h]
  unfold ofOperands
  simp only [hcontains]

theorem read_congr (hname : name ≠ "echo") (redirect : Option Redirect)
    (hoperands : operandsOf (beforeMark args) ++ afterMark args =
      operandsOf (beforeMark args') ++ afterMark args')
    (hletters : ∀ c, c ∈ lettersOf (beforeMark args) ↔ c ∈ lettersOf (beforeMark args')) :
    read name args redirect = read name args' redirect := by
  rw [read, read, if_neg hname, if_neg hname, flagsAndOperands_eq, flagsAndOperands_eq, hoperands]
  dsimp only
  rw [ofOperands_congr hletters]

theorem read_ls (args : List String) : read "ls" args none =
    .ok (.ls (operandsOf (beforeMark args) ++ afterMark args)
      ('l' ∈ lettersOf (beforeMark args)) ('a' ∈ lettersOf (beforeMark args))) := by
  rw [read, if_neg (by decide), flagsAndOperands_eq]
  simp [ofOperands, bind, Except.bind, pure, Except.pure]

/-- Arguments with the same operands in order and the same set of flag letters are read as the same
command, or refused for the same reason. `ls` keeps all its operands, so it tells operands apart. -/
theorem read_regrouped (hname : name ≠ "echo") (redirect : Option Redirect)
    (args args' : List String) :
    ("--" ∉ args → "--" ∉ args' → operandsOf args = operandsOf args' →
        (lettersOf args).toFinset = (lettersOf args').toFinset →
        read name args redirect = read name args' redirect) ∧
      (operandsOf (beforeMark args) ++ afterMark args =
          operandsOf (beforeMark args') ++ afterMark args' →
        (lettersOf (beforeMark args)).toFinset = (lettersOf (beforeMark args')).toFinset →
        read name args redirect = read name args' redirect) ∧
      read "ls" args none = .ok (.ls (operandsOf (beforeMark args) ++ afterMark args)
        ('l' ∈ lettersOf (beforeMark args)) ('a' ∈ lettersOf (beforeMark args))) := by
  refine ⟨fun hargs hargs' hoperands hletters => ?_, fun hoperands hletters => ?_, read_ls args⟩
  · refine read_congr hname redirect ?_ fun c => ?_
    · rw [beforeMark_of_not_mem hargs, beforeMark_of_not_mem hargs', afterMark_of_not_mem hargs,
        afterMark_of_not_mem hargs', hoperands]
    · rw [beforeMark_of_not_mem hargs, beforeMark_of_not_mem hargs', ← List.mem_toFinset, hletters,
        List.mem_toFinset]
  · refine read_congr hname redirect hoperands fun c => ?_
    rw [← List.mem_toFinset, hletters, List.mem_toFinset]

theorem read_regrouped_among_dashes :
    read "rm" ["-rf", "old", "-"] none = read "rm" ["old", "-f", "-", "-rr"] none ∧
      read "rm" ["-rvf", "old", "--", "-x", "--"] none =
        read "rm" ["-v", "old", "-f", "-rf", "--", "-x", "--"] none ∧
      read "rm" ["-rvf", "old", "--", "-x", "--"] none =
        .ok (.rm ["old", "-x", "--"] true true) := by
  have hrm : "rm" ≠ "echo" := by decide
  have hdash := (read_regrouped hrm none ["-rf", "old", "-"] ["old", "-f", "-", "-rr"]).1
    (by decide) (by decide) (by decide) (by decide)
  have hmark := (read_regrouped hrm none ["-rvf", "old", "--", "-x", "--"]
    ["-v", "old", "-f", "-rf", "--", "-x", "--"]).2.1 (by decide) (by decide)
  exact ⟨hdash, hmark, by decide⟩

end PracticeShell.Command
