import PracticeShell.Text.Digits
import Mathlib.Algebra.Ring.Nat

/-! Numbers written in digits and read again. A run of digits ends where something else begins, so
a reader gets back what was written as long as no digit follows. -/
namespace PracticeShell.Text
variable {n width : Nat} {ds rest : List Char}

def EndsDigits (rest : List Char) : Prop := ∀ c ∈ rest.head?, c.isDigit = false

@[simp] theorem endsDigits_nil : EndsDigits [] := by simp [EndsDigits]

theorem endsDigits_cons {c : Char} (h : c.isDigit = false) (rest : List Char) :
    EndsDigits (c :: rest) := by
  simpa [EndsDigits] using h

theorem takeWhile_isDigit_append (hd : ∀ c ∈ ds, c.isDigit = true) (hr : EndsDigits rest) :
    (ds ++ rest).takeWhile Char.isDigit = ds := by
  induction ds with
  | nil =>
    cases rest with
    | nil => rfl
    | cons c rest =>
      have hc : c.isDigit = false := hr c rfl
      simp [hc]
  | cons d ds ih =>
    have hdd : d.isDigit = true := hd d List.mem_cons_self
    simp [hdd, ih fun c hc => hd c (List.mem_cons_of_mem _ hc)]

theorem readDigits_none (cs : List Char) : readDigits none cs =
    if (cs.takeWhile Char.isDigit).isEmpty then none
    else some (cs.takeWhile Char.isDigit, cs.drop (cs.takeWhile Char.isDigit).length) := rfl

theorem readDigits_some (m : Nat) (cs : List Char) : readDigits (some m) cs =
    if ((cs.takeWhile Char.isDigit).take m).isEmpty then none
    else some ((cs.takeWhile Char.isDigit).take m,
      cs.drop ((cs.takeWhile Char.isDigit).take m).length) := rfl

theorem readDigits_append {most : Option Nat} (hd : ∀ c ∈ ds, c.isDigit = true) (hne : ds ≠ [])
    (hm : ∀ m ∈ most, ds.length ≤ m) (hr : EndsDigits rest) :
    readDigits most (ds ++ rest) = some (ds, rest) := by
  have hrun := takeWhile_isDigit_append hd hr
  cases most with
  | none => simp [readDigits_none, hrun, hne]
  | some m =>
    have hlen : ds.length ≤ m := hm m rfl
    simp [readDigits_some, hrun, List.take_of_length_le hlen, hne]

theorem readNat_append {most : Option Nat} (hd : ∀ c ∈ ds, c.isDigit = true) (hne : ds ≠ [])
    (hm : ∀ m ∈ most, ds.length ≤ m) (hr : EndsDigits rest) :
    readNat most (ds ++ rest) = some (digitsValue ds, rest) := by
  rw [readNat, readDigits_append hd hne hm hr]
  rfl

theorem readDigits_none_eq_some {cs : List Char} (h : readDigits none cs = some (ds, rest)) :
    cs = ds ++ rest ∧ ds ≠ [] ∧ ∀ c ∈ ds, c.isDigit = true := by
  rw [readDigits_none] at h
  split at h
  · simp at h
  · next hne =>
    simp only [Option.some_inj, Prod.mk.injEq] at h
    obtain ⟨rfl, rfl⟩ := h
    have hstarts : cs.takeWhile Char.isDigit <+: cs := List.takeWhile_prefix _
    exact ⟨(List.prefix_iff_eq_append.1 hstarts).symm, by simpa using hne,
      List.all_eq_true.1 List.all_takeWhile⟩

/-! ### Values -/

theorem digitsValue_eq_ofDigitChars (ds : List Char) :
    digitsValue ds = Nat.ofDigitChars 10 ds 0 := rfl

theorem digitsValue_concat (ds : List Char) (c : Char) :
    digitsValue (ds ++ [c]) = 10 * digitsValue ds + (c.toNat - '0'.toNat) := by
  simp [digitsValue_eq_ofDigitChars, Nat.ofDigitChars_append, Nat.ofDigitChars_cons]

theorem isDigit_digitChar (h : n < 10) : (digitChar n).isDigit = true := by
  have hall : ∀ n < 10, (digitChar n).isDigit = true := by decide
  exact hall n h

theorem toNat_digitChar (h : n < 10) : (digitChar n).toNat - '0'.toNat = n := by
  have hall : ∀ n < 10, (digitChar n).toNat - '0'.toNat = n := by decide
  exact hall n h

@[simp] theorem length_fixedDigits (width n : Nat) : (fixedDigits width n).length = width := by
  induction width generalizing n with
  | zero => rfl
  | succ width ih => simp [fixedDigits, ih]

theorem isDigit_of_mem_fixedDigits {c : Char} (h : c ∈ fixedDigits width n) : c.isDigit = true := by
  induction width generalizing n with
  | zero => simp [fixedDigits] at h
  | succ width ih =>
    rw [fixedDigits, List.mem_append, List.mem_singleton] at h
    obtain h | rfl := h
    · exact ih h
    · exact isDigit_digitChar (Nat.mod_lt n (by decide))

theorem digitsValue_fixedDigits (h : n < 10 ^ width) : digitsValue (fixedDigits width n) = n := by
  induction width generalizing n with
  | zero =>
    have hn : n = 0 := by omega
    subst hn
    rfl
  | succ width ih =>
    have hdiv : n / 10 < 10 ^ width := by
      rw [Nat.pow_succ] at h
      omega
    rw [fixedDigits, digitsValue_concat, ih hdiv, toNat_digitChar (Nat.mod_lt n (by decide))]
    omega

theorem isDigit_of_mem_decimal {c : Char} (h : c ∈ decimal n) : c.isDigit = true :=
  Nat.isDigit_of_mem_toDigits (by decide) (by decide) h

theorem digitsValue_decimal (n : Nat) : digitsValue (decimal n) = n := Nat.ofDigitChars_ten_toDigits

theorem length_decimal_le (hw : 0 < width) (h : n < 10 ^ width) : (decimal n).length ≤ width :=
  (Nat.length_toDigits_le_iff (by decide) hw).2 h

theorem digitsValue_padStart (width : Nat) (ds : List Char) :
    digitsValue (padStart width '0' ds) = digitsValue ds := by
  simp [padStart, digitsValue_eq_ofDigitChars, Nat.ofDigitChars_append]

theorem isDigit_of_mem_padStart {c : Char} (hd : ∀ c ∈ ds, c.isDigit = true)
    (h : c ∈ padStart width '0' ds) :
    c.isDigit = true := by
  rw [padStart, List.mem_append, List.mem_replicate] at h
  obtain ⟨-, rfl⟩ | h := h
  · rfl
  · exact hd c h

/-! ### Hexadecimal digits -/

theorem hexValue?_hexChar (h : n < 16) : hexValue? (hexChar n) = some n := by
  have hall : ∀ n < 16, hexValue? (hexChar n) = some n := by decide
  exact hall n h

end PracticeShell.Text
