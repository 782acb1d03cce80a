import PracticeShell.Proofs.Text.Digits
import PracticeShell.Proofs.Time.Calendar
import PracticeShell.Time.Rfc3339
import Mathlib.Data.Option.Basic

/-! An instant is read from its own text: each field of it is read back, and what follows a field is
left for the next. -/
namespace PracticeShell.Instant
open Text
variable {rest : List Char} {n : Nat}

theorem isBlank_of_isDigit {c : Char} (h : c.isDigit = true) : isBlank c = false := by
  have hall : ∀ code < 58, 48 ≤ code → blankCodes.contains code = false := by decide
  have hc : 48 ≤ c.toNat ∧ c.toNat ≤ 57 := by
    simpa [Char.isDigit, UInt32.le_iff_toNat_le] using h
  exact hall c.toNat (by omega) hc.1

theorem skipBlanks_cons {c : Char} (h : isBlank c = false) (rest : List Char) :
    skipBlanks (c :: rest) = c :: rest := by
  simp [skipBlanks, h]

theorem skipBlanks_digits {ds : List Char} (hd : ∀ c ∈ ds, c.isDigit = true) (hne : ds ≠ [])
    (rest : List Char) :
    skipBlanks (ds ++ rest) = ds ++ rest := by
  cases ds with
  | nil => exact absurd rfl hne
  | cons c ds => exact skipBlanks_cons (isBlank_of_isDigit (hd c List.mem_cons_self)) _

/-! ### Fields -/

theorem readField_twoDigits (hn : n < 100) (hr : EndsDigits rest) :
    readField (fixedDigits 2 n ++ rest) = some (n, rest) := by
  have hd : ∀ c ∈ fixedDigits 2 n, c.isDigit = true := fun c hc => isDigit_of_mem_fixedDigits hc
  have hne : fixedDigits 2 n ≠ [] := List.ne_nil_of_length_pos (by simp)
  rw [readField, skipBlanks_digits hd hne, readNat_append hd hne (by simp) hr,
    digitsValue_fixedDigits hn]

theorem readMark_cons {c : Char} (h : isBlank c = false) (rest : List Char) :
    readMark c (c :: rest) = some rest := by
  simp [readMark, skipBlanks_cons h]

theorem readYear_minus (cs : List Char) :
    readYear ('-' :: cs) = (readNat none cs).map fun (n, rest) => (-(n : Int), rest) := by
  rw [readYear, skipBlanks_cons (by decide)]
  rfl

theorem readYear_plus (cs : List Char) :
    readYear ('+' :: cs) = (readNat none cs).map fun (n, rest) => ((n : Int), rest) := by
  rw [readYear, skipBlanks_cons (by decide)]
  rfl

theorem readYear_digits {ds : List Char} (hd : ∀ c ∈ ds, c.isDigit = true) (hne : ds ≠ [])
    (rest : List Char) :
    readYear (ds ++ rest) =
      (readNat (some 4) (ds ++ rest)).map fun (n, rest) => ((n : Int), rest) := by
  rw [readYear, skipBlanks_digits hd hne]
  cases ds with
  | nil => exact absurd rfl hne
  | cons d ds =>
    have hdigit : d.isDigit = true := hd d List.mem_cons_self
    split
    · next h =>
      obtain ⟨rfl, -⟩ := List.cons.inj h
      exact absurd hdigit (by decide)
    · next h =>
      obtain ⟨rfl, -⟩ := List.cons.inj h
      exact absurd hdigit (by decide)
    · rfl

theorem readYear_yearText (year : Int) (hr : EndsDigits rest) :
    readYear ((yearText year).toList ++ rest) = some (year, rest) := by
  let ds := padStart 4 '0' (decimal year.natAbs)
  have hd : ∀ c ∈ ds, c.isDigit = true :=
    fun c hc => isDigit_of_mem_padStart (fun c hc => isDigit_of_mem_decimal hc) hc
  have hvalue : digitsValue ds = year.natAbs := by rw [digitsValue_padStart, digitsValue_decimal]
  have hlength : ds.length = max 4 (decimal year.natAbs).length := by
    simp only [ds, padStart, List.length_append, List.length_replicate]
    omega
  have hne : ds ≠ [] := List.ne_nil_of_length_pos (by omega)
  have hread : readNat none (ds ++ rest) = some (year.natAbs, rest) := by
    rw [readNat_append hd hne (by simp) hr, hvalue]
  rw [yearText]
  split
  · next hyear =>
    have hle : (decimal year.natAbs).length ≤ 4 := length_decimal_le (by decide) (by omega)
    have hread4 : readNat (some 4) (ds ++ rest) = some (year.natAbs, rest) := by
      rw [readNat_append hd hne (by simp; omega) hr, hvalue]
    have hyear : (year.natAbs : Int) = year := by omega
    rw [String.toList_ofList, readYear_digits hd hne, hread4, Option.map_some]
    simp only [hyear]
  · split
    · have hyear : (year.natAbs : Int) = year := by omega
      have htext : ("+" ++ String.ofList ds).toList = '+' :: ds := by simp
      rw [htext, List.cons_append, readYear_plus, hread, Option.map_some]
      simp only [hyear]
    · have hyear : -(year.natAbs : Int) = year := by omega
      have htext : ("-" ++ String.ofList ds).toList = '-' :: ds := by simp
      rw [htext, List.cons_append, readYear_minus, hread, Option.map_some]
      simp only [hyear]

theorem readFraction_digits {width : Nat} (hw : 0 < width) (hw9 : width ≤ 9) (hn : n < 10 ^ width)
    (hr : EndsDigits rest) :
    readFraction (("." ++ String.ofList (fixedDigits width n)).toList ++ rest) =
      some (n * 10 ^ (9 - width), rest) := by
  have hd : ∀ c ∈ fixedDigits width n, c.isDigit = true := fun c hc => isDigit_of_mem_fixedDigits hc
  have hne : fixedDigits width n ≠ [] := List.ne_nil_of_length_pos (by simp [hw])
  have htext : ("." ++ String.ofList (fixedDigits width n)).toList = '.' :: fixedDigits width n := by
    simp
  have hrest : rest.dropWhile Char.isDigit = rest := by
    cases rest with
    | nil => rfl
    | cons c rest =>
      have hc : c.isDigit = false := hr c rfl
      simp [hc]
  rw [htext, List.cons_append, readFraction, readDigits_append hd hne (by simpa using hw9) hr]
  simp [digitsValue_fixedDigits hn, hrest]

theorem readFraction_fractionText {nano : Nat} (hn : nano < billion) (rest : List Char) :
    readFraction ((fractionText nano).toList ++ 'Z' :: rest) = some (nano, 'Z' :: rest) := by
  have hb : nano < 1000000000 := hn
  have hr : EndsDigits ('Z' :: rest) := endsDigits_cons (by decide) rest
  rw [fractionText]
  split
  · next h =>
    subst h
    rfl
  split
  · rw [readFraction_digits (by decide) (by decide) (by omega) hr]
    have hvalue : nano / 1000000 * 10 ^ (9 - 3) = nano := by omega
    rw [hvalue]
  split
  · rw [readFraction_digits (by decide) (by decide) (by omega) hr]
    have hvalue : nano / 1000 * 10 ^ (9 - 6) = nano := by omega
    rw [hvalue]
  · rw [readFraction_digits (by decide) (by decide) (by omega) hr, Nat.sub_self, Nat.pow_zero,
      Nat.mul_one]

theorem endsDigits_fractionText (nano : Nat) (rest : List Char) :
    EndsDigits ((fractionText nano).toList ++ 'Z' :: rest) := by
  rw [fractionText]
  split
  · exact endsDigits_cons (by decide) rest
  split
  · simp [EndsDigits]
  split
  · simp [EndsDigits]
  · simp [EndsDigits]

/-! ### Dates and times -/

theorem readDate_date {d : Date} (hd : d.IsValid) (hy : firstYear ≤ d.year ∧ d.year ≤ lastYear)
    (hr : EndsDigits rest) :
    readDate ((yearText d.year).toList ++ '-' :: (fixedDigits 2 d.month ++
      '-' :: (fixedDigits 2 d.day ++ rest))) = some (d, rest) := by
  have hmonth : d.month < 100 := by
    have hle := hd.2.1
    omega
  have hday : d.day < 100 := by
    have hle := hd.2.2.2
    have hdays : Date.daysInMonth d.year d.month ≤ 31 := by
      unfold Date.daysInMonth
      split
      · split <;> decide
      · split <;> decide
    omega
  have hmark (rest : List Char) : EndsDigits ('-' :: rest) := endsDigits_cons (by decide) rest
  have hcut (rest : List Char) : readMark '-' ('-' :: rest) = some rest :=
    readMark_cons (by decide) rest
  simp only [readDate, readYear_yearText d.year (hmark _), hcut,
    readField_twoDigits hmonth (hmark _), readField_twoDigits hday hr, Option.bind_eq_bind,
    Option.bind_some]
  have hguard : d.IsValid ∧ firstYear ≤ d.year ∧ d.year ≤ lastYear := ⟨hd, hy⟩
  rw [(Option.guard_eq_some' ()).2 hguard]
  rfl

theorem readTime_time {hour minute second nano : Nat} (hh : hour ≤ 23) (hm : minute ≤ 59)
    (hs : second ≤ 60)
    (hn : nano < billion) (rest : List Char) :
    readTime (fixedDigits 2 hour ++ ':' :: (fixedDigits 2 minute ++ ':' :: (fixedDigits 2 second ++
      ((fractionText nano).toList ++ 'Z' :: rest)))) =
      some (if second = 60 then (hour * 3600 + minute * 60 + 59, nano + billion, 'Z' :: rest)
        else (hour * 3600 + minute * 60 + second, nano, 'Z' :: rest)) := by
  have hmark (rest : List Char) : EndsDigits (':' :: rest) := endsDigits_cons (by decide) rest
  have hcut (rest : List Char) : readMark ':' (':' :: rest) = some rest :=
    readMark_cons (by decide) rest
  simp only [readTime, readField_twoDigits (by omega : hour < 100) (hmark _), hcut,
    readField_twoDigits (by omega : minute < 100) (hmark _),
    readField_twoDigits (by omega : second < 100) (endsDigits_fractionText nano rest),
    readFraction_fractionText hn, Option.bind_eq_bind, Option.bind_some]
  have hguard : hour ≤ 23 ∧ minute ≤ 59 ∧ second ≤ 60 := ⟨hh, hm, hs⟩
  rw [(Option.guard_eq_some' ()).2 hguard, Option.bind_some]
  split <;> rfl

def clockText (t : Instant) : List Char :=
  fixedDigits 2 t.hour ++ ':' :: (fixedDigits 2 t.minute ++ ':' ::
    (fixedDigits 2 t.secondOfMinute ++ ((fractionText t.fraction).toList ++ ['Z'])))

theorem toList_text (t : Instant) : t.text.toList =
    (yearText t.date.year).toList ++ '-' :: (fixedDigits 2 t.date.month ++ '-' ::
      (fixedDigits 2 t.date.day ++ 'T' :: t.clockText)) := by
  simp [text, clockText, twoDigits, String.toList_append]

theorem days_bounds (t : Instant) : -96465292 ≤ t.days ∧ t.days ≤ 95026236 := by
  have hr := t.inRange
  simp only [firstSecond, lastSecond] at hr
  simp only [days]
  omega

/-- A leap second is written as second 60, and held as the nanoseconds past 59. -/
theorem leapSecond (t : Instant) : if t.secondOfMinute = 60 then
    t.secondOfDay % 60 = 59 ∧ t.fraction + billion = t.nano
    else t.secondOfDay % 60 = t.secondOfMinute ∧ t.fraction = t.nano := by
  have hn := t.nano_lt
  have hb : billion = 1000000000 := rfl
  have hday : t.secondOfDay % 60 = (t.second % 60).toNat := by
    simp only [secondOfDay]
    omega
  rw [hb] at hn
  simp only [secondOfMinute, fraction, hb, hday]
  split <;> omega

theorem readTime_clockText (t : Instant) :
    readTime t.clockText = some (t.secondOfDay, t.nano, ['Z']) := by
  have hday : t.secondOfDay < 86400 := by
    simp only [secondOfDay]
    omega
  have hhour : t.hour ≤ 23 := by
    simp only [hour]
    omega
  have hminute : t.minute ≤ 59 := by
    simp only [minute]
    omega
  have hparts : t.secondOfDay = t.hour * 3600 + t.minute * 60 + t.secondOfDay % 60 := by
    simp only [hour, minute]
    omega
  have hleap := t.leapSecond
  have hsecond : t.secondOfMinute ≤ 60 := by
    split at hleap <;> omega
  have hfraction : t.fraction < billion := Nat.mod_lt _ (by decide)
  rw [clockText, readTime_time hhour hminute hsecond hfraction]
  split at hleap
  · next h => rw [if_pos h, hleap.2, ← hleap.1, ← hparts]
  · next h => rw [if_neg h, hleap.2, ← hleap.1, ← hparts]

theorem ofUnix?_second_nano (t : Instant) : ofUnix? t.second t.nano = some t := by
  rw [ofUnix?, dif_pos ⟨t.inRange, t.nano_lt⟩]

theorem read?_text (t : Instant) : read? t.text = some t := by
  have hvalid : t.date.IsValid := Date.ofDays_isValid t.days
  have hyear : firstYear ≤ t.date.year ∧ t.date.year ≤ lastYear :=
    Date.ofDays_year t.days_bounds.1 t.days_bounds.2
  have hclock : EndsDigits ('T' :: t.clockText) := endsDigits_cons (by decide) _
  have hdate := readDate_date hvalid hyear hclock
  have hzone : skipBlanks ['Z'] = ['Z'] := by decide
  have hoffset : readOffset ['Z'] = some (0, []) := rfl
  have hsecond : t.date.toDays * 86400 + (t.secondOfDay : Int) - 0 = t.second := by
    have hdays : t.date.toDays = t.days := Date.toDays_ofDays t.days
    rw [hdays]
    simp only [days, secondOfDay]
    omega
  rw [read?, toList_text, hdate]
  simp only [Option.bind_eq_bind, Option.bind_some, readTime_clockText, hzone, hoffset]
  rw [hsecond, ofUnix?_second_nano]
  rfl

end PracticeShell.Instant
