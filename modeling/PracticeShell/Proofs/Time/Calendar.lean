import PracticeShell.Time.Calendar

/-! Days and dates. The date of a day is a date of the calendar, and that day is the day of the
date; both follow from the place of the day in its span of 400 years, century, four years
and year. -/
namespace PracticeShell.Date

/-- The place of a day: 400 years, century, four years, year, and day of the year from March. -/
structure Place where
  era : Int
  century : Nat
  span : Nat
  year : Nat
  inYear : Nat

namespace Place

def marchYear (p : Place) : Int := 400 * p.era + (100 * p.century + 4 * p.span + p.year : Nat)

/-- Days since 1 March of year 0. -/
def days (p : Place) : Int :=
  146097 * p.era + (36524 * p.century + 1461 * p.span + 365 * p.year + p.inYear : Nat)

def month (p : Place) : Nat := (5 * p.inYear + 2) / 153

/-- Only the last year of four has a leap day, and of the last four years of a century only those of
the last century. -/
structure InBounds (p : Place) : Prop where
  century : p.century ≤ 3
  span : p.span ≤ 24
  year : p.year ≤ 3
  inYear : p.inYear ≤ 365
  leap : p.inYear = 365 → p.year = 3 ∧ (p.span ≤ 23 ∨ p.century = 3)

def ofDays (n : Int) : Place :=
  let inEra := ((n + epochOffset) % 146097).toNat
  let century := min (inEra / 36524) 3
  let inCentury := inEra - 36524 * century
  let year := min (inCentury % 1461 / 365) 3
  { era := (n + epochOffset) / 146097
    century := century
    span := inCentury / 1461
    year := year
    inYear := inCentury % 1461 - 365 * year }

theorem days_ofDays (n : Int) : (ofDays n).days = n + epochOffset := by
  simp only [days, ofDays]
  omega

theorem inBounds_ofDays (n : Int) : (ofDays n).InBounds := by
  have hera : ((n + epochOffset) % 146097).toNat < 146097 := by omega
  constructor <;> simp only [ofDays] <;> omega

theorem InBounds.days_eq {p : Place} (h : p.InBounds) : p.days =
    365 * p.marchYear + p.marchYear / 4 - p.marchYear / 100 + p.marchYear / 400 + p.inYear := by
  have hcentury := h.century
  have hspan := h.span
  have hyear := h.year
  have hquarter : p.marchYear / 4 = 100 * p.era + 25 * p.century + p.span := by
    simp only [marchYear]
    omega
  have hhundred : p.marchYear / 100 = 4 * p.era + p.century := by
    simp only [marchYear]
    omega
  have hfour : p.marchYear / 400 = p.era := by
    simp only [marchYear]
    omega
  rw [hquarter, hhundred, hfour]
  simp only [days, marchYear]
  omega

theorem InBounds.month_le {p : Place} (h : p.InBounds) : p.month ≤ 11 := by
  have hinYear := h.inYear
  simp only [month]
  omega

end Place

theorem ofDays_eq (n : Int) : ofDays n =
    { year := if (Place.ofDays n).month < 10 then (Place.ofDays n).marchYear
        else (Place.ofDays n).marchYear + 1
      month := if (Place.ofDays n).month < 10 then (Place.ofDays n).month + 3
        else (Place.ofDays n).month - 9
      day := (Place.ofDays n).inYear - daysBefore (Place.ofDays n).month + 1 } := rfl

theorem toDays_ofDays (n : Int) : (ofDays n).toDays = n := by
  have hdays := Place.days_ofDays n
  have hb := Place.inBounds_ofDays n
  rw [ofDays_eq]
  generalize Place.ofDays n = p at hdays hb
  have hmonth := hb.month_le
  have hbefore : daysBefore p.month ≤ p.inYear := by
    simp only [daysBefore, Place.month]
    omega
  -- Either way the year and the month of the date lead back to those counted from March.
  have hmarch : (if (if p.month < 10 then p.month + 3 else p.month - 9) ≤ 2
      then (if p.month < 10 then p.marchYear else p.marchYear + 1) - 1
      else (if p.month < 10 then p.marchYear else p.marchYear + 1)) = p.marchYear := by
    split <;> split <;> omega
  have hback : ((if p.month < 10 then p.month + 3 else p.month - 9) + 9) % 12 = p.month := by
    split <;> omega
  rw [hb.days_eq] at hdays
  simp only [toDays, hmarch, hback]
  omega

theorem isLeap_of_inYear {p : Place} (hb : p.InBounds) (h : p.inYear = 365) :
    isLeap (p.marchYear + 1) = true := by
  have hcentury := hb.century
  have hspan := hb.span
  obtain ⟨hyear, hlast⟩ := hb.leap h
  have hfour : (p.marchYear + 1) % 4 = 0 := by
    simp only [Place.marchYear]
    omega
  have hhundred : (p.marchYear + 1) % 100 ≠ 0 ∨ (p.marchYear + 1) % 400 = 0 := by
    simp only [Place.marchYear]
    omega
  simpa [isLeap, hfour] using hhundred

theorem daysInMonth_of_lt {m : Nat} (hm : m < 11) (year : Int) :
    daysInMonth year (if m < 10 then m + 3 else m - 9) = daysBefore (m + 1) - daysBefore m := by
  have hall : ∀ m < 11, let month := if m < 10 then m + 3 else m - 9
      month ≠ 2 ∧ (if month = 4 ∨ month = 6 ∨ month = 9 ∨ month = 11 then 30 else 31) =
        daysBefore (m + 1) - daysBefore m := by
    decide
  obtain ⟨hfebruary, hdays⟩ := hall m hm
  rw [daysInMonth, if_neg hfebruary, hdays]

theorem ofDays_isValid (n : Int) : (ofDays n).IsValid := by
  have hb := Place.inBounds_ofDays n
  rw [ofDays_eq]
  generalize Place.ofDays n = p at hb
  have hinYear := hb.inYear
  have hmonth := hb.month_le
  refine ⟨by simp only; split <;> omega, by simp only; split <;> omega, by simp only; omega, ?_⟩
  simp only
  by_cases hfebruary : p.month = 11
  · rw [hfebruary]
    change p.inYear - 337 + 1 ≤ if isLeap (p.marchYear + 1) = true then 29 else 28
    by_cases hlast : p.inYear = 365
    · rw [if_pos (isLeap_of_inYear hb hlast)]
      omega
    · split <;> omega
  · rw [daysInMonth_of_lt (by omega)]
    simp only [daysBefore, Place.month] at *
    omega

/-- The days from the first to the last possible instant have years in between. -/
theorem ofDays_year {n : Int} (hfirst : -96465292 ≤ n) (hlast : n ≤ 95026236) :
    -262143 ≤ (ofDays n).year ∧ (ofDays n).year ≤ 262142 := by
  have hdays := Place.days_ofDays n
  have hb := Place.inBounds_ofDays n
  rw [ofDays_eq]
  generalize Place.ofDays n = p at hdays hb
  have hinYear := hb.inYear
  have hmonth : p.month < 10 ↔ p.inYear < 306 := by
    simp only [Place.month]
    omega
  rw [hb.days_eq, epochOffset] at hdays
  generalize p.marchYear = y at hdays
  have hfirstYear : -262144 ≤ y := by omega
  have hlastYear : y ≤ 262142 := by omega
  by_cases hm : p.month < 10
  · simp only [if_pos hm]
    have hday := hmonth.1 hm
    have hne : y ≠ -262144 := by
      rintro rfl
      omega
    omega
  · simp only [if_neg hm]
    have hne : y ≠ 262142 := by
      rintro rfl
      omega
    omega

end PracticeShell.Date
