import Mathlib.Algebra.Order.Ring.Int
import Mathlib.Data.Nat.Notation

/-!
# The Gregorian calendar

Days are counted in eras of 400 years, from 1 March of a year that the number 400 divides, so that
the day that a leap year has more is the last one of its year.  The year of a day of an era is a
formula with three divisions, and it is right because it is monotone and right at the first and
the last day of every year (`yearOfEra_spec`).  Months follow the rule that five of them in a row
have 153 days.

`monthCount` numbers the months from month to month, across years and eras.  With it the calendar
is one statement: an earlier day has an earlier month, or the same month and an earlier day of it
(`date_lt`).
-/

namespace HabrDigest
namespace Calendar

/-! ## Years -/

/-- The days of an era before a year of it. -/
def daysBefore (year : ℕ) : ℕ := 365 * year + year / 4 - year / 100 + year / 400

/-- The year of a day of an era. -/
def yearOfEra (dayOfEra : ℕ) : ℕ :=
  (dayOfEra - dayOfEra / 1460 + dayOfEra / 36524 - dayOfEra / 146096) / 365

theorem yearOfEra_le_succ (dayOfEra : ℕ) : yearOfEra dayOfEra ≤ yearOfEra (dayOfEra + 1) := by
  unfold yearOfEra
  omega

theorem yearOfEra_mono : Monotone yearOfEra := monotone_nat_of_le_succ yearOfEra_le_succ

/-- The formula is right at both ends of every year. -/
theorem yearOfEra_ends : ∀ year < 400,
    yearOfEra (daysBefore year) = year ∧ yearOfEra (daysBefore (year + 1) - 1) = year := by
  decide +kernel

theorem yearOfEra_lt {dayOfEra : ℕ} (h : dayOfEra < 146097) : yearOfEra dayOfEra < 400 := by
  unfold yearOfEra
  omega

/-- **The year of a day** is the one that it lies in. -/
theorem yearOfEra_spec {dayOfEra : ℕ} (h : dayOfEra < 146097) :
    daysBefore (yearOfEra dayOfEra) ≤ dayOfEra ∧
      dayOfEra < daysBefore (yearOfEra dayOfEra + 1) := by
  have hyear := yearOfEra_lt h
  constructor
  · by_contra hlt
    rw [not_le] at hlt
    have hpos : 0 < yearOfEra dayOfEra := by
      by_contra hzero
      rw [Nat.not_lt, Nat.le_zero] at hzero
      rw [hzero] at hlt
      exact absurd hlt (Nat.not_lt_zero _)
    -- the day before is in the year before
    obtain ⟨-, hlast⟩ := yearOfEra_ends (yearOfEra dayOfEra - 1) (by omega)
    rw [Nat.sub_add_cancel hpos] at hlast
    have hmono := yearOfEra_mono (Nat.le_sub_one_of_lt hlt)
    omega
  · by_contra hge
    rw [not_lt] at hge
    have hnext : yearOfEra dayOfEra + 1 < 400 := by
      by_contra hend
      have heq : yearOfEra dayOfEra + 1 = 400 := by omega
      rw [heq] at hge
      exact absurd hge (by simp [daysBefore]; omega)
    obtain ⟨hfirst, -⟩ := yearOfEra_ends (yearOfEra dayOfEra + 1) hnext
    have hmono := yearOfEra_mono hge
    omega

/-- The day of the year, from 0 on. -/
def dayOfYear (dayOfEra : ℕ) : ℕ :=
  dayOfEra - (365 * yearOfEra dayOfEra + yearOfEra dayOfEra / 4 - yearOfEra dayOfEra / 100)

theorem dayOfYear_spec {dayOfEra : ℕ} (h : dayOfEra < 146097) :
    dayOfEra = daysBefore (yearOfEra dayOfEra) + dayOfYear dayOfEra ∧ dayOfYear dayOfEra < 366 := by
  obtain ⟨hle, hlt⟩ := yearOfEra_spec h
  have hyear := yearOfEra_lt h
  have hlength : ∀ year < 400, daysBefore (year + 1) ≤ daysBefore year + 366 := by decide +kernel
  have hnext := hlength _ hyear
  have hday : dayOfYear dayOfEra = dayOfEra - daysBefore (yearOfEra dayOfEra) := by
    rw [dayOfYear, daysBefore, Nat.div_eq_of_lt hyear, Nat.add_zero]
  omega

/-! ## Months -/

/-- The month of a day of the year; March is 0. -/
def monthFromMarch (dayOfYear : ℕ) : ℕ := (5 * dayOfYear + 2) / 153

/-- The day of its month, from 1 on. -/
def dayOfMonth (dayOfYear : ℕ) : ℕ := dayOfYear - (153 * monthFromMarch dayOfYear + 2) / 5 + 1

theorem monthFromMarch_lt_twelve {dayOfYear : ℕ} (h : dayOfYear < 366) :
    monthFromMarch dayOfYear < 12 := by
  unfold monthFromMarch
  omega

/-- A later day of a year is in a later month, or later in the same one. -/
theorem dayOfMonth_lt_dayOfMonth {d d' : ℕ} (h : d < d') :
    monthFromMarch d < monthFromMarch d' ∨
      monthFromMarch d = monthFromMarch d' ∧ dayOfMonth d < dayOfMonth d' := by
  unfold dayOfMonth monthFromMarch
  omega

/-! ## Days -/

/-- The number of the month of a day, counted from January of the year 0. -/
def monthCount (day : ℤ) : ℤ :=
  (day / 146097 * 400 + yearOfEra (day % 146097).toNat) * 12 +
    monthFromMarch (dayOfYear (day % 146097).toNat) + 2

/-- **An earlier day has an earlier date.** -/
theorem date_lt {d d' : ℤ} (h : d < d') :
    monthCount d < monthCount d' ∨ monthCount d = monthCount d' ∧
      dayOfMonth (dayOfYear (d % 146097).toNat) < dayOfMonth (dayOfYear (d' % 146097).toNat) := by
  have hera : ∀ d : ℤ, (d % 146097).toNat < 146097 := fun d => by omega
  have hmonth : ∀ d : ℤ, monthFromMarch (dayOfYear (d % 146097).toNat) < 12 := fun d =>
    monthFromMarch_lt_twelve (dayOfYear_spec (hera d)).2
  have hyear := yearOfEra_lt (hera d)
  have hm := hmonth d
  have hm' := hmonth d'
  unfold monthCount
  rcases lt_or_ge (d / 146097) (d' / 146097) with hlt | hge
  · exact Or.inl (by omega)
  have hday : (d % 146097).toNat < (d' % 146097).toNat := by omega
  have hsame : d / 146097 = d' / 146097 := by omega
  rcases (yearOfEra_mono hday.le).lt_or_eq with hlt | heq
  · exact Or.inl (by omega)
  -- the same year: the day of the year is later
  obtain ⟨hstart, -⟩ := dayOfYear_spec (hera d)
  obtain ⟨hstart', -⟩ := dayOfYear_spec (hera d')
  rw [heq] at hstart
  have hlater : dayOfYear (d % 146097).toNat < dayOfYear (d' % 146097).toNat := by omega
  rcases dayOfMonth_lt_dayOfMonth hlater with hlt | ⟨hequal, hlt⟩
  · exact Or.inl (by omega)
  · exact Or.inr ⟨by omega, hlt⟩

end Calendar
end HabrDigest
