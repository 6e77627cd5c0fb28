import KernelReach.Time.Calendar
import Mathlib.Tactic.SplitIfs

/-!
# Days and dates

The date after a number of days is a date of the calendar (`Date.isValid_ofDays`), and the days
before it are as many as there should be (`Date.toDays_ofDays`). The year is the one whose first day
is the last that is not later (`yearOfDay_bounds`), and its months are taken off one by one.
-/

namespace KernelReach.Time

theorem total_monthLengths (leap : Bool) :
    Number.total (monthLengths leap) = if leap then 366 else 365 := by
  cases leap <;> rfl

/-- A year starts when the months of the year before are over. -/
theorem daysBeforeYear_succ (year : Int) :
    daysBeforeYear (year + 1) =
      daysBeforeYear year + (Number.total (monthLengths (isLeap year)) : Nat) := by
  rw [total_monthLengths, isLeap, daysBeforeYear, daysBeforeYear]
  simp only [Bool.and_eq_true, Bool.or_eq_true, beq_iff_eq, bne_iff_ne]
  split_ifs with hleap
  · omega
  · omega

/-- The quotient that `yearOfDay` starts from is at most one year off. -/
theorem daysBeforeYear_guess (days : Int) :
    daysBeforeYear (days * 400 / 146097) ≤ days ∧
      days < daysBeforeYear (days * 400 / 146097 + 3) := by
  -- There are 146097 days in 400 years, and in any number of years as many, give or take two.
  simp only [daysBeforeYear]
  omega

/-- A day lies in the year that is found for it. -/
theorem yearOfDay_bounds (days : Int) :
    daysBeforeYear (yearOfDay days) ≤ days ∧ days < daysBeforeYear (yearOfDay days + 1) := by
  obtain ⟨hlow, hhigh⟩ := daysBeforeYear_guess days
  simp only [yearOfDay]
  generalize days * 400 / 146097 = quotient at hlow hhigh ⊢
  split_ifs with hbefore hafter
  · exact ⟨by simpa using hlow, by simpa using hbefore⟩
  · exact ⟨hafter, by simpa [Int.add_assoc] using hhigh⟩
  · exact ⟨Int.not_lt.1 hbefore, Int.not_le.1 hafter⟩

/-- The months before a day and the days left over make up the day, and the days left over are fewer
    than the days of the next month. -/
theorem splitMonths_spec (lengths : List Nat) (days : Nat) (hdays : days < Number.total lengths) :
    let (months, rest) := splitMonths lengths days
    days = Number.total (lengths.take months) + rest ∧ ∃ length, lengths[months]? = some length ∧
      rest < length := by
  induction lengths generalizing days with
  | nil => exact absurd hdays (Nat.not_lt_zero days)
  | cons length lengths ih =>
    rw [splitMonths]
    split_ifs with hlength
    · exact ⟨by simp, length, rfl, hlength⟩
    · rw [Number.total_cons] at hdays
      obtain ⟨hsum, next, hnext, hrest⟩ := ih (days - length) (by omega)
      refine ⟨?_, next, by simpa using hnext, hrest⟩
      simp only [List.take_succ_cons, Number.total_cons]
      omega

namespace Date

/-- Days within a year are split into its months. -/
theorem exists_ofDays (days : Int) :
    ∃ months rest length, ofDays days = ⟨yearOfDay days, months + 1, rest + 1⟩ ∧
      days = daysBeforeYear (yearOfDay days) +
        (Number.total ((monthLengths (isLeap (yearOfDay days))).take months) + rest : Nat) ∧
      (monthLengths (isLeap (yearOfDay days)))[months]? = some length ∧ rest < length := by
  obtain ⟨hlow, hhigh⟩ := yearOfDay_bounds days
  rw [daysBeforeYear_succ] at hhigh
  obtain ⟨hsum, length, hlength, hrest⟩ :=
    splitMonths_spec (monthLengths (isLeap (yearOfDay days)))
      (days - daysBeforeYear (yearOfDay days)).toNat (by omega)
  exact ⟨_, _, length, rfl, by omega, hlength, hrest⟩

/-- The date after a number of days is that many days after the start. -/
theorem toDays_ofDays (days : Int) : (ofDays days).toDays = days := by
  obtain ⟨months, rest, _, hdate, hdays, -⟩ := exists_ofDays days
  rw [hdate, toDays]
  simp only [Nat.add_sub_cancel]
  omega

theorem length_monthLengths (leap : Bool) : (monthLengths leap).length = 12 := rfl

theorem isValid_ofDays (days : Int) : (ofDays days).isValid = true := by
  obtain ⟨months, rest, length, hdate, -, hlength, hrest⟩ := exists_ofDays days
  have hmonths := (List.getElem?_eq_some_iff.1 hlength).1
  rw [length_monthLengths] at hmonths
  rw [hdate, isValid, daysIn, hlength]
  simp
  omega

end Date

end KernelReach.Time
