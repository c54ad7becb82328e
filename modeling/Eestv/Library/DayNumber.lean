import Eestv.Library.Gregorian

/-! Days of the Gregorian calendar by number: consecutive dates have consecutive numbers, and
the numbers are ordered as the dates are. -/

namespace Gregorian

def daysBeforeYear (year : ℤ) : ℤ :=
  365 * (year - 1) + (year - 1) / 4 - (year - 1) / 100 + (year - 1) / 400

def yearLength (year : ℤ) : ℕ := if IsLeap year then 366 else 365

def daysBeforeMonth (year : ℤ) : ℕ → ℕ
  | 0 | 1 => 0
  | month + 2 => daysBeforeMonth year (month + 1) + monthLength year (month + 1)

/-- The number of a date; the first of January of the year 1 has number 1. -/
def dayNumber (year : ℤ) (month day : ℕ) : ℤ :=
  daysBeforeYear year + daysBeforeMonth year month + day

def nextDate (year : ℤ) (month day : ℕ) : ℤ × ℕ × ℕ :=
  if day < monthLength year month then (year, month, day + 1)
  else if month < 12 then (year, month + 1, 1)
  else (year + 1, 1, 1)

variable {year year' : ℤ} {month month' day day' : ℕ}

theorem daysBeforeYear_succ (year : ℤ) :
    daysBeforeYear (year + 1) = daysBeforeYear year + yearLength year := by
  by_cases h : IsLeap year
  · rw [yearLength, if_pos h]
    unfold daysBeforeYear
    unfold IsLeap at h
    omega
  · rw [yearLength, if_neg h]
    unfold daysBeforeYear
    unfold IsLeap at h
    omega

theorem daysBeforeYear_mono (h : year ≤ year') : daysBeforeYear year ≤ daysBeforeYear year' := by
  unfold daysBeforeYear
  omega

theorem daysBeforeMonth_succ (year : ℤ) (h : 1 ≤ month) :
    daysBeforeMonth year (month + 1) = daysBeforeMonth year month + monthLength year month := by
  obtain ⟨month, rfl⟩ := Nat.exists_eq_add_one.mpr h
  rfl

theorem daysBeforeMonth_mono (year : ℤ) (h : month ≤ month') :
    daysBeforeMonth year month ≤ daysBeforeMonth year month' := by
  induction h with
  | refl => exact Nat.le_refl _
  | @step m _ ih =>
    match m with
    | 0 => exact ih
    | m + 1 => exact Nat.le_trans ih (Nat.le_add_right _ _)

theorem daysBeforeMonth_thirteen (year : ℤ) : daysBeforeMonth year 13 = yearLength year := by
  have hfebruary : monthLength year 2 = if IsLeap year then 29 else 28 := rfl
  simp only [daysBeforeMonth, hfebruary, yearLength]
  split <;> rfl

theorem dayNumber_succ_day : dayNumber year month (day + 1) = dayNumber year month day + 1 := by
  unfold dayNumber
  omega

theorem dayNumber_succ_month (h : 1 ≤ month) :
    dayNumber year (month + 1) 1 = dayNumber year month (monthLength year month) + 1 := by
  unfold dayNumber
  rw [daysBeforeMonth_succ year h]
  omega

theorem dayNumber_succ_year : dayNumber (year + 1) 1 1 = dayNumber year 12 31 + 1 := by
  have hlen := daysBeforeMonth_thirteen year
  have hdecember : monthLength year 12 = 31 := rfl
  rw [daysBeforeMonth_succ year (by decide), hdecember] at hlen
  unfold dayNumber
  rw [daysBeforeYear_succ, ← hlen]
  simp only [daysBeforeMonth]
  omega

namespace IsDate

theorem dayNumber_nextDate (h : IsDate year month day) :
    dayNumber (nextDate year month day).1 (nextDate year month day).2.1
      (nextDate year month day).2.2 = dayNumber year month day + 1 := by
  unfold nextDate
  split
  · exact dayNumber_succ_day
  · have hlast : day = monthLength year month := Nat.le_antisymm h.day_le (Nat.not_lt.mp ‹_›)
    split
    · rw [hlast]
      exact dayNumber_succ_month h.month_pos
    · obtain rfl : month = 12 := Nat.le_antisymm h.month_le (Nat.not_lt.mp ‹_›)
      rw [hlast]
      exact dayNumber_succ_year

theorem le_end_of_month (h : IsDate year month day) :
    dayNumber year month day < dayNumber year (month + 1) 1 := by
  rw [dayNumber_succ_month h.month_pos]
  have hle := h.day_le
  unfold dayNumber
  omega

theorem le_end_of_year (h : IsDate year month day) :
    dayNumber year month day < dayNumber (year + 1) 1 1 := by
  refine Int.lt_of_lt_of_le h.le_end_of_month ?_
  have hmonth : daysBeforeMonth year (month + 1) ≤ daysBeforeMonth year 13 :=
    daysBeforeMonth_mono year (Nat.succ_le_succ h.month_le)
  rw [daysBeforeMonth_thirteen] at hmonth
  unfold dayNumber
  rw [daysBeforeYear_succ]
  simp only [daysBeforeMonth]
  omega

theorem dayNumber_first_le (h : IsDate year month day) :
    dayNumber year 1 1 ≤ dayNumber year month day := by
  have hday := h.day_pos
  unfold dayNumber
  simp only [daysBeforeMonth]
  omega

theorem dayNumber_lt_of_year_lt (h : IsDate year month day) (h' : IsDate year' month' day')
    (hlt : year < year') : dayNumber year month day < dayNumber year' month' day' := by
  have hyear : dayNumber (year + 1) 1 1 ≤ dayNumber year' 1 1 := by
    have hmono := daysBeforeYear_mono (Int.add_one_le_iff.mpr hlt)
    unfold dayNumber
    simp only [daysBeforeMonth]
    omega
  calc dayNumber year month day < dayNumber (year + 1) 1 1 := h.le_end_of_year
    _ ≤ dayNumber year' 1 1 := hyear
    _ ≤ dayNumber year' month' day' := h'.dayNumber_first_le

theorem dayNumber_lt_of_month_lt (h : IsDate year month day) (h' : IsDate year month' day')
    (hlt : month < month') : dayNumber year month day < dayNumber year month' day' := by
  have hmonth : daysBeforeMonth year (month + 1) ≤ daysBeforeMonth year month' :=
    daysBeforeMonth_mono year (Nat.succ_le_of_lt hlt)
  have hday := h'.day_pos
  refine Int.lt_of_lt_of_le h.le_end_of_month ?_
  unfold dayNumber
  omega

theorem dayNumber_injective (h : IsDate year month day) (h' : IsDate year' month' day')
    (heq : dayNumber year month day = dayNumber year' month' day') :
    year = year' ∧ month = month' ∧ day = day' := by
  obtain rfl : year = year' := by
    rcases Int.lt_trichotomy year year' with hlt | heq' | hlt
    · exact absurd heq (Int.ne_of_lt (h.dayNumber_lt_of_year_lt h' hlt))
    · exact heq'
    · exact absurd heq.symm (Int.ne_of_lt (h'.dayNumber_lt_of_year_lt h hlt))
  obtain rfl : month = month' := by
    rcases Nat.lt_trichotomy month month' with hlt | heq' | hlt
    · exact absurd heq (Int.ne_of_lt (h.dayNumber_lt_of_month_lt h' hlt))
    · exact heq'
    · exact absurd heq.symm (Int.ne_of_lt (h'.dayNumber_lt_of_month_lt h hlt))
  unfold dayNumber at heq
  exact ⟨rfl, rfl, by omega⟩

end IsDate
end Gregorian
