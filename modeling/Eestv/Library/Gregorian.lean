import Mathlib.Algebra.Ring.Int.Defs
import Mathlib.Algebra.Ring.Nat

/-! The Gregorian calendar, extended to all years. -/

namespace Gregorian

def IsLeap (year : ℤ) : Prop := 4 ∣ year ∧ (100 ∣ year → 400 ∣ year)

instance (year : ℤ) : Decidable (IsLeap year) :=
  inferInstanceAs (Decidable (4 ∣ year ∧ (100 ∣ year → 400 ∣ year)))

def monthLength (year : ℤ) (month : ℕ) : ℕ :=
  if month = 2 then if IsLeap year then 29 else 28
  else if month = 4 ∨ month = 6 ∨ month = 9 ∨ month = 11 then 30
  else 31

/-- The day exists in the month and the month in the year. -/
structure IsDate (year : ℤ) (month day : ℕ) : Prop where
  month_pos : 1 ≤ month
  month_le : month ≤ 12
  day_pos : 1 ≤ day
  day_le : day ≤ monthLength year month

theorem monthLength_le_leap (year : ℤ) {leap : ℤ} (h : IsLeap leap) (month : ℕ) :
    monthLength year month ≤ monthLength leap month := by
  unfold monthLength
  rw [if_pos h]
  split
  · split <;> decide
  · exact Nat.le_refl _

end Gregorian
