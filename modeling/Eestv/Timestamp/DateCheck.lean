import Eestv.Library.Gregorian
import Eestv.Timestamp.FormatSplit

/-! The date check at the end of a format lets exactly the Gregorian dates pass,
and without a year the days that some year has. -/

namespace Eestv
open Gregorian

theorem isLeapYear_iff (year : ℤ) : isLeapYear year = true ↔ IsLeap year := by
  have hdvd (n : ℤ) : year.tmod n = 0 ↔ n ∣ year := Int.dvd_iff_tmod_eq_zero.symm
  unfold isLeapYear IsLeap
  simp only [hdvd]
  split
  · simp only [true_iff]
    omega
  · split
    · simp only [Bool.false_eq_true, false_iff]
      omega
    · rw [decide_eq_true_eq]
      omega

theorem maxDayInMonth_table : ∀ month < 13, 1 ≤ month → ∀ leapYear : Bool,
    maxDayInMonth month leapYear =
      if month = 2 then if leapYear then 29 else 28
      else if month = 4 ∨ month = 6 ∨ month = 9 ∨ month = 11 then 30 else 31 := by
  decide

theorem maxDayInMonth_eq {year : ℤ} {month : ℕ} (hpos : 1 ≤ month) (hle : month ≤ 12) :
    maxDayInMonth month (isLeapYear year) = monthLength year month := by
  rw [maxDayInMonth_table month (Nat.lt_succ_of_le hle) hpos, monthLength]
  simp only [isLeapYear_iff]

def DateFits (ts : List Token) (d : DateAndTime) : Prop :=
  d.month ≠ 0 → d.day ≠ 0 → d.day ≤ maxDayInMonth d.month (!hasField ts .year || isLeapYear d.year)

theorem runSteps_dateCheck (text : StringView) (ts : List Token) (i : ℤ) (d : DateAndTime) :
    (runSteps text (dateCheck ts) i d).output = d ∧
      (runSteps text (dateCheck ts) i d).indexJump = i ∧
      ((runSteps text (dateCheck ts) i d).accepted = true ↔
        ((hasField ts .month || hasField ts .day) = true → DateFits ts d)) := by
  unfold dateCheck
  split
  · rename_i hcheck
    simp only [runSteps, makeDateValidator, hcheck, forall_const]
    by_cases hzero : d.month = 0 ∨ d.day = 0
    · rw [if_pos hzero]
      refine ⟨rfl, Int.add_zero i, iff_of_true rfl fun hm hd => absurd hzero ?_⟩
      tauto
    · rw [if_neg hzero]
      by_cases hbig : maxDayInMonth d.month (!hasField ts .year || isLeapYear d.year) = 0 ∨
          d.day > maxDayInMonth d.month (!hasField ts .year || isLeapYear d.year)
      · rw [if_pos hbig]
        refine ⟨rfl, rfl, iff_of_false Bool.false_ne_true fun hfits => ?_⟩
        have hle := hfits (by tauto) (by tauto)
        omega
      · rw [if_neg hbig]
        refine ⟨rfl, Int.add_zero i, iff_of_true rfl fun _ _ => ?_⟩
        omega
  · rename_i hcheck
    exact ⟨rfl, rfl, iff_of_true rfl fun h => absurd h hcheck⟩

end Eestv
