import Eestv.Library.DayNumber
import Eestv.Timestamp.ParserStep

/-! The conversion of a parsed time to a time point of the clock, a signed 64-bit count of
nanoseconds since the epoch. `timegm` counts the days of the Gregorian calendar; `mktime`, for
times without an offset, depends on the machine and is a parameter. -/

namespace Eestv
open Gregorian

structure Tm where
  tmYear : ℤ
  tmMon : ℤ
  tmMday : ℤ
  tmHour : ℤ
  tmMin : ℤ
  tmSec : ℤ
  tmIsdst : ℤ
deriving DecidableEq, Repr

/-- `static_cast<int>` of an `unsigned`. -/
def toInt (n : ℕ) : ℤ := (n : ℤ).bmod (2 ^ 32)

/-- The result of signed 64-bit arithmetic. -/
def wrap64 (n : ℤ) : ℤ := n.bmod (2 ^ 64)

/-- `timegm`: the seconds from the epoch to a time in UTC, with months that may lie outside of
the year and days outside of the month. -/
def timegm (utcTime : Tm) : ℤ :=
  let year := utcTime.tmYear + 1900 + utcTime.tmMon / 12
  let month := (utcTime.tmMon % 12).toNat + 1
  (dayNumber year month 1 + (utcTime.tmMday - 1) - dayNumber 1970 1 1) * 86400 +
    utcTime.tmHour * 3600 + utcTime.tmMin * 60 + utcTime.tmSec

def makeUtcTime (utcTime : Tm) : ℤ := timegm utcTime

namespace DateAndTime

def toTm (d : DateAndTime) : Tm where
  tmYear := d.year - 1900
  tmMon := toInt d.month - 1
  tmMday := toInt d.day
  tmHour := toInt d.hour
  tmMin := toInt d.minute
  tmSec := toInt (min d.second 59)
  tmIsdst := -1

def toTimePoint (mktime : Tm → ℤ) (d : DateAndTime) : Option ℤ :=
  let timestamp := d.toTm
  let hasTimezone := d.utcOffsetMinutes.isSome
  let epochSeconds := if hasTimezone then makeUtcTime timestamp else mktime timestamp
  if epochSeconds = -1 then none
  else
    let epochSeconds := match d.utcOffsetMinutes with
      | some minutes => wrap64 (epochSeconds - minutes * 60)
      | none => epochSeconds
    some (wrap64 (wrap64 (epochSeconds * 10 ^ 9) + d.nanosecond))

end DateAndTime

/-! ### Civil times -/

/-- The seconds from the epoch to a civil time, read as one in UTC. -/
def civilSeconds (year : ℤ) (month day hour minute second : ℕ) : ℤ :=
  (dayNumber year month day - dayNumber 1970 1 1) * 86400 + hour * 3600 + minute * 60 + second

/-- The count is 0 at the epoch and goes up by a day's seconds from each date to the next. -/
theorem civilSeconds_counts : civilSeconds 1970 1 1 0 0 0 = 0 ∧
    ∀ {year : ℤ} {month day : ℕ}, IsDate year month day → ∀ hour minute second : ℕ,
      civilSeconds (nextDate year month day).1 (nextDate year month day).2.1
        (nextDate year month day).2.2 hour minute second =
          civilSeconds year month day hour minute second + 86400 := by
  refine ⟨by decide, ?_⟩
  intro year month day h hour minute second
  have hnext := h.dayNumber_nextDate
  unfold civilSeconds
  rw [hnext]
  omega

def Fits64 (n : ℤ) : Prop := -2 ^ 63 ≤ n ∧ n < 2 ^ 63

theorem wrap64_eq {n : ℤ} (h : Fits64 n) : wrap64 n = n := by
  obtain ⟨hlow, hhigh⟩ := h
  exact Int.bmod_eq_of_le (by omega) (by omega)

theorem wrap64_nanoseconds {s : ℤ} {n : ℕ} (hlow : -9223372036 ≤ s) (hn : n ≤ 999999999)
    (hsum : Fits64 (s * 10 ^ 9 + n)) :
    wrap64 (wrap64 (wrap64 s * 10 ^ 9) + n) = s * 10 ^ 9 + n := by
  obtain ⟨hsum_low, hsum_high⟩ := hsum
  have hseconds : Fits64 s := ⟨by omega, by omega⟩
  have hmul : Fits64 (s * 10 ^ 9) := ⟨by omega, by omega⟩
  rw [wrap64_eq hseconds, wrap64_eq hmul, wrap64_eq ⟨hsum_low, hsum_high⟩]

theorem toInt_eq {n : ℕ} (h : n < 2 ^ 31) : toInt n = n :=
  Int.bmod_eq_of_le (by omega) (by omega)

namespace DateAndTime

/-- The fields that make up a civil time are in range, and the time has an offset. -/
structure Civil (d : DateAndTime) (offset : ℤ) : Prop where
  isDate : IsDate d.year d.month d.day
  hour_le : d.hour ≤ 23
  minute_le : d.minute ≤ 59
  nanosecond_le : d.nanosecond ≤ 999999999
  offset_eq : d.utcOffsetMinutes = some offset
  offset_range : -1439 ≤ offset ∧ offset ≤ 1439

def civilAt (d : DateAndTime) (second : ℕ) : ℤ :=
  civilSeconds d.year d.month d.day d.hour d.minute second

variable {d : DateAndTime} {offset : ℤ} {mktime : Tm → ℤ}

theorem Civil.timegm_eq (h : d.Civil offset) : timegm d.toTm = d.civilAt (min d.second 59) := by
  have hpos := h.isDate.month_pos
  have hle := h.isDate.month_le
  have hday : d.day ≤ 31 := by
    refine Nat.le_trans h.isDate.day_le ?_
    unfold monthLength
    split
    · split <;> decide
    · split <;> decide
  have hhour := h.hour_le
  have hminute := h.minute_le
  unfold timegm toTm
  dsimp only
  rw [toInt_eq (by omega), toInt_eq (by omega), toInt_eq (by omega), toInt_eq (by omega),
    toInt_eq (by omega)]
  have hyear : d.year - 1900 + 1900 + ((d.month : ℤ) - 1) / 12 = d.year := by omega
  have hmonth : (((d.month : ℤ) - 1) % 12).toNat + 1 = d.month := by omega
  rw [hyear, hmonth, civilAt, civilSeconds]
  unfold dayNumber
  omega

theorem Civil.toTimePoint_eq (h : d.Civil offset) (mktime : Tm → ℤ) :
    d.toTimePoint mktime =
      if d.civilAt (min d.second 59) = -1 then none
      else some (wrap64 (wrap64 (wrap64 (d.civilAt (min d.second 59) - offset * 60) * 10 ^ 9) +
        d.nanosecond)) := by
  unfold toTimePoint makeUtcTime
  rw [h.offset_eq]
  dsimp only [Option.isSome_some]
  rw [if_pos rfl, h.timegm_eq]

end DateAndTime
end Eestv
