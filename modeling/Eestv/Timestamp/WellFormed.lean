import Eestv.Timestamp.TokenScan

/-! Whatever the format and the text, a run that accepts leaves a well-formed
result: every field is in its range, the leap second flag is the second 60, and
a month and a day make a date. -/

namespace Eestv
open Gregorian StringView

namespace DateAndTime

structure InRange (d : DateAndTime) : Prop where
  year_nonneg : 0 ≤ d.year
  year_le : d.year ≤ 9999
  month_le : d.month ≤ 12
  day_le : d.day ≤ 31
  hour_le : d.hour ≤ 23
  minute_le : d.minute ≤ 59
  nanosecond_le : d.nanosecond ≤ 999999999
  leapSecond_iff : d.leapSecond = true ↔ d.second = 60
  utcOffset_range : ∀ m, d.utcOffsetMinutes = some m → -1439 ≤ m ∧ m ≤ 1439

/-- A result that the tokens of a format can leave. -/
structure WellFormed (ts : List Token) (d : DateAndTime) : Prop extends InRange d where
  second_le : .variableSecond ∉ ts → d.second ≤ 60
  isDate : hasField ts .year = true → hasField ts .month = true → hasField ts .day = true →
    IsDate d.year d.month d.day
  isDate_some : hasField ts .month = true → hasField ts .day = true →
    ∃ year, IsDate year d.month d.day

theorem inRange_default : InRange {} :=
  ⟨by decide, by decide, by decide, by decide, by decide, by decide, by decide, by decide, nofun⟩

end DateAndTime

theorem Update.apply_inRange {d : DateAndTime} {u : Update} (hd : d.InRange) (hu : u.InRange) :
    (u.apply d).InRange := by
  cases u with
  | keep => exact hd
  | year value => exact { hd with year_nonneg := hu.1, year_le := hu.2 }
  | month value => exact { hd with month_le := hu.2 }
  | day value => exact { hd with day_le := hu.2 }
  | hour value => exact { hd with hour_le := hu }
  | minute value => exact { hd with minute_le := hu }
  | second value => exact { hd with leapSecond_iff := decide_eq_true_iff }
  | nanosecond value => exact { hd with nanosecond_le := hu }
  | utcOffset minutes =>
    refine { hd with utcOffset_range := fun m hm => ?_ }
    rw [← Option.some.inj hm]
    exact hu

structure Updates (t : Token) (u : Update) : Prop where
  field_eq : u.field = t.field
  inRange : u.InRange
  second_le : ∀ s, u = .second s → t ≠ .variableSecond → s ≤ 60

theorem readTokens_updates {ts : List Token} (hdigits : ∀ t ∈ ts, ∀ n, t = .fraction n → n ≤ 9)
    {cs : List Char} {n : ℕ} {us : List Update} (h : readTokens ts cs = some (n, us)) :
    List.Forall₂ Updates ts us := by
  induction ts generalizing cs n us with
  | nil =>
    obtain ⟨-, rfl⟩ := Prod.mk.inj (Option.some.inj h)
    exact .nil
  | cons t ts ih =>
    obtain ⟨k, m, u, vs, hread, hvs, -, rfl⟩ := readTokens_cons.mp h
    have hspec := t.read_spec (hdigits t List.mem_cons_self) hread
    exact .cons ⟨hspec.field_eq, hspec.inRange, hspec.second_le⟩
      (ih (fun t' ht' => hdigits t' (List.mem_cons_of_mem t ht')) hvs)

section Fold

variable {ts : List Token} {us : List Update} {d : DateAndTime}

theorem foldl_inRange (h : List.Forall₂ Updates ts us) (hd : d.InRange) :
    (us.foldl Update.apply d).InRange := by
  induction h generalizing d with
  | nil => exact hd
  | cons hu _ ih => exact ih (Update.apply_inRange hd hu.inRange)

theorem foldl_second_le (h : List.Forall₂ Updates ts us) (hts : .variableSecond ∉ ts)
    (hd : d.second ≤ 60) : (us.foldl Update.apply d).second ≤ 60 := by
  induction h generalizing d with
  | nil => exact hd
  | @cons t u ts us hu _ ih =>
    rw [List.mem_cons, not_or] at hts
    refine ih hts.2 ?_
    cases u with
    | second value => exact hu.second_le value rfl (Ne.symm hts.1)
    | _ => exact hd

theorem foldl_month_pos (h : List.Forall₂ Updates ts us)
    (hd : 1 ≤ d.month ∨ hasField ts .month = true) : 1 ≤ (us.foldl Update.apply d).month := by
  induction h generalizing d with
  | nil => exact hd.resolve_right (by decide)
  | @cons t u ts us hu _ ih =>
    apply ih
    rw [hasField_cons, ← hu.field_eq] at hd
    have hrange := hu.inRange
    cases u with
    | month value => exact Or.inl hrange.1
    | _ => exact hd.imp_right fun hf => hf.resolve_left nofun

theorem foldl_day_pos (h : List.Forall₂ Updates ts us)
    (hd : 1 ≤ d.day ∨ hasField ts .day = true) : 1 ≤ (us.foldl Update.apply d).day := by
  induction h generalizing d with
  | nil => exact hd.resolve_right (by decide)
  | @cons t u ts us hu _ ih =>
    apply ih
    rw [hasField_cons, ← hu.field_eq] at hd
    have hrange := hu.inRange
    cases u with
    | day value => exact Or.inl hrange.1
    | _ => exact hd.imp_right fun hf => hf.resolve_left nofun

end Fold

theorem scanTokens_updates {ts : List Token}
    (hdigits : ∀ t ∈ ts, ∀ n, t = .fraction n → n ≤ 9) (cs : List Char) :
    List.Forall₂ Updates (ts.take (scanTokens ts cs).updates.length)
      (scanTokens ts cs).updates := by
  induction ts generalizing cs with
  | nil => exact .nil
  | cons t ts ih =>
    rw [scanTokens]
    cases hread : t.read cs with
    | none => exact .nil
    | some r =>
      obtain ⟨n, u⟩ := r
      have hspec := t.read_spec (hdigits t List.mem_cons_self) hread
      have hrest := ih (fun v hv => hdigits v (List.mem_cons_of_mem t hv)) (cs.drop n)
      exact .cons ⟨hspec.field_eq, hspec.inRange, hspec.second_le⟩ hrest

/-- No run, accepting or not, takes the output out of its ranges. -/
theorem runSteps_inRange {ts : List Token} {text : StringView} {i : ℕ} {d : DateAndTime}
    (hdigits : ∀ t ∈ ts, ∀ n, t = .fraction n → n ≤ 9) (hi : i ≤ text.size) (hd : d.InRange) :
    (runSteps text (ts.map Token.step ++ dateCheck ts) i d).output.InRange := by
  have hrange := foldl_inRange (scanTokens_updates hdigits (text.suffix i)) hd
  rw [runSteps_scan hdigits (dateCheck ts) hi, Scan.result]
  split
  · rw [(runSteps_dateCheck text ts _ _).1]
    exact hrange
  · exact hrange

theorem output_of_accepted {ts : List Token} {text : StringView} {i : ℕ} {d : DateAndTime}
    (hdigits : ∀ t ∈ ts, ∀ n, t = .fraction n → n ≤ 9) (hi : i ≤ text.size)
    (h : (runSteps text (ts.map Token.step ++ dateCheck ts) i d).accepted = true) :
    ∃ us, List.Forall₂ Updates ts us ∧
      (runSteps text (ts.map Token.step ++ dateCheck ts) i d).output = us.foldl Update.apply d ∧
      ((hasField ts .month || hasField ts .day) = true →
        DateFits ts (us.foldl Update.apply d)) := by
  obtain ⟨hsome, hnone⟩ := runSteps_tokens hdigits (dateCheck ts) hi d
  cases hread : readTokens ts (text.suffix i) with
  | none =>
    rw [hnone hread] at h
    exact absurd h Bool.false_ne_true
  | some r =>
    obtain ⟨n, us⟩ := r
    obtain ⟨-, hrun⟩ := hsome n us hread
    obtain ⟨hout, -, hcheck⟩ := runSteps_dateCheck text ts ((i + n : ℕ) : ℤ)
      (us.foldl Update.apply d)
    rw [hrun] at h ⊢
    exact ⟨us, readTokens_updates hdigits hread, hout, hcheck.mp h⟩

theorem isDate_of_dateFits {ts : List Token} {us : List Update} {d : DateAndTime} {year : ℤ}
    (hups : List.Forall₂ Updates ts us) (hrange : d.InRange)
    (hfits : DateFits ts (us.foldl Update.apply d))
    (hyear : (!hasField ts .year || isLeapYear (us.foldl Update.apply d).year) = isLeapYear year)
    (hmonth : hasField ts .month = true) (hday : hasField ts .day = true) :
    IsDate year (us.foldl Update.apply d).month (us.foldl Update.apply d).day := by
  have hm := foldl_month_pos (d := d) hups (Or.inr hmonth)
  have hd := foldl_day_pos (d := d) hups (Or.inr hday)
  have hle := (foldl_inRange hups hrange).month_le
  have hfits := hfits (Nat.ne_of_gt hm) (Nat.ne_of_gt hd)
  rw [hyear, maxDayInMonth_eq hm hle] at hfits
  exact ⟨hm, hle, hd, hfits⟩

/-- A run from a default result that accepts leaves a well-formed one. -/
theorem wellFormed_of_accepted (format : List Char) (hvalid : (compileFormat format).valid = true)
    (text : StringView) (i : ℕ) (hi : i ≤ text.size)
    (haccepted : (runSteps text (compileFormat format).steps i {}).accepted = true) :
    ∃ ts, Splits format ts ∧
      (runSteps text (compileFormat format).steps i {}).output.WellFormed ts := by
  obtain ⟨ts, hts, hsteps⟩ := compileFormat_valid hvalid
  rw [hsteps] at haccepted ⊢
  obtain ⟨us, hups, hout, hfits⟩ := output_of_accepted hts.fraction_le hi haccepted
  rw [hout]
  have hdate (year : ℤ) (hyear : (!hasField ts .year ||
      isLeapYear (us.foldl Update.apply {}).year) = isLeapYear year)
      (hmonth : hasField ts .month = true) (hday : hasField ts .day = true) :
      IsDate year (us.foldl Update.apply {}).month (us.foldl Update.apply {}).day :=
    isDate_of_dateFits hups DateAndTime.inRange_default (hfits (by rw [hmonth]; rfl)) hyear hmonth
      hday
  refine ⟨ts, hts, foldl_inRange hups DateAndTime.inRange_default,
    fun hvar => foldl_second_le hups hvar (Nat.zero_le 60), fun hyear => ?_, ?_⟩
  · exact hdate _ (by rw [hyear]; rfl)
  · cases hyear : hasField ts .year with
    | true => exact fun hmonth hday => ⟨_, hdate _ (by rw [hyear]; rfl) hmonth hday⟩
    | false => exact fun hmonth hday => ⟨2000, hdate 2000 (by rw [hyear]; rfl) hmonth hday⟩

theorem wellFormed_of_accepted_leap_day :
    ∃ ts, Splits "MM-DD".toList ts ∧
      (runSteps (ofList "02-29".toList) (compileFormat "MM-DD".toList).steps (0 : ℕ) {}).output.WellFormed
        ts :=
  wellFormed_of_accepted "MM-DD".toList (by decide) (ofList "02-29".toList) 0 (by decide)
    (by decide)

end Eestv
