import Eestv.Timestamp.Matchable
import Eestv.Timestamp.TimePoint
import Eestv.Timestamp.WellFormed

/-! The instants that parsed times are converted to: which of them the clock can hold, which
seconds are lost, and at which civil time the conversion takes its result for an error. -/

namespace Eestv
open Gregorian StringView

/-! ### Times that a run leaves -/

theorem Update.apply_offset {u : Update} {d : DateAndTime}
    (h : d.utcOffsetMinutes.isSome = true ∨ u.field = some .utcOffset) :
    (u.apply d).utcOffsetMinutes.isSome = true := by
  cases u with
  | utcOffset minutes => rfl
  | _ => exact h.resolve_right (by rintro ⟨⟩)

theorem foldl_offset {ts : List Token} {us : List Update} {d : DateAndTime}
    (h : List.Forall₂ Updates ts us)
    (hd : d.utcOffsetMinutes.isSome = true ∨ hasField ts .utcOffset = true) :
    (us.foldl Update.apply d).utcOffsetMinutes.isSome = true := by
  induction h generalizing d with
  | nil => exact hd.resolve_right (by decide)
  | cons hu _ ih =>
    rw [hasField_cons, ← or_assoc, ← hu.field_eq] at hd
    exact ih (hd.imp_left Update.apply_offset)

/-- The format names a year, a month, a day and an offset. -/
structure NamesInstant (ts : List Token) : Prop where
  year : hasField ts .year = true
  month : hasField ts .month = true
  day : hasField ts .day = true
  utcOffset : hasField ts .utcOffset = true

theorem civil_of_accepted {format : List Char} {ts : List Token} (hts : Splits format ts)
    (hnames : NamesInstant ts) {text : StringView} {i : ℤ} {output : DateAndTime}
    (hout : output.InRange)
    (h : (runSteps text (ts.map Token.step ++ dateCheck ts) i output).accepted = true) :
    ∃ offset, (runSteps text (ts.map Token.step ++ dateCheck ts) i output).output.Civil
      offset := by
  have hne : ts ≠ [] := by
    rintro rfl
    exact absurd hnames.year Bool.false_ne_true
  obtain ⟨k, rfl, hk, -⟩ := readTokens_of_accepted hts.documented hne h
  obtain ⟨us, hups, heq, hfits⟩ := output_of_accepted hts.fraction_le hk h
  have hrange := foldl_inRange hups hout
  have hdate : IsDate (us.foldl Update.apply output).year (us.foldl Update.apply output).month
      (us.foldl Update.apply output).day :=
    isDate_of_dateFits hups hout (hfits (by rw [hnames.month]; rfl)) (by rw [hnames.year]; rfl)
      hnames.month hnames.day
  obtain ⟨offset, hoffset⟩ := Option.isSome_iff_exists.mp
    (foldl_offset (d := output) hups (Or.inr hnames.utcOffset))
  rw [heq]
  exact ⟨offset, hdate, hrange.hour_le, hrange.minute_le, hrange.nanosecond_le, hoffset,
    hrange.utcOffset_range offset hoffset⟩

/-! ### Instants that fit into 64 bits -/

namespace DateAndTime

variable {d : DateAndTime} {offset : ℤ} {mktime : Tm → ℤ}

/-- Unless the conversion gives up, none of its operations leaves the 64 bits, and its result
is exact. -/
def NoOverflow (mktime : Tm → ℤ) (d : DateAndTime) (offset : ℤ) : Prop :=
  timegm d.toTm ≠ -1 →
    Fits64 (timegm d.toTm - offset * 60) ∧
    Fits64 ((timegm d.toTm - offset * 60) * 10 ^ 9) ∧
    Fits64 ((timegm d.toTm - offset * 60) * 10 ^ 9 + d.nanosecond) ∧
    d.toTimePoint mktime = some ((timegm d.toTm - offset * 60) * 10 ^ 9 + d.nanosecond)

/-- The instant lies between 1677-09-21 00:12:44 and 2262-04-11 23:47:16.854775807 UTC. -/
def Representable (d : DateAndTime) (offset : ℤ) : Prop :=
  civilSeconds 1677 9 21 0 12 44 ≤ d.civilAt (min d.second 59) - offset * 60 ∧
    (d.civilAt (min d.second 59) - offset * 60 < civilSeconds 2262 4 11 23 47 16 ∨
      d.civilAt (min d.second 59) - offset * 60 = civilSeconds 2262 4 11 23 47 16 ∧
        d.nanosecond ≤ 854775807)

theorem civilSeconds_first : civilSeconds 1677 9 21 0 12 44 = -9223372036 := by decide

theorem civilSeconds_last : civilSeconds 2262 4 11 23 47 16 = 9223372036 := by decide

theorem Civil.noOverflow_iff_representable (h : d.Civil offset) (mktime : Tm → ℤ) :
    d.NoOverflow mktime offset ↔ d.Representable offset := by
  have hnano := h.nanosecond_le
  obtain ⟨hlow, hhigh⟩ := h.offset_range
  rw [NoOverflow, Representable, h.timegm_eq, h.toTimePoint_eq, civilSeconds_first,
    civilSeconds_last]
  generalize d.civilAt (min d.second 59) = s
  constructor
  · intro hfits
    by_cases hs : s = -1
    · omega
    · obtain ⟨-, ⟨hmul, -⟩, ⟨-, hsum⟩, -⟩ := hfits hs
      omega
  · intro hrange hs
    have hsub : Fits64 (s - offset * 60) := ⟨by omega, by omega⟩
    have hmul : Fits64 ((s - offset * 60) * 10 ^ 9) := ⟨by omega, by omega⟩
    have hsum : Fits64 ((s - offset * 60) * 10 ^ 9 + d.nanosecond) := ⟨by omega, by omega⟩
    refine ⟨hsub, hmul, hsum, ?_⟩
    rw [if_neg hs, wrap64_eq hsub, wrap64_eq hmul, wrap64_eq hsum]

end DateAndTime

/-- The parsed times that are converted without overflow. -/
theorem noOverflow_iff (mktime : Tm → ℤ) (format : List Char)
    (hvalid : (compileFormat format).valid = true) :
    ∃ ts, Splits format ts ∧ (.fourDigitYear ∈ ts → NamesInstant ts →
      ∀ (text : StringView) (i : ℤ) (output : DateAndTime) (run : StepResult), output.InRange →
        runSteps text (compileFormat format).steps i output = run → run.accepted = true →
          ∃ offset, run.output.utcOffsetMinutes = some offset ∧
            (run.output.NoOverflow mktime offset ↔ run.output.Representable offset)) := by
  obtain ⟨ts, hts, hsteps⟩ := compileFormat_valid hvalid
  refine ⟨ts, hts, fun _ hnames text i output run hout hrun haccepted => ?_⟩
  rw [hsteps] at hrun
  subst hrun
  obtain ⟨offset, hcivil⟩ := civil_of_accepted hts hnames hout haccepted
  exact ⟨offset, hcivil.offset_eq, hcivil.noOverflow_iff_representable mktime⟩

theorem noOverflow_iff_leap_day :
    ({ year := 2024, month := 2, day := 29, utcOffsetMinutes := some 0 } :
      DateAndTime).NoOverflow (fun _ => 0) 0 := by
  obtain ⟨ts, hts, h⟩ := noOverflow_iff (fun _ => 0) "YYYYMMDDZ".toList (by decide)
  have hsplit : Splits "YYYYMMDDZ".toList [.fourDigitYear, .month, .day, .utcDesignator] :=
    .cons rfl (.cons rfl (.cons rfl (.cons rfl .nil)))
  obtain rfl := hts.unique hsplit
  obtain ⟨offset, hoffset, hiff⟩ := h (by decide) ⟨rfl, rfl, rfl, rfl⟩
    (ofList "20240229Z".toList) 0 {} ⟨true, 9, _⟩ DateAndTime.inRange_default rfl rfl
  obtain rfl := Option.some.inj hoffset
  exact hiff.mpr ⟨by decide, Or.inl (by decide)⟩

/-- The last day of the year 9999 is not a time point of the clock. -/
theorem noOverflow_fails :
    ¬ ∀ (mktime : Tm → ℤ) (format : List Char) (ts : List Token),
      (compileFormat format).valid = true → Splits format ts → .fourDigitYear ∈ ts →
        NamesInstant ts → ∀ (text : StringView) (run : StepResult),
          runSteps text (compileFormat format).steps 0 {} = run → run.accepted = true →
            ∀ offset, run.output.utcOffsetMinutes = some offset →
              run.output.NoOverflow mktime offset := by
  intro h
  have hsplit : Splits "YYYYMMDDZ".toList [.fourDigitYear, .month, .day, .utcDesignator] :=
    .cons rfl (.cons rfl (.cons rfl (.cons rfl .nil)))
  have hno := h (fun _ => 0) "YYYYMMDDZ".toList _ (by decide) hsplit (by decide)
    ⟨rfl, rfl, rfl, rfl⟩ (ofList "99991231Z".toList)
    ⟨true, 9, { year := 9999, month := 12, day := 31, utcOffsetMinutes := some 0 }⟩ (by decide) rfl
    0 rfl
  exact absurd (hno (by decide)).2.1.2 (by decide)

/-! ### The seconds of an instant -/

namespace DateAndTime

variable {d : DateAndTime} {offset : ℤ}

def leapAdjusted (second : ℕ) : ℕ := if second = 60 then 59 else second

/-- The nanoseconds from the epoch to the instant of the fields. -/
def instant (d : DateAndTime) (offset : ℤ) : ℤ :=
  (d.civilAt (leapAdjusted d.second) - offset * 60) * 10 ^ 9 + d.nanosecond

theorem civilAt_add (d : DateAndTime) (second k : ℕ) :
    d.civilAt (second + k) = d.civilAt second + k := by
  unfold civilAt civilSeconds
  omega

theorem Civil.le_civilAt (h : d.Civil offset) (hyear : 1678 ≤ d.year) (second : ℕ) :
    -9214560000 ≤ d.civilAt second := by
  have hfirst : dayNumber 1678 1 1 ≤ dayNumber d.year d.month d.day := by
    have hdate : IsDate 1678 1 1 := ⟨by decide, by decide, by decide, by decide⟩
    rcases Int.lt_or_eq_of_le hyear with hlt | heq
    · exact Int.le_of_lt (hdate.dayNumber_lt_of_year_lt h.isDate hlt)
    · rw [heq]
      exact h.isDate.dayNumber_first_le
  have hnumber : dayNumber 1678 1 1 - dayNumber 1970 1 1 = -106650 := by decide
  unfold civilAt civilSeconds
  omega

theorem Civil.toTimePoint_exact_iff (h : d.Civil offset) (mktime : Tm → ℤ)
    (hyear : 1678 ≤ d.year) (hcivil : d.civilAt (leapAdjusted d.second) ≠ -1)
    (hfits : Fits64 (d.instant offset)) :
    d.toTimePoint mktime = some (d.instant offset) ↔ d.second ≤ 60 := by
  have hnano := h.nanosecond_le
  obtain ⟨hlow, hhigh⟩ := h.offset_range
  have hbound := h.le_civilAt hyear (min d.second 59)
  rw [h.toTimePoint_eq]
  unfold instant at hfits ⊢
  constructor
  · intro heq
    by_contra hbig
    -- the seconds above 59 are lost
    have hadj : leapAdjusted d.second = d.second := if_neg (by omega)
    have hmin : min d.second 59 = 59 := by omega
    have hadd := d.civilAt_add 59 (d.second - 59)
    rw [show 59 + (d.second - 59) = d.second by omega] at hadd
    rw [hadj, hadd] at heq hfits
    rw [hmin] at heq hbound
    generalize d.civilAt 59 = s at heq hbound hfits
    obtain ⟨hfits_low, hfits_high⟩ := hfits
    by_cases hs : s = -1
    · rw [if_pos hs] at heq
      cases heq
    · have hsum : Fits64 ((s - offset * 60) * 10 ^ 9 + d.nanosecond) := ⟨by omega, by omega⟩
      rw [if_neg hs, wrap64_nanoseconds (by omega) hnano hsum] at heq
      have heq := Option.some.inj heq
      omega
  · intro hle
    have hadj : leapAdjusted d.second = min d.second 59 := by
      unfold leapAdjusted
      split <;> omega
    rw [hadj] at hcivil hfits ⊢
    rw [if_neg hcivil, wrap64_nanoseconds (by omega) hnano hfits]

end DateAndTime

/-- The parsed times that are converted with their second. -/
theorem toTimePoint_eq_instant_iff (mktime : Tm → ℤ) (format : List Char)
    (hvalid : (compileFormat format).valid = true) :
    ∃ ts, Splits format ts ∧ (NamesInstant ts →
      ∀ (text : StringView) (i : ℤ) (output : DateAndTime) (run : StepResult), output.InRange →
        runSteps text (compileFormat format).steps i output = run → run.accepted = true →
          ∃ offset, run.output.utcOffsetMinutes = some offset ∧
            (1678 ≤ run.output.year → run.output.year ≤ 2261 →
              run.output.civilAt (DateAndTime.leapAdjusted run.output.second) ≠ -1 →
              Fits64 (run.output.instant offset) →
              (run.output.toTimePoint mktime = some (run.output.instant offset) ↔
                run.output.second ≤ 60))) := by
  obtain ⟨ts, hts, hsteps⟩ := compileFormat_valid hvalid
  refine ⟨ts, hts, fun hnames text i output run hout hrun haccepted => ?_⟩
  rw [hsteps] at hrun
  subst hrun
  obtain ⟨offset, hcivil⟩ := civil_of_accepted hts hnames hout haccepted
  exact ⟨offset, hcivil.offset_eq, fun hyear _ => hcivil.toTimePoint_exact_iff mktime hyear⟩

theorem splits_variableSecond : Splits "YYYYMMDDs*Z".toList
    [.fourDigitYear, .month, .day, .variableSecond, .utcDesignator] :=
  .cons rfl (.cons rfl (.cons rfl (.cons rfl (.cons rfl .nil))))

theorem toTimePoint_eq_instant_iff_leap_second :
    DateAndTime.toTimePoint (fun _ => 0)
        { year := 2016, month := 12, day := 31, second := 60, leapSecond := true,
          utcOffsetMinutes := some 0 } = some 1483142459000000000 := by
  obtain ⟨ts, hts, h⟩ := toTimePoint_eq_instant_iff (fun _ => 0) "YYYYMMDDs*Z".toList (by decide)
  obtain rfl := hts.unique splits_variableSecond
  obtain ⟨offset, hoffset, hiff⟩ := h ⟨rfl, rfl, rfl, rfl⟩ (ofList "2016123160Z".toList) 0 {}
    ⟨true, 11, _⟩ DateAndTime.inRange_default rfl rfl
  obtain rfl := Option.some.inj hoffset
  exact (hiff (by decide) (by decide) (by decide) ⟨by decide, by decide⟩).mpr (by decide)

/-- The second 61 of a day is converted as its second 59. -/
theorem toTimePoint_eq_instant_fails :
    ¬ ∀ (mktime : Tm → ℤ) (format : List Char) (ts : List Token),
      (compileFormat format).valid = true → Splits format ts → NamesInstant ts →
        ∀ (text : StringView) (run : StepResult),
          runSteps text (compileFormat format).steps 0 {} = run → run.accepted = true →
            ∀ offset, run.output.utcOffsetMinutes = some offset →
              1678 ≤ run.output.year → run.output.year ≤ 2261 →
              run.output.civilAt (DateAndTime.leapAdjusted run.output.second) ≠ -1 →
              Fits64 (run.output.instant offset) →
              run.output.toTimePoint mktime = some (run.output.instant offset) := by
  intro h
  have heq := h (fun _ => 0) "YYYYMMDDs*Z".toList _ (by decide) splits_variableSecond
    ⟨rfl, rfl, rfl, rfl⟩ (ofList "2024010161Z".toList)
    ⟨true, 11, { year := 2024, month := 1, day := 1, second := 61, utcOffsetMinutes := some 0 }⟩
    (by decide) rfl 0 rfl (by decide) (by decide) (by decide) ⟨by decide, by decide⟩
  exact absurd heq (by decide)

/-! ### The time that is taken for an error -/

namespace DateAndTime

variable {a b : DateAndTime} {offset offset' : ℤ}

/-- The civil time is 1969-12-31 23:59:59. -/
def IsSentinel (d : DateAndTime) : Prop :=
  d.year = 1969 ∧ d.month = 12 ∧ d.day = 31 ∧ d.hour = 23 ∧ d.minute = 59 ∧ d.second = 59

theorem Civil.civilAt_eq_sentinel_iff (h : a.Civil offset) (hsecond : a.second ≤ 59) :
    a.civilAt a.second = -1 ↔ a.IsSentinel := by
  have hhour := h.hour_le
  have hminute := h.minute_le
  have hsentinel : IsDate 1969 12 31 := ⟨by decide, by decide, by decide, by decide⟩
  have hnumber : dayNumber 1969 12 31 - dayNumber 1970 1 1 = -1 := by decide
  unfold civilAt civilSeconds IsSentinel
  constructor
  · intro heq
    obtain ⟨hy, hm, hd⟩ := h.isDate.dayNumber_injective hsentinel (by omega)
    exact ⟨hy, hm, hd, by omega, by omega, by omega⟩
  · rintro ⟨hy, hm, hd, hhour, hminute, hsecond⟩
    rw [hy, hm, hd, hnumber, hhour, hminute, hsecond]
    rfl

def instantSeconds (d : DateAndTime) (offset : ℤ) : ℤ := d.civilAt d.second - offset * 60

theorem Civil.toTimePoint_eq_none_iff (h : a.Civil offset) (hsecond : a.second ≤ 59)
    (mktime : Tm → ℤ) : a.toTimePoint mktime = none ↔ a.IsSentinel := by
  rw [h.toTimePoint_eq, Nat.min_eq_left hsecond, ← h.civilAt_eq_sentinel_iff hsecond]
  by_cases hs : a.civilAt a.second = -1
  · rw [if_pos hs]
    exact iff_of_true rfl hs
  · rw [if_neg hs]
    exact iff_of_false (Option.some_ne_none _) hs

theorem Civil.toTimePoint_of_ne (h : a.Civil offset) (hsecond : a.second ≤ 59)
    (hs : ¬ a.IsSentinel) (mktime : Tm → ℤ) : a.toTimePoint mktime =
      some (wrap64 (wrap64 (wrap64 (a.instantSeconds offset) * 10 ^ 9) + a.nanosecond)) := by
  rw [h.toTimePoint_eq, Nat.min_eq_left hsecond,
    if_neg (mt (h.civilAt_eq_sentinel_iff hsecond).mp hs)]
  rfl

end DateAndTime

/-- Two spellings of one instant at different offsets are converted alike, and given up only at
the documented instant, exactly when none of them is taken for an error. -/
theorem toTimePoint_same_iff (mktime : Tm → ℤ) (a b : DateAndTime) (offset offset' : ℤ)
    (ha : a.Civil offset) (hb : b.Civil offset') (ha59 : a.second ≤ 59) (hb59 : b.second ≤ 59)
    (hoffset : offset ≠ offset') (hnano : a.nanosecond = b.nanosecond)
    (hinstant : a.instantSeconds offset = b.instantSeconds offset') :
    (a.toTimePoint mktime = b.toTimePoint mktime ∧
      (a.toTimePoint mktime = none ↔
        a.instantSeconds offset = civilSeconds 1969 12 31 23 59 59) ∧
      (b.toTimePoint mktime = none ↔
        b.instantSeconds offset' = civilSeconds 1969 12 31 23 59 59)) ↔
      a.instantSeconds offset ≠ civilSeconds 1969 12 31 23 59 59 ∧
        ¬ a.IsSentinel ∧ ¬ b.IsSentinel := by
  have hsentinel : civilSeconds 1969 12 31 23 59 59 = -1 := by decide
  rw [ha.toTimePoint_eq_none_iff ha59, hb.toTimePoint_eq_none_iff hb59, ← hinstant, hsentinel]
  constructor
  · rintro ⟨-, hanone, hbnone⟩
    have hne : a.instantSeconds offset ≠ -1 := by
      -- both civil times would be the sentinel, at different offsets
      intro heq
      have hac := (ha.civilAt_eq_sentinel_iff ha59).mpr (hanone.mpr heq)
      have hbc := (hb.civilAt_eq_sentinel_iff hb59).mpr (hbnone.mpr heq)
      unfold DateAndTime.instantSeconds at heq hinstant
      omega
    exact ⟨hne, fun h => hne (hanone.mp h), fun h => hne (hbnone.mp h)⟩
  · rintro ⟨hne, hanot, hbnot⟩
    refine ⟨?_, iff_of_false hanot hne, iff_of_false hbnot hne⟩
    rw [ha.toTimePoint_of_ne ha59 hanot, hb.toTimePoint_of_ne hb59 hbnot, hinstant, hnano]

theorem toTimePoint_same_iff_new_year :
    DateAndTime.toTimePoint (fun _ => 0)
        { year := 2024, month := 1, day := 1, minute := 30, utcOffsetMinutes := some 60 } =
      DateAndTime.toTimePoint (fun _ => 0)
        { year := 2023, month := 12, day := 31, hour := 23, minute := 30,
          utcOffsetMinutes := some 0 } := by
  have hiff := toTimePoint_same_iff (fun _ => 0)
    { year := 2024, month := 1, day := 1, minute := 30, utcOffsetMinutes := some 60 }
    { year := 2023, month := 12, day := 31, hour := 23, minute := 30, utcOffsetMinutes := some 0 }
    60 0
    ⟨⟨by decide, by decide, by decide, by decide⟩, by decide, by decide, by decide, rfl, by decide⟩
    ⟨⟨by decide, by decide, by decide, by decide⟩, by decide, by decide, by decide, rfl, by decide⟩
    (by decide) (by decide) (by decide) rfl (by decide)
  refine (hiff.mpr ⟨by decide, fun h => ?_, fun h => ?_⟩).1
  · exact absurd h.1 (by decide)
  · exact absurd h.1 (by decide)

/-- One second before the epoch is given up in UTC, but not an hour ahead of it. -/
theorem toTimePoint_same_fails :
    ¬ ∀ (mktime : Tm → ℤ) (a b : DateAndTime) (offset offset' : ℤ),
      a.Civil offset → b.Civil offset' → a.second ≤ 59 → b.second ≤ 59 →
        1678 ≤ a.year ∧ a.year ≤ 2261 → 1678 ≤ b.year ∧ b.year ≤ 2261 → offset ≠ offset' →
        a.nanosecond = b.nanosecond →
        a.instantSeconds offset = b.instantSeconds offset' →
          a.toTimePoint mktime = b.toTimePoint mktime ∧
            (a.toTimePoint mktime = none ↔
              a.instantSeconds offset = civilSeconds 1969 12 31 23 59 59) := by
  intro h
  have hsame := h (fun _ => 0)
    { year := 1970, month := 1, day := 1, minute := 59, second := 59, utcOffsetMinutes := some 60 }
    { year := 1969, month := 12, day := 31, hour := 23, minute := 59, second := 59,
      utcOffsetMinutes := some 0 } 60 0
    ⟨⟨by decide, by decide, by decide, by decide⟩, by decide, by decide, by decide, rfl, by decide⟩
    ⟨⟨by decide, by decide, by decide, by decide⟩, by decide, by decide, by decide, rfl, by decide⟩
    (by decide) (by decide) (by decide) (by decide) (by decide) rfl (by decide)
  exact absurd hsame.1 (by decide)

end Eestv
