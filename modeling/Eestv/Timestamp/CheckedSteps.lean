import Eestv.Timestamp.TokenRun

/-! The parser steps over a text that cannot be read outside of its bounds, with indices
that cannot leave the range of `int`. Both would be undefined behaviour in the source; here
they are refused, and a step that starts inside the text meets no refusal. -/

namespace Eestv

/-- `to_parse[index]`, refused unless the character belongs to the text. -/
def StringView.readAt (s : StringView) (index : ℤ) : Option Char :=
  if 0 ≤ index ∧ index < s.size then some (s.data index) else none

/-- The sum of two values of type `int`, refused when it is none. -/
def addInt (a b : ℤ) : Option ℤ := if -2 ^ 31 ≤ a + b ∧ a + b < 2 ^ 31 then some (a + b) else none

/-! ### The steps

Every definition is the one it is named after with `readAt` for `data` and `addInt` for the
sums that make an index; the outer `none` is a refusal. -/

abbrev CheckedStep := StringView → ℤ → ℤ → DateAndTime → Option StepResult

def checkedTwoDigits (toParse : StringView) (index : ℤ) : Option (Option ℕ) :=
  if index < 0 then some none
  else
    (addInt index 1).bind fun next =>
      if next ≥ toParse.size then some none
      else
        (toParse.readAt index).bind fun first =>
          (toParse.readAt next).map fun second =>
            if !isDigit first || !isDigit second then none
            else some (digitValue first * 10 + digitValue second)

def checkedFourDigits (toParse : StringView) (index : ℤ) : Option (Option ℤ) :=
  if index < 0 then some none
  else
    (addInt index 3).bind fun last =>
      if last ≥ toParse.size then some none
      else
        (toParse.readAt index).bind fun first =>
          ((addInt index 1).bind toParse.readAt).bind fun second =>
            ((addInt index 2).bind toParse.readAt).bind fun third =>
              (toParse.readAt last).map fun fourth =>
                if !isDigit first || !isDigit second || !isDigit third || !isDigit fourth then none
                else some (digitValue first * 1000 + digitValue second * 100 +
                  digitValue third * 10 + digitValue fourth)

def checkedSeparator (separator : Char) : CheckedStep :=
  fun toParse index indexJump output =>
    if index < 0 ∨ index ≥ toParse.size then some ⟨false, indexJump, output⟩
    else
      (toParse.readAt index).map fun c =>
        if c ≠ separator then ⟨false, indexJump, output⟩ else ⟨true, 1, output⟩

def checkedTwoDigitYear : CheckedStep :=
  fun toParse index indexJump output =>
    (checkedTwoDigits toParse index).map fun year =>
      match year with
      | none => ⟨false, indexJump, output⟩
      | some year => ⟨true, 2, { output with year := 2000 + year }⟩

def checkedFourDigitYear : CheckedStep :=
  fun toParse index indexJump output =>
    (checkedFourDigits toParse index).map fun year =>
      match year with
      | none => ⟨false, indexJump, output⟩
      | some year => ⟨true, 4, { output with year := year }⟩

def checkedTwoDigitField (field : UnsignedField) (minValue maxValue : ℕ) : CheckedStep :=
  fun toParse index indexJump output =>
    (checkedTwoDigits toParse index).map fun value =>
      match value with
      | none => ⟨false, indexJump, output⟩
      | some value =>
        if value < minValue ∨ value > maxValue then ⟨false, indexJump, output⟩
        else ⟨true, 2, output.set value field⟩

def checkedPaddedDayAt (toParse : StringView) (index cursor : ℤ) : Option (Option (ℕ × ℤ)) :=
  if cursor ≥ toParse.size then some none
  else
    (toParse.readAt cursor).bind fun first =>
      if !isDigit first then some none
      else
        (addInt cursor 1).bind fun cursor =>
          (addInt cursor (-index)).bind fun consumed =>
            let spacePadded : Bool := consumed = 2
            if !spacePadded && cursor < toParse.size then
              (toParse.readAt cursor).bind fun second =>
                if isDigit second then
                  (addInt cursor 1).map fun cursor =>
                    some (toUnsigned (digitValue first * 10 + digitValue second), cursor)
                else some (some (digitValue first, cursor))
            else some (some (digitValue first, cursor))

def checkedPaddedDay : CheckedStep :=
  fun toParse index indexJump output =>
    if index < 0 ∨ index ≥ toParse.size then some ⟨false, indexJump, output⟩
    else
      ((toParse.readAt index).bind fun c =>
        if c = ' ' then addInt index 1 else some index).bind fun cursor =>
          (checkedPaddedDayAt toParse index cursor).bind fun result =>
            match result with
            | none => some ⟨false, indexJump, output⟩
            | some (day, cursor) =>
              if day < 1 ∨ day > 31 then some ⟨false, indexJump, output⟩
              else (addInt cursor (-index)).map fun consumed =>
                ⟨true, consumed, { output with day := day }⟩

def checkedMonthName : CheckedStep :=
  fun toParse index indexJump output =>
    if index < 0 then some ⟨false, indexJump, output⟩
    else
      (addInt index 2).bind fun last =>
        if last ≥ toParse.size then some ⟨false, indexJump, output⟩
        else
          (toParse.readAt index).bind fun first =>
            ((addInt index 1).bind toParse.readAt).bind fun second =>
              (toParse.readAt last).map fun third =>
                match monthOfName (toLowerAscii first) (toLowerAscii second)
                  (toLowerAscii third) with
                | none => ⟨false, indexJump, output⟩
                | some month => ⟨true, 3, { output with month := month }⟩

def checkedSecond : CheckedStep :=
  fun toParse index indexJump output =>
    (checkedTwoDigits toParse index).map fun second =>
      match second with
      | none => ⟨false, indexJump, output⟩
      | some second =>
        if second > 60 then ⟨false, indexJump, output⟩
        else ⟨true, 2, { output with second := second, leapSecond := second = 60 }⟩

def checkedVariableSecondLoop (toParse : StringView) (index : ℤ) :
    ℕ → ℕ → ℤ → Option (Option (ℕ × ℤ))
  | 0, _, _ => none
  | fuel + 1, second, consumed =>
    (addInt index consumed).bind fun position =>
      if position < toParse.size then
        (toParse.readAt position).bind fun c =>
          if isDigit c then
            if second > (maxUnsigned - digitValue c) / 10 then some none
            else (addInt consumed 1).bind fun consumed =>
              checkedVariableSecondLoop toParse index fuel
                (toUnsigned (second * 10 + digitValue c)) consumed
          else some (some (second, consumed))
      else some (some (second, consumed))

def checkedVariableSecond : CheckedStep :=
  fun toParse index indexJump output =>
    if index < 0 ∨ index ≥ toParse.size then some ⟨false, indexJump, output⟩
    else
      (toParse.readAt index).bind fun c =>
        if !isDigit c then some ⟨false, indexJump, output⟩
        else
          (checkedVariableSecondLoop toParse index (toParse.size + 1) 0 0).map fun result =>
            match result with
            | none => ⟨false, indexJump, output⟩
            | some (second, consumed) =>
              ⟨true, consumed, { output with second := second, leapSecond := second = 60 }⟩

def checkedFractionLoop (toParse : StringView) (index : ℤ) : ℕ → ℕ → ℕ → Option (Option ℕ)
  | 0, _, value => some (some value)
  | remaining + 1, digitIndex, value =>
    ((addInt index digitIndex).bind toParse.readAt).bind fun digit =>
      if !isDigit digit then some none
      else checkedFractionLoop toParse index remaining (digitIndex + 1)
        (toUnsigned (value * 10 + digitValue digit))

def checkedFraction (digits : ℕ) : CheckedStep :=
  fun toParse index indexJump output =>
    if index < 0 then some ⟨false, indexJump, output⟩
    else
      (addInt index digits).bind fun last =>
        if last > toParse.size then some ⟨false, indexJump, output⟩
        else
          (checkedFractionLoop toParse index digits 0 0).map fun result =>
            match result with
            | none => ⟨false, indexJump, output⟩
            | some value =>
              ⟨true, digits, { output with nanosecond := scaleLoop (9 - digits) value }⟩

def checkedVariableFractionLoop (toParse : StringView) (index : ℤ) :
    ℕ → ℕ → ℕ → ℤ → Option (ℕ × ℕ × ℤ)
  | 0, _, _, _ => none
  | fuel + 1, value, usedDigits, consumed =>
    (addInt index consumed).bind fun position =>
      if position < toParse.size then
        (toParse.readAt position).bind fun c =>
          if isDigit c then
            (addInt consumed 1).bind fun next =>
              if usedDigits < 9 then
                checkedVariableFractionLoop toParse index fuel
                  (toUnsigned (value * 10 + digitValue c)) (usedDigits + 1) next
              else checkedVariableFractionLoop toParse index fuel value usedDigits next
          else some (value, usedDigits, consumed)
      else some (value, usedDigits, consumed)

def checkedVariableFraction : CheckedStep :=
  fun toParse index indexJump output =>
    if index < 0 ∨ index ≥ toParse.size then some ⟨false, indexJump, output⟩
    else
      (toParse.readAt index).bind fun c =>
        if !isDigit c then some ⟨false, indexJump, output⟩
        else
          (checkedVariableFractionLoop toParse index (toParse.size + 1) 0 0 0).map
            fun (value, usedDigits, consumed) =>
              ⟨true, consumed, { output with nanosecond := scaleLoop (9 - usedDigits) value }⟩

def checkedUtcDesignator : CheckedStep :=
  fun toParse index indexJump output =>
    if index < 0 ∨ index ≥ toParse.size then some ⟨false, indexJump, output⟩
    else
      (toParse.readAt index).map fun c =>
        if c ≠ 'Z' ∧ c ≠ 'z' then ⟨false, indexJump, output⟩
        else ⟨true, 1, { output with utcOffsetMinutes := some 0 }⟩

def checkedUtcOffsetMinutes (withColon : Bool) (toParse : StringView) (index : ℤ) :
    Option (Option (ℕ × ℤ)) :=
  if withColon then
    (addInt index 3).bind fun colon =>
      if colon ≥ toParse.size then some none
      else
        (toParse.readAt colon).bind fun c =>
          if c ≠ ':' then some none
          else ((addInt index 4).bind (checkedTwoDigits toParse)).map fun result =>
            result.map fun minutes => (minutes, 6)
  else
    ((addInt index 3).bind (checkedTwoDigits toParse)).map fun result =>
      result.map fun minutes => (minutes, 5)

def checkedUtcOffset (withColon : Bool) : CheckedStep :=
  fun toParse index indexJump output =>
    if index < 0 ∨ index ≥ toParse.size then some ⟨false, indexJump, output⟩
    else
      (toParse.readAt index).bind fun sign =>
        if sign ≠ '+' ∧ sign ≠ '-' then some ⟨false, indexJump, output⟩
        else
          ((addInt index 1).bind (checkedTwoDigits toParse)).bind fun result =>
            match result with
            | none => some ⟨false, indexJump, output⟩
            | some hours =>
              (checkedUtcOffsetMinutes withColon toParse index).map fun result =>
                match result with
                | none => ⟨false, indexJump, output⟩
                | some (minutes, consumed) =>
                  if hours > 23 ∨ minutes > 59 then ⟨false, indexJump, output⟩
                  else
                    let totalMinutes : ℤ := hours * 60 + minutes
                    let totalMinutes := if sign = '-' then -totalMinutes else totalMinutes
                    ⟨true, consumed, { output with utcOffsetMinutes := some totalMinutes }⟩

def checkedDateValidator (hasYear : Bool) : CheckedStep :=
  fun toParse index indexJump output =>
    some (makeDateValidator hasYear toParse index indexJump output)

def Token.checkedStep : Token → CheckedStep
  | literal c => checkedSeparator c
  | fourDigitYear => checkedFourDigitYear
  | twoDigitYear => checkedTwoDigitYear
  | month => checkedTwoDigitField .month 1 12
  | monthName => checkedMonthName
  | day => checkedTwoDigitField .day 1 31
  | paddedDay => checkedPaddedDay
  | hour _ => checkedTwoDigitField .hour 0 23
  | minute => checkedTwoDigitField .minute 0 59
  | second => checkedSecond
  | variableSecond => checkedVariableSecond
  | fraction digits => checkedFraction digits
  | variableFraction => checkedVariableFraction
  | utcDesignator => checkedUtcDesignator
  | utcOffset withColon => checkedUtcOffset withColon

def checkedDateCheck (ts : List Token) : List CheckedStep :=
  if hasField ts .month || hasField ts .day then [checkedDateValidator (hasField ts .year)] else []

/-- `runSteps` over checked steps; the jump to the next index is a sum of `int` too. -/
def checkedRun (toParse : StringView) :
    List CheckedStep → ℤ → DateAndTime → Option StepResult
  | [], index, output => some ⟨true, index, output⟩
  | step :: steps, index, output =>
    (step toParse index 0 output).bind fun r =>
      if r.accepted then
        (addInt index r.indexJump).bind fun index => checkedRun toParse steps index r.output
      else some ⟨false, index, r.output⟩

/-! ### No refusal -/

structure InText (text : StringView) (index : ℤ) : Prop where
  nonneg : 0 ≤ index
  le_size : index ≤ text.size
  room : (text.size : ℤ) + 8 < 2 ^ 31

variable {text : StringView} {index : ℤ}

theorem readAt_eq (h0 : 0 ≤ index) (h : index < text.size) :
    text.readAt index = some (text.data index) := if_pos ⟨h0, h⟩

theorem addInt_eq {a b : ℤ} (hlow : 0 ≤ a + b) (hhigh : a + b < 2 ^ 31) :
    addInt a b = some (a + b) := if_pos ⟨by omega, hhigh⟩

theorem addInt_readAt {a b : ℤ} (h0 : 0 ≤ a + b) (h : a + b < text.size)
    (hsize : (text.size : ℤ) < 2 ^ 31) :
    (addInt a b).bind text.readAt = some (text.data (a + b)) := by
  rw [addInt_eq h0 (Int.lt_trans h hsize), Option.bind_some, readAt_eq h0 h]

theorem checkedTwoDigits_eq (h0 : 0 ≤ index) (hroom : index + 1 < 2 ^ 31) :
    checkedTwoDigits text index = some (tryParseTwoDigits text index) := by
  rw [checkedTwoDigits, tryParseTwoDigits, if_neg (Int.not_lt.mpr h0),
    addInt_eq (by omega) hroom, Option.bind_some]
  by_cases hend : index + 1 ≥ text.size
  · rw [if_pos hend, if_pos (Or.inr hend)]
  · rw [if_neg hend, if_neg (by omega), readAt_eq h0 (by omega), Option.bind_some,
      readAt_eq (by omega) (by omega), Option.map_some]

theorem checkedFourDigits_eq (h : InText text index) :
    checkedFourDigits text index = some (tryParseFourDigits text index) := by
  obtain ⟨h0, hle, hroom⟩ := h
  rw [checkedFourDigits, tryParseFourDigits, if_neg (Int.not_lt.mpr h0),
    addInt_eq (by omega) (by omega), Option.bind_some]
  by_cases hend : index + 3 ≥ text.size
  · rw [if_pos hend, if_pos (Or.inr hend)]
  · rw [if_neg hend, if_neg (by omega), readAt_eq h0 (by omega), Option.bind_some,
      addInt_readAt (by omega) (by omega) (by omega), Option.bind_some,
      addInt_readAt (by omega) (by omega) (by omega), Option.bind_some,
      readAt_eq (by omega) (by omega), Option.map_some]

theorem checkedSeparator_eq (h : InText text index) (c : Char) (j : ℤ) (output : DateAndTime) :
    checkedSeparator c text index j output = some (makeSeparatorParser c text index j output) := by
  rw [checkedSeparator, makeSeparatorParser]
  split
  · rfl
  · rw [readAt_eq h.nonneg (by omega), Option.map_some]

theorem checkedUtcDesignator_eq (h : InText text index) (j : ℤ) (output : DateAndTime) :
    checkedUtcDesignator text index j output =
      some (makeUtcDesignatorParser text index j output) := by
  rw [checkedUtcDesignator, makeUtcDesignatorParser]
  split
  · rfl
  · rw [readAt_eq h.nonneg (by omega), Option.map_some]

theorem InText.twoDigits_eq (h : InText text index) {k : ℤ} (h0 : 0 ≤ k) (hk : k ≤ 4) :
    (addInt index k).bind (checkedTwoDigits text) = some (tryParseTwoDigits text (index + k)) := by
  obtain ⟨hpos, hle, hroom⟩ := h
  rw [addInt_eq (by omega) (by omega), Option.bind_some, checkedTwoDigits_eq (by omega) (by omega)]

theorem InText.checkedTwoDigits_eq (h : InText text index) :
    checkedTwoDigits text index = some (tryParseTwoDigits text index) := by
  obtain ⟨hpos, hle, hroom⟩ := h
  exact Eestv.checkedTwoDigits_eq hpos (by omega)

theorem checkedPaddedDayAt_eq (h : InText text index) {cursor : ℤ}
    (hcursor : cursor = index ∨ cursor = index + 1) :
    checkedPaddedDayAt text index cursor = some (paddedDayAt text index cursor) := by
  obtain ⟨h0, hle, hroom⟩ := h
  rw [checkedPaddedDayAt, paddedDayAt]
  by_cases hend : cursor ≥ text.size
  · rw [if_pos hend, if_pos (Or.inl hend)]
  · rw [if_neg hend, readAt_eq (by omega) (by omega), Option.bind_some]
    cases hd : isDigit (text.data cursor) with
    | false => simp only [Bool.not_false, if_true, or_true]
    | true =>
      rw [addInt_eq (by omega) (by omega), Option.bind_some, addInt_eq (by omega) (by omega),
        Option.bind_some, ← Int.sub_eq_add_neg]
      by_cases hmore : (!decide (cursor + 1 - index = 2) && decide (cursor + 1 < text.size)) = true
      · have hnext : cursor + 1 < text.size := by
          simp only [Bool.and_eq_true, decide_eq_true_eq] at hmore
          exact hmore.2
        rw [readAt_eq (by omega) hnext, addInt_eq (by omega) (by omega)]
        simp only [Bool.not_true, Bool.false_eq_true, if_false, or_false, hend, hmore, if_true,
          Bool.true_and, Option.bind_some, Option.map_some]
        split <;> rfl
      · simp only [Bool.not_true, Bool.false_eq_true, if_false, or_false, hend, hmore,
          Bool.false_and]

theorem paddedDayAt_cursor {cursor next : ℤ} {day : ℕ}
    (h : paddedDayAt text index cursor = some (day, next)) :
    next = cursor + 1 ∨ next = cursor + 2 := by
  unfold paddedDayAt at h
  dsimp only at h
  split at h
  · contradiction
  · split at h
    · have hnext := congrArg Prod.snd (Option.some.inj h)
      dsimp only at hnext
      omega
    · have hnext := congrArg Prod.snd (Option.some.inj h)
      dsimp only at hnext
      omega

theorem checkedPaddedDay_eq (h : InText text index) (j : ℤ) (output : DateAndTime) :
    checkedPaddedDay text index j output = some (makePaddedDayParser text index j output) := by
  have hpos := h.nonneg
  have hle := h.le_size
  have hroom := h.room
  rw [checkedPaddedDay, makePaddedDayParser]
  by_cases hout : index < 0 ∨ index ≥ text.size
  · rw [if_pos hout, if_pos hout]
  · have hcursor : ((text.readAt index).bind fun c =>
        if c = ' ' then addInt index 1 else some index) =
          some (if text.data index = ' ' then index + 1 else index) := by
      rw [readAt_eq hpos (by omega), Option.bind_some, addInt_eq (by omega) (by omega)]
      split <;> rfl
    have hplace : (if text.data index = ' ' then index + 1 else index) = index ∨
        (if text.data index = ' ' then index + 1 else index) = index + 1 := by
      split
      · exact Or.inr rfl
      · exact Or.inl rfl
    rw [if_neg hout, if_neg hout, hcursor, Option.bind_some]
    generalize (if text.data index = ' ' then index + 1 else index) = cursor at hplace
    rw [checkedPaddedDayAt_eq h hplace, Option.bind_some]
    dsimp only
    cases hday : paddedDayAt text index cursor with
    | none => rfl
    | some result =>
      obtain ⟨day, next⟩ := result
      have hnext := paddedDayAt_cursor hday
      dsimp only
      split
      · rfl
      · rw [addInt_eq (by omega) (by omega), Option.map_some]
        rfl

theorem checkedMonthName_eq (h : InText text index) (j : ℤ) (output : DateAndTime) :
    checkedMonthName text index j output = some (makeMonthNameParser text index j output) := by
  obtain ⟨h0, hle, hroom⟩ := h
  rw [checkedMonthName, makeMonthNameParser, if_neg (Int.not_lt.mpr h0),
    addInt_eq (by omega) (by omega), Option.bind_some]
  by_cases hend : index + 2 ≥ text.size
  · rw [if_pos hend, if_pos (Or.inr hend)]
  · rw [if_neg hend, if_neg (by omega), readAt_eq h0 (by omega), Option.bind_some,
      addInt_readAt (by omega) (by omega) (by omega), Option.bind_some,
      readAt_eq (by omega) (by omega)]
    rfl

/-! ### The digit loops -/

theorem checkedVariableSecondLoop_eq {consumed : ℤ} {fuel second : ℕ} (h0 : 0 ≤ index)
    (hpos : 0 ≤ consumed) (hle : index + consumed ≤ text.size) (hroom : (text.size : ℤ) < 2 ^ 31)
    (hfuel : (text.size : ℤ) ≤ index + consumed + fuel) :
    checkedVariableSecondLoop text index (fuel + 1) second consumed =
      some (variableSecondLoop text index fuel second consumed) := by
  induction fuel generalizing consumed second with
  | zero =>
    rw [checkedVariableSecondLoop, variableSecondLoop, addInt_eq (by omega) (by omega),
      Option.bind_some, if_neg (by omega)]
  | succ fuel ih =>
    rw [checkedVariableSecondLoop, variableSecondLoop, addInt_eq (by omega) (by omega),
      Option.bind_some]
    by_cases hend : index + consumed < text.size
    · rw [if_pos hend, readAt_eq (by omega) hend, Option.bind_some]
      by_cases hd : isDigit (text.data (index + consumed)) = true
      · have hboth : index + consumed < text.size ∧ isDigit (text.data (index + consumed)) = true :=
          ⟨hend, hd⟩
        rw [if_pos hd, if_pos hboth]
        dsimp only
        split
        · rfl
        · rw [addInt_eq (by omega) (by omega), Option.bind_some]
          exact ih (by omega) (by omega) (by omega)
      · rw [if_neg hd, if_neg fun hboth => hd hboth.2]
    · rw [if_neg hend, if_neg fun hboth => hend hboth.1]

theorem checkedVariableFractionLoop_eq {consumed : ℤ} {fuel value used : ℕ} (h0 : 0 ≤ index)
    (hpos : 0 ≤ consumed) (hle : index + consumed ≤ text.size) (hroom : (text.size : ℤ) < 2 ^ 31)
    (hfuel : (text.size : ℤ) ≤ index + consumed + fuel) :
    checkedVariableFractionLoop text index (fuel + 1) value used consumed =
      some (variableFractionLoop text index fuel value used consumed) := by
  induction fuel generalizing consumed value used with
  | zero =>
    rw [checkedVariableFractionLoop, variableFractionLoop, addInt_eq (by omega) (by omega),
      Option.bind_some, if_neg (by omega)]
  | succ fuel ih =>
    rw [checkedVariableFractionLoop, variableFractionLoop, addInt_eq (by omega) (by omega),
      Option.bind_some]
    by_cases hend : index + consumed < text.size
    · rw [if_pos hend, readAt_eq (by omega) hend, Option.bind_some]
      by_cases hd : isDigit (text.data (index + consumed)) = true
      · rw [if_pos hd, if_pos ⟨hend, hd⟩, addInt_eq (by omega) (by omega), Option.bind_some]
        split
        · exact ih (by omega) (by omega) (by omega)
        · exact ih (by omega) (by omega) (by omega)
      · rw [if_neg hd, if_neg fun hboth => hd hboth.2]
    · rw [if_neg hend, if_neg fun hboth => hend hboth.1]

theorem checkedFractionLoop_eq {n k value : ℕ} (h0 : 0 ≤ index)
    (hle : index + k + n ≤ text.size) (hroom : (text.size : ℤ) < 2 ^ 31) :
    checkedFractionLoop text index n k value = some (fractionLoop text index n k value) := by
  induction n generalizing k value with
  | zero => rfl
  | succ n ih =>
    rw [checkedFractionLoop, fractionLoop, addInt_readAt (by omega) (by omega) hroom,
      Option.bind_some]
    split
    · rfl
    · exact ih (by omega)

theorem firstDigit_guard (h0 : 0 ≤ index) (refused run : Option StepResult) :
    (if index < 0 ∨ index ≥ text.size then refused
      else (text.readAt index).bind fun c => if !isDigit c then refused else run) =
    if index < 0 ∨ index ≥ text.size ∨ !isDigit (text.data index) then refused else run := by
  by_cases hout : index < 0 ∨ index ≥ text.size
  · rw [if_pos hout, if_pos (hout.imp_right Or.inl)]
  · rw [if_neg hout, readAt_eq h0 (by omega), Option.bind_some]
    simp only [← or_assoc, hout, false_or]

theorem checkedVariableSecond_eq (h0 : 0 ≤ index) (hsize : (text.size : ℤ) < 2 ^ 31) (j : ℤ)
    (output : DateAndTime) :
    checkedVariableSecond text index j output =
      some (makeVariableSecondParser text index j output) := by
  rw [checkedVariableSecond, firstDigit_guard h0, makeVariableSecondParser]
  split
  · rfl
  · rw [checkedVariableSecondLoop_eq h0 (Int.le_refl 0) (by omega) hsize (by omega)]
    rfl

theorem checkedVariableFraction_eq (h0 : 0 ≤ index) (hsize : (text.size : ℤ) < 2 ^ 31) (j : ℤ)
    (output : DateAndTime) :
    checkedVariableFraction text index j output =
      some (makeVariableFractionParser text index j output) := by
  rw [checkedVariableFraction, firstDigit_guard h0, makeVariableFractionParser]
  split
  · rfl
  · rw [checkedVariableFractionLoop_eq h0 (Int.le_refl 0) (by omega) hsize (by omega)]
    rfl

theorem checkedFraction_eq {digits : ℕ} (h0 : 0 ≤ index) (hsize : (text.size : ℤ) < 2 ^ 31)
    (hdigits : index + digits < 2 ^ 31) (j : ℤ) (output : DateAndTime) :
    checkedFraction digits text index j output =
      some (makeFractionParser digits text index j output) := by
  rw [checkedFraction, makeFractionParser, if_neg (Int.not_lt.mpr h0),
    addInt_eq (by omega) hdigits, Option.bind_some]
  by_cases hend : index + digits > text.size
  · rw [if_pos hend, if_pos (Or.inr hend)]
  · rw [if_neg hend, if_neg (by omega), checkedFractionLoop_eq h0 (by omega) hsize]
    rfl

/-! ### UTC offsets -/

theorem checkedUtcOffsetMinutes_eq (h : InText text index) (withColon : Bool) :
    checkedUtcOffsetMinutes withColon text index =
      some (utcOffsetMinutes withColon text index) := by
  have hthree := h.twoDigits_eq (by decide) (by decide : (3 : ℤ) ≤ 4)
  have hfour := h.twoDigits_eq (by decide) (Int.le_refl 4)
  obtain ⟨h0, hle, hroom⟩ := h
  rw [checkedUtcOffsetMinutes, utcOffsetMinutes, hthree, hfour]
  cases withColon with
  | false => simp only [Bool.false_eq_true, if_false, Option.map_some]
  | true =>
    rw [if_pos rfl, if_pos rfl, addInt_eq (by omega) (by omega), Option.bind_some]
    by_cases hend : index + 3 ≥ text.size
    · rw [if_pos hend, if_pos (Or.inl hend)]
    · rw [if_neg hend, readAt_eq (by omega) (by omega), Option.bind_some]
      by_cases hcolon : text.data (index + 3) ≠ ':'
      · rw [if_pos hcolon, if_pos (Or.inr hcolon)]
      · rw [if_neg hcolon, if_neg (not_or.mpr ⟨hend, hcolon⟩), Option.map_some]

theorem checkedUtcOffset_eq (h : InText text index) (withColon : Bool) (j : ℤ)
    (output : DateAndTime) :
    checkedUtcOffset withColon text index j output =
      some (makeUtcOffsetParser withColon text index j output) := by
  have hone := h.twoDigits_eq (by decide) (by decide : (1 : ℤ) ≤ 4)
  have hminutes := checkedUtcOffsetMinutes_eq h withColon
  obtain ⟨h0, hle, hroom⟩ := h
  rw [checkedUtcOffset, makeUtcOffsetParser]
  by_cases hout : index < 0 ∨ index ≥ text.size
  · rw [if_pos hout, if_pos hout]
  · rw [if_neg hout, if_neg hout, readAt_eq h0 (by omega), Option.bind_some]
    by_cases hs : text.data index ≠ '+' ∧ text.data index ≠ '-'
    · rw [if_pos hs]
      exact congrArg some (if_pos hs).symm
    · rw [if_neg hs, hone, Option.bind_some, hminutes]
      dsimp only
      rw [if_neg hs]
      cases tryParseTwoDigits text (index + 1) with
      | none => rfl
      | some hours => rfl

/-! ### Every step -/

theorem Token.checkedStep_eq {t : Token}
    (hdigits : ∀ n, t = .fraction n → (text.size : ℤ) + n < 2 ^ 31) (h : InText text index)
    (j : ℤ) (output : DateAndTime) :
    t.checkedStep text index j output = some (t.step text index j output) := by
  have h0 := h.nonneg
  have hle := h.le_size
  have hroom := h.room
  have hsize : (text.size : ℤ) < 2 ^ 31 := by omega
  cases t with
  | literal c => exact checkedSeparator_eq h c j output
  | paddedDay => exact checkedPaddedDay_eq h j output
  | monthName => exact checkedMonthName_eq h j output
  | variableSecond => exact checkedVariableSecond_eq h0 hsize j output
  | fraction digits =>
    have hfit := hdigits digits rfl
    exact checkedFraction_eq h0 hsize (by omega) j output
  | variableFraction => exact checkedVariableFraction_eq h0 hsize j output
  | utcDesignator => exact checkedUtcDesignator_eq h j output
  | utcOffset withColon => exact checkedUtcOffset_eq h withColon j output
  | fourDigitYear =>
    rw [Token.checkedStep, checkedFourDigitYear, checkedFourDigits_eq h, Option.map_some]
    rfl
  | _ =>
    simp only [Token.checkedStep, checkedTwoDigitYear, checkedTwoDigitField, checkedSecond,
      h.checkedTwoDigits_eq, Option.map_some]
    rfl

theorem Token.step_of_neg (t : Token) (hneg : index < 0) (j : ℤ) (output : DateAndTime) :
    t.checkedStep text index j output = some ⟨false, j, output⟩ ∧
      t.step text index j output = ⟨false, j, output⟩ := by
  have hout : index < 0 ∨ index ≥ text.size := Or.inl hneg
  have htwo : checkedTwoDigits text index = some none ∧ tryParseTwoDigits text index = none :=
    ⟨if_pos hneg, if_pos (Or.inl hneg)⟩
  have hfour : checkedFourDigits text index = some none ∧ tryParseFourDigits text index = none :=
    ⟨if_pos hneg, if_pos (Or.inl hneg)⟩
  cases t with
  | literal c => exact ⟨if_pos hout, if_pos hout⟩
  | fourDigitYear =>
    simp only [checkedStep, checkedFourDigitYear, step, makeFourDigitYearParser, hfour,
      Option.map_some, and_self]
  | paddedDay => exact ⟨if_pos hout, if_pos hout⟩
  | monthName => exact ⟨if_pos hneg, if_pos (Or.inl hneg)⟩
  | variableSecond => exact ⟨if_pos hout, if_pos (Or.inl hneg)⟩
  | fraction digits => exact ⟨if_pos hneg, if_pos (Or.inl hneg)⟩
  | variableFraction => exact ⟨if_pos hout, if_pos (Or.inl hneg)⟩
  | utcDesignator => exact ⟨if_pos hout, if_pos hout⟩
  | utcOffset withColon => exact ⟨if_pos hout, if_pos hout⟩
  | _ =>
    simp only [checkedStep, checkedTwoDigitYear, checkedTwoDigitField, checkedSecond, step,
      makeTwoDigitYearParser, makeTwoDigitFieldParser, makeSecondParser, htwo, Option.map_some,
      and_self]

end Eestv
