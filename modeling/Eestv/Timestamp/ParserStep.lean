import Eestv.Timestamp.StringView

/-! The parser steps that timestamp formats are compiled to. `int` is `ℤ`: texts are shorter than
2^31 as the `static_cast<int>` of their size supposes, and for those of less than 2^31 - 9 characters
no index with its look-ahead leaves `int` (`CheckedRun`). The results of `unsigned` arithmetic are
reduced modulo 2^32. -/

namespace Eestv

structure DateAndTime where
  year : ℤ := 0
  month : ℕ := 0
  day : ℕ := 0
  hour : ℕ := 0
  minute : ℕ := 0
  second : ℕ := 0
  nanosecond : ℕ := 0
  utcOffsetMinutes : Option ℤ := none
  leapSecond : Bool := false
deriving DecidableEq, Repr

/-- What a step returns, and what it leaves in `index_jump` and `output`. -/
structure StepResult where
  accepted : Bool
  indexJump : ℤ
  output : DateAndTime
deriving DecidableEq, Repr

/-- A step gets the text, the index, and the values of `index_jump` and `output`. -/
abbrev DateAndTimeParserStep := StringView → ℤ → ℤ → DateAndTime → StepResult

inductive UnsignedField where
  | month
  | day
  | hour
  | minute
deriving DecidableEq, Repr

def DateAndTime.set (output : DateAndTime) (value : ℕ) : UnsignedField → DateAndTime
  | .month => { output with month := value }
  | .day => { output with day := value }
  | .hour => { output with hour := value }
  | .minute => { output with minute := value }

def maxUnsigned : ℕ := 2 ^ 32 - 1

def toUnsigned (n : ℕ) : ℕ := n % 2 ^ 32

def toLowerAscii (character : Char) : Char :=
  if character ≥ 'A' ∧ character ≤ 'Z' then
    Char.ofNat (character.toNat - 'A'.toNat + 'a'.toNat)
  else character

def isDigit (tested : Char) : Bool := tested ≥ '0' && tested ≤ '9'

def digitValue (c : Char) : ℕ := c.toNat - '0'.toNat

def tryParseTwoDigits (toParse : StringView) (index : ℤ) : Option ℕ :=
  if index < 0 ∨ index + 1 ≥ toParse.size then none
  else
    let first := toParse.data index
    let second := toParse.data (index + 1)
    if !isDigit first || !isDigit second then none
    else some (digitValue first * 10 + digitValue second)

def tryParseFourDigits (toParse : StringView) (index : ℤ) : Option ℤ :=
  if index < 0 ∨ index + 3 ≥ toParse.size then none
  else
    let first := toParse.data index
    let second := toParse.data (index + 1)
    let third := toParse.data (index + 2)
    let fourth := toParse.data (index + 3)
    if !isDigit first || !isDigit second || !isDigit third || !isDigit fourth then none
    else some (digitValue first * 1000 + digitValue second * 100 + digitValue third * 10 +
      digitValue fourth)

def makeSeparatorParser (separator : Char) : DateAndTimeParserStep :=
  fun toParse index indexJump output =>
    if index < 0 ∨ index ≥ toParse.size then ⟨false, indexJump, output⟩
    else if toParse.data index ≠ separator then ⟨false, indexJump, output⟩
    else ⟨true, 1, output⟩

def makeTwoDigitYearParser : DateAndTimeParserStep :=
  fun toParse index indexJump output =>
    match tryParseTwoDigits toParse index with
    | none => ⟨false, indexJump, output⟩
    | some year => ⟨true, 2, { output with year := 2000 + year }⟩

def makeFourDigitYearParser : DateAndTimeParserStep :=
  fun toParse index indexJump output =>
    match tryParseFourDigits toParse index with
    | none => ⟨false, indexJump, output⟩
    | some year => ⟨true, 4, { output with year := year }⟩

def makeTwoDigitFieldParser (field : UnsignedField) (minValue maxValue : ℕ) :
    DateAndTimeParserStep :=
  fun toParse index indexJump output =>
    match tryParseTwoDigits toParse index with
    | none => ⟨false, indexJump, output⟩
    | some value =>
      if value < minValue ∨ value > maxValue then ⟨false, indexJump, output⟩
      else ⟨true, 2, output.set value field⟩

def paddedDayAt (toParse : StringView) (index cursor : ℤ) : Option (ℕ × ℤ) :=
  let size := toParse.size
  if cursor ≥ size ∨ !isDigit (toParse.data cursor) then none
  else
    let day := digitValue (toParse.data cursor)
    let cursor := cursor + 1
    let spacePadded : Bool := cursor - index = 2
    if !spacePadded && cursor < size && isDigit (toParse.data cursor) then
      some (toUnsigned (day * 10 + digitValue (toParse.data cursor)), cursor + 1)
    else some (day, cursor)

/-- Accepts "DD", "D" and " D". -/
def makePaddedDayParser : DateAndTimeParserStep :=
  fun toParse index indexJump output =>
    if index < 0 ∨ index ≥ toParse.size then ⟨false, indexJump, output⟩
    else
      let cursor := if toParse.data index = ' ' then index + 1 else index
      match paddedDayAt toParse index cursor with
      | none => ⟨false, indexJump, output⟩
      | some (day, cursor) =>
        if day < 1 ∨ day > 31 then ⟨false, indexJump, output⟩
        else ⟨true, cursor - index, { output with day := day }⟩

def monthOfName (first second third : Char) : Option ℕ :=
  if first = 'j' ∧ second = 'a' ∧ third = 'n' then some 1
  else if first = 'f' ∧ second = 'e' ∧ third = 'b' then some 2
  else if first = 'm' ∧ second = 'a' ∧ third = 'r' then some 3
  else if first = 'a' ∧ second = 'p' ∧ third = 'r' then some 4
  else if first = 'm' ∧ second = 'a' ∧ third = 'y' then some 5
  else if first = 'j' ∧ second = 'u' ∧ third = 'n' then some 6
  else if first = 'j' ∧ second = 'u' ∧ third = 'l' then some 7
  else if first = 'a' ∧ second = 'u' ∧ third = 'g' then some 8
  else if first = 's' ∧ second = 'e' ∧ third = 'p' then some 9
  else if first = 'o' ∧ second = 'c' ∧ third = 't' then some 10
  else if first = 'n' ∧ second = 'o' ∧ third = 'v' then some 11
  else if first = 'd' ∧ second = 'e' ∧ third = 'c' then some 12
  else none

def makeMonthNameParser : DateAndTimeParserStep :=
  fun toParse index indexJump output =>
    if index < 0 ∨ index + 2 ≥ toParse.size then ⟨false, indexJump, output⟩
    else
      let first := toLowerAscii (toParse.data index)
      let second := toLowerAscii (toParse.data (index + 1))
      let third := toLowerAscii (toParse.data (index + 2))
      match monthOfName first second third with
      | none => ⟨false, indexJump, output⟩
      | some month => ⟨true, 3, { output with month := month }⟩

def makeSecondParser : DateAndTimeParserStep :=
  fun toParse index indexJump output =>
    match tryParseTwoDigits toParse index with
    | none => ⟨false, indexJump, output⟩
    | some second =>
      if second > 60 then ⟨false, indexJump, output⟩
      else ⟨true, 2, { output with second := second, leapSecond := second = 60 }⟩

/-- The digit loop of the `s*` step with its overflow check, for at most `fuel` rounds. -/
def variableSecondLoop (toParse : StringView) (index : ℤ) : ℕ → ℕ → ℤ → Option (ℕ × ℤ)
  | 0, second, consumed => some (second, consumed)
  | fuel + 1, second, consumed =>
    if index + consumed < toParse.size ∧ isDigit (toParse.data (index + consumed)) then
      let digit := digitValue (toParse.data (index + consumed))
      if second > (maxUnsigned - digit) / 10 then none
      else variableSecondLoop toParse index fuel (toUnsigned (second * 10 + digit)) (consumed + 1)
    else some (second, consumed)

def makeVariableSecondParser : DateAndTimeParserStep :=
  fun toParse index indexJump output =>
    if index < 0 ∨ index ≥ toParse.size ∨ !isDigit (toParse.data index) then
      ⟨false, indexJump, output⟩
    else
      match variableSecondLoop toParse index toParse.size 0 0 with
      | none => ⟨false, indexJump, output⟩
      | some (second, consumed) =>
        ⟨true, consumed, { output with second := second, leapSecond := second = 60 }⟩

/-- The digit loop of the fraction step from `digitIndex` on, `remaining` digits to go. -/
def fractionLoop (toParse : StringView) (index : ℤ) : ℕ → ℕ → ℕ → Option ℕ
  | 0, _, value => some value
  | remaining + 1, digitIndex, value =>
    let digit := toParse.data (index + digitIndex)
    if !isDigit digit then none
    else fractionLoop toParse index remaining (digitIndex + 1)
      (toUnsigned (value * 10 + digitValue digit))

def scaleLoop : ℕ → ℕ → ℕ
  | 0, value => value
  | rounds + 1, value => scaleLoop rounds (toUnsigned (value * 10))

/-- `checkedFraction` is this step with a sum that must be an `int`. -/
def makeFractionParser (digits : ℕ) : DateAndTimeParserStep :=
  fun toParse index indexJump output =>
    if index < 0 ∨ index + digits > toParse.size then ⟨false, indexJump, output⟩
    else
      match fractionLoop toParse index digits 0 0 with
      | none => ⟨false, indexJump, output⟩
      | some value => ⟨true, digits, { output with nanosecond := scaleLoop (9 - digits) value }⟩

def variableFractionLoop (toParse : StringView) (index : ℤ) : ℕ → ℕ → ℕ → ℤ → ℕ × ℕ × ℤ
  | 0, value, usedDigits, consumed => (value, usedDigits, consumed)
  | fuel + 1, value, usedDigits, consumed =>
    if index + consumed < toParse.size ∧ isDigit (toParse.data (index + consumed)) then
      if usedDigits < 9 then
        variableFractionLoop toParse index fuel
          (toUnsigned (value * 10 + digitValue (toParse.data (index + consumed))))
          (usedDigits + 1) (consumed + 1)
      else variableFractionLoop toParse index fuel value usedDigits (consumed + 1)
    else (value, usedDigits, consumed)

def makeVariableFractionParser : DateAndTimeParserStep :=
  fun toParse index indexJump output =>
    if index < 0 ∨ index ≥ toParse.size ∨ !isDigit (toParse.data index) then
      ⟨false, indexJump, output⟩
    else
      let (value, usedDigits, consumed) := variableFractionLoop toParse index toParse.size 0 0 0
      ⟨true, consumed, { output with nanosecond := scaleLoop (9 - usedDigits) value }⟩

def makeUtcDesignatorParser : DateAndTimeParserStep :=
  fun toParse index indexJump output =>
    if index < 0 ∨ index ≥ toParse.size then ⟨false, indexJump, output⟩
    else if toParse.data index ≠ 'Z' ∧ toParse.data index ≠ 'z' then ⟨false, indexJump, output⟩
    else ⟨true, 1, { output with utcOffsetMinutes := some 0 }⟩

def utcOffsetMinutes (withColon : Bool) (toParse : StringView) (index : ℤ) : Option (ℕ × ℤ) :=
  if withColon then
    if index + 3 ≥ toParse.size ∨ toParse.data (index + 3) ≠ ':' then none
    else (tryParseTwoDigits toParse (index + 4)).map fun minutes => (minutes, 6)
  else (tryParseTwoDigits toParse (index + 3)).map fun minutes => (minutes, 5)

def makeUtcOffsetParser (withColon : Bool) : DateAndTimeParserStep :=
  fun toParse index indexJump output =>
    if index < 0 ∨ index ≥ toParse.size then ⟨false, indexJump, output⟩
    else
      let sign := toParse.data index
      if sign ≠ '+' ∧ sign ≠ '-' then ⟨false, indexJump, output⟩
      else
        match tryParseTwoDigits toParse (index + 1) with
        | none => ⟨false, indexJump, output⟩
        | some hours =>
          match utcOffsetMinutes withColon toParse index with
          | none => ⟨false, indexJump, output⟩
          | some (minutes, consumed) =>
            if hours > 23 ∨ minutes > 59 then ⟨false, indexJump, output⟩
            else
              let totalMinutes : ℤ := hours * 60 + minutes
              let totalMinutes := if sign = '-' then -totalMinutes else totalMinutes
              ⟨true, consumed, { output with utcOffsetMinutes := some totalMinutes }⟩

def isLeapYear (year : ℤ) : Bool :=
  if year.tmod 400 = 0 then true
  else if year.tmod 100 = 0 then false
  else year.tmod 4 = 0

def maxDayInMonth (month : ℕ) (leapYear : Bool) : ℕ :=
  match month with
  | 1 | 3 | 5 | 7 | 8 | 10 | 12 => 31
  | 4 | 6 | 9 | 11 => 30
  | 2 => if leapYear then 29 else 28
  | _ => 0

def makeDateValidator (hasYear : Bool) : DateAndTimeParserStep :=
  fun _ _ indexJump output =>
    if output.month = 0 ∨ output.day = 0 then ⟨true, 0, output⟩
    else
      let leapYear := !hasYear || isLeapYear output.year
      let maxDay := maxDayInMonth output.month leapYear
      if maxDay = 0 ∨ output.day > maxDay then ⟨false, indexJump, output⟩
      else ⟨true, 0, output⟩

/-- The steps one after the other, each at the index that the jumps of the earlier
ones have led to; the first failing step ends the run. -/
def runSteps (toParse : StringView) : List DateAndTimeParserStep → ℤ → DateAndTime → StepResult
  | [], index, output => ⟨true, index, output⟩
  | step :: steps, index, output =>
    let r := step toParse index 0 output
    if r.accepted then runSteps toParse steps (index + r.indexJump) r.output
    else ⟨false, index, r.output⟩

end Eestv
