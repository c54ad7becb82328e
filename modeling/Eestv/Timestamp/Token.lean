import Eestv.Library.Decimal
import Eestv.Timestamp.CompileFormat

/-! The token table: how a format splits into tokens and literals, what each of
them reads from the front of a text, and which field of the result it sets. -/

namespace Eestv
open Decimal

inductive Token where
  | literal (c : Char)
  | fourDigitYear
  | twoDigitYear
  | month
  | monthName
  | day
  | paddedDay
  | hour (capital : Bool)
  | minute
  | second
  | variableSecond
  | fraction (digits : ℕ)
  | variableFraction
  | utcDesignator
  | utcOffset (withColon : Bool)
deriving DecidableEq, Repr

/-- A field of the result; the leap second flag goes with the second. -/
inductive Field where
  | year
  | month
  | day
  | hour
  | minute
  | second
  | nanosecond
  | utcOffset
deriving DecidableEq, Repr

inductive Update where
  | keep
  | year (value : ℤ)
  | month (value : ℕ)
  | day (value : ℕ)
  | hour (value : ℕ)
  | minute (value : ℕ)
  | second (value : ℕ)
  | nanosecond (value : ℕ)
  | utcOffset (minutes : ℤ)
deriving DecidableEq, Repr

def Update.apply (output : DateAndTime) : Update → DateAndTime
  | .keep => output
  | .year value => { output with year := value }
  | .month value => { output with month := value }
  | .day value => { output with day := value }
  | .hour value => { output with hour := value }
  | .minute value => { output with minute := value }
  | .second value => { output with second := value, leapSecond := value = 60 }
  | .nanosecond value => { output with nanosecond := value }
  | .utcOffset minutes => { output with utcOffsetMinutes := some minutes }

namespace Token

def text : Token → List Char
  | literal c => [c]
  | fourDigitYear => ['Y', 'Y', 'Y', 'Y']
  | twoDigitYear => ['Y', 'Y']
  | month => ['M', 'M']
  | monthName => ['M', 'M', 'M']
  | day => ['D', 'D']
  | paddedDay => ['D', '*']
  | hour capital => if capital then ['H', 'H'] else ['h', 'h']
  | minute => ['m', 'm']
  | second => ['s', 's']
  | variableSecond => ['s', '*']
  | fraction digits => List.replicate digits 'f'
  | variableFraction => ['f', '*']
  | utcDesignator => ['Z']
  | utcOffset withColon => if withColon then ['Z', 'Z', 'Z'] else ['Z', 'Z']

def field : Token → Option Field
  | literal _ => none
  | fourDigitYear | twoDigitYear => some .year
  | month | monthName => some .month
  | day | paddedDay => some .day
  | hour _ => some .hour
  | minute => some .minute
  | second | variableSecond => some .second
  | fraction _ | variableFraction => some .nanosecond
  | utcDesignator | utcOffset _ => some .utcOffset

def step : Token → DateAndTimeParserStep
  | literal c => makeSeparatorParser c
  | fourDigitYear => makeFourDigitYearParser
  | twoDigitYear => makeTwoDigitYearParser
  | month => makeTwoDigitFieldParser .month 1 12
  | monthName => makeMonthNameParser
  | day => makeTwoDigitFieldParser .day 1 31
  | paddedDay => makePaddedDayParser
  | hour _ => makeTwoDigitFieldParser .hour 0 23
  | minute => makeTwoDigitFieldParser .minute 0 59
  | second => makeSecondParser
  | variableSecond => makeVariableSecondParser
  | fraction digits => makeFractionParser digits
  | variableFraction => makeVariableFractionParser
  | utcDesignator => makeUtcDesignatorParser
  | utcOffset withColon => makeUtcOffsetParser withColon

end Token

def readDigits (n : ℕ) (cs : List Char) : Option ℕ :=
  if n ≤ cs.length ∧ Digits (cs.take n) then some (value (cs.take n)) else none

def readBetween (low high : ℕ) (cs : List Char) : Option ℕ :=
  (readDigits 2 cs).filter fun n => low ≤ n && n ≤ high

def monthNames : List (List Char) :=
  ["jan", "feb", "mar", "apr", "may", "jun", "jul", "aug", "sep", "oct", "nov", "dec"].map
    String.toList

def readMonthName (cs : List Char) : Option ℕ :=
  (monthNames.idxOf? ((cs.take 3).map Char.toLower)).map (· + 1)

def readPaddedDay (cs : List Char) : Option (ℕ × ℕ) :=
  let read : Option (ℕ × ℕ) :=
    if cs.head? = some ' ' then (readDigits 1 cs.tail).map fun day => (2, day)
    else ((readDigits 2 cs).map fun day => (2, day)).or
      ((readDigits 1 cs).map fun day => (1, day))
  read.filter fun r => 1 ≤ r.2 && r.2 ≤ 31

def readOffset (withColon : Bool) (cs : List Char) : Option ℤ :=
  let sign : Option ℤ :=
    if cs.head? = some '+' then some 1 else if cs.head? = some '-' then some (-1) else none
  if withColon ∧ cs[3]? ≠ some ':' then none
  else
    sign.bind fun sign =>
      (readBetween 0 23 (cs.drop 1)).bind fun hours : ℕ =>
        (readBetween 0 59 (cs.drop (if withColon then 4 else 3))).map fun minutes : ℕ =>
          sign * (hours * 60 + minutes)

/-- The number of characters a token reads off the front of a text, and what it
sets; `none` when the text does not begin as the token requires. -/
def Token.read : Token → List Char → Option (ℕ × Update)
  | literal c, cs => if cs.head? = some c then some (1, .keep) else none
  | fourDigitYear, cs => (readDigits 4 cs).map fun year : ℕ => (4, .year year)
  | twoDigitYear, cs => (readDigits 2 cs).map fun year : ℕ => (2, .year (2000 + year))
  | month, cs => (readBetween 1 12 cs).map fun month => (2, .month month)
  | monthName, cs => (readMonthName cs).map fun month => (3, .month month)
  | day, cs => (readBetween 1 31 cs).map fun day => (2, .day day)
  | paddedDay, cs => (readPaddedDay cs).map fun r => (r.1, .day r.2)
  | hour _, cs => (readBetween 0 23 cs).map fun hour => (2, .hour hour)
  | minute, cs => (readBetween 0 59 cs).map fun minute => (2, .minute minute)
  | second, cs => (readBetween 0 60 cs).map fun second => (2, .second second)
  | variableSecond, cs =>
    let digits := cs.takeWhile Char.isDigit
    if digits ≠ [] ∧ value digits < 2 ^ 32 then some (digits.length, .second (value digits))
    else none
  | fraction n, cs => (readDigits n cs).map fun v => (n, .nanosecond (v * 10 ^ (9 - n)))
  | variableFraction, cs =>
    let digits := cs.takeWhile Char.isDigit
    if digits ≠ [] then
      some (digits.length, .nanosecond (value (digits.take 9) * 10 ^ (9 - digits.length)))
    else none
  | utcDesignator, cs =>
    if cs.head? = some 'Z' ∨ cs.head? = some 'z' then some (1, .utcOffset 0) else none
  | utcOffset withColon, cs =>
    (readOffset withColon cs).map fun minutes => (if withColon then 6 else 5, .utcOffset minutes)

end Eestv
