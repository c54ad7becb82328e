import Eestv.Timestamp.ParserStep

/-! The compiler from format strings to parser steps. -/

namespace Eestv

structure CompiledDateAndTimeParser where
  steps : List DateAndTimeParserStep
  error : List Char

def CompiledDateAndTimeParser.valid (parser : CompiledDateAndTimeParser) : Bool :=
  parser.error.isEmpty

def makeInvalidParser (format : List Char) (index : ℕ) (message : List Char) :
    CompiledDateAndTimeParser :=
  ⟨[], "Invalid timestamp format \"".toList ++ format ++ "\": ".toList ++ message ++
    " (position ".toList ++ (toString index).toList ++ ")".toList⟩

structure CompileState where
  steps : List DateAndTimeParserStep := []
  hasYear : Bool := false
  hasMonth : Bool := false
  hasDay : Bool := false

def charAt (format : List Char) (index : ℕ) : Char := format.getD index default

def fractionDigits (format : List Char) (index : ℕ) : ℕ → ℕ → ℕ
  | 0, digits => digits
  | fuel + 1, digits =>
    if index + digits < format.length ∧ charAt format (index + digits) = 'f' then
      fractionDigits format index fuel (digits + 1)
    else digits

/-- The body of the compilation loop: the index and the variables it leaves, or the
message with which it gives up. -/
def compileToken (format : List Char) (index : ℕ) (st : CompileState) :
    Except (List Char) (ℕ × CompileState) :=
  let size := format.length
  let token := charAt format index
  if token = 'Y' then
    let hasDoubleYear := index + 1 < size ∧ charAt format (index + 1) = 'Y'
    let hasQuadYear := hasDoubleYear ∧ index + 3 < size ∧ charAt format (index + 2) = 'Y' ∧
      charAt format (index + 3) = 'Y'
    if hasQuadYear then
      .ok (index + 3, { st with steps := st.steps ++ [makeFourDigitYearParser], hasYear := true })
    else if hasDoubleYear then
      .ok (index + 1, { st with steps := st.steps ++ [makeTwoDigitYearParser], hasYear := true })
    else .error "'Y' must appear as YY or YYYY".toList
  else if token = 'M' then
    let hasTripleMonth := index + 2 < size ∧ charAt format (index + 1) = 'M' ∧
      charAt format (index + 2) = 'M'
    let hasDoubleMonth := index + 1 < size ∧ charAt format (index + 1) = 'M'
    if hasTripleMonth then
      .ok (index + 2, { st with steps := st.steps ++ [makeMonthNameParser], hasMonth := true })
    else if hasDoubleMonth then
      .ok (index + 1, { st with
        steps := st.steps ++ [makeTwoDigitFieldParser .month 1 12], hasMonth := true })
    else .error "'M' must appear as MM or MMM".toList
  else if token = 'D' then
    if index + 1 < size ∧ charAt format (index + 1) = '*' then
      .ok (index + 1, { st with steps := st.steps ++ [makePaddedDayParser], hasDay := true })
    else if index + 1 < size ∧ charAt format (index + 1) = 'D' then
      .ok (index + 1, { st with
        steps := st.steps ++ [makeTwoDigitFieldParser .day 1 31], hasDay := true })
    else .error "'D' must appear as DD or D*".toList
  else if token = 'h' ∨ token = 'H' then
    if index + 1 < size ∧ charAt format (index + 1) = token then
      .ok (index + 1, { st with steps := st.steps ++ [makeTwoDigitFieldParser .hour 0 23] })
    else .error ("'".toList ++ [token] ++ "' must appear as ".toList ++ [token] ++ [token])
  else if token = 'm' then
    if index + 1 < size ∧ charAt format (index + 1) = 'm' then
      .ok (index + 1, { st with steps := st.steps ++ [makeTwoDigitFieldParser .minute 0 59] })
    else .error "'m' must appear as mm".toList
  else if token = 's' then
    if index + 1 < size ∧ charAt format (index + 1) = '*' then
      .ok (index + 1, { st with steps := st.steps ++ [makeVariableSecondParser] })
    else if index + 1 < size ∧ charAt format (index + 1) = 's' then
      .ok (index + 1, { st with steps := st.steps ++ [makeSecondParser] })
    else .error "'s' must appear as ss or s*".toList
  else if token = 'f' then
    if index + 1 < size ∧ charAt format (index + 1) = '*' then
      .ok (index + 1, { st with steps := st.steps ++ [makeVariableFractionParser] })
    else
      let digits := fractionDigits format index size 1
      if digits > 9 then .error "a fraction supports at most 9 'f' digits".toList
      else .ok (index + (digits - 1), { st with steps := st.steps ++ [makeFractionParser digits] })
  else if token = 'Z' then
    let hasTripleZ := index + 2 < size ∧ charAt format (index + 1) = 'Z' ∧
      charAt format (index + 2) = 'Z'
    let hasDoubleZ := index + 1 < size ∧ charAt format (index + 1) = 'Z'
    if hasTripleZ then
      .ok (index + 2, { st with steps := st.steps ++ [makeUtcOffsetParser true] })
    else if hasDoubleZ then
      .ok (index + 1, { st with steps := st.steps ++ [makeUtcOffsetParser false] })
    else .ok (index, { st with steps := st.steps ++ [makeUtcDesignatorParser] })
  else .ok (index, { st with steps := st.steps ++ [makeSeparatorParser token] })

def CompileState.finish (st : CompileState) : CompiledDateAndTimeParser :=
  ⟨if st.hasMonth || st.hasDay then st.steps ++ [makeDateValidator st.hasYear] else st.steps, []⟩

/-- The loop over the format; every round moves the index on, so its size is fuel enough. -/
def compileLoop (format : List Char) : ℕ → ℕ → CompileState → CompiledDateAndTimeParser
  | 0, _, st => st.finish
  | fuel + 1, index, st =>
    if index < format.length then
      match compileToken format index st with
      | .error message => makeInvalidParser format index message
      | .ok (index, st) => compileLoop format fuel (index + 1) st
    else st.finish

def compileFormat (format : List Char) : CompiledDateAndTimeParser :=
  if format.isEmpty then makeInvalidParser format 0 "format is empty".toList
  else compileLoop format format.length 0 {}

end Eestv
