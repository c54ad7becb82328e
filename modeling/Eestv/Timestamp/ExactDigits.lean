import Eestv.Timestamp.CheckedRun

/-! The digit loops compute exact numbers. What a step stores is the number that a
maximal run of digits denotes, or its fraction cut off behind the ninth digit; and
the same loops over an arithmetic that refuses every result of 2^32 or more never
meet a refusal. -/

namespace Eestv
open Decimal StringView

/-- The characters `ds` stand at index `i`, and no digit follows them. -/
structure DigitRun (text : StringView) (i : ℕ) (ds : List Char) : Prop where
  ne_nil : ds ≠ []
  digits : Digits ds
  maximal : ∃ rest, text.suffix i = ds ++ rest ∧ ∀ c ∈ rest.head?, c.isDigit = false

/-! ### Arithmetic that refuses to wrap -/

def exactUnsigned (n : ℕ) : Option ℕ := if n < 2 ^ 32 then some n else none

/-- `value * 10 + digit`, the multiplication first. -/
def exactAppend (value digit : ℕ) : Option ℕ :=
  (exactUnsigned (value * 10)).bind fun tens => exactUnsigned (tens + digit)

/-! Every definition below is the one it is named after with exact arithmetic for
`toUnsigned`; the outer `none` is a refused result. -/

def exactVariableSecondLoop (toParse : StringView) (index : ℤ) :
    ℕ → ℕ → ℤ → Option (Option (ℕ × ℤ))
  | 0, second, consumed => some (some (second, consumed))
  | fuel + 1, second, consumed =>
    if index + consumed < toParse.size ∧ isDigit (toParse.data (index + consumed)) then
      let digit := digitValue (toParse.data (index + consumed))
      if second > (maxUnsigned - digit) / 10 then some none
      else (exactAppend second digit).bind fun second =>
        exactVariableSecondLoop toParse index fuel second (consumed + 1)
    else some (some (second, consumed))

def exactVariableSecondParser (toParse : StringView) (index indexJump : ℤ)
    (output : DateAndTime) : Option StepResult :=
  if index < 0 ∨ index ≥ toParse.size ∨ !isDigit (toParse.data index) then
    some ⟨false, indexJump, output⟩
  else
    (exactVariableSecondLoop toParse index toParse.size 0 0).map fun result =>
      match result with
      | none => ⟨false, indexJump, output⟩
      | some (second, consumed) =>
        ⟨true, consumed, { output with second := second, leapSecond := second = 60 }⟩

def exactFractionLoop (toParse : StringView) (index : ℤ) : ℕ → ℕ → ℕ → Option (Option ℕ)
  | 0, _, value => some (some value)
  | remaining + 1, digitIndex, value =>
    let digit := toParse.data (index + digitIndex)
    if !isDigit digit then some none
    else (exactAppend value (digitValue digit)).bind fun value =>
      exactFractionLoop toParse index remaining (digitIndex + 1) value

def exactScaleLoop : ℕ → ℕ → Option ℕ
  | 0, value => some value
  | rounds + 1, value => (exactUnsigned (value * 10)).bind fun value => exactScaleLoop rounds value

def exactFractionParser (digits : ℕ) (toParse : StringView) (index indexJump : ℤ)
    (output : DateAndTime) : Option StepResult :=
  if index < 0 ∨ index + digits > toParse.size then some ⟨false, indexJump, output⟩
  else
    (exactFractionLoop toParse index digits 0 0).bind fun result =>
      match result with
      | none => some ⟨false, indexJump, output⟩
      | some value => (exactScaleLoop (9 - digits) value).map fun nanosecond =>
        ⟨true, digits, { output with nanosecond := nanosecond }⟩

def exactVariableFractionLoop (toParse : StringView) (index : ℤ) :
    ℕ → ℕ → ℕ → ℤ → Option (ℕ × ℕ × ℤ)
  | 0, value, usedDigits, consumed => some (value, usedDigits, consumed)
  | fuel + 1, value, usedDigits, consumed =>
    if index + consumed < toParse.size ∧ isDigit (toParse.data (index + consumed)) then
      if usedDigits < 9 then
        (exactAppend value (digitValue (toParse.data (index + consumed)))).bind fun value =>
          exactVariableFractionLoop toParse index fuel value (usedDigits + 1) (consumed + 1)
      else exactVariableFractionLoop toParse index fuel value usedDigits (consumed + 1)
    else some (value, usedDigits, consumed)

def exactVariableFractionParser (toParse : StringView) (index indexJump : ℤ)
    (output : DateAndTime) : Option StepResult :=
  if index < 0 ∨ index ≥ toParse.size ∨ !isDigit (toParse.data index) then
    some ⟨false, indexJump, output⟩
  else
    (exactVariableFractionLoop toParse index toParse.size 0 0 0).bind
      fun (value, usedDigits, consumed) =>
        (exactScaleLoop (9 - usedDigits) value).map fun nanosecond =>
          ⟨true, consumed, { output with nanosecond := nanosecond }⟩

/-! ### Nothing is refused -/

theorem exactUnsigned_eq {n : ℕ} (h : n < 2 ^ 32) : exactUnsigned n = some (toUnsigned n) := by
  rw [exactUnsigned, if_pos h, toUnsigned, Nat.mod_eq_of_lt h]

theorem exactAppend_eq {value digit : ℕ} (h : value * 10 + digit < 2 ^ 32) :
    exactAppend value digit = some (toUnsigned (value * 10 + digit)) := by
  have hten : value * 10 < 2 ^ 32 := Nat.lt_of_add_right_lt h
  rw [exactAppend, exactUnsigned_eq hten, Option.bind_some, toUnsigned, Nat.mod_eq_of_lt hten,
    exactUnsigned_eq h]

theorem exactVariableSecondLoop_eq (text : StringView) (index : ℤ) (fuel second : ℕ)
    (consumed : ℤ) :
    exactVariableSecondLoop text index fuel second consumed =
      some (variableSecondLoop text index fuel second consumed) := by
  induction fuel generalizing second consumed with
  | zero => rfl
  | succ fuel ih =>
    rw [exactVariableSecondLoop, variableSecondLoop]
    split
    · have hdigit : isDigit (text.data (index + consumed)) = true := (‹_ ∧ _›).2
      have hlt : digitValue (text.data (index + consumed)) < 10 := digit_lt hdigit
      dsimp only
      split
      · rfl
      · -- the check in the source is exactly what keeps the next number in 32 bits
        have hfit : second * 10 + digitValue (text.data (index + consumed)) < 2 ^ 32 := by
          simp only [maxUnsigned, gt_iff_lt, Nat.not_lt] at *
          omega
        rw [exactAppend_eq hfit, Option.bind_some]
        exact ih _ _
    · rfl

theorem exactVariableSecondParser_eq (text : StringView) (index indexJump : ℤ)
    (output : DateAndTime) :
    exactVariableSecondParser text index indexJump output =
      some (makeVariableSecondParser text index indexJump output) := by
  rw [exactVariableSecondParser, makeVariableSecondParser, exactVariableSecondLoop_eq]
  split <;> rfl

theorem exactFractionLoop_eq (text : StringView) (index : ℤ) {n k v : ℕ}
    (hfit : v * 10 ^ n + 10 ^ n ≤ 2 ^ 32) :
    exactFractionLoop text index n k v = some (fractionLoop text index n k v) := by
  induction n generalizing k v with
  | zero => rfl
  | succ n ih =>
    rw [exactFractionLoop, fractionLoop]
    split
    · rfl
    · rename_i hd
      have hdigit : isDigit (text.data (index + k)) = true := by simpa using hd
      have hlt : digitValue (text.data (index + k)) < 10 := digit_lt hdigit
      obtain ⟨hsmall, hnext⟩ := append_fits hlt hfit
      rw [exactAppend_eq hsmall, Option.bind_some, toUnsigned, Nat.mod_eq_of_lt hsmall]
      exact ih hnext

theorem exactScaleLoop_eq {rounds v : ℕ} (h : v * 10 ^ rounds < 2 ^ 32) :
    exactScaleLoop rounds v = some (scaleLoop rounds v) := by
  induction rounds generalizing v with
  | zero => rfl
  | succ rounds ih =>
    rw [Nat.pow_succ, Nat.mul_comm (10 ^ rounds), ← Nat.mul_assoc] at h
    have hfit : v * 10 < 2 ^ 32 :=
      Nat.lt_of_le_of_lt (Nat.le_mul_of_pos_right _ (Nat.pow_pos (by decide))) h
    rw [exactScaleLoop, scaleLoop, exactUnsigned_eq hfit, Option.bind_some, toUnsigned,
      Nat.mod_eq_of_lt hfit]
    exact ih h

theorem fractionLoop_lt {text : StringView} {index : ℤ} {n k v w : ℕ}
    (h : fractionLoop text index n k v = some w) : w < (v + 1) * 10 ^ n := by
  induction n generalizing k v with
  | zero =>
    rw [fractionLoop, Option.some.injEq] at h
    omega
  | succ n ih =>
    rw [fractionLoop] at h
    split at h
    · contradiction
    · rename_i hd
      have hdigit : isDigit (text.data (index + k)) = true := by simpa using hd
      have hlt : digitValue (text.data (index + k)) < 10 := digit_lt hdigit
      have hle : toUnsigned (v * 10 + digitValue (text.data (index + k))) + 1 ≤ (v + 1) * 10 := by
        have hmod := Nat.mod_le (v * 10 + digitValue (text.data (index + k))) (2 ^ 32)
        rw [toUnsigned]
        omega
      calc w < _ * 10 ^ n := ih h
        _ ≤ (v + 1) * 10 * 10 ^ n := Nat.mul_le_mul_right _ hle
        _ = (v + 1) * 10 ^ (n + 1) := by rw [Nat.pow_succ', Nat.mul_assoc]

theorem exactFractionParser_eq {digits : ℕ} (h9 : digits ≤ 9) (text : StringView)
    (index indexJump : ℤ) (output : DateAndTime) :
    exactFractionParser digits text index indexJump output =
      some (makeFractionParser digits text index indexJump output) := by
  have hpow : 0 * 10 ^ digits + 10 ^ digits ≤ 2 ^ 32 := by
    have hnine : 10 ^ digits ≤ 10 ^ 9 := Nat.pow_le_pow_right (by decide) h9
    omega
  rw [exactFractionParser, makeFractionParser]
  split
  · rfl
  · rw [exactFractionLoop_eq text index hpow, Option.bind_some]
    cases hloop : fractionLoop text index digits 0 0 with
    | none => rfl
    | some v =>
      have hlt := fractionLoop_lt hloop
      rw [Nat.zero_add, Nat.one_mul] at hlt
      dsimp only
      rw [exactScaleLoop_eq (Nat.lt_of_le_of_lt (scaled_lt hlt h9) (by decide)), Option.map_some]

theorem variableFractionLoop_lt (text : StringView) (index : ℤ) (fuel : ℕ) {v used : ℕ}
    (consumed : ℤ) (hused : used ≤ 9) (hv : v < 10 ^ used) :
    exactVariableFractionLoop text index fuel v used consumed =
        some (variableFractionLoop text index fuel v used consumed) ∧
      (variableFractionLoop text index fuel v used consumed).2.1 ≤ 9 ∧
      (variableFractionLoop text index fuel v used consumed).1 <
        10 ^ (variableFractionLoop text index fuel v used consumed).2.1 := by
  induction fuel generalizing v used consumed with
  | zero => exact ⟨rfl, hused, hv⟩
  | succ fuel ih =>
    rw [exactVariableFractionLoop, variableFractionLoop]
    split
    · have hdigit : isDigit (text.data (index + consumed)) = true := (‹_ ∧ _›).2
      have hlt : digitValue (text.data (index + consumed)) < 10 := digit_lt hdigit
      split
      · have hle : 10 ^ (used + 1) ≤ 10 ^ 9 := Nat.pow_le_pow_right (by decide) ‹used < 9›
        have hnext : v * 10 + digitValue (text.data (index + consumed)) < 10 ^ (used + 1) := by
          rw [Nat.pow_succ]
          omega
        have hsmall : v * 10 + digitValue (text.data (index + consumed)) < 2 ^ 32 := by omega
        rw [exactAppend_eq hsmall, Option.bind_some, toUnsigned, Nat.mod_eq_of_lt hsmall]
        exact ih _ ‹used < 9› hnext
      · exact ih _ hused hv
    · exact ⟨rfl, hused, hv⟩

theorem exactVariableFractionParser_eq (text : StringView) (index indexJump : ℤ)
    (output : DateAndTime) :
    exactVariableFractionParser text index indexJump output =
      some (makeVariableFractionParser text index indexJump output) := by
  obtain ⟨hloop, hused, hlt⟩ := variableFractionLoop_lt text index text.size 0
    (Nat.zero_le 9) (by decide : 0 < 10 ^ 0)
  rw [exactVariableFractionParser, makeVariableFractionParser, hloop, Option.bind_some]
  split
  · rfl
  · dsimp only
    rw [exactScaleLoop_eq (Nat.lt_of_le_of_lt (scaled_lt hlt hused) (by decide)), Option.map_some]

/-! ### What a run of digits leaves -/

section DigitRun

variable {text : StringView} {i : ℕ} {ds : List Char}

theorem DigitRun.takeWhile_eq (h : DigitRun text i ds) :
    (text.suffix i).takeWhile Char.isDigit = ds := by
  obtain ⟨rest, hrest, hend⟩ := h.maximal
  rw [hrest, takeWhile_isDigit h.digits hend]

theorem DigitRun.lt_size (h : DigitRun text i ds) : i < text.size := by
  by_contra hout
  obtain ⟨rest, hrest, -⟩ := h.maximal
  rw [suffix_eq_nil.mpr (by omega)] at hrest
  exact h.ne_nil (List.append_eq_nil_iff.mp hrest.symm).1

theorem digitRun_ofList (hne : ds ≠ []) (hds : Digits ds) : DigitRun (ofList ds) 0 ds := by
  refine ⟨hne, hds, [], ?_, fun _ hc => absurd hc (by simp)⟩
  rw [ofList_suffix, List.drop_zero, List.append_nil]

theorem DigitRun.readDigits_eq (h : DigitRun text i ds) (n : ℕ) :
    readDigits n (text.suffix i) = if n ≤ ds.length then some (value (ds.take n)) else none := by
  obtain ⟨rest, hrest, hend⟩ := h.maximal
  rw [readDigits, hrest]
  by_cases hn : n ≤ ds.length
  · have htake : (ds ++ rest).take n = ds.take n := List.take_append_of_le_length hn
    have hlen : n ≤ (ds ++ rest).length := by
      rw [List.length_append]
      exact Nat.le_add_right_of_le hn
    have hdigits : Digits (ds.take n) := fun c hc => h.digits c (List.mem_of_mem_take hc)
    rw [htake, if_pos ⟨hlen, hdigits⟩, if_pos hn]
  · rw [if_neg hn, if_neg]
    rintro ⟨hlen, hdigits⟩
    rw [List.length_append] at hlen
    cases rest with
    | nil =>
      rw [List.length_nil] at hlen
      omega
    | cons c rest =>
      -- the character behind the run is among those read
      have hmem : c ∈ (ds ++ c :: rest).take n := by
        rw [show n = ds.length + (n - ds.length - 1 + 1) by omega, List.take_length_add_append,
          List.take_succ_cons]
        exact List.mem_append_right _ List.mem_cons_self
      exact absurd ((hdigits c hmem).symm.trans (hend c rfl)) (by decide)

theorem value_take_nine (hds : Digits ds) :
    value (ds.take 9) * 10 ^ (9 - ds.length) = value ds * 10 ^ 9 / 10 ^ ds.length := by
  rcases Nat.le_total ds.length 9 with hle | hge
  · have hpow : 10 ^ 9 = 10 ^ (9 - ds.length) * 10 ^ ds.length := by
      rw [← Nat.pow_add, Nat.sub_add_cancel hle]
    rw [List.take_of_length_le hle, hpow, ← Nat.mul_assoc,
      Nat.mul_div_cancel _ (Nat.pow_pos (by decide))]
  · have hsplit : value ds = value (ds.take 9) * 10 ^ (ds.length - 9) + value (ds.drop 9) := by
      rw [← List.length_drop, ← extend_eq, ← value_append, List.take_append_drop]
    have hlt : value (ds.drop 9) < 10 ^ (ds.length - 9) := by
      rw [← List.length_drop]
      exact value_lt fun c hc => hds c (List.mem_of_mem_drop hc)
    have hpow : 10 ^ ds.length = 10 ^ (ds.length - 9) * 10 ^ 9 := by
      rw [← Nat.pow_add, Nat.sub_add_cancel hge]
    rw [Nat.sub_eq_zero_of_le hge, Nat.pow_zero, Nat.mul_one, hpow,
      Nat.mul_div_mul_right _ _ (Nat.pow_pos (by decide)), hsplit, Nat.mul_comm,
      Nat.mul_add_div (Nat.pow_pos (by decide)), Nat.div_eq_of_lt hlt, Nat.add_zero]

theorem variableFraction_run (h : DigitRun text i ds) (j : ℤ) (output : DateAndTime) :
    makeVariableFractionParser text i j output =
      ⟨true, ds.length,
        { output with nanosecond := value ds * 10 ^ 9 / 10 ^ ds.length }⟩ := by
  rw [variableFraction_reads, Token.read, h.takeWhile_eq, if_pos h.ne_nil,
    value_take_nine h.digits]
  rfl

theorem fraction_run (h : DigitRun text i ds) {n : ℕ} (h9 : n ≤ 9) (j : ℤ)
    (output : DateAndTime) :
    makeFractionParser n text i j output =
      if n ≤ ds.length then
        ⟨true, n, { output with nanosecond := value (ds.take n) * 10 ^ (9 - n) }⟩
      else ⟨false, j, output⟩ := by
  rw [fraction_reads h9 (Nat.le_of_lt h.lt_size), Token.read, h.readDigits_eq]
  split <;> rfl

end DigitRun

/-- On a maximal run of digits the `f*` step stores the first nine digits of the fraction, and
an `n`-digit step stores what the `f*` step makes of the first `n` digits alone; neither the indices
nor the values leave their types. -/
theorem fractions_agree (text : StringView) (hsize : text.size < 2 ^ 31 - 8) (i : ℕ)
    (ds : List Char) (h : DigitRun text i ds) (j : ℤ) (output : DateAndTime) :
    makeVariableFractionParser text i j output =
        ⟨true, ds.length, { output with nanosecond := value ds * 10 ^ 9 / 10 ^ ds.length }⟩ ∧
      checkedVariableFraction text i j output =
        some (makeVariableFractionParser text i j output) ∧
      exactVariableFractionParser text i j output =
        some (makeVariableFractionParser text i j output) ∧
      ∀ n, 1 ≤ n → n ≤ 9 →
        ((makeFractionParser n text i j output).accepted = true ↔ n ≤ ds.length) ∧
        (n ≤ ds.length → (makeFractionParser n text i j output).indexJump = n ∧
          makeFractionParser n text i j output =
            makeVariableFractionParser (ofList (ds.take n)) 0 j output) ∧
        (n = ds.length →
          makeFractionParser n text i j output = makeVariableFractionParser text i j output) ∧
        checkedFraction n text i j output = some (makeFractionParser n text i j output) ∧
        exactFractionParser n text i j output = some (makeFractionParser n text i j output) := by
  have hlt := h.lt_size
  refine ⟨variableFraction_run h j output, ?_, exactVariableFractionParser_eq text i j output, ?_⟩
  · exact checkedVariableFraction_eq (Int.natCast_nonneg i) (by omega) j output
  intro n hpos h9
  have hrun := fraction_run h h9 j output
  have hchecked : checkedFraction n text i j output =
      some (makeFractionParser n text i j output) :=
    checkedFraction_eq (Int.natCast_nonneg i) (by omega) (by omega) j output
  refine ⟨?_, ?_, ?_, hchecked, exactFractionParser_eq h9 text i j output⟩
  · rw [hrun]
    split <;> simp [*]
  · intro hn
    have hne : ds.take n ≠ [] := by
      intro hnil
      have hlen := congrArg List.length hnil
      rw [List.length_take_of_le hn, List.length_nil] at hlen
      omega
    have hdigits : Digits (ds.take n) := fun c hc => h.digits c (List.mem_of_mem_take hc)
    have hlen : (ds.take n).length = n := List.length_take_of_le hn
    have hnine : (ds.take n).take 9 = ds.take n := List.take_of_length_le (by rwa [hlen])
    have halone := variableFraction_run (digitRun_ofList hne hdigits) j output
    rw [← value_take_nine hdigits, hnine, hlen, Int.natCast_zero] at halone
    rw [hrun, if_pos hn, halone]
    exact ⟨rfl, rfl⟩
  · rintro rfl
    rw [hrun, if_pos (Nat.le_refl _), variableFraction_run h, ← value_take_nine h.digits,
      List.take_of_length_le h9, List.take_of_length_le (Nat.le_refl _)]

theorem digitRun_eleven : DigitRun (ofList "x12345678999.".toList) 1 "12345678999".toList :=
  ⟨by decide, List.all_eq_true.mp (by decide), ['.'], by decide, by rintro _ ⟨⟩; rfl⟩

theorem fractions_agree_eleven :
    makeVariableFractionParser (ofList "x12345678999.".toList) 1 0 {} =
        ⟨true, 11, { nanosecond := 123456789 }⟩ ∧
      makeFractionParser 3 (ofList "x12345678999.".toList) 1 0 {} =
        makeVariableFractionParser (ofList "123".toList) 0 0 {} := by
  have h := fractions_agree _ (by decide) 1 _ digitRun_eleven 0 {}
  exact ⟨h.1, ((h.2.2.2 3 (by decide) (by decide)).2.1 (by decide)).2⟩

/-- Of a text one character longer the last one is a digit. The nine-digit step computes the index
2^31 there, and accepts with the digits behind the text where the sum wraps around. -/
theorem fractions_agree_fails :
    DigitRun ⟨2 ^ 31 - 8, fun _ => '7'⟩ (2 ^ 31 - 9) ['7'] ∧
      checkedFraction 9 ⟨2 ^ 31 - 8, fun _ => '7'⟩ (2 ^ 31 - 9) 0 {} = none ∧
      wrappedFraction 9 ⟨2 ^ 31 - 8, fun _ => '7'⟩ (2 ^ 31 - 9) 0 {} =
        ⟨true, 9, { nanosecond := 777777777 }⟩ := by
  refine ⟨⟨by decide, List.all_eq_true.mp (by decide), [], by decide, nofun⟩, by decide, by decide⟩

/-- On a maximal run of digits the `s*` step accepts exactly the numbers of 32 bits and stores
them; no index leaves its type, and on no input does its arithmetic wrap. -/
theorem variableSecond_exact (text : StringView) (hsize : text.size < 2 ^ 31) (i : ℕ)
    (ds : List Char) (h : DigitRun text i ds) (j : ℤ) (output : DateAndTime) :
    let r := makeVariableSecondParser text i j output
    (r.accepted = true ↔ value ds ≤ 2 ^ 32 - 1) ∧
      (r.accepted = true → r.indexJump = ds.length ∧
        r.output =
          { output with second := value ds, leapSecond := decide (value ds = 60) }) ∧
      checkedVariableSecond text i j output = some r ∧
      ∀ text' : StringView, text'.size < 2 ^ 31 → ∀ (index j' : ℤ) (output' : DateAndTime),
        exactVariableSecondParser text' index j' output' =
          some (makeVariableSecondParser text' index j' output') := by
  intro r
  have hread : r = .ofRead j output (Token.variableSecond.read (text.suffix i)) :=
    variableSecond_reads j output
  rw [Token.read, h.takeWhile_eq] at hread
  refine ⟨?_, ?_, checkedVariableSecond_eq (Int.natCast_nonneg i) (by omega) j output,
    fun text' _ => exactVariableSecondParser_eq text'⟩
  · rw [hread]
    by_cases hfit : value ds < 2 ^ 32
    · rw [if_pos ⟨h.ne_nil, hfit⟩]
      exact iff_of_true rfl (Nat.le_sub_one_of_lt hfit)
    · rw [if_neg fun hboth => hfit hboth.2]
      refine iff_of_false Bool.false_ne_true ?_
      omega
  · intro haccepted
    rw [hread] at haccepted ⊢
    split at haccepted
    · rw [if_pos ‹_›]
      exact ⟨rfl, rfl⟩
    · exact absurd haccepted Bool.false_ne_true

theorem digitRun_limit :
    DigitRun (ofList "s=0004294967295".toList) 2 "0004294967295".toList :=
  ⟨by decide, List.all_eq_true.mp (by decide), [], by decide, by rintro _ ⟨⟩⟩

theorem variableSecond_exact_limit :
    (makeVariableSecondParser (ofList "s=0004294967295".toList) 2 0 {}).accepted = true :=
  (variableSecond_exact _ (by decide) 2 _ digitRun_limit 0 {}).1.mpr (by decide)

end Eestv
