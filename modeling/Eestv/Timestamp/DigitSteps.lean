import Eestv.Timestamp.FieldSteps

/-! The parser steps with a digit loop and the UTC offset step do what the token
table says; with the other steps, every token's step does. -/

namespace Eestv
open Decimal StringView

variable {text : StringView} {i : ℕ}

/-! ### Digit strings of any length -/

theorem variableSecondLoop_eq (text : StringView) (i : ℕ) {fuel n second : ℕ}
    (hfuel : text.size ≤ i + n + fuel) (hsecond : second < 2 ^ 32) :
    variableSecondLoop text i fuel second n =
      let digits := (text.suffix (i + n)).takeWhile Char.isDigit
      if extend second digits < 2 ^ 32 then
        some (extend second digits, ((n + digits.length : ℕ) : ℤ))
      else none := by
  induction fuel generalizing n second with
  | zero =>
    rw [suffix_eq_nil.mpr (by exact hfuel), variableSecondLoop]
    exact (if_pos hsecond).symm
  | succ fuel ih =>
    rw [variableSecondLoop]
    rcases Nat.lt_or_ge (i + n) text.size with h | h
    · rw [suffix_of_lt h, Int.natCast_add]
      by_cases hd : (text.data (i + n)).isDigit
      · have hlt := digit_lt hd
        rw [if_pos ⟨by omega, hd⟩, List.takeWhile_cons_of_pos hd]
        dsimp only
        rw [extend_cons, List.length_cons, digitValue_eq]
        generalize digit (text.data (i + n)) = d at hlt
        by_cases hover : second > (maxUnsigned - d) / 10
        · have hbig := le_extend (second * 10 + d)
            ((text.suffix (i + n + 1)).takeWhile Char.isDigit)
          simp only [maxUnsigned] at hover
          rw [if_pos (by exact hover), if_neg (by omega)]
        · have hfit : second * 10 + d < 2 ^ 32 := by
            simp only [maxUnsigned] at hover
            omega
          have hnext := ih (n := n + 1) (by omega) hfit
          rw [Int.natCast_add, Int.natCast_one] at hnext
          rw [if_neg hover, toUnsigned, Nat.mod_eq_of_lt hfit, hnext]
          dsimp only
          rw [Nat.add_right_comm n 1]
          rfl
      · rw [if_neg (fun h' => hd h'.2), List.takeWhile_cons_of_neg hd]
        exact (if_pos hsecond).symm
    · rw [if_neg (by omega), suffix_eq_nil.mpr h]
      exact (if_pos hsecond).symm

theorem takeWhile_isDigit_eq_nil {c : Char} {cs : List Char} :
    (c :: cs).takeWhile Char.isDigit = [] ↔ ¬ c.isDigit := by
  by_cases hc : c.isDigit
  · rw [List.takeWhile_cons_of_pos hc]
    exact iff_of_false (List.cons_ne_nil _ _) (not_not.mpr hc)
  · exact iff_of_true (List.takeWhile_cons_of_neg hc) hc

theorem no_digit_iff (text : StringView) (i : ℕ) :
    ((i : ℤ) < 0 ∨ (i : ℤ) ≥ text.size ∨ (!isDigit (text.data i)) = true) ↔
      (text.suffix i).takeWhile Char.isDigit = [] := by
  rcases Nat.lt_or_ge i text.size with h | h
  · rw [suffix_of_lt h, takeWhile_isDigit_eq_nil, isDigit_eq, Bool.not_eq_true', Bool.not_eq_true]
    exact ⟨fun h' => h'.resolve_left (by omega) |>.resolve_left (by omega),
      fun h' => Or.inr (Or.inr h')⟩
  · rw [suffix_eq_nil.mpr h]
    exact iff_of_true (Or.inr (Or.inl (by omega))) rfl

theorem variableSecond_reads (j : ℤ) (output : DateAndTime) :
    makeVariableSecondParser text i j output =
      .ofRead j output (Token.variableSecond.read (text.suffix i)) := by
  rw [makeVariableSecondParser, Token.read]
  by_cases hd : (text.suffix i).takeWhile Char.isDigit = []
  · rw [if_pos ((no_digit_iff text i).mpr hd), if_neg (fun h => h.1 hd)]
    rfl
  · have hloop := @variableSecondLoop_eq text i text.size 0 0
      (Nat.le_add_left text.size i) (by decide)
    rw [Int.natCast_zero, Nat.add_zero] at hloop
    rw [if_neg (fun h => hd ((no_digit_iff text i).mp h))]
    by_cases hval : value ((text.suffix i).takeWhile Char.isDigit) < 2 ^ 32
    · have hextend : extend 0 ((text.suffix i).takeWhile Char.isDigit) < 2 ^ 32 := hval
      rw [if_pos hextend, Nat.zero_add] at hloop
      rw [hloop, if_pos ⟨hd, hval⟩]
      rfl
    · have hextend : ¬extend 0 ((text.suffix i).takeWhile Char.isDigit) < 2 ^ 32 := hval
      rw [if_neg hextend] at hloop
      rw [hloop, if_neg (fun h => hval h.2)]
      rfl

theorem scaleLoop_eq {rounds v : ℕ} (h : v * 10 ^ rounds < 2 ^ 32) :
    scaleLoop rounds v = v * 10 ^ rounds := by
  induction rounds generalizing v with
  | zero => exact (Nat.mul_one v).symm
  | succ rounds ih =>
    rw [Nat.pow_succ, Nat.mul_comm (10 ^ rounds), ← Nat.mul_assoc] at h ⊢
    have hfit : v * 10 < 2 ^ 32 :=
      Nat.lt_of_le_of_lt (Nat.le_mul_of_pos_right _ (Nat.pow_pos (by decide))) h
    rw [scaleLoop, toUnsigned, Nat.mod_eq_of_lt hfit, ih h]

theorem readDigits_lt {n v : ℕ} {cs : List Char} (h : readDigits n cs = some v) :
    v < 10 ^ n := by
  unfold readDigits at h
  split at h
  · rename_i hd
    have hlt := value_lt hd.2
    rwa [List.length_take_of_le hd.1, Option.some.inj h] at hlt
  · exact absurd h (by simp)

theorem append_fits {v n d : ℕ} (hd : d < 10) (h : v * 10 ^ (n + 1) + 10 ^ (n + 1) ≤ 2 ^ 32) :
    v * 10 + d < 2 ^ 32 ∧ (v * 10 + d) * 10 ^ n + 10 ^ n ≤ 2 ^ 32 := by
  have hnext : (v * 10 + d) * 10 ^ n + 10 ^ n ≤ 2 ^ 32 := by
    refine Nat.le_trans ?_ h
    rw [Nat.pow_succ, Nat.mul_comm (10 ^ n), ← Nat.mul_assoc, ← Nat.succ_mul]
    calc (v * 10 + d + 1) * 10 ^ n
        ≤ (v * 10 + 10) * 10 ^ n := Nat.mul_le_mul_right _ (by omega)
      _ = v * 10 * 10 ^ n + 10 * 10 ^ n := Nat.add_mul _ _ _
  have hpos : 0 < 10 ^ n := Nat.pow_pos (by decide)
  have hle := Nat.le_mul_of_pos_right (v * 10 + d) hpos
  exact ⟨by omega, hnext⟩

theorem fractionLoop_eq (text : StringView) (i : ℕ) {n k v : ℕ} (hroom : i + k + n ≤ text.size)
    (hfit : v * 10 ^ n + 10 ^ n ≤ 2 ^ 32) :
    fractionLoop text i n k v =
      (readDigits n (text.suffix (i + k))).map fun w => v * 10 ^ n + w := by
  induction n generalizing k v with
  | zero =>
    rw [readDigits_zero, fractionLoop]
    simp only [Option.map_some, Nat.pow_zero, Nat.mul_one, Nat.add_zero]
  | succ n ih =>
    rw [suffix_of_lt (by omega : i + k < text.size), readDigits_cons, fractionLoop,
      Int.natCast_add]
    by_cases hd : (text.data (i + k)).isDigit
    · obtain ⟨hsmall, hfit'⟩ := append_fits (digit_lt hd) hfit
      have hnext := ih (k := k + 1) (by omega) hfit'
      rw [if_neg (by rw [isDigit_eq]; simpa using hd), if_pos hd, digitValue_eq, toUnsigned,
        Nat.mod_eq_of_lt hsmall, hnext, Option.map_map]
      refine congrArg (fun f => Option.map f _) (funext fun w => ?_)
      simp only [Function.comp_apply]
      rw [Nat.pow_succ, Nat.add_mul, Nat.mul_assoc, Nat.mul_comm 10, Nat.add_assoc]
    · rw [if_neg hd, if_pos (by rw [isDigit_eq]; simpa using hd)]
      rfl

theorem fraction_reads {digits : ℕ} (h9 : digits ≤ 9) (hi : i ≤ text.size) (j : ℤ)
    (output : DateAndTime) :
    makeFractionParser digits text i j output =
      .ofRead j output ((Token.fraction digits).read (text.suffix i)) := by
  rw [makeFractionParser, Token.read]
  rcases Nat.lt_or_ge text.size (i + digits) with h | h
  · rw [if_pos (by omega), readDigits_short (by rw [suffix_length]; omega)]
    rfl
  · have hpow : 10 ^ digits ≤ 2 ^ 32 := by
      have hnine : 10 ^ digits ≤ 10 ^ 9 := Nat.pow_le_pow_right (by decide) h9
      omega
    rw [if_neg (by omega), fractionLoop_eq text i (k := 0) h (by rwa [Nat.zero_mul, Nat.zero_add])]
    cases hv : readDigits digits (text.suffix (i + 0)) with
    | none =>
      rfl
    | some v =>
      rw [Nat.add_zero] at hv
      have hlt : v < 10 ^ digits := readDigits_lt hv
      have hscale : v * 10 ^ (9 - digits) < 2 ^ 32 := by
        calc v * 10 ^ (9 - digits) < 10 ^ digits * 10 ^ (9 - digits) :=
              Nat.mul_lt_mul_of_pos_right hlt (Nat.pow_pos (by decide))
          _ = 10 ^ 9 := by rw [← Nat.pow_add, Nat.add_sub_cancel' h9]
          _ < 2 ^ 32 := by decide
      simp only [Option.map_some, Nat.zero_mul, Nat.zero_add, scaleLoop_eq hscale]
      rfl

theorem variableFractionLoop_eq (text : StringView) (i : ℕ) {fuel n used v : ℕ}
    (hfuel : text.size ≤ i + n + fuel) (hused : used ≤ 9) (hv : v < 10 ^ used) :
    variableFractionLoop text i fuel v used n =
      let digits := (text.suffix (i + n)).takeWhile Char.isDigit
      (extend v (digits.take (9 - used)), used + min (9 - used) digits.length,
        ((n + digits.length : ℕ) : ℤ)) := by
  have hend (n used v : ℕ) : (v, used, (n : ℤ)) = (extend v (List.take (9 - used) []),
      used + min (9 - used) ([] : List Char).length, ((n + ([] : List Char).length : ℕ) : ℤ)) := by
    rw [List.take_nil, extend_nil, List.length_nil, Nat.min_zero, Nat.add_zero, Nat.add_zero]
  induction fuel generalizing n used v with
  | zero =>
    rw [suffix_eq_nil.mpr (by exact hfuel), variableFractionLoop]
    exact hend n used v
  | succ fuel ih =>
    rw [variableFractionLoop]
    rcases Nat.lt_or_ge (i + n) text.size with h | h
    · rw [suffix_of_lt h, Int.natCast_add]
      by_cases hd : (text.data (i + n)).isDigit
      · have hlt := digit_lt hd
        rw [if_pos ⟨by omega, hd⟩, List.takeWhile_cons_of_pos hd]
        dsimp only
        rw [List.length_cons, digitValue_eq]
        generalize hrest : (text.suffix (i + n + 1)).takeWhile Char.isDigit = rest
        rcases Nat.lt_or_ge used 9 with hu | hu
        · -- a digit that counts; with nine digits at most nothing wraps
          have hv' : v * 10 + digit (text.data (i + n)) < 10 ^ (used + 1) := by
            rw [Nat.pow_succ]
            omega
          have hsmall : v * 10 + digit (text.data (i + n)) < 2 ^ 32 := by
            have hle : 10 ^ (used + 1) ≤ 10 ^ 9 := Nat.pow_le_pow_right (by decide) hu
            omega
          have hnext := ih (n := n + 1) (by omega) hu hv'
          rw [Int.natCast_add, Int.natCast_one] at hnext
          rw [if_pos hu, toUnsigned, Nat.mod_eq_of_lt hsmall, hnext, ← Nat.add_assoc, hrest]
          dsimp only
          rw [show 9 - used = 9 - (used + 1) + 1 by omega, List.take_succ_cons, extend_cons]
          refine congrArg (Prod.mk _) (Prod.ext ?_ ?_) <;> dsimp only <;> omega
        · have hnext := ih (n := n + 1) (by omega) hused hv
          rw [Int.natCast_add, Int.natCast_one] at hnext
          rw [if_neg (by omega), hnext, ← Nat.add_assoc, hrest]
          dsimp only
          rw [show 9 - used = 0 by omega, List.take_zero, List.take_zero]
          refine congrArg (Prod.mk _) (Prod.ext ?_ ?_) <;> dsimp only <;> omega
      · rw [if_neg (fun h' => hd h'.2), List.takeWhile_cons_of_neg hd]
        exact hend n used v
    · rw [if_neg (by omega), suffix_eq_nil.mpr h]
      exact hend n used v

theorem variableFraction_reads (j : ℤ) (output : DateAndTime) :
    makeVariableFractionParser text i j output =
      .ofRead j output (Token.variableFraction.read (text.suffix i)) := by
  rw [makeVariableFractionParser, Token.read]
  by_cases hd : (text.suffix i).takeWhile Char.isDigit = []
  · rw [if_pos ((no_digit_iff text i).mpr hd), if_neg (not_not.mpr hd)]
    rfl
  · have hloop := variableFractionLoop_eq text i (n := 0) (v := 0) (Nat.le_add_left text.size i)
      (Nat.zero_le 9) (by decide)
    rw [Int.natCast_zero, Nat.add_zero] at hloop
    rw [if_neg (fun h => hd ((no_digit_iff text i).mp h)), hloop, if_pos hd]
    dsimp only
    generalize hdigits : (text.suffix i).takeWhile Char.isDigit = digits
    have hall : Digits (digits.take 9) := fun c hc => by
      rw [← hdigits] at hc
      exact List.all_eq_true.mp List.all_takeWhile c (List.mem_of_mem_take hc)
    have hscale : value (digits.take 9) * 10 ^ (9 - digits.length) < 2 ^ 32 := by
      have hlt := value_lt hall
      rw [List.length_take] at hlt
      calc value (digits.take 9) * 10 ^ (9 - digits.length)
          < 10 ^ min 9 digits.length * 10 ^ (9 - digits.length) :=
            Nat.mul_lt_mul_of_pos_right hlt (Nat.pow_pos (by decide))
        _ = 10 ^ 9 := by rw [← Nat.pow_add]; congr 1; omega
        _ < 2 ^ 32 := by decide
    rw [Nat.zero_add, Nat.zero_add, show 9 - min (9 - 0) digits.length = 9 - digits.length by omega,
      Nat.sub_zero]
    change (⟨true, _, { output with nanosecond := scaleLoop _ (value (digits.take 9)) }⟩ :
      StepResult) = _
    rw [scaleLoop_eq hscale]
    rfl

/-! ### UTC offsets -/

theorem utcOffsetMinutes_eq (withColon : Bool) (text : StringView) (i : ℕ) :
    utcOffsetMinutes withColon text i =
      if withColon ∧ (text.suffix i)[3]? ≠ some ':' then none
      else (readDigits 2 ((text.suffix i).drop (if withColon then 4 else 3))).map fun minutes =>
        (minutes, if withColon then 6 else 5) := by
  unfold utcOffsetMinutes
  have hthree := tryParseTwoDigits_add text i 3
  have hfour := tryParseTwoDigits_add text i 4
  rw [Int.cast_ofNat_Int] at hthree hfour
  rw [suffix_getElem?, Int.cast_ofNat_Int, hthree, hfour]
  cases withColon with
  | false => simp only [Bool.false_eq_true, if_false, false_and]
  | true =>
    simp only [if_true, true_and]
    by_cases hc : (i : ℤ) + 3 ≥ text.size ∨ text.data (i + 3) ≠ ':'
    · rw [if_pos hc, if_pos]
      split
      · exact fun he => (hc.resolve_left (by omega)) (Option.some.inj he)
      · exact Option.some_ne_none _ ∘ Eq.symm
    · rw [if_neg hc, if_neg]
      rw [if_pos (by omega)]
      exact not_not.mpr (congrArg some (by tauto))

theorem exists_sign_factor {c : Char} (h : ¬(c ≠ '+' ∧ c ≠ '-')) :
    ∃ factor : ℤ,
      (if some c = some '+' then some 1 else if some c = some '-' then some (-1) else none) =
        some factor ∧
      ∀ total : ℤ, (if c = '-' then -total else total) = factor * total := by
  by_cases hplus : c = '+'
  · refine ⟨1, if_pos (congrArg some hplus), fun total => ?_⟩
    rw [if_neg (by rw [hplus]; decide), Int.one_mul]
  · have hminus : c = '-' := by tauto
    refine ⟨-1, ?_, fun total => ?_⟩
    · rw [if_neg (fun h' => hplus (Option.some.inj h')), if_pos (congrArg some hminus)]
    · rw [if_pos hminus, Int.neg_mul, Int.one_mul]

theorem utcOffset_reads (withColon : Bool) (j : ℤ) (output : DateAndTime) :
    makeUtcOffsetParser withColon text i j output =
      .ofRead j output ((Token.utcOffset withColon).read (text.suffix i)) := by
  rw [Token.read, readOffset]
  unfold makeUtcOffsetParser
  rcases Nat.lt_or_ge i text.size with h | h
  · have hhead : (text.suffix i).head? = some (text.data i) := by
      rw [suffix_of_lt h, List.head?_cons]
    have hone := tryParseTwoDigits_add text i 1
    rw [Int.natCast_one] at hone
    rw [if_neg (by omega), hhead]
    dsimp only
    by_cases hs : text.data i ≠ '+' ∧ text.data i ≠ '-'
    · rw [if_pos hs, if_neg (fun h' => hs.1 (Option.some.inj h')),
        if_neg (fun h' => hs.2 (Option.some.inj h')), Option.bind_none, ite_self]
      rfl
    obtain ⟨factor, hfactor, htotal⟩ := exists_sign_factor hs
    -- the source reads hours and minutes before it looks at the range of either
    rw [if_neg hs, hfactor, hone, utcOffsetMinutes_eq]
    by_cases hcolon : withColon ∧ (text.suffix i)[3]? ≠ some ':'
    · rw [if_pos hcolon, if_pos hcolon]
      cases readDigits 2 ((text.suffix i).drop 1) <;> rfl
    rw [if_neg hcolon, if_neg hcolon, Option.bind_some]
    cases hh : readDigits 2 ((text.suffix i).drop 1) with
    | none => rw [readBetween_of_none hh]; rfl
    | some hours =>
      rw [readBetween_of_some hh]
      cases hm : readDigits 2 ((text.suffix i).drop (if withColon then 4 else 3)) with
      | none =>
        rw [readBetween_of_none hm, Option.map_none]
        cases (if hours < 0 ∨ hours > 23 then none else some hours) <;> rfl
      | some minutes =>
        rw [readBetween_of_some hm]
        by_cases hrange : hours > 23 ∨ minutes > 59
        · dsimp only [Option.map_some]
          rw [if_pos hrange]
          rcases hrange with hbig | hbig
          · rw [if_pos (Or.inr hbig)]
            rfl
          · rw [if_pos (show minutes < 0 ∨ minutes > 59 from Or.inr hbig)]
            cases (if hours < 0 ∨ hours > 23 then none else some hours) <;> rfl
        · dsimp only [Option.map_some]
          rw [if_neg hrange, if_neg (show ¬ (hours < 0 ∨ hours > 23) by omega),
            if_neg (show ¬ (minutes < 0 ∨ minutes > 59) by omega), htotal]
          cases withColon <;> rfl
  · have hnone (c : Char) : ¬ (none : Option Char) = some c := Option.some_ne_none c ∘ Eq.symm
    rw [if_pos (by omega), suffix_eq_nil.mpr h, List.head?_nil, if_neg (hnone '+'),
      if_neg (hnone '-'), Option.bind_none, ite_self]
    rfl

/-- Every step does what its token says. -/
theorem Token.step_reads (t : Token) (hdigits : ∀ n, t = .fraction n → n ≤ 9)
    (hi : i ≤ text.size) (j : ℤ) (output : DateAndTime) :
    t.step text i j output = .ofRead j output (t.read (text.suffix i)) := by
  cases t with
  | literal c => exact literal_reads c j output
  | fourDigitYear => exact fourDigitYear_reads j output
  | twoDigitYear => exact twoDigitYear_reads j output
  | month => exact twoDigitField_reads .month 1 12 j output
  | monthName => exact monthName_reads j output
  | day => exact twoDigitField_reads .day 1 31 j output
  | paddedDay => exact paddedDay_reads j output
  | hour capital => exact twoDigitField_reads .hour 0 23 j output
  | minute => exact twoDigitField_reads .minute 0 59 j output
  | second => exact second_reads j output
  | variableSecond => exact variableSecond_reads j output
  | fraction n => exact fraction_reads (hdigits n rfl) hi j output
  | variableFraction => exact variableFraction_reads j output
  | utcDesignator => exact utcDesignator_reads j output
  | utcOffset withColon => exact utcOffset_reads withColon j output

end Eestv
