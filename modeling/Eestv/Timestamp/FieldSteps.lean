import Eestv.Timestamp.Token

/-! The parser steps of fixed width, month names and padded days do what the token
table says: they accept exactly the texts their token reads, jump over what was
read, and set the token's field. A step that fails changes nothing. -/

namespace Eestv
open Decimal StringView

def StepResult.ofRead (indexJump : ℤ) (output : DateAndTime) :
    Option (ℕ × Update) → StepResult
  | some (n, u) => ⟨true, n, u.apply output⟩
  | none => ⟨false, indexJump, output⟩

variable {text : StringView} {i : ℕ}

theorem isDigit_eq (c : Char) : isDigit c = c.isDigit := rfl

theorem digitValue_eq (c : Char) : digitValue c = digit c := rfl

@[simp] theorem readDigits_zero (cs : List Char) : readDigits 0 cs = some 0 := by
  rw [readDigits, List.take_zero, if_pos ⟨Nat.zero_le _, fun _ h => absurd h List.not_mem_nil⟩]
  rfl

@[simp] theorem readDigits_nil (n : ℕ) : readDigits (n + 1) [] = none := if_neg (by simp)

theorem readDigits_cons (n : ℕ) (c : Char) (cs : List Char) :
    readDigits (n + 1) (c :: cs) =
      if c.isDigit then (readDigits n cs).map fun v => digit c * 10 ^ n + v else none := by
  rw [readDigits, readDigits, List.take_succ_cons, List.length_cons]
  have hiff : Digits (c :: cs.take n) ↔ c.isDigit = true ∧ Digits (cs.take n) :=
    List.forall_mem_cons
  by_cases hc : c.isDigit = true
  · by_cases h : n ≤ cs.length ∧ Digits (cs.take n)
    · rw [if_pos ⟨Nat.succ_le_succ h.1, hiff.mpr ⟨hc, h.2⟩⟩, if_pos hc, if_pos h, value_cons,
        List.length_take_of_le h.1]
      rfl
    · rw [if_neg (fun h' => h ⟨Nat.le_of_succ_le_succ h'.1, (hiff.mp h'.2).2⟩), if_pos hc, if_neg h]
      rfl
  · rw [if_neg (fun h' => hc (hiff.mp h'.2).1), if_neg hc]

theorem readDigits_short {n : ℕ} {cs : List Char} (h : cs.length < n) : readDigits n cs = none :=
  if_neg fun h' => absurd h'.1 (Nat.not_le.mpr h)

/-! ### Digits and single characters -/

theorem tryParseTwoDigits_eq (text : StringView) (i : ℕ) :
    tryParseTwoDigits text i = readDigits 2 (text.suffix i) := by
  rcases Nat.lt_or_ge (i + 1) text.size with h | h
  · rw [tryParseTwoDigits, if_neg (by omega), suffix_of_lt (by omega : i < text.size),
      suffix_of_lt h]
    simp only [readDigits_cons, readDigits_zero, isDigit_eq, digitValue_eq, Int.natCast_add,
      Int.natCast_one]
    by_cases ha : (text.data i).isDigit <;> by_cases hb : (text.data (i + 1)).isDigit <;>
      simp [ha, hb]
  · rw [tryParseTwoDigits, if_pos (by omega), readDigits_short (by rw [suffix_length]; omega)]

theorem tryParseTwoDigits_add (text : StringView) (i k : ℕ) :
    tryParseTwoDigits text (i + k) = readDigits 2 ((text.suffix i).drop k) := by
  rw [suffix_drop, ← tryParseTwoDigits_eq, Int.natCast_add]

theorem tryParseFourDigits_eq (text : StringView) (i : ℕ) :
    tryParseFourDigits text i = (readDigits 4 (text.suffix i)).map fun n : ℕ => (n : ℤ) := by
  rcases Nat.lt_or_ge (i + 3) text.size with h | h
  · rw [tryParseFourDigits, if_neg (by omega), suffix_of_lt (by omega : i < text.size),
      suffix_of_lt (by omega : i + 1 < text.size), suffix_of_lt (by omega : i + 2 < text.size),
      suffix_of_lt h]
    simp only [readDigits_cons, readDigits_zero, isDigit_eq, digitValue_eq, Int.natCast_add,
      Int.cast_ofNat_Int]
    by_cases ha : (text.data i).isDigit <;> by_cases hb : (text.data (i + 1)).isDigit <;>
      by_cases hc : (text.data (i + 2)).isDigit <;> by_cases hd : (text.data (i + 3)).isDigit <;>
      simp [ha, hb, hc, hd]
    omega
  · rw [tryParseFourDigits, if_pos (by omega), readDigits_short (by rw [suffix_length]; omega)]
    rfl

theorem literal_reads (c : Char) (j : ℤ) (output : DateAndTime) :
    makeSeparatorParser c text i j output =
      .ofRead j output ((Token.literal c).read (text.suffix i)) := by
  rw [makeSeparatorParser, Token.read]
  rcases Nat.lt_or_ge i text.size with h | h
  · rw [if_neg (by omega), suffix_of_lt h, List.head?_cons]
    by_cases hc : text.data i = c
    · rw [if_neg (not_not.mpr hc), if_pos (congrArg some hc)]
      rfl
    · rw [if_pos hc, if_neg (fun h' => hc (Option.some.inj h'))]
      rfl
  · rw [if_pos (by omega), suffix_eq_nil.mpr h, if_neg (by simp)]
    rfl

theorem utcDesignator_reads (j : ℤ) (output : DateAndTime) :
    makeUtcDesignatorParser text i j output =
      .ofRead j output (Token.utcDesignator.read (text.suffix i)) := by
  rw [makeUtcDesignatorParser, Token.read]
  rcases Nat.lt_or_ge i text.size with h | h
  · rw [if_neg (by omega), suffix_of_lt h, List.head?_cons]
    by_cases hz : text.data i = 'Z' ∨ text.data i = 'z'
    · rw [if_neg (by tauto), if_pos (by simpa using hz)]
      rfl
    · rw [if_pos (by tauto), if_neg (by simpa using hz)]
      rfl
  · rw [if_pos (by omega), suffix_eq_nil.mpr h, if_neg (by simp)]
    rfl

/-! ### Fields of two and four digits -/

theorem twoDigitYear_reads (j : ℤ) (output : DateAndTime) :
    makeTwoDigitYearParser text i j output =
      .ofRead j output (Token.twoDigitYear.read (text.suffix i)) := by
  rw [makeTwoDigitYearParser, tryParseTwoDigits_eq, Token.read]
  cases readDigits 2 (text.suffix i) <;> rfl

theorem fourDigitYear_reads (j : ℤ) (output : DateAndTime) :
    makeFourDigitYearParser text i j output =
      .ofRead j output (Token.fourDigitYear.read (text.suffix i)) := by
  rw [makeFourDigitYearParser, tryParseFourDigits_eq, Token.read]
  cases readDigits 4 (text.suffix i) <;> rfl

def UnsignedField.update : UnsignedField → ℕ → Update
  | .month => .month
  | .day => .day
  | .hour => .hour
  | .minute => .minute

theorem readBetween_of_some {low high n : ℕ} {cs : List Char} (h : readDigits 2 cs = some n) :
    readBetween low high cs = if n < low ∨ n > high then none else some n := by
  rw [readBetween, h, Option.filter_some]
  by_cases hn : n < low ∨ n > high
  · rw [if_pos hn, if_neg]
    simp only [Bool.and_eq_true, decide_eq_true_eq]
    omega
  · rw [if_neg hn, if_pos]
    simp only [Bool.and_eq_true, decide_eq_true_eq]
    omega

theorem readBetween_of_none {low high : ℕ} {cs : List Char} (h : readDigits 2 cs = none) :
    readBetween low high cs = none := by rw [readBetween, h]; rfl

theorem twoDigitField_reads (field : UnsignedField) (low high : ℕ) (j : ℤ)
    (output : DateAndTime) :
    makeTwoDigitFieldParser field low high text i j output =
      .ofRead j output
        ((readBetween low high (text.suffix i)).map fun n => (2, field.update n)) := by
  rw [makeTwoDigitFieldParser, tryParseTwoDigits_eq]
  cases hn : readDigits 2 (text.suffix i) with
  | none =>
    rw [readBetween_of_none hn]
    rfl
  | some n =>
    rw [readBetween_of_some hn]
    dsimp only
    split
    · rfl
    · cases field <;> rfl

theorem second_reads (j : ℤ) (output : DateAndTime) :
    makeSecondParser text i j output =
      .ofRead j output (Token.second.read (text.suffix i)) := by
  rw [makeSecondParser, tryParseTwoDigits_eq, Token.read]
  cases hn : readDigits 2 (text.suffix i) with
  | none =>
    rw [readBetween_of_none hn]
    rfl
  | some n =>
    rw [readBetween_of_some hn]
    by_cases h : n > 60
    · rw [if_pos (Or.inr h)]
      exact if_pos h
    · rw [if_neg (by omega)]
      exact if_neg h

/-! ### Month names and padded days -/

theorem ite_some_eq {p : Prop} [Decidable p] {k : ℕ} {f : ℕ → ℕ} {x r : Option ℕ} (hk : f 0 = k)
    (h : x = r.map (f ∘ (· + 1))) :
    (if p then some k else x) = (if p then some 0 else r.map (· + 1)).map f := by
  split
  · rw [Option.map_some, hk]
  · rw [h, Option.map_map]

theorem monthOfName_eq (a b c : Char) :
    monthOfName a b c = (monthNames.idxOf? [a, b, c]).map (· + 1) := by
  have hstep (x y z : Char) (rest : List (List Char)) : ([x, y, z] :: rest).idxOf? [a, b, c] =
      if a = x ∧ b = y ∧ c = z then some 0 else (rest.idxOf? [a, b, c]).map (· + 1) := by
    rw [List.idxOf?_cons]
    refine ite_congr ?_ (fun _ => rfl) (fun _ => rfl)
    simp only [beq_iff_eq, List.cons.injEq, and_true]
    exact propext ⟨fun ⟨ha, hb, hc⟩ => ⟨ha.symm, hb.symm, hc.symm⟩,
      fun ⟨ha, hb, hc⟩ => ⟨ha.symm, hb.symm, hc.symm⟩⟩
  rw [show monthNames = [['j', 'a', 'n'], ['f', 'e', 'b'], ['m', 'a', 'r'], ['a', 'p', 'r'],
    ['m', 'a', 'y'], ['j', 'u', 'n'], ['j', 'u', 'l'], ['a', 'u', 'g'], ['s', 'e', 'p'],
    ['o', 'c', 't'], ['n', 'o', 'v'], ['d', 'e', 'c']] from rfl]
  simp only [hstep, List.idxOf?_nil]
  unfold monthOfName
  repeat first | refine ite_some_eq rfl ?_ | rfl

theorem toLowerAscii_eq (c : Char) : toLowerAscii c = c.toLower := by
  unfold toLowerAscii
  by_cases h : c.val ≥ 'A'.val ∧ c.val ≤ 'Z'.val
  · have hlow : 65 ≤ c.val.toNat := UInt32.le_iff_toNat_le.mp h.1
    have hhigh : c.val.toNat ≤ 90 := UInt32.le_iff_toNat_le.mp h.2
    have hnat : c.toLower.toNat = c.toNat - 'A'.toNat + 'a'.toNat := by
      unfold Char.toLower
      rw [dif_pos h]
      change (c.val + 32).toNat = c.val.toNat - 65 + 97
      rw [UInt32.toNat_add]
      change (c.val.toNat + 32) % 2 ^ 32 = _
      omega
    rw [if_pos (show c ≥ 'A' ∧ c ≤ 'Z' from h), ← hnat, Char.ofNat_toNat]
  · rw [if_neg (show ¬ (c ≥ 'A' ∧ c ≤ 'Z') from h)]
    unfold Char.toLower
    rw [dif_neg h]

theorem monthName_reads (j : ℤ) (output : DateAndTime) :
    makeMonthNameParser text i j output =
      .ofRead j output (Token.monthName.read (text.suffix i)) := by
  rw [makeMonthNameParser, Token.read, readMonthName]
  rcases Nat.lt_or_ge (i + 2) text.size with h | h
  · rw [if_neg (by omega), suffix_of_lt (by omega : i < text.size),
      suffix_of_lt (by omega : i + 1 < text.size), suffix_of_lt h]
    simp only [List.take_succ_cons, List.take_zero, List.map_cons, List.map_nil, toLowerAscii_eq,
      monthOfName_eq, Int.natCast_add, Int.cast_ofNat_Int]
    cases monthNames.idxOf? _ <;> rfl
  · rw [if_pos (by omega)]
    have hlen : (((text.suffix i).take 3).map Char.toLower).length < 3 := by
      rw [List.length_map, List.length_take, suffix_length]
      omega
    rw [show monthNames.idxOf? (((text.suffix i).take 3).map Char.toLower) = none from ?_]
    · rfl
    · rw [List.idxOf?_eq_none_iff]
      intro hmem
      have hthree : ∀ name ∈ monthNames, name.length = 3 := by decide
      rw [hthree _ hmem] at hlen
      omega

theorem ofRead_day (n day : ℕ) (j : ℤ) (output : DateAndTime) :
    StepResult.ofRead j output (((some (n, day)).filter fun r => 1 ≤ r.2 && r.2 ≤ 31).map
        fun r => (r.1, .day r.2)) =
      if day < 1 ∨ day > 31 then ⟨false, j, output⟩
      else ⟨true, n, { output with day := day }⟩ := by
  rw [Option.filter_some]
  by_cases h : day < 1 ∨ day > 31
  · rw [if_pos h, if_neg (by simp only [Bool.and_eq_true, decide_eq_true_eq]; omega)]
    rfl
  · rw [if_neg h, if_pos (by simp only [Bool.and_eq_true, decide_eq_true_eq]; omega)]
    rfl

theorem toUnsigned_two_digits {a b : Char} (ha : a.isDigit) (hb : b.isDigit) :
    toUnsigned (digit a * 10 + digit b) = digit a * 10 + digit b := by
  have hlta := digit_lt ha
  have hltb := digit_lt hb
  exact Nat.mod_eq_of_lt (by omega)

theorem paddedDayAt_space (text : StringView) (i : ℕ) :
    paddedDayAt text i (i + 1) =
      (readDigits 1 (text.suffix (i + 1))).map fun day => (day, (i + 2 : ℤ)) := by
  unfold paddedDayAt
  rcases Nat.lt_or_ge (i + 1) text.size with h | h
  · have hjump : (i : ℤ) + 1 + 1 - i = 2 := by omega
    have hnext : (i : ℤ) + 1 + 1 = i + 2 := by omega
    rw [suffix_of_lt h, readDigits_cons, readDigits_zero, Int.natCast_add, Int.natCast_one]
    by_cases hd : (text.data (i + 1)).isDigit
    · have hok : ¬ ((i : ℤ) + 1 ≥ text.size ∨ (!isDigit (text.data (i + 1))) = true) := by
        simp only [isDigit_eq, hd, Bool.not_true, Bool.false_eq_true, or_false]
        omega
      rw [if_neg hok, if_pos hd]
      dsimp only
      rw [decide_eq_true hjump, Bool.not_true, Bool.false_and, Bool.false_and,
        if_neg Bool.false_ne_true, hnext, Nat.pow_zero, Nat.mul_one]
      rfl
    · rw [if_pos (Or.inr (by rw [isDigit_eq]; simpa using hd)), if_neg hd]
      rfl
  · rw [if_pos (Or.inl (by omega)), suffix_eq_nil.mpr h, readDigits_nil]
    rfl

theorem paddedDayAt_digits (text : StringView) (i : ℕ) :
    paddedDayAt text i i =
      ((readDigits 2 (text.suffix i)).map fun day => (day, (i + 2 : ℤ))).or
        ((readDigits 1 (text.suffix i)).map fun day => (day, (i + 1 : ℤ))) := by
  unfold paddedDayAt
  rcases Nat.lt_or_ge i text.size with h | h
  · have hjump : ¬ (i : ℤ) + 1 - i = 2 := by omega
    have hnext : (i : ℤ) + 1 + 1 = i + 2 := by omega
    rw [suffix_of_lt h, readDigits_cons, readDigits_cons, readDigits_zero]
    by_cases hd : (text.data i).isDigit
    · have hok : ¬ ((i : ℤ) ≥ text.size ∨ (!isDigit (text.data i)) = true) := by
        simp only [isDigit_eq, hd, Bool.not_true, Bool.false_eq_true, or_false]
        omega
      rw [if_neg hok, if_pos hd, if_pos hd]
      dsimp only
      rw [decide_eq_false hjump, Bool.not_false, Bool.true_and,
        hnext]
      rcases Nat.lt_or_ge (i + 1) text.size with h1 | h1
      · rw [suffix_of_lt h1, readDigits_cons, readDigits_zero, Int.natCast_add, Int.natCast_one]
        by_cases hd1 : (text.data (i + 1)).isDigit
        · have hmore :
              (decide ((i : ℤ) + 1 < text.size) && isDigit (text.data (i + 1))) = true := by
            simp only [isDigit_eq, hd1, Bool.and_true, decide_eq_true_eq]
            omega
          -- two digits
          rw [if_pos hmore, if_pos hd1, digitValue_eq, digitValue_eq, toUnsigned_two_digits hd hd1]
          simp only [Option.map_some, Option.some_or, Nat.pow_one, Nat.pow_zero, Nat.mul_one,
            Nat.add_zero]
        · have hmore :
              ¬ (decide ((i : ℤ) + 1 < text.size) && isDigit (text.data (i + 1))) = true := by
            simp only [isDigit_eq, hd1, Bool.and_false, Bool.false_eq_true, not_false_eq_true]
          -- one digit in front of something else
          rw [if_neg hmore, if_neg hd1]
          simp only [Option.map_none, Option.none_or, Option.map_some, Nat.pow_zero, Nat.mul_one,
            Nat.add_zero, digitValue_eq]
      · have hmore :
            ¬ (decide ((i : ℤ) + 1 < text.size) && isDigit (text.data (i + 1))) = true := by
          simp only [Bool.and_eq_true, decide_eq_true_eq]
          omega
        -- one digit at the end of the text
        rw [if_neg hmore, suffix_eq_nil.mpr h1, readDigits_nil]
        simp only [Option.map_none, Option.none_or, Option.map_some, Nat.pow_zero, Nat.mul_one,
          Nat.add_zero, digitValue_eq]
    · rw [if_pos (Or.inr (by rw [isDigit_eq]; simpa using hd)), if_neg hd, if_neg hd]
      rfl
  · rw [if_pos (Or.inl (by omega)), suffix_eq_nil.mpr h, readDigits_nil, readDigits_nil]
    rfl

theorem paddedDay_reads (j : ℤ) (output : DateAndTime) :
    makePaddedDayParser text i j output =
      .ofRead j output (Token.paddedDay.read (text.suffix i)) := by
  rw [makePaddedDayParser, Token.read, readPaddedDay]
  rcases Nat.lt_or_ge i text.size with h | h
  · rw [if_neg (by omega), suffix_of_lt h, List.head?_cons, List.tail_cons]
    have htwo : (i : ℤ) + 2 - i = 2 := by omega
    have hone : (i : ℤ) + 1 - i = 1 := by omega
    by_cases hspace : text.data i = ' '
    · rw [if_pos hspace, if_pos (congrArg some hspace)]
      dsimp only
      rw [paddedDayAt_space]
      cases readDigits 1 (text.suffix (i + 1)) with
      | none => rfl
      | some day =>
        rw [Option.map_some, Option.map_some, ofRead_day]
        dsimp only
        rw [htwo]
        rfl
    · rw [if_neg hspace, if_neg (fun h' => hspace (Option.some.inj h')), ← suffix_of_lt h]
      dsimp only
      rw [paddedDayAt_digits]
      cases readDigits 2 (text.suffix i) with
      | some day =>
        rw [Option.map_some, Option.map_some, Option.some_or, Option.some_or, ofRead_day]
        dsimp only
        rw [htwo]
        rfl
      | none =>
        rw [Option.map_none, Option.map_none, Option.none_or, Option.none_or]
        cases readDigits 1 (text.suffix i) with
        | none => rfl
        | some day =>
          rw [Option.map_some, Option.map_some, ofRead_day]
          dsimp only
          rw [hone]
          rfl
  · rw [if_pos (by omega), suffix_eq_nil.mpr h]
    rfl

end Eestv
