import Eestv.Timestamp.TokenRun

/-! The spellings of a result under a token, and that reading a spelling gives
the result's field back. -/

namespace Eestv
open Decimal

namespace Token

/-- The ranges of the token table for the field of a token. -/
def Admits (d : DateAndTime) : Token → Prop
  | literal _ => True
  | fourDigitYear => 0 ≤ d.year ∧ d.year ≤ 9999
  | twoDigitYear => 2000 ≤ d.year ∧ d.year ≤ 2099
  | month | monthName => 1 ≤ d.month ∧ d.month ≤ 12
  | day | paddedDay => 1 ≤ d.day ∧ d.day ≤ 31
  | hour _ => d.hour ≤ 23
  | minute => d.minute ≤ 59
  | second => d.second ≤ 60
  | variableSecond => d.second < 2 ^ 32
  | fraction digits => d.nanosecond ≤ 999999999 ∧ 10 ^ (9 - digits) ∣ d.nanosecond
  | variableFraction => d.nanosecond ≤ 999999999
  | utcDesignator => d.utcOffsetMinutes = some 0
  | utcOffset _ => ∃ minutes, d.utcOffsetMinutes = some minutes ∧ -1439 ≤ minutes ∧ minutes ≤ 1439

def Spelling (d : DateAndTime) : Token → List Char → Prop
  | literal c, piece => piece = [c]
  | fourDigitYear, piece => piece = padded 4 d.year.toNat
  | twoDigitYear, piece => piece = padded 2 (d.year.toNat % 100)
  | month, piece => piece = padded 2 d.month
  | monthName, piece => monthNames[d.month - 1]? = some (piece.map Char.toLower)
  | day, piece => piece = padded 2 d.day
  | paddedDay, piece => piece = padded 2 d.day ∨
      d.day < 10 ∧ (piece = ' ' :: padded 1 d.day ∨ piece = padded 1 d.day)
  | hour _, piece => piece = padded 2 d.hour
  | minute, piece => piece = padded 2 d.minute
  | second, piece => piece = padded 2 d.second
  | variableSecond, piece => piece ≠ [] ∧ Digits piece ∧ value piece = d.second
  | fraction digits, piece => piece = padded digits (d.nanosecond / 10 ^ (9 - digits))
  | variableFraction, piece => piece ≠ [] ∧ Digits piece ∧
      value (piece.take 9) * 10 ^ (9 - piece.length) = d.nanosecond
  | utcDesignator, piece => piece = ['Z'] ∨ piece = ['z']
  | utcOffset withColon, piece => ∃ sign hours minutes, hours ≤ 23 ∧ minutes ≤ 59 ∧
      (sign = '+' ∧ d.utcOffsetMinutes = some ((hours * 60 + minutes : ℕ) : ℤ) ∨
        sign = '-' ∧ d.utcOffsetMinutes = some (-((hours * 60 + minutes : ℕ) : ℤ))) ∧
      piece = sign :: (padded 2 hours ++ (if withColon then [':'] else []) ++ padded 2 minutes)

/-- No digit may come next where it would be read along. -/
def Delimited (piece rest : List Char) : Token → Prop
  | variableSecond | variableFraction => ∀ c ∈ rest.head?, c.isDigit = false
  | paddedDay => piece.length = 1 → ∀ c ∈ rest.head?, c.isDigit = false
  | _ => True

def update (d : DateAndTime) : Token → Update
  | literal _ => .keep
  | fourDigitYear | twoDigitYear => .year d.year
  | month | monthName => .month d.month
  | day | paddedDay => .day d.day
  | hour _ => .hour d.hour
  | minute => .minute d.minute
  | second | variableSecond => .second d.second
  | fraction _ | variableFraction => .nanosecond d.nanosecond
  | utcDesignator => .utcOffset 0
  | utcOffset _ => .utcOffset (d.utcOffsetMinutes.getD 0)

end Token

theorem readDigits_padded {n v : ℕ} (hv : v < 10 ^ n) (rest : List Char) :
    readDigits n (padded n v ++ rest) = some v := by
  rw [readDigits_eq_some, List.take_left' (padded_length n v), List.length_append, padded_length]
  exact ⟨Nat.le_add_right _ _, padded_digits n v, value_padded hv⟩

theorem readBetween_padded {low high v : ℕ} (hlow : low ≤ v) (hhigh : v ≤ high) (h : high < 100)
    (rest : List Char) : readBetween low high (padded 2 v ++ rest) = some v :=
  readBetween_eq_some.mpr ⟨readDigits_padded (by omega) rest, hlow, hhigh⟩

theorem readMonthName_name {piece : List Char} {month : ℕ} (hpos : 1 ≤ month)
    (h : monthNames[month - 1]? = some (piece.map Char.toLower)) (rest : List Char) :
    piece.length = 3 ∧ readMonthName (piece ++ rest) = some month := by
  obtain ⟨hlt, hget⟩ := List.getElem?_eq_some_iff.mp h
  have hthree : ∀ name ∈ monthNames, name.length = 3 := by decide
  have hindex : ∀ k, ∀ hk : k < monthNames.length, monthNames.idxOf? monthNames[k] = some k := by
    decide
  have hlen : piece.length = 3 := by
    rw [← List.length_map Char.toLower, ← hget]
    exact hthree _ (List.getElem_mem hlt)
  refine ⟨hlen, ?_⟩
  rw [readMonthName, List.take_left' hlen, ← hget, hindex _ hlt, Option.map_some,
    Nat.sub_add_cancel hpos]

theorem padded_one {n : ℕ} (h : n < 10) : padded 1 n = [Nat.digitChar n] := by
  rw [padded, padded, Nat.mod_eq_of_lt h]
  rfl

theorem digitChar_ne_space {n : ℕ} (h : n < 10) : Nat.digitChar n ≠ ' ' := by
  intro he
  have hdigit := Nat.isDigit_digitChar (n := n)
  rw [he, decide_eq_true h] at hdigit
  exact absurd hdigit (by decide)

theorem padded_two (n : ℕ) :
    padded 2 n = [Nat.digitChar (n / 10 % 10), Nat.digitChar (n % 10)] := rfl

theorem readPaddedDay_spelling {d : DateAndTime} {piece rest : List Char}
    (hday : 1 ≤ d.day ∧ d.day ≤ 31) (h : Token.paddedDay.Spelling d piece)
    (hnext : Token.paddedDay.Delimited piece rest) :
    readPaddedDay (piece ++ rest) = some (piece.length, d.day) := by
  rw [readPaddedDay, Option.filter_eq_some_iff, Bool.and_eq_true, decide_eq_true_eq,
    decide_eq_true_eq]
  refine ⟨?_, hday⟩
  rcases h with rfl | ⟨hlt, rfl | rfl⟩
  · have hspace : (padded 2 d.day ++ rest).head? ≠ some ' ' := by
      rw [padded_two]
      exact fun he => digitChar_ne_space (Nat.mod_lt _ (by decide)) (Option.some.inj he)
    rw [if_neg hspace, readDigits_padded (by omega), padded_length]
    rfl
  · rw [List.cons_append, List.head?_cons, if_pos rfl, List.tail_cons,
      readDigits_padded (by omega), List.length_cons, padded_length]
    rfl
  · have hspace : (padded 1 d.day ++ rest).head? ≠ some ' ' := by
      rw [padded_one hlt]
      exact fun he => digitChar_ne_space hlt (Option.some.inj he)
    -- the character behind the digit is none, so no second digit is read
    have hone : readDigits 2 (padded 1 d.day ++ rest) = none := by
      rw [padded_one hlt, List.singleton_append]
      cases rest with
      | nil => exact readDigits_short (Nat.lt_succ_self 1)
      | cons c rest =>
        have hc : c.isDigit = false := hnext (padded_length 1 _) c rfl
        rw [readDigits_cons, readDigits_cons, hc]
        simp
    rw [if_neg hspace, hone, readDigits_padded (by omega), padded_length]
    rfl

theorem readOffset_spelling {d : DateAndTime} {withColon : Bool} {piece : List Char}
    (h : (Token.utcOffset withColon).Spelling d piece) (rest : List Char) :
    piece.length = (if withColon then 6 else 5) ∧
      readOffset withColon (piece ++ rest) = some (d.utcOffsetMinutes.getD 0) := by
  obtain ⟨sign, hours, minutes, hhours, hminutes, hsign, rfl⟩ := h
  have hh (cs : List Char) := readBetween_padded (Nat.zero_le hours) hhours (by decide) cs
  have hm := readBetween_padded (Nat.zero_le minutes) hminutes (by decide) rest
  rw [padded_two] at hh hm
  rw [readOffset, padded_two, padded_two]
  cases withColon <;> refine ⟨rfl, ?_⟩ <;>
    simp only [List.cons_append, List.nil_append, List.head?_cons, List.getElem?_cons_succ,
      List.getElem?_cons_zero, List.drop_succ_cons, List.drop_zero, Bool.false_eq_true, false_and,
      if_false, if_true, ne_eq, not_true_eq_false, and_false] at hh hm ⊢ <;>
    rcases hsign with ⟨rfl, hoff⟩ | ⟨rfl, hoff⟩ <;>
    simp [hh, hm, hoff]

theorem Token.read_spelling {t : Token} {d : DateAndTime} {piece rest : List Char}
    (hdigits : ∀ n, t = .fraction n → n ≤ 9) (hd : t.Admits d) (h : t.Spelling d piece)
    (hnext : t.Delimited piece rest) :
    t.read (piece ++ rest) = some (piece.length, t.update d) := by
  cases t with
  | literal c =>
    obtain rfl : piece = [c] := h
    exact if_pos rfl
  | fourDigitYear =>
    obtain rfl : piece = padded 4 d.year.toNat := h
    obtain ⟨hpos, hle⟩ : 0 ≤ d.year ∧ d.year ≤ 9999 := hd
    rw [read, readDigits_padded (by omega), padded_length, Option.map_some,
      Int.toNat_of_nonneg hpos]
    rfl
  | twoDigitYear =>
    obtain rfl : piece = padded 2 (d.year.toNat % 100) := h
    obtain ⟨hge, hle⟩ : 2000 ≤ d.year ∧ d.year ≤ 2099 := hd
    have hyear : (2000 : ℤ) + ((d.year.toNat % 100 : ℕ) : ℤ) = d.year := by omega
    rw [read, readDigits_padded (by omega), padded_length, Option.map_some, hyear]
    rfl
  | month =>
    obtain rfl : piece = padded 2 d.month := h
    rw [read, readBetween_padded hd.1 hd.2 (by decide), padded_length]
    rfl
  | monthName =>
    obtain ⟨hlen, hread⟩ := readMonthName_name hd.1 h rest
    rw [read, hread, hlen]
    rfl
  | day =>
    obtain rfl : piece = padded 2 d.day := h
    rw [read, readBetween_padded hd.1 hd.2 (by decide), padded_length]
    rfl
  | paddedDay =>
    rw [read, readPaddedDay_spelling hd h hnext]
    rfl
  | hour capital =>
    obtain rfl : piece = padded 2 d.hour := h
    rw [read, readBetween_padded (Nat.zero_le _) hd (by decide), padded_length]
    rfl
  | minute =>
    obtain rfl : piece = padded 2 d.minute := h
    rw [read, readBetween_padded (Nat.zero_le _) hd (by decide), padded_length]
    rfl
  | second =>
    obtain rfl : piece = padded 2 d.second := h
    rw [read, readBetween_padded (Nat.zero_le _) hd (by decide), padded_length]
    rfl
  | variableSecond =>
    obtain ⟨hne, hall, hval⟩ := h
    rw [read, takeWhile_isDigit hall hnext, hval, if_pos ⟨hne, hd⟩]
    rfl
  | fraction n =>
    obtain rfl : piece = padded n (d.nanosecond / 10 ^ (9 - n)) := h
    obtain ⟨hle, hdvd⟩ : d.nanosecond ≤ 999999999 ∧ 10 ^ (9 - n) ∣ d.nanosecond := hd
    have hlt : d.nanosecond / 10 ^ (9 - n) < 10 ^ n := by
      refine Nat.div_lt_of_lt_mul ?_
      rw [← Nat.pow_add, Nat.sub_add_cancel (hdigits n rfl)]
      omega
    rw [read, readDigits_padded hlt, padded_length, Option.map_some, Nat.div_mul_cancel hdvd]
    rfl
  | variableFraction =>
    obtain ⟨hne, hall, hval⟩ := h
    rw [read, takeWhile_isDigit hall hnext, if_pos hne, hval]
    rfl
  | utcDesignator =>
    rcases h with rfl | rfl
    · rw [read, List.singleton_append, List.head?_cons, if_pos (Or.inl rfl)]
      rfl
    · rw [read, List.singleton_append, List.head?_cons, if_pos (Or.inr rfl)]
      rfl
  | utcOffset withColon =>
    obtain ⟨hlen, hread⟩ := readOffset_spelling h rest
    rw [read, hread, hlen]
    rfl

end Eestv
