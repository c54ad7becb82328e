import Mathlib.Algebra.Ring.Nat
import Mathlib.Data.List.Induction

/-! Decimal numerals as lists of characters: the number a digit string denotes,
and the digit string of a given width for a number. -/

namespace Decimal

def digit (c : Char) : ℕ := c.toNat - '0'.toNat

def extend (n : ℕ) (cs : List Char) : ℕ := Nat.ofDigitChars 10 cs n

def value (cs : List Char) : ℕ := extend 0 cs

def padded : ℕ → ℕ → List Char
  | 0, _ => []
  | width + 1, n => padded width (n / 10) ++ [Nat.digitChar (n % 10)]

def Digits (cs : List Char) : Prop := ∀ c ∈ cs, c.isDigit = true

instance (cs : List Char) : Decidable (Digits cs) :=
  inferInstanceAs (Decidable (∀ c ∈ cs, c.isDigit = true))

theorem digit_lt {c : Char} (h : c.isDigit = true) : digit c < 10 := by
  obtain ⟨-, hle⟩ := Char.isDigit_iff_toNat.mp h
  have hnine : '9'.toNat = 57 := rfl
  have hzero : '0'.toNat = 48 := rfl
  rw [digit]
  omega

@[simp] theorem extend_nil (n : ℕ) : extend n [] = n := Nat.ofDigitChars_nil

theorem extend_cons (n : ℕ) (c : Char) (cs : List Char) :
    extend n (c :: cs) = extend (n * 10 + digit c) cs := by
  rw [extend, Nat.ofDigitChars_cons, Nat.mul_comm]
  rfl

theorem extend_eq (n : ℕ) (cs : List Char) : extend n cs = n * 10 ^ cs.length + value cs := by
  rw [extend, Nat.ofDigitChars_eq_ofDigitChars_zero, Nat.mul_comm]
  rfl

theorem le_extend (n : ℕ) (cs : List Char) : n ≤ extend n cs := by
  induction cs generalizing n with
  | nil => exact Nat.le_of_eq (extend_nil n).symm
  | cons c cs ih =>
    have h := ih (n * 10 + digit c)
    rw [extend_cons]
    omega

theorem value_append (xs ys : List Char) : value (xs ++ ys) = extend (value xs) ys :=
  Nat.ofDigitChars_append 0

theorem value_snoc (cs : List Char) (c : Char) : value (cs ++ [c]) = value cs * 10 + digit c := by
  rw [value_append, extend_cons, extend_nil]

theorem value_cons (c : Char) (cs : List Char) :
    value (c :: cs) = digit c * 10 ^ cs.length + value cs := by
  rw [value, extend_cons, extend_eq, Nat.zero_mul, Nat.zero_add]

theorem value_lt {cs : List Char} (h : Digits cs) : value cs < 10 ^ cs.length := by
  induction cs using List.reverseRecOn with
  | nil => exact Nat.one_pos
  | append_singleton cs c ih =>
    have hc := digit_lt (h c (List.mem_append_right _ List.mem_cons_self))
    have hcs := ih fun d hd => h d (List.mem_append_left _ hd)
    rw [value_snoc, List.length_append, List.length_singleton, Nat.pow_succ]
    omega

@[simp] theorem padded_length (width n : ℕ) : (padded width n).length = width := by
  induction width generalizing n with
  | zero => rfl
  | succ width ih => rw [padded, List.length_append, ih, List.length_singleton]

theorem padded_digits (width n : ℕ) : Digits (padded width n) := by
  induction width generalizing n with
  | zero => exact fun _ h => absurd h List.not_mem_nil
  | succ width ih =>
    intro c hc
    rcases List.mem_append.mp hc with hc | hc
    · exact ih _ c hc
    · rw [List.mem_singleton.mp hc, Nat.isDigit_digitChar]
      exact decide_eq_true (Nat.mod_lt n (by decide))

theorem value_padded {width n : ℕ} (h : n < 10 ^ width) : value (padded width n) = n := by
  induction width generalizing n with
  | zero => exact (Nat.lt_one_iff.mp h).symm
  | succ width ih =>
    have hdigit : digit (Nat.digitChar (n % 10)) = n % 10 :=
      Nat.toNat_digitChar_sub_48_of_lt_ten (Nat.mod_lt n (by decide))
    have hdiv : n / 10 < 10 ^ width := Nat.div_lt_of_lt_mul (by rwa [Nat.mul_comm, ← Nat.pow_succ])
    rw [padded, value_snoc, hdigit, ih hdiv]
    exact Nat.div_add_mod' n 10

theorem digitChar_digit {c : Char} (h : c.isDigit = true) : Nat.digitChar (digit c) = c := by
  obtain ⟨hge, -⟩ := Char.isDigit_iff_toNat.mp h
  have hzero : '0'.toNat = 48 := rfl
  rw [← Char.toNat_inj, Nat.toNat_digitChar_of_lt_ten (digit_lt h), digit]
  omega

theorem padded_value {cs : List Char} (h : Digits cs) : padded cs.length (value cs) = cs := by
  induction cs using List.reverseRecOn with
  | nil => rfl
  | append_singleton cs c ih =>
    have hc := h c (List.mem_append_right _ List.mem_cons_self)
    have hlt := digit_lt hc
    have hdiv : value (cs ++ [c]) / 10 = value cs := by
      rw [value_snoc]
      omega
    have hmod : value (cs ++ [c]) % 10 = digit c := by
      rw [value_snoc]
      omega
    rw [List.length_append, List.length_singleton, padded, hdiv, hmod, digitChar_digit hc,
      ih fun d hd => h d (List.mem_append_left _ hd)]

theorem takeWhile_isDigit {ds rest : List Char} (hds : Digits ds)
    (hrest : ∀ c ∈ rest.head?, c.isDigit = false) :
    (ds ++ rest).takeWhile Char.isDigit = ds := by
  rw [List.takeWhile_append_of_pos hds]
  cases rest with
  | nil => rw [List.takeWhile_nil, List.append_nil]
  | cons c rest =>
    rw [List.takeWhile_cons_of_neg (by rw [hrest c rfl]; decide), List.append_nil]

end Decimal
