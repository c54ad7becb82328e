import Eestv.Library.Decimal
import Mathlib.Data.List.Lex

/-! Texts in the order of their characters. Numerals of one length are in the order of the numbers
that they denote. -/

namespace TextOrder
open Decimal

def Before (cs cs' : List Char) : Prop := List.Lex (fun c c' => c.toNat < c'.toNat) cs cs'

variable {c c' : Char} {xs ys us vs : List Char}

theorem before_irrefl (cs : List Char) : ¬ Before cs cs :=
  List.lex_irrefl (fun c => Nat.lt_irrefl c.toNat) cs

theorem before_cons_iff : Before (c :: xs) (c' :: ys) ↔
    c.toNat < c'.toNat ∨ c = c' ∧ Before xs ys := List.cons_lex_cons_iff

theorem before_or_eq_or_before (xs ys : List Char) : Before xs ys ∨ xs = ys ∨ Before ys xs := by
  induction xs generalizing ys with
  | nil =>
    cases ys with
    | nil => exact Or.inr (Or.inl rfl)
    | cons c ys => exact Or.inl .nil
  | cons c xs ih =>
    cases ys with
    | nil => exact Or.inr (Or.inr .nil)
    | cons c' ys =>
      rcases Nat.lt_trichotomy c.toNat c'.toNat with hlt | heq | hlt
      · exact Or.inl (.rel hlt)
      · obtain rfl := Char.toNat_inj.mp heq
        exact (ih ys).imp .cons (Or.imp (congrArg (List.cons c)) .cons)
      · exact Or.inr (Or.inr (.rel hlt))

theorem before_append_iff (h : xs.length = ys.length) :
    Before (xs ++ us) (ys ++ vs) ↔ Before xs ys ∨ xs = ys ∧ Before us vs := by
  induction xs generalizing ys with
  | nil =>
    obtain rfl := List.eq_nil_of_length_eq_zero h.symm
    simp [before_irrefl]
  | cons c xs ih =>
    obtain ⟨c', ys, rfl⟩ := List.exists_cons_of_length_eq_add_one h.symm
    rw [List.cons_append, List.cons_append, before_cons_iff, before_cons_iff,
      ih (Nat.succ.inj h), List.cons.injEq]
    tauto

theorem digit_lt_digit_iff (hc : c.isDigit = true) (hc' : c'.isDigit = true) :
    digit c < digit c' ↔ c.toNat < c'.toNat := by
  obtain ⟨hge, -⟩ := Char.isDigit_iff_toNat.mp hc
  obtain ⟨hge', -⟩ := Char.isDigit_iff_toNat.mp hc'
  unfold digit
  omega

theorem value_cons_lt (h : xs.length = ys.length) (hxs : Digits xs) (hlt : digit c < digit c') :
    value (c :: xs) < value (c' :: ys) := by
  rw [value_cons, value_cons, ← h]
  calc digit c * 10 ^ xs.length + value xs < digit c * 10 ^ xs.length + 10 ^ xs.length :=
        Nat.add_lt_add_left (value_lt hxs) _
    _ = (digit c + 1) * 10 ^ xs.length := (Nat.succ_mul _ _).symm
    _ ≤ digit c' * 10 ^ xs.length := Nat.mul_le_mul_right _ hlt
    _ ≤ digit c' * 10 ^ xs.length + value ys := Nat.le_add_right _ _

theorem value_lt_of_before (h : xs.length = ys.length) (hxs : Digits xs) (hys : Digits ys)
    (hbefore : Before xs ys) : value xs < value ys := by
  induction xs generalizing ys with
  | nil =>
    obtain rfl := List.eq_nil_of_length_eq_zero h.symm
    exact absurd hbefore (before_irrefl [])
  | cons c xs ih =>
    obtain ⟨c', ys, rfl⟩ := List.exists_cons_of_length_eq_add_one h.symm
    obtain ⟨hc, hxs⟩ := List.forall_mem_cons.mp hxs
    obtain ⟨hc', hys'⟩ := List.forall_mem_cons.mp hys
    have hlength := Nat.succ.inj h
    rcases before_cons_iff.mp hbefore with hlt | ⟨rfl, hrest⟩
    · exact value_cons_lt hlength hxs ((digit_lt_digit_iff hc hc').mpr hlt)
    · rw [value_cons, value_cons, hlength]
      exact Nat.add_lt_add_left (ih hlength hxs hys' hrest) _

end TextOrder
