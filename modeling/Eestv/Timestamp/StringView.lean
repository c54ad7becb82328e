import Mathlib.Data.List.Basic
import Mathlib.Algebra.Ring.Int.Defs
import Mathlib.Algebra.Ring.Nat

/-! A view of a text, and the text from a position on. -/

namespace Eestv

/-- `std::string_view`: a length, and the memory from the first character on. What
lies in front of the text or behind it is arbitrary. -/
structure StringView where
  size : ℕ
  data : ℤ → Char

namespace StringView

def ofList (cs : List Char) : StringView := ⟨cs.length, fun i => cs.getD i.toNat default⟩

def suffix (s : StringView) (i : ℕ) : List Char :=
  (List.range (s.size - i)).map fun k : ℕ => s.data (i + k)

variable {s : StringView} {i : ℕ}

@[simp] theorem suffix_length : (s.suffix i).length = s.size - i := by
  rw [suffix, List.length_map, List.length_range]

theorem suffix_of_lt (h : i < s.size) : s.suffix i = s.data i :: s.suffix (i + 1) := by
  rw [suffix, suffix, show s.size - i = s.size - (i + 1) + 1 by omega, List.range_succ_eq_map,
    List.map_cons, List.map_map]
  congr 1
  refine List.map_congr_left fun k _ => congrArg s.data ?_
  simp only [Nat.succ_eq_add_one]
  omega

theorem suffix_getElem? (k : ℕ) :
    (s.suffix i)[k]? = if (i : ℤ) + k < s.size then some (s.data (i + k)) else none := by
  rcases Nat.lt_or_ge k (s.size - i) with h | h
  · rw [suffix, List.getElem?_map, List.getElem?_range h, if_pos (by omega)]
    rfl
  · rw [if_neg (by omega)]
    exact List.getElem?_eq_none (by rwa [suffix_length])

theorem suffix_eq_nil : s.suffix i = [] ↔ s.size ≤ i := by
  rw [← List.length_eq_zero_iff, suffix_length, Nat.sub_eq_zero_iff_le]

theorem suffix_drop (n : ℕ) : (s.suffix i).drop n = s.suffix (i + n) := by
  induction n generalizing i with
  | zero => rfl
  | succ n ih =>
    rcases Nat.lt_or_ge i s.size with h | h
    · rw [suffix_of_lt h, List.drop_succ_cons, ih, Nat.add_right_comm, Nat.add_assoc]
    · rw [suffix_eq_nil.mpr h, suffix_eq_nil.mpr (by omega), List.drop_nil]

theorem ofList_suffix (cs : List Char) (i : ℕ) : (ofList cs).suffix i = cs.drop i := by
  apply List.ext_getElem
  · rw [suffix_length, List.length_drop]
    rfl
  · intro k hk hk'
    rw [List.length_drop] at hk'
    simp only [suffix, ofList, List.getElem_map, List.getElem_range, List.getElem_drop]
    rw [← Int.natCast_add, Int.toNat_natCast]
    exact (List.getElem_eq_getD default).symm

end StringView
end Eestv
