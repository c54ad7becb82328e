import Mathlib.Data.List.Basic

/-! Windows of a list and overwriting in place, the two accesses that a
program has to an array through a pointer and a length. -/

namespace Segment

variable {α : Type*}

def segment (l : List α) (i n : ℕ) : List α := (l.drop i).take n

def overwrite (l : List α) (p : ℕ) (xs : List α) : List α :=
  l.take p ++ xs ++ l.drop (p + xs.length)

theorem segment_length {l : List α} {i n : ℕ} (h : i + n ≤ l.length) :
    (segment l i n).length = n := by
  simp only [segment, List.length_take, List.length_drop]
  omega

@[simp] theorem segment_zero (l : List α) (i : ℕ) : segment l i 0 = [] := by
  simp only [segment, List.take_zero]

theorem segment_take {l : List α} {i n k : ℕ} (h : k ≤ n) :
    segment l i k = (segment l i n).take k := by
  simp only [segment, List.take_take, Nat.min_eq_left h]

theorem segment_drop (l : List α) (i n k : ℕ) :
    segment l (i + k) (n - k) = (segment l i n).drop k := by
  simp only [segment, List.drop_take, List.drop_drop]

@[simp] theorem overwrite_nil (l : List α) (p : ℕ) : overwrite l p [] = l := by
  simp only [overwrite, List.append_nil, List.length_nil, Nat.add_zero, List.take_append_drop]

theorem overwrite_length {l : List α} {p : ℕ} {xs : List α} (h : p + xs.length ≤ l.length) :
    (overwrite l p xs).length = l.length := by
  simp only [overwrite, List.length_append, List.length_take, List.length_drop]
  omega

theorem segment_overwrite_end {l : List α} {i n : ℕ} (xs : List α)
    (hl : i + n ≤ l.length) :
    segment (overwrite l (i + n) xs) i (n + xs.length) = segment l i n ++ xs := by
  apply List.ext_getElem?
  intro j
  simp only [segment, overwrite, List.getElem?_take, List.getElem?_drop, List.getElem?_append,
    List.length_append, List.length_take, List.length_drop]
  grind

theorem segment_overwrite_inside {l : List α} {i n k : ℕ} (xs : List α)
    (hk : k + xs.length ≤ n) (hl : i + n ≤ l.length) :
    segment (overwrite l (i + k) xs) i n = overwrite (segment l i n) k xs := by
  apply List.ext_getElem?
  intro j
  simp only [segment, overwrite, List.getElem?_take, List.getElem?_drop, List.getElem?_append,
    List.length_append, List.length_take, List.length_drop]
  grind

theorem segment_overwrite_behind {l : List α} {i n p : ℕ} (xs : List α) (hp : i + n ≤ p)
    (hl : p ≤ l.length) : segment (overwrite l p xs) i n = segment l i n := by
  apply List.ext_getElem?
  intro j
  simp only [segment, overwrite, List.getElem?_take, List.getElem?_drop, List.getElem?_append,
    List.length_append, List.length_take]
  grind

theorem overwrite_append (as bs : List α) (k : ℕ) (xs : List α) :
    overwrite (as ++ bs) (as.length + k) xs = as ++ overwrite bs k xs := by
  simp only [overwrite, Nat.add_assoc, List.take_length_add_append, List.drop_length_add_append,
    List.append_assoc]

end Segment
