import Mathlib.Data.List.Basic

/-! A first-in first-out channel, given by its history: everything that was
ever put in, in order, and how much of it has been taken out again. -/

namespace Fifo

structure History (α : Type*) where
  committed : List α
  consumed : ℕ
  consumed_le : consumed ≤ committed.length

namespace History

variable {α : Type*}

def empty : History α := ⟨[], 0, Nat.le_refl 0⟩

/-- What was put in and not taken out yet, oldest first. -/
def pending (h : History α) : List α := h.committed.drop h.consumed

def commit (h : History α) (xs : List α) : History α :=
  ⟨h.committed ++ xs, h.consumed, by
    rw [List.length_append]
    exact Nat.le_add_right_of_le h.consumed_le⟩

def consume (h : History α) (n : ℕ) : History α :=
  ⟨h.committed, min (h.consumed + n) h.committed.length, Nat.min_le_right _ _⟩

theorem pending_commit (h : History α) (xs : List α) : (h.commit xs).pending = h.pending ++ xs :=
  List.drop_append_of_le_length h.consumed_le

theorem pending_consume (h : History α) (n : ℕ) : (h.consume n).pending = h.pending.drop n := by
  change h.committed.drop (min (h.consumed + n) h.committed.length) =
    (h.committed.drop h.consumed).drop n
  rw [List.drop_drop]
  rcases Nat.le_total (h.consumed + n) h.committed.length with hle | hle
  · rw [Nat.min_eq_left hle]
  · rw [Nat.min_eq_right hle, List.drop_length, List.drop_of_length_le hle]

end History
end Fifo
