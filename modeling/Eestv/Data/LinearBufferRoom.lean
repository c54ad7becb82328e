import Mathlib.Algebra.BigOperators.Group.List.Basic
import Mathlib.Algebra.Ring.Nat
import Eestv.Data.LinearBuffer
import Eestv.Library.Runs

/-! How much the linear buffer admits. The space in front of the read index comes
back only when the buffer runs empty, so what is writable depends on the bytes
committed since then and not on how many of them were consumed. -/

namespace Eestv.LinearBuffer
open Runs

inductive Call where
  | commit (n : ℕ)
  | consume (n : ℕ)

def Call.answer (b : LinearBuffer) : Call → Bool × LinearBuffer
  | .commit n => b.commit n
  | .consume n => b.consume n

/-- The bytes that a call commits when it succeeds. -/
def Call.bytes : Call → ℕ
  | .commit n => n
  | .consume _ => 0

/-- A buffer with the number of bytes committed since it was last empty. -/
structure Counted where
  buffer : LinearBuffer
  used : ℕ

def Counted.start (capacity : ℕ) : Counted := ⟨new capacity, 0⟩

def Counted.after (s : Counted) (c : Call) : Counted :=
  let (ok, b) := c.answer s.buffer
  ⟨b, if b.size = 0 then 0 else if ok then s.used + c.bytes else s.used⟩

def Counted.Step (s : Counted) (c : Call) (t : Counted) : Prop := t = s.after c

def consumeAll (b : LinearBuffer) (portions : List ℕ) : LinearBuffer :=
  portions.foldl (fun b n => (b.consume n).2) b

structure Counted.Exact (capacity : ℕ) (s : Counted) : Prop where
  consistent : s.buffer.Consistent
  capacity_eq : s.buffer.capacity = capacity
  used_eq : s.used = s.buffer.head

theorem Counted.start_exact (capacity : ℕ) : (Counted.start capacity).Exact capacity :=
  ⟨new_consistent capacity, new_capacity capacity, rfl⟩

theorem Consistent.used_eq {b : LinearBuffer} (hb : b.Consistent) {used : ℕ}
    (h : b.size ≠ 0 → used = b.head) : (if b.size = 0 then 0 else used) = b.head := by
  split
  · exact (hb.head_of_empty ‹_›).symm
  · exact h ‹_›

theorem commit_capacity (b : LinearBuffer) (n : ℕ) : (b.commit n).2.capacity = b.capacity := by
  rcases Nat.lt_or_ge b.room n with h | h
  · rw [commit_of_gt h]
  · rw [commit_of_le h]
    rfl

theorem commit_head (b : LinearBuffer) (n : ℕ) :
    (b.commit n).2.head = if (b.commit n).1 then b.head + n else b.head := by
  rcases Nat.lt_or_ge b.room n with h | h
  · rw [commit_of_gt h]
    rfl
  · rw [commit_of_le h]
    rfl

theorem Counted.Exact.after_commit {capacity : ℕ} {s : Counted} (hs : s.Exact capacity) (n : ℕ) :
    (s.after (.commit n)).Exact capacity := by
  have hc := hs.consistent.commit n
  have hhead := commit_head s.buffer n
  rw [← hs.used_eq] at hhead
  exact ⟨hc, (commit_capacity _ n).trans hs.capacity_eq, hc.used_eq fun _ => hhead.symm⟩

theorem Counted.Exact.after_consume {capacity : ℕ} {s : Counted} (hs : s.Exact capacity)
    (n : ℕ) : (s.after (.consume n)).Exact capacity := by
  have hc := hs.consistent.consume n
  rcases Nat.lt_or_ge s.buffer.size n with h | h
  · have hsame : (s.buffer.consume n).2 = s.buffer := by rw [consume_of_gt h]
    have hused : (if (s.buffer.consume n).1 then s.used + 0 else s.used) = s.buffer.head := by
      rw [← hs.used_eq]
      split <;> rfl
    refine ⟨hc, (congrArg LinearBuffer.capacity hsame).trans hs.capacity_eq, hc.used_eq ?_⟩
    intro _
    exact hused.trans (congrArg LinearBuffer.head hsame).symm
  · have hconsumes := consume_consumes hs.consistent h
    refine ⟨hc, hconsumes.capacity_eq.trans hs.capacity_eq, hc.used_eq ?_⟩
    intro hsize
    have hhead := hconsumes.head_eq
    rw [if_neg hsize] at hhead
    rw [hhead, ← hs.used_eq]
    split <;> rfl

theorem Counted.Exact.step {capacity : ℕ} (s : Counted) (c : Call) (t : Counted)
    (hs : s.Exact capacity) (hstep : s.Step c t) : t.Exact capacity := by
  rw [hstep]
  cases c with
  | commit n => exact hs.after_commit n
  | consume n => exact hs.after_consume n

theorem consumeAll_consumes {b : LinearBuffer} (hb : b.Consistent) {portions : List ℕ}
    (h : portions.sum ≤ b.size) : Consumes b portions.sum (b.consumeAll portions) := by
  induction portions generalizing b with
  | nil => exact Consumes.refl hb
  | cons n portions ih =>
    rw [List.sum_cons] at h ⊢
    have hfirst := consume_consumes hb (Nat.le_of_add_right_le h)
    have hleft := hfirst.size_eq hb
    exact hfirst.trans hb (ih hfirst.consistent (by omega))

/-- After every run of commits and consumes exactly the bytes not committed since the buffer
was last empty can be written. -/
theorem admission_of_run (capacity : ℕ) (calls : List Call) (s : Counted)
    (h : Run Counted.Step (Counted.start capacity) calls s) :
    s.buffer.getWriteHead.2 = capacity - s.used ∧
      (s.buffer.getWriteHead.1 = none ↔ s.used = capacity) ∧
      (∀ k, (s.buffer.commit k).1 = true ↔ k ≤ capacity - s.used) ∧
      s.buffer.size ≤ s.used ∧ s.used ≤ capacity ∧ s.buffer.head = s.used ∧
      ∀ portions : List ℕ, portions.sum = s.buffer.size →
        (s.buffer.consumeAll portions).getReadHead = (none, 0) ∧
          (s.buffer.consumeAll portions).getWriteHead.2 = capacity := by
  have hs := h.invariant Counted.Exact.step (Counted.start_exact capacity)
  have hroom : s.buffer.room = capacity - s.used := by
    rw [hs.consistent.room_eq, hs.capacity_eq, hs.used_eq]
  have hle : s.used ≤ capacity := by
    rw [hs.used_eq, ← hs.capacity_eq]
    exact hs.consistent.head_le
  refine ⟨hroom, ?_, ?_, ?_, hle, hs.used_eq.symm, ?_⟩
  · rw [getWriteHead_eq, hroom]
    simp only [gt_iff_lt, ite_eq_right_iff, reduceCtorEq, imp_false]
    omega
  · intro k
    rw [commit_fst, hroom]
  · rw [hs.used_eq]
    exact hs.consistent.size_le
  · intro portions hsum
    have hall := consumeAll_consumes hs.consistent (Nat.le_of_eq hsum)
    have hempty : (s.buffer.consumeAll portions).size = 0 := by
      rw [hall.size_eq hs.consistent, hsum, Nat.sub_self]
    constructor
    · simp only [getReadHead, hempty, gt_iff_lt, Nat.lt_irrefl, if_false]
    · have hunread := hall.consistent.unread_eq_nil.mpr hempty
      have hfull := hall.consistent.room_of_unread_nil hunread
      rw [hall.capacity_eq, hs.capacity_eq] at hfull
      exact hfull

theorem admission_of_run_partial :
    ∃ s, Run Counted.Step (Counted.start 4) [.commit 3, .commit 2, .consume 2] s ∧
      s.buffer.getWriteHead.2 = 1 ∧ (s.buffer.consumeAll [1]).getWriteHead.2 = 4 := by
  have h : Run Counted.Step (Counted.start 4) [.commit 3, .commit 2, .consume 2] _ :=
    .cons rfl (.cons rfl (.cons rfl (.nil _)))
  have hadmission := admission_of_run 4 _ _ h
  exact ⟨_, h, hadmission.1, (hadmission.2.2.2.2.2.2 [1] (by decide)).2⟩

end Eestv.LinearBuffer
