import Eestv.Data.LinearBuffer
import Eestv.Library.Fifo
import Eestv.Library.Runs
import Mathlib.Order.Interval.Finset.Nat

/-! The linear buffer seen by its clients: along every run of writes, refused
commits and consumes it is a first-in first-out channel of bytes. -/

namespace Eestv.LinearBuffer
open Segment Runs

/-- One client operation. A write places bytes at the write head and commits them. -/
inductive Access where
  | write (bytes : List UInt8)
  | overcommit (n : ℕ)
  | consume (n : ℕ)

def Access.Permitted (b : LinearBuffer) : Access → Prop
  | .write bytes => bytes.length ≤ b.getWriteHead.2
  | .overcommit n => b.getWriteHead.2 < n
  | .consume _ => True

instance (b : LinearBuffer) : (a : Access) → Decidable (a.Permitted b)
  | .write bytes => inferInstanceAs (Decidable (bytes.length ≤ b.getWriteHead.2))
  | .overcommit n => inferInstanceAs (Decidable (b.getWriteHead.2 < n))
  | .consume _ => inferInstanceAs (Decidable True)

/-- A buffer with the history of the operations it answered with success. -/
structure Traced where
  buffer : LinearBuffer
  history : Fifo.History UInt8

def Traced.start (capacity : ℕ) : Traced := ⟨new capacity, .empty⟩

def Traced.after (s : Traced) : Access → Traced
  | .write bytes =>
    let r := s.buffer.write bytes
    ⟨r.2, if r.1 then s.history.commit bytes else s.history⟩
  | .overcommit n =>
    let r := s.buffer.commit n
    ⟨r.2, if r.1 then s.history.commit (s.buffer.load s.buffer.head n) else s.history⟩
  | .consume n =>
    let r := s.buffer.consume n
    ⟨r.2, if r.1 then s.history.consume n else s.history⟩

def Traced.Step (s : Traced) (a : Access) (t : Traced) : Prop :=
  a.Permitted s.buffer ∧ t = s.after a

/-- The positions a reported pointer and size give access to. -/
def region (window : Option ℕ × ℕ) : Finset ℕ :=
  match window.1 with
  | some p => Finset.Ico p (p + window.2)
  | none => ∅

def readWindow (b : LinearBuffer) : List UInt8 :=
  match b.getReadHead with
  | (some p, n) => b.load p n
  | (none, _) => []

theorem readWindow_eq (b : LinearBuffer) : b.readWindow = b.unread := by
  unfold readWindow getReadHead
  rcases Nat.eq_zero_or_pos b.size with h0 | hpos
  · simp only [h0, gt_iff_lt, Nat.lt_irrefl, if_false, unread, segment_zero]
  · simp only [gt_iff_lt, hpos, if_true]
    rfl

theorem mem_readRegion {b : LinearBuffer} {i : ℕ} :
    i ∈ region b.getReadHead ↔ b.tail ≤ i ∧ i < b.tail + b.size := by
  unfold region getReadHead
  rcases Nat.eq_zero_or_pos b.size with h0 | hpos
  · simp [h0]
  · simp [hpos]

theorem mem_writeRegion {b : LinearBuffer} {i : ℕ} :
    i ∈ region b.getWriteHead ↔ b.head ≤ i ∧ i < b.head + b.room := by
  rw [getWriteHead_eq]
  rcases Nat.eq_zero_or_pos b.room with h0 | hpos
  · simp [region, h0]
  · simp [region, hpos]

theorem regions_disjoint {b : LinearBuffer} (hb : b.Consistent) :
    Disjoint (region b.getReadHead) (region b.getWriteHead) := by
  rw [Finset.disjoint_left]
  intro i hr hw
  rw [mem_readRegion, hb.tail_add_size] at hr
  rw [mem_writeRegion] at hw
  omega

theorem regions_subset {b : LinearBuffer} (hb : b.Consistent) :
    region b.getReadHead ∪ region b.getWriteHead ⊆ Finset.range b.capacity := by
  intro i hi
  have hroom := hb.head_add_room
  rw [Finset.mem_union, mem_readRegion, mem_writeRegion, hb.tail_add_size] at hi
  rw [Finset.mem_range]
  omega

theorem commit_refused {b : LinearBuffer} {n : ℕ} (h : (b.commit n).1 = false) :
    (b.commit n).2 = b := by
  rcases Nat.lt_or_ge b.room n with hn | hn
  · rw [commit_of_gt hn]
  · rw [(commit_fst b n).mpr hn] at h
    contradiction

theorem consume_refused {b : LinearBuffer} {n : ℕ} (h : (b.consume n).1 = false) :
    (b.consume n).2 = b := by
  rcases Nat.lt_or_ge b.size n with hn | hn
  · rw [consume_of_gt hn]
  · rw [(consume_fst b n).mpr hn] at h
    contradiction

structure Traced.Faithful (capacity : ℕ) (s : Traced) : Prop where
  consistent : s.buffer.Consistent
  capacity_eq : s.buffer.capacity = capacity
  unread_eq : s.buffer.unread = s.history.pending

theorem Traced.start_faithful (capacity : ℕ) : (Traced.start capacity).Faithful capacity :=
  ⟨new_consistent capacity, new_capacity capacity, new_unread capacity⟩

theorem Traced.Faithful.step {capacity : ℕ} (s : Traced) (a : Access) (t : Traced)
    (hs : s.Faithful capacity) (hstep : s.Step a t) : t.Faithful capacity := by
  obtain ⟨hp, rfl⟩ := hstep
  cases a with
  | write bytes =>
    obtain ⟨hok, happ⟩ := write_appends hs.consistent hp
    refine ⟨happ.consistent, happ.capacity_eq.trans hs.capacity_eq, ?_⟩
    simp only [Traced.after, hok, if_true]
    rw [happ.unread_eq, hs.unread_eq, Fifo.History.pending_commit]
  | overcommit n =>
    -- the commit is refused, so neither the buffer nor the history moves
    simp only [Traced.after, commit_of_gt hp, Bool.false_eq_true, if_false]
    exact hs
  | consume n =>
    rcases Nat.lt_or_ge s.buffer.size n with hn | hn
    · simp only [Traced.after, consume_of_gt hn, Bool.false_eq_true, if_false]
      exact hs
    · have hc := consume_consumes hs.consistent hn
      refine ⟨hc.consistent, hc.capacity_eq.trans hs.capacity_eq, ?_⟩
      simp only [Traced.after, (consume_fst s.buffer n).mpr hn, if_true]
      rw [hc.unread_eq, hs.unread_eq, Fifo.History.pending_consume]

theorem Traced.Faithful.of_run {capacity : ℕ} {accesses : List Access} {s : Traced}
    (h : Run Traced.Step (Traced.start capacity) accesses s) : s.Faithful capacity :=
  h.invariant Traced.Faithful.step (Traced.start_faithful capacity)

/-- After every run the read window holds the committed bytes that were not consumed. -/
theorem fifo_of_run (capacity : ℕ) (accesses : List Access) (s : Traced)
    (h : Run Traced.Step (Traced.start capacity) accesses s) :
    s.buffer.readWindow = s.history.committed.drop s.history.consumed ∧
      s.buffer.getReadHead.2 = s.history.pending.length ∧
      (s.buffer.getReadHead.1 = none ↔ s.history.pending = []) ∧
      (∀ n, (s.buffer.consume n).1 = true ↔ n ≤ s.history.pending.length) ∧
      (∀ n, (s.buffer.commit n).1 = true ↔ n ≤ s.buffer.getWriteHead.2) ∧
      (∀ n, (s.buffer.commit n).1 = false → (s.buffer.commit n).2 = s.buffer) ∧
      (∀ n, (s.buffer.consume n).1 = false → (s.buffer.consume n).2 = s.buffer) ∧
      Disjoint (region s.buffer.getReadHead) (region s.buffer.getWriteHead) ∧
      region s.buffer.getReadHead ∪ region s.buffer.getWriteHead ⊆ Finset.range capacity := by
  have hs := Traced.Faithful.of_run h
  have hsize : s.buffer.size = s.history.pending.length := by
    rw [← hs.unread_eq, hs.consistent.unread_length]
  refine ⟨?_, hsize, ?_, ?_, commit_fst s.buffer, fun _ => commit_refused,
    fun _ => consume_refused, regions_disjoint hs.consistent, ?_⟩
  · rw [readWindow_eq, hs.unread_eq]
    rfl
  · rw [getReadHead_null, hsize, List.length_eq_zero_iff]
  · intro n
    rw [consume_fst, hsize]
  · rw [← hs.capacity_eq]
    exact regions_subset hs.consistent

theorem fifo_of_run_write_consume :
    ∃ s, Run Traced.Step (Traced.start 4) [.write [1, 2, 3], .overcommit 2, .consume 1] s ∧
      s.buffer.readWindow = [2, 3] := by
  have h : Run Traced.Step (Traced.start 4) [.write [1, 2, 3], .overcommit 2, .consume 1] _ :=
    .cons ⟨by decide, rfl⟩ (.cons ⟨by decide, rfl⟩ (.cons ⟨by decide, rfl⟩ (.nil _)))
  exact ⟨_, h, (fifo_of_run 4 _ _ h).1⟩

end Eestv.LinearBuffer
