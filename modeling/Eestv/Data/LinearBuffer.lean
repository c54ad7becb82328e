import Eestv.Library.Segment

/-! The linear buffer: one storage with a write index, a read index and a byte
count, which starts over at index 0 whenever it runs empty. Pointers into the
storage are indices, the null pointer is `none`, and `std::size_t` is `ℕ`:
no index of a consistent buffer exceeds the size of its storage. -/

namespace Eestv
open Segment

structure LinearBuffer where
  buffer : List UInt8
  head : ℕ
  tail : ℕ
  size : ℕ
deriving DecidableEq, Repr

namespace LinearBuffer

/-! ### The operations of the source -/

def new (size : ℕ) : LinearBuffer := ⟨List.replicate size 0, 0, 0, 0⟩

def getReadHead (b : LinearBuffer) : Option ℕ × ℕ :=
  (if b.size > 0 then some b.tail else none, b.size)

def resetIfEmpty (b : LinearBuffer) : LinearBuffer :=
  if b.size = 0 then { b with head := 0, tail := 0 } else b

def consume (b : LinearBuffer) (size : ℕ) : Bool × LinearBuffer :=
  if size > b.size then (false, b)
  else (true, resetIfEmpty { b with tail := b.tail + size, size := b.size - size })

def getWriteHead (b : LinearBuffer) : Option ℕ × ℕ :=
  let spaceToEnd := b.buffer.length - b.head
  let totalFree := b.buffer.length - b.size
  let sizeOut := if spaceToEnd < totalFree then spaceToEnd else totalFree
  (if sizeOut > 0 then some b.head else none, sizeOut)

def commit (b : LinearBuffer) (bytesWritten : ℕ) : Bool × LinearBuffer :=
  let writable := b.getWriteHead.2
  if bytesWritten > writable then (false, b)
  else (true, { b with head := b.head + bytesWritten, size := b.size + bytesWritten })

/-! ### What a client does through the returned pointers -/

def store (b : LinearBuffer) (p : ℕ) (bytes : List UInt8) : LinearBuffer :=
  { b with buffer := overwrite b.buffer p bytes }

def load (b : LinearBuffer) (p n : ℕ) : List UInt8 := segment b.buffer p n

def write (b : LinearBuffer) (bytes : List UInt8) : Bool × LinearBuffer :=
  match b.getWriteHead.1 with
  | some p => (b.store p bytes).commit bytes.length
  | none => b.commit bytes.length

/-! ### Capacity, unread bytes and room -/

def capacity (b : LinearBuffer) : ℕ := b.buffer.length

def unread (b : LinearBuffer) : List UInt8 := segment b.buffer b.tail b.size

def room (b : LinearBuffer) : ℕ := b.getWriteHead.2

/-- How the three redundant indices belong together. -/
structure Consistent (b : LinearBuffer) : Prop where
  tail_add_size : b.tail + b.size = b.head
  head_le : b.head ≤ b.capacity
  head_of_empty : b.size = 0 → b.head = 0

/-- The states that pointer writes, commits and consumes lead to from construction. -/
inductive Reachable : LinearBuffer → Prop
  | new (size : ℕ) : Reachable (new size)
  | store {b : LinearBuffer} {p : ℕ} {bytes : List UInt8} : Reachable b →
      b.getWriteHead.1 = some p → bytes.length ≤ b.getWriteHead.2 → Reachable (b.store p bytes)
  | commit {b : LinearBuffer} (n : ℕ) : Reachable b → Reachable (b.commit n).2
  | consume {b : LinearBuffer} (n : ℕ) : Reachable b → Reachable (b.consume n).2

@[simp] theorem store_tail (b : LinearBuffer) (p : ℕ) (xs : List UInt8) :
    (b.store p xs).tail = b.tail := rfl

@[simp] theorem store_size (b : LinearBuffer) (p : ℕ) (xs : List UInt8) :
    (b.store p xs).size = b.size := rfl

@[simp] theorem store_nil (b : LinearBuffer) (p : ℕ) : b.store p [] = b := by
  simp only [store, overwrite_nil]

theorem store_capacity {b : LinearBuffer} {p : ℕ} {xs : List UInt8}
    (h : p + xs.length ≤ b.capacity) : (b.store p xs).capacity = b.capacity := overwrite_length h

theorem store_room {b : LinearBuffer} {p : ℕ} {xs : List UInt8}
    (h : p + xs.length ≤ b.capacity) : (b.store p xs).room = b.room := by
  simp only [room, getWriteHead, store, overwrite_length h]

theorem resetIfEmpty_size (b : LinearBuffer) : b.resetIfEmpty.size = b.size := by
  unfold resetIfEmpty
  split <;> rfl

theorem resetIfEmpty_capacity (b : LinearBuffer) : b.resetIfEmpty.capacity = b.capacity := by
  unfold resetIfEmpty
  split <;> rfl

theorem resetIfEmpty_head (b : LinearBuffer) :
    b.resetIfEmpty.head = if b.size = 0 then 0 else b.head := by
  unfold resetIfEmpty
  split <;> rfl

theorem resetIfEmpty_unread (b : LinearBuffer) : b.resetIfEmpty.unread = b.unread := by
  unfold resetIfEmpty
  split
  · simp only [unread, ‹b.size = 0›, segment_zero]
  · rfl

@[simp] theorem new_capacity (size : ℕ) : (new size).capacity = size := List.length_replicate

@[simp] theorem new_unread (size : ℕ) : (new size).unread = [] := segment_zero _ _

theorem new_consistent (size : ℕ) : (new size).Consistent :=
  ⟨rfl, Nat.zero_le _, fun _ => rfl⟩

theorem getWriteHead_eq (b : LinearBuffer) :
    b.getWriteHead = (if b.room > 0 then some b.head else none, b.room) := rfl

@[simp] theorem getReadHead_snd (b : LinearBuffer) : b.getReadHead.2 = b.size := rfl

theorem getReadHead_null (b : LinearBuffer) : b.getReadHead.1 = none ↔ b.size = 0 := by
  simp only [getReadHead]
  split
  · simp only [reduceCtorEq, false_iff]
    omega
  · simp only [true_iff]
    omega

namespace Consistent

variable {b : LinearBuffer}

theorem size_le (h : b.Consistent) : b.size ≤ b.head := by
  have := h.tail_add_size
  omega

theorem room_eq (h : b.Consistent) : b.room = b.capacity - b.head := by
  have := h.size_le
  have := h.head_le
  simp only [room, getWriteHead, capacity] at *
  split <;> omega

theorem head_add_room (h : b.Consistent) : b.head + b.room = b.capacity := by
  have := h.head_le
  rw [h.room_eq]
  omega

theorem unread_length (h : b.Consistent) : b.unread.length = b.size := by
  have := h.tail_add_size
  exact segment_length (by rw [this]; exact h.head_le)

theorem unread_le (h : b.Consistent) : b.unread.length ≤ b.capacity := by
  rw [h.unread_length]
  exact Nat.le_trans h.size_le h.head_le

theorem unread_eq_nil (h : b.Consistent) : b.unread = [] ↔ b.size = 0 := by
  rw [← h.unread_length, List.length_eq_zero_iff]

theorem room_of_unread_nil (h : b.Consistent) (hu : b.unread = []) : b.room = b.capacity := by
  rw [h.room_eq, h.head_of_empty (h.unread_eq_nil.mp hu), Nat.sub_zero]

end Consistent

theorem load_tail {b : LinearBuffer} {n : ℕ} (hn : n ≤ b.size) :
    b.load b.tail n = b.unread.take n := segment_take hn

theorem new_room (size : ℕ) : (new size).room = size := by
  rw [(new_consistent size).room_of_unread_nil (new_unread size), new_capacity]

/-! ### Appending and consuming -/

/-- `b'` is `b` with `bytes` appended to its unread bytes. -/
structure Appends (b : LinearBuffer) (bytes : List UInt8) (b' : LinearBuffer) : Prop where
  consistent : b'.Consistent
  capacity_eq : b'.capacity = b.capacity
  tail_eq : b'.tail = b.tail
  unread_eq : b'.unread = b.unread ++ bytes

/-- `b'` is `b` with its first `n` unread bytes gone. -/
structure Consumes (b : LinearBuffer) (n : ℕ) (b' : LinearBuffer) : Prop where
  consistent : b'.Consistent
  capacity_eq : b'.capacity = b.capacity
  le_size : n ≤ b.size
  unread_eq : b'.unread = b.unread.drop n
  head_eq : b'.head = if b'.size = 0 then 0 else b.head

namespace Appends

variable {b b' b'' : LinearBuffer} {xs ys : List UInt8}

theorem refl (h : b.Consistent) : Appends b [] b := ⟨h, rfl, rfl, (List.append_nil _).symm⟩

theorem trans (h : Appends b xs b') (h' : Appends b' ys b'') : Appends b (xs ++ ys) b'' :=
  ⟨h'.consistent, h'.capacity_eq.trans h.capacity_eq, h'.tail_eq.trans h.tail_eq,
    by rw [h'.unread_eq, h.unread_eq, List.append_assoc]⟩

theorem size_eq (hb : b.Consistent) (h : Appends b xs b') : b'.size = b.size + xs.length := by
  rw [← h.consistent.unread_length, h.unread_eq, List.length_append, hb.unread_length]

theorem head_eq (hb : b.Consistent) (h : Appends b xs b') : b'.head = b.head + xs.length := by
  rw [← h.consistent.tail_add_size, h.tail_eq, h.size_eq hb, ← hb.tail_add_size, Nat.add_assoc]

theorem room_eq (hb : b.Consistent) (h : Appends b xs b') : b'.room = b.room - xs.length := by
  rw [h.consistent.room_eq, hb.room_eq, h.capacity_eq, h.head_eq hb, Nat.sub_sub]

end Appends

namespace Consumes

variable {b b' b'' : LinearBuffer} {m n : ℕ}

theorem refl (h : b.Consistent) : Consumes b 0 b :=
  ⟨h, rfl, Nat.zero_le _, List.drop_zero.symm, by split <;> simp [h.head_of_empty, *]⟩

theorem size_eq (hb : b.Consistent) (h : Consumes b n b') : b'.size = b.size - n := by
  rw [← h.consistent.unread_length, h.unread_eq, List.length_drop, hb.unread_length]

theorem trans (hb : b.Consistent) (h : Consumes b m b') (h' : Consumes b' n b'') :
    Consumes b (m + n) b'' := by
  have hm := h.size_eq hb
  have hn := h'.size_eq h.consistent
  have hle := h'.le_size
  have hle' := h.le_size
  refine ⟨h'.consistent, h'.capacity_eq.trans h.capacity_eq, by omega, ?_, ?_⟩
  · rw [h'.unread_eq, h.unread_eq, List.drop_drop]
  · rw [h'.head_eq, h.head_eq]
    split
    · rfl
    · rw [if_neg (by omega)]

theorem room_le (hb : b.Consistent) (h : Consumes b n b') : b.room ≤ b'.room := by
  rw [hb.room_eq, h.consistent.room_eq, h.capacity_eq, h.head_eq]
  split
  · exact Nat.sub_le _ _
  · exact Nat.le_refl _

end Consumes

theorem commit_of_le {b : LinearBuffer} {n : ℕ} (hn : n ≤ b.room) :
    b.commit n = (true, { b with head := b.head + n, size := b.size + n }) :=
  if_neg (Nat.not_lt.mpr hn)

theorem commit_of_gt {b : LinearBuffer} {n : ℕ} (hn : b.room < n) : b.commit n = (false, b) :=
  if_pos hn

theorem commit_fst (b : LinearBuffer) (n : ℕ) : (b.commit n).1 = true ↔ n ≤ b.room := by
  rcases Nat.lt_or_ge b.room n with h | h
  · simp only [commit_of_gt h, Bool.false_eq_true, false_iff, Nat.not_le, h]
  · simp only [commit_of_le h, h]

theorem consume_of_le {b : LinearBuffer} {n : ℕ} (hn : n ≤ b.size) :
    b.consume n = (true, resetIfEmpty { b with tail := b.tail + n, size := b.size - n }) :=
  if_neg (Nat.not_lt.mpr hn)

theorem consume_of_gt {b : LinearBuffer} {n : ℕ} (hn : b.size < n) : b.consume n = (false, b) :=
  if_pos hn

theorem consume_fst (b : LinearBuffer) (n : ℕ) : (b.consume n).1 = true ↔ n ≤ b.size := by
  rcases Nat.lt_or_ge b.size n with h | h
  · simp only [consume_of_gt h, Bool.false_eq_true, false_iff, Nat.not_le, h]
  · simp only [consume_of_le h, h]

theorem Consistent.store {b : LinearBuffer} (hb : b.Consistent) {p : ℕ} {xs : List UInt8}
    (h : p + xs.length ≤ b.capacity) : (b.store p xs).Consistent :=
  ⟨hb.tail_add_size, by rw [store_capacity h]; exact hb.head_le, hb.head_of_empty⟩

theorem Consistent.commit {b : LinearBuffer} (hb : b.Consistent) (n : ℕ) :
    (b.commit n).2.Consistent := by
  rcases Nat.lt_or_ge b.room n with h | h
  · rw [commit_of_gt h]
    exact hb
  · have htail := hb.tail_add_size
    have hroom := hb.head_add_room
    rw [commit_of_le h]
    refine ⟨by dsimp only; omega, ?_, ?_⟩
    · change b.head + n ≤ b.capacity
      omega
    · intro hsize
      have hempty := hb.head_of_empty
      dsimp only at *
      omega

theorem Consistent.resetIfEmpty {b : LinearBuffer} (htail : b.tail + b.size = b.head)
    (hle : b.head ≤ b.capacity) : b.resetIfEmpty.Consistent := by
  unfold LinearBuffer.resetIfEmpty
  split
  · exact ⟨by simpa, Nat.zero_le _, fun _ => rfl⟩
  · exact ⟨htail, hle, fun h => absurd h ‹_›⟩

theorem Consistent.consume {b : LinearBuffer} (hb : b.Consistent) (n : ℕ) :
    (b.consume n).2.Consistent := by
  rcases Nat.lt_or_ge b.size n with h | h
  · rw [consume_of_gt h]
    exact hb
  · have htail := hb.tail_add_size
    rw [consume_of_le h]
    exact Consistent.resetIfEmpty (by dsimp only; omega) hb.head_le

theorem store_commit_appends {b : LinearBuffer} (hb : b.Consistent) {xs : List UInt8}
    (hroom : xs.length ≤ b.room) :
    ((b.store b.head xs).commit xs.length).1 = true ∧
      Appends b xs ((b.store b.head xs).commit xs.length).2 := by
  have hfit : b.head + xs.length ≤ b.capacity := by
    have := hb.head_add_room
    omega
  have hroom' : xs.length ≤ (b.store b.head xs).room := by rwa [store_room hfit]
  refine ⟨(commit_fst _ _).mpr hroom', (hb.store hfit).commit _, ?_, ?_, ?_⟩
  · rw [commit_of_le hroom']
    exact store_capacity hfit
  · rw [commit_of_le hroom']
    rfl
  · rw [commit_of_le hroom']
    change segment (overwrite b.buffer b.head xs) b.tail (b.size + xs.length) = _
    rw [← hb.tail_add_size]
    exact segment_overwrite_end xs (by rw [hb.tail_add_size]; exact hb.head_le)

theorem write_appends {b : LinearBuffer} (hb : b.Consistent) {xs : List UInt8}
    (hroom : xs.length ≤ b.room) : (b.write xs).1 = true ∧ Appends b xs (b.write xs).2 := by
  rcases Nat.eq_zero_or_pos b.room with h0 | hpos
  · have hxs : xs = [] := List.length_eq_zero_iff.mp (by omega)
    have h := store_commit_appends hb hroom
    subst hxs
    rw [store_nil] at h
    simpa only [write, getWriteHead_eq, h0, gt_iff_lt, Nat.lt_irrefl, if_false] using h
  · simpa only [write, getWriteHead_eq, gt_iff_lt, hpos, if_true] using
      store_commit_appends hb hroom

theorem consume_consumes {b : LinearBuffer} (hb : b.Consistent) {n : ℕ} (hn : n ≤ b.size) :
    Consumes b n (b.consume n).2 := by
  have hc := hb.consume n
  rw [consume_of_le hn] at hc ⊢
  refine ⟨hc, resetIfEmpty_capacity _, hn, ?_, ?_⟩
  · rw [resetIfEmpty_unread]
    exact segment_drop b.buffer b.tail b.size n
  · rw [resetIfEmpty_head, resetIfEmpty_size]

theorem appends_of_kept {b b' : LinearBuffer} (hb : b.Consistent) (h : b'.Consistent)
    (hcapacity : b'.capacity = b.capacity) (htail : b'.tail = b.tail) (hsize : b.size ≤ b'.size)
    (hkept : segment b'.buffer b.tail b.size = b.unread) :
    Appends b (b'.unread.drop b.unread.length) b' := by
  have htake : b'.unread.take b.unread.length = b.unread := by
    rw [hb.unread_length, unread, ← segment_take hsize, htail]
    exact hkept
  have hsplit := List.take_append_drop b.unread.length b'.unread
  rw [htake] at hsplit
  exact ⟨h, hcapacity, htail, hsplit.symm⟩

theorem Appends.patch {b b' : LinearBuffer} {xs ys : List UInt8} (hb : b.Consistent)
    (h : Appends b xs b') {k : ℕ} (hk : k + ys.length ≤ xs.length) :
    Appends b (overwrite xs k ys) (b'.store (b.head + k) ys) := by
  have hhead := h.head_eq hb
  have hle := h.consistent.head_le
  have hfit : b.head + k + ys.length ≤ b'.capacity := by omega
  refine ⟨h.consistent.store hfit, (store_capacity hfit).trans h.capacity_eq, h.tail_eq, ?_⟩
  have hpos : b.head + k = b'.tail + (b.unread.length + k) := by
    rw [h.tail_eq, hb.unread_length, ← hb.tail_add_size, Nat.add_assoc]
  have hin : b.unread.length + k + ys.length ≤ b'.size := by
    rw [h.size_eq hb, hb.unread_length]
    omega
  rw [unread, store_tail, store_size, LinearBuffer.store, hpos, segment_overwrite_inside ys hin
    (by rw [h.consistent.tail_add_size]; exact hle)]
  change overwrite b'.unread _ ys = _
  rw [h.unread_eq, overwrite_append]

/-! ### Reachable states are the consistent ones -/

theorem Reachable.consistent {b : LinearBuffer} (h : b.Reachable) : b.Consistent := by
  induction h with
  | new size => exact new_consistent size
  | @store b p bytes _ hp hlen ih =>
    have hroom := ih.head_add_room
    have hhead : p = b.head := by
      rw [getWriteHead_eq] at hp
      simp only at hp
      split at hp <;> simp_all
    exact ih.store (by subst hhead; change bytes.length ≤ b.room at hlen; omega)
  | commit n _ ih => exact ih.commit n
  | consume n _ ih => exact ih.consume n

theorem Reachable.write {b : LinearBuffer} (h : b.Reachable) {xs : List UInt8}
    (hlen : xs.length ≤ b.room) : (b.write xs).2.Reachable := by
  unfold LinearBuffer.write
  split
  · exact (Reachable.store h ‹_› hlen).commit _
  · exact h.commit _

end LinearBuffer
end Eestv
