import Eestv.Data.LinearBufferFifo

/-! What a connection does with its buffer types, and what they promise it. -/

namespace Eestv

namespace LinearBuffer

/-- What can become of `b` through `commit` and through pointers into the room behind its bytes,
which may be kept and written through again. -/
inductive Queues (b : LinearBuffer) : LinearBuffer → Prop
  | start : Queues b b
  | store {b' : LinearBuffer} {p : ℕ} {bytes : List UInt8} : Queues b b' → b.head ≤ p →
      p + bytes.length ≤ b'.capacity → Queues b (b'.store p bytes)
  | commit {b' : LinearBuffer} (n : ℕ) : Queues b b' → Queues b (b'.commit n).2

theorem Queues.appends {b b' : LinearBuffer} (hb : b.Consistent) (h : Queues b b') :
    Appends b (b'.unread.drop b.unread.length) b' := by
  have key : b'.Consistent ∧ b'.capacity = b.capacity ∧ b'.tail = b.tail ∧ b.size ≤ b'.size ∧
      Segment.segment b'.buffer b.tail b.size = b.unread := by
    induction h with
    | start => exact ⟨hb, rfl, rfl, Nat.le_refl _, rfl⟩
    | @store b' p bytes _ hp hfit ih =>
      obtain ⟨hc, hcapacity, htail, hsize, hkept⟩ := ih
      refine ⟨hc.store hfit, (store_capacity hfit).trans hcapacity, htail, hsize, ?_⟩
      rw [LinearBuffer.store, Segment.segment_overwrite_behind bytes, hkept]
      · rw [hb.tail_add_size]
        exact hp
      · exact Nat.le_of_add_right_le hfit
    | @commit b' n _ ih =>
      obtain ⟨hc, hcapacity, htail, hsize, hkept⟩ := ih
      refine ⟨hc.commit n, ?_⟩
      rcases Nat.lt_or_ge b'.room n with hn | hn
      · rw [commit_of_gt hn]
        exact ⟨hcapacity, htail, hsize, hkept⟩
      · rw [commit_of_le hn]
        exact ⟨hcapacity, htail, Nat.le_add_right_of_le hsize, hkept⟩
  obtain ⟨hc, hcapacity, htail, hsize, hkept⟩ := key
  exact appends_of_kept hb hc hcapacity htail hsize hkept

end LinearBuffer

/-- A buffer type with the memory behind its pointers. -/
class IoBuffer (β : Type) where
  new : ℕ → β
  getReadHead : β → Option ℕ × ℕ
  consume : β → ℕ → Bool × β
  getWriteHead : β → Option ℕ × ℕ
  commit : β → ℕ → Bool × β
  store : β → ℕ → List UInt8 → β
  load : β → ℕ → ℕ → List UInt8
  Reachable : β → Prop
  reachable_new (size : ℕ) : Reachable (new size)
  reachable_consume {b : β} (n : ℕ) : Reachable b → Reachable (consume b n).2
  reachable_commit {b : β} (n : ℕ) : Reachable b → Reachable (commit b n).2
  reachable_store {b : β} {p n : ℕ} {bytes : List UInt8} : Reachable b →
    getWriteHead b = (some p, n) → bytes.length ≤ n → Reachable (store b p bytes)
  windows_disjoint {b : β} : Reachable b →
    Disjoint (LinearBuffer.region (getReadHead b)) (LinearBuffer.region (getWriteHead b))

structure BufferCallback (β : Type) [IoBuffer β] where
  apply : β → β
  reachable {b : β} : IoBuffer.Reachable b → IoBuffer.Reachable (apply b)

instance : IoBuffer LinearBuffer where
  new := LinearBuffer.new
  getReadHead := LinearBuffer.getReadHead
  consume := LinearBuffer.consume
  getWriteHead := LinearBuffer.getWriteHead
  commit := LinearBuffer.commit
  store := LinearBuffer.store
  load := LinearBuffer.load
  Reachable := LinearBuffer.Reachable
  reachable_new := LinearBuffer.Reachable.new
  reachable_consume := LinearBuffer.Reachable.consume
  reachable_commit := LinearBuffer.Reachable.commit
  reachable_store := by
    intro b p n bytes hb hwindow hlen
    apply LinearBuffer.Reachable.store hb
    · rw [hwindow]
    · rw [hwindow]
      exact hlen
  windows_disjoint := by
    intro b hb
    exact LinearBuffer.regions_disjoint hb.consistent

namespace BufferCallback

def write (bytes : List UInt8) : BufferCallback LinearBuffer where
  apply b := if bytes.length ≤ b.room then (b.write bytes).2 else b
  reachable := by
    intro b hb
    split
    · exact LinearBuffer.Reachable.write hb ‹_›
    · exact hb

def consume (n : ℕ) : BufferCallback LinearBuffer :=
  ⟨fun b => (b.consume n).2, LinearBuffer.Reachable.consume n⟩

def QueuesOnly (callback : BufferCallback LinearBuffer) : Prop :=
  ∀ b : LinearBuffer, b.Consistent → b.Queues (callback.apply b)

theorem write_queuesOnly (bytes : List UInt8) : (write bytes).QueuesOnly := by
  intro b hb
  have hroom := hb.head_add_room
  unfold write
  dsimp only
  split
  · unfold LinearBuffer.write
    rw [LinearBuffer.getWriteHead_eq]
    split
    · rename_i p hp
      dsimp only at hp
      split at hp
      · cases hp
        exact .commit _ (.store .start (Nat.le_refl _) (by omega))
      · cases hp
    · exact .commit _ .start
  · exact .start

/-- Takes bytes off the front, in any portions. -/
def ConsumesOnly (callback : BufferCallback LinearBuffer) : Prop :=
  ∀ b, Relation.ReflTransGen (fun b b' => ∃ n, b' = (LinearBuffer.consume b n).2) b
    (callback.apply b)

theorem ConsumesOnly.consumes {callback : BufferCallback LinearBuffer}
    (h : callback.ConsumesOnly) {b : LinearBuffer} (hb : b.Consistent) :
    ∃ n, b.Consumes n (callback.apply b) := by
  have key : ∀ b', Relation.ReflTransGen (fun b b' => ∃ n, b' = (LinearBuffer.consume b n).2) b b' →
      ∃ n, b.Consumes n b' := by
    intro b' hrun
    induction hrun with
    | refl => exact ⟨0, LinearBuffer.Consumes.refl hb⟩
    | tail _ hstep ih =>
      obtain ⟨m, hm⟩ := ih
      obtain ⟨n, rfl⟩ := hstep
      rcases Nat.lt_or_ge (LinearBuffer.size _) n with hlt | hle
      · rw [LinearBuffer.consume_of_gt hlt]
        exact ⟨m, hm⟩
      · exact ⟨m + n, hm.trans hb (LinearBuffer.consume_consumes hm.consistent hle)⟩
  exact key _ (h b)

end BufferCallback
end Eestv
