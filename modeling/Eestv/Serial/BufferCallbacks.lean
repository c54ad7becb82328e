import Eestv.Data.IoBuffer
import Eestv.Serial.Arrival

/-! The multiplexer in the callbacks of a connection: a message serialized into a send buffer only
queues bytes, and reading messages out of a receive buffer only takes bytes out. -/

namespace Eestv
open LinearBuffer Relation

/-! ### Reachable buffers are the consistent ones -/

namespace LinearBuffer

theorem reachable_stored (bytes : List UInt8) : Reachable ⟨bytes, 0, 0, 0⟩ := by
  rcases bytes with _ | ⟨byte, rest⟩
  · exact Reachable.new 0
  · have hroom := new_room (byte :: rest).length
    have hstored : LinearBuffer.Reachable ((new (byte :: rest).length).store 0 (byte :: rest)) :=
      (Reachable.new (byte :: rest).length).store (by rw [getWriteHead_eq, hroom]; rfl)
        (Nat.le_of_eq hroom.symm)
    have hsame : (new (byte :: rest).length).store 0 (byte :: rest) = ⟨byte :: rest, 0, 0, 0⟩ := by
      simp [LinearBuffer.store, LinearBuffer.new, Segment.overwrite]
    exact hsame ▸ hstored

theorem Consistent.reachable {b : LinearBuffer} (hb : b.Consistent) : b.Reachable := by
  obtain ⟨buffer, head, tail, size⟩ := b
  obtain ⟨htail, hhead, hempty⟩ := hb
  dsimp only [capacity] at htail hhead hempty
  have hroom : LinearBuffer.room ⟨buffer, 0, 0, 0⟩ = buffer.length := by
    simp [LinearBuffer.room, getWriteHead]
  -- as many bytes as were ever committed, less those that were consumed
  have hcommitted := (reachable_stored buffer).commit head
  rw [commit_of_le (by rwa [hroom])] at hcommitted
  have hconsumed := hcommitted.consume tail
  rw [consume_of_le (by dsimp only; omega)] at hconsumed
  have hsize : 0 + head - tail = size := by omega
  dsimp only at hconsumed
  rw [hsize, Nat.zero_add, Nat.zero_add] at hconsumed
  unfold LinearBuffer.resetIfEmpty at hconsumed
  split at hconsumed
  · rename_i hzero
    dsimp only at hzero
    obtain rfl := hempty hzero
    obtain rfl : tail = 0 := by omega
    exact hconsumed
  · exact hconsumed

theorem Queues.write_commit {b b' : LinearBuffer} (hb : b.Consistent) (h : b.Queues b')
    {xs : List UInt8} (hroom : xs.length ≤ b'.room) (n : ℕ) :
    b.Queues ((b'.store b'.head xs).commit n).2 := by
  have happ := h.appends hb
  have hfit := happ.consistent.head_add_room
  have hhead := happ.head_eq hb
  refine .commit n (h.store ?_ ?_) <;> omega

end LinearBuffer

/-! ### Serializing -/

variable {o : ByteOrder} {pack : TypePack} {b : LinearBuffer}

theorem serializeArithmetic_queues (hb : b.Consistent) (w : Width) (value : BitVec (8 * w.bytes))
    {ar : Serializer} (h : b.Queues ar.buffer) :
    b.Queues (serializeArithmetic o w value ar).buffer := by
  unfold serializeArithmetic
  rw [getWriteHead_eq]
  dsimp only
  split
  · rename_i p hp
    split at hp
    · cases hp
      split
      · rename_i hge
        apply h.write_commit hb
        rw [o.encode_length]
        exact hge
      · exact h
    · cases hp
  · exact h

mutual
theorem serializeValue_queues (hb : b.Consistent) : ∀ (t : RecordType) (value : t.Value)
    (ar : Serializer), b.Queues ar.buffer → b.Queues (serializeValue o t value ar).buffer
  | .integer w, value, ar, h => by
    rw [serializeValue]
    exact serializeArithmetic_queues hb w value h
  | .record fields, value, ar, h => by
    rw [serializeValue]
    exact serializeFields_queues hb fields value ar h
theorem serializeFields_queues (hb : b.Consistent) : ∀ (ts : List RecordType)
    (values : FieldValues ts) (ar : Serializer), b.Queues ar.buffer →
      b.Queues (serializeFields o ts values ar).buffer
  | [], _, ar, h => by
    rw [serializeFields]
    exact h
  | t :: ts, (value, values), ar, h => by
    rw [serializeFields]
    exact serializeFields_queues hb ts values _ (serializeValue_queues hb t value ar h)
end

theorem serializeVariant_queues (v : pack.Variant) (hb : b.Consistent) :
    b.Queues (serializeVariant o pack v b).2 := by
  unfold serializeVariant serialize
  rw [getWriteHead_eq]
  dsimp only
  split
  · exact .start
  · rename_i p hp
    split at hp
    · cases hp
      split
      · exact .start
      · rename_i hroom
        have hheader : b.Queues ((b.store b.head [UInt8.ofNat (typeIndexImpl (pack.typeOf v)
            pack.types), 0x00, 0x00]).commit headerSize).2 :=
          Queues.start.write_commit hb (show List.length [_, _, _] ≤ _ from Nat.not_lt.mp hroom)
            headerSize
        split
        · exact hheader
        · have hvalue := serializeValue_queues (o := o) hb (pack.typeOf v).layout v.2 ⟨_, 0⟩ hheader
          split
          · exact hvalue
          · have hcapacity := (hvalue.appends hb).capacity_eq
            have hfit := hb.head_add_room
            have hle : headerSize ≤ b.room := Nat.not_lt.mp hroom
            refine hvalue.store (Nat.le_succ _) ?_
            rw [hcapacity]
            change b.head + 1 + 2 ≤ b.capacity
            change 3 ≤ b.room at hle
            omega
    · cases hp

/-! ### Deserializing -/

def LinearBuffer.Consumed (b b' : LinearBuffer) : Prop :=
  ReflTransGen (fun b b' => ∃ n, b' = (b.consume n).2) b b'

theorem LinearBuffer.Consumed.consume {b b' : LinearBuffer} (h : b.Consumed b') (n : ℕ) :
    b.Consumed (b'.consume n).2 := h.tail ⟨n, rfl⟩

theorem deserializeArithmetic_consumed (w : Width) (value : BitVec (8 * w.bytes))
    {ar : Deserializer} (h : b.Consumed ar.buffer) :
    b.Consumed (deserializeArithmetic o w value ar).2.buffer := by
  unfold deserializeArithmetic
  dsimp only
  split
  · split
    · exact h.consume w.bytes
    · exact h
  · exact h

mutual
theorem deserializeValue_consumed : ∀ (t : RecordType) (value : t.Value) (ar : Deserializer),
    b.Consumed ar.buffer → b.Consumed (deserializeValue o t value ar).2.buffer
  | .integer w, value, ar, h => by
    rw [deserializeValue]
    exact deserializeArithmetic_consumed w value h
  | .record fields, value, ar, h => by
    rw [deserializeValue]
    exact deserializeFields_consumed fields value ar h
theorem deserializeFields_consumed : ∀ (ts : List RecordType) (values : FieldValues ts)
    (ar : Deserializer), b.Consumed ar.buffer →
      b.Consumed (deserializeFields o ts values ar).2.buffer
  | [], _, ar, h => by
    rw [deserializeFields]
    exact h
  | t :: ts, (value, values), ar, h => by
    rw [deserializeFields]
    exact deserializeFields_consumed ts values _ (deserializeValue_consumed t value ar h)
end

theorem deserializeType_consumed (i : Fin pack.types.length) (payloadSize : ℕ)
    (resultOut : pack.Variant) {b' : LinearBuffer} (h : b.Consumed b') :
    b.Consumed (deserializeType o pack i payloadSize resultOut b').buffer := by
  have hvalue := deserializeValue_consumed (o := o) (pack.types.get i).layout
    (pack.types.get i).init ⟨b', 0⟩ h
  -- whichever verdict is returned, the buffer is the one behind the payload
  have hbuffer : (deserializeType o pack i payloadSize resultOut b').buffer =
      (deserializeValue o (pack.types.get i).layout (pack.types.get i).init ⟨b', 0⟩).2.buffer := by
    unfold deserializeType
    dsimp only
    split
    · rfl
    · exact apply_ite DemuxResult.buffer _ _ _ |>.trans (ite_self _)
  exact hbuffer ▸ hvalue

theorem deserializeByIndexImpl_consumed (typeIndex : UInt8) (payloadSize : ℕ)
    (resultOut : pack.Variant) {b' : LinearBuffer} (h : b.Consumed b')
    (indices : List (Fin pack.types.length)) :
    b.Consumed (deserializeByIndexImpl o pack typeIndex payloadSize resultOut b'
      indices).buffer := by
  induction indices with
  | nil => exact h
  | cons i rest ih =>
    rw [deserializeByIndexImpl]
    split
    · exact deserializeType_consumed i payloadSize resultOut h
    · exact ih

theorem deserialize_consumed {b' : LinearBuffer} (h : b.Consumed b') :
    b.Consumed (deserialize o pack b').buffer := by
  rcases hheader : readHeader b' with _ | ⟨typeIndex, payloadSize, b''⟩
  · rw [deserialize, hheader]
    exact h
  · have hconsumed : b'' = (b'.consume headerSize).2 := by
      unfold readHeader at hheader
      dsimp only at hheader
      split at hheader
      · cases hheader
      · split at hheader
        · cases hheader
        · cases hheader
          rfl
    have hrest : b.Consumed b'' := hconsumed ▸ h.consume headerSize
    rw [deserialize, hheader]
    dsimp only
    split
    · exact hrest
    · split
      · exact hrest
      · exact deserializeByIndexImpl_consumed typeIndex payloadSize _ hrest _

theorem drainFuel_consumed (fuel : ℕ) {b' : LinearBuffer} (h : b.Consumed b') :
    b.Consumed (drainFuel o pack fuel b').2 := by
  induction fuel generalizing b' with
  | zero => exact h
  | succ fuel ih =>
    have hone : b.Consumed (deserialize o pack b').buffer := deserialize_consumed h
    rw [drainFuel]
    split
    · exact ih hone
    · exact hone

theorem LinearBuffer.Consumed.reachable {b' : LinearBuffer} (h : b.Consumed b')
    (hb : b.Reachable) : b'.Reachable := by
  induction h with
  | refl => exact hb
  | tail _ hstep ih =>
    obtain ⟨n, rfl⟩ := hstep
    exact ih.consume n

namespace BufferCallback

def serialize (o : ByteOrder) (pack : TypePack) (v : pack.Variant) :
    BufferCallback LinearBuffer where
  apply b := (serializeVariant o pack v b).2
  reachable := by
    intro b hb
    have hb' := LinearBuffer.Reachable.consistent hb
    exact ((serializeVariant_queues v hb').appends hb').consistent.reachable

theorem serialize_queuesOnly (v : pack.Variant) : (serialize o pack v).QueuesOnly :=
  fun _ hb => serializeVariant_queues v hb

def drain (o : ByteOrder) (pack : TypePack) : BufferCallback LinearBuffer where
  apply b := (Eestv.drain o pack b).2
  reachable := by
    intro b hb
    exact (drainFuel_consumed (b.size + 1) ReflTransGen.refl).reachable hb

theorem drain_consumesOnly : (drain o pack).ConsumesOnly :=
  fun b => drainFuel_consumed (b.size + 1) ReflTransGen.refl

end BufferCallback

end Eestv
