import Eestv.Library.WhileLoop
import Eestv.Serial.Arrival

/-! The receiver on arbitrary bytes. The type index, the announced size and the
payload come from the peer, and a field is read whenever enough bytes are left in
the whole buffer. The reads are judged by a second run of the same code over a
memory that refuses every read outside the unread bytes. -/

namespace Eestv
open LinearBuffer FirstFit WhileLoop

/-- `load`, refused unless all of its bytes are unread ones inside the storage. -/
def LinearBuffer.loadUnread (b : LinearBuffer) (p n : ℕ) : Option (List UInt8) :=
  if b.tail ≤ p ∧ p + n ≤ b.tail + b.size ∧ p + n ≤ b.capacity then some (b.load p n) else none

/-! ### The receiver over the refusing memory

Every definition is the one it is named after with `loadUnread` for `load`; the
outer `none` is a refused read. -/

def checkedHeader (b : LinearBuffer) : Option (Option (UInt8 × ℕ × LinearBuffer)) :=
  let (readHead, available) := b.getReadHead
  match readHead with
  | none => some none
  | some p =>
    if available < headerSize then some none
    else
      (b.loadUnread p headerSize).map fun header =>
        some (header.getD 0 0,
          (header.getD 1 0).toNat ||| ((header.getD 2 0).toNat <<< bitsPerByte),
          (b.consume headerSize).2)

def checkedArithmetic (o : ByteOrder) (w : Width) (value : BitVec (8 * w.bytes))
    (ar : Deserializer) : Option (BitVec (8 * w.bytes) × Deserializer) :=
  let (readHead, available) := ar.buffer.getReadHead
  match readHead with
  | some p =>
    if available ≥ w.bytes then
      (ar.buffer.loadUnread p w.bytes).map fun bytes =>
        let (consumed, buffer) := ar.buffer.consume w.bytes
        (o.decode w.bytes bytes,
          ⟨buffer, if consumed then ar.bytesRead + w.bytes else ar.bytesRead⟩)
    else some (value, ar)
  | none => some (value, ar)

mutual
def checkedValue (o : ByteOrder) :
    (t : RecordType) → t.Value → Deserializer → Option (t.Value × Deserializer)
  | .integer w, value, ar => checkedArithmetic o w value ar
  | .record fields, value, ar => checkedFields o fields value ar
def checkedFields (o : ByteOrder) :
    (ts : List RecordType) → FieldValues ts → Deserializer →
      Option (FieldValues ts × Deserializer)
  | [], _, ar => some ((), ar)
  | t :: ts, (value, values), ar =>
    (checkedValue o t value ar).bind fun (value, ar) =>
      (checkedFields o ts values ar).map fun (values, ar) => ((value, values), ar)
end

section Definitions

variable (o : ByteOrder) (pack : TypePack)

def checkedType (i : Fin pack.types.length) (payloadSize : ℕ) (resultOut : pack.Variant)
    (b : LinearBuffer) : Option (DemuxResult pack) :=
  let T := pack.types.get i
  if payloadSize = 0 then
    (checkedValue o T.layout T.init ⟨b, 0⟩).map fun (value, deser) =>
      ⟨⟨i, value⟩, true, deser.buffer⟩
  else
    let availableBefore := b.getReadHead.2
    (checkedValue o T.layout T.init ⟨b, 0⟩).map fun (value, deser) =>
      let availableAfter := deser.buffer.getReadHead.2
      let bytesConsumed :=
        if availableBefore ≥ availableAfter then availableBefore - availableAfter else 0
      if bytesConsumed ≠ payloadSize then ⟨resultOut, false, deser.buffer⟩
      else ⟨⟨i, value⟩, true, deser.buffer⟩

def checkedByIndexImpl (typeIndex : UInt8) (payloadSize : ℕ) (resultOut : pack.Variant)
    (b : LinearBuffer) : List (Fin pack.types.length) → Option (DemuxResult pack)
  | [] => some ⟨resultOut, false, b⟩
  | i :: rest =>
    if typeIndex.toNat = i then checkedType o pack i payloadSize resultOut b
    else checkedByIndexImpl typeIndex payloadSize resultOut b rest

def checkedDeserialize (b : LinearBuffer) : Option (DemuxResult pack) :=
  (checkedHeader b).bind fun header =>
    match header with
    | none => some ⟨pack.defaultVariant, false, b⟩
    | some (typeIndex, payloadSize, b) =>
      if typeIndex.toNat ≥ pack.types.length then some ⟨pack.defaultVariant, false, b⟩
      else if payloadSize > 0 ∧ (b.getReadHead.1 = none ∨ b.getReadHead.2 < payloadSize) then
        some ⟨pack.defaultVariant, false, b⟩
      else checkedByIndexImpl o pack typeIndex payloadSize pack.defaultVariant b
        (List.finRange pack.types.length)

/-- What one call may do with the bytes it finds. -/
structure SafeCall (b : LinearBuffer) : Prop where
  unread_suffix : (deserialize o pack b).buffer.unread <:+ b.unread
  consistent : (deserialize o pack b).buffer.Consistent
  capacity_eq : (deserialize o pack b).buffer.capacity = b.capacity
  reads_unread : checkedDeserialize o pack b = some (deserialize o pack b)
  untouched : b.size < headerSize →
    (deserialize o pack b).buffer = b ∧ (deserialize o pack b).success = false
  progress : headerSize ≤ b.size → (deserialize o pack b).buffer.size + headerSize ≤ b.size
  default_of_failure : (deserialize o pack b).success = false →
    (deserialize o pack b).value = pack.defaultVariant

/-- `while (available >= header_size) deserialize(success);` -/
def readAll (fuel : ℕ) (b : LinearBuffer) : Option (List (DemuxCall pack) × LinearBuffer) :=
  loop (fun b => decide (headerSize ≤ b.getReadHead.2))
    (fun b => (⟨b, deserialize o pack b⟩, (deserialize o pack b).buffer)) fuel b

end Definitions

variable {o : ByteOrder} {pack : TypePack} {b : LinearBuffer}

/-! ### No read is refused -/

theorem loadUnread_tail (hb : b.Consistent) {n : ℕ} (hn : n ≤ b.size) :
    b.loadUnread b.tail n = some (b.load b.tail n) := by
  have htail := hb.tail_add_size
  have hhead := hb.head_le
  exact if_pos ⟨Nat.le_refl _, Nat.add_le_add_left hn _, by omega⟩

theorem checkedHeader_eq (hb : b.Consistent) : checkedHeader b = some (readHeader b) := by
  rcases Nat.lt_or_ge b.size headerSize with hlt | hge
  · rw [readHeader_short hlt]
    simp only [checkedHeader, getReadHead, hlt, if_true]
    split <;> rfl
  · have hpos : b.size > 0 := Nat.lt_of_lt_of_le (by decide) hge
    simp only [checkedHeader, readHeader, getReadHead, hpos, if_true, Nat.not_lt.mpr hge,
      if_false, loadUnread_tail hb hge, Option.map_some]

theorem checkedArithmetic_eq {ar : Deserializer} (hc : ar.buffer.Consistent) (w : Width)
    (value : BitVec (8 * w.bytes)) :
    checkedArithmetic o w value ar = some (deserializeArithmetic o w value ar) := by
  rcases Nat.lt_or_ge ar.buffer.size w.bytes with hlt | hge
  · rw [deserializeArithmetic_short hlt]
    simp only [checkedArithmetic, getReadHead, ge_iff_le, Nat.not_le.mpr hlt, if_false]
    split <;> rfl
  · have hpos : ar.buffer.size > 0 := w.bytes_pos.trans_le hge
    simp only [checkedArithmetic, deserializeArithmetic, getReadHead, hpos, if_true, ge_iff_le,
      hge, loadUnread_tail hc hge, Option.map_some]

-- each field finds the consistent buffer that the fields before it left
mutual
theorem checkedValue_eq {o : ByteOrder} :
    ∀ (t : RecordType) (value : t.Value) (ar : Deserializer), ar.buffer.Consistent →
      checkedValue o t value ar = some (deserializeValue o t value ar)
  | .integer w, value, ar, hc => by
    rw [checkedValue, deserializeValue]
    exact checkedArithmetic_eq hc w value
  | .record fields, value, ar, hc => by
    rw [checkedValue, deserializeValue]
    exact checkedFields_eq fields value ar hc
theorem checkedFields_eq {o : ByteOrder} :
    ∀ (ts : List RecordType) (values : FieldValues ts) (ar : Deserializer),
      ar.buffer.Consistent →
      checkedFields o ts values ar = some (deserializeFields o ts values ar)
  | [], _, ar, _ => by
    rw [checkedFields, deserializeFields]
  | t :: ts, (value, values), ar, hc => by
    have hleft := (deserializeValue_consumes (o := o) t value ar hc).consistent
    rw [checkedFields, deserializeFields, checkedValue_eq t value ar hc, Option.bind_some]
    dsimp only
    rw [checkedFields_eq ts values _ hleft, Option.map_some]
end

theorem checkedType_eq (hb : b.Consistent) (i : Fin pack.types.length) (payloadSize : ℕ)
    (resultOut : pack.Variant) :
    checkedType o pack i payloadSize resultOut b =
      some (deserializeType o pack i payloadSize resultOut b) := by
  have hvalue := checkedValue_eq (o := o) (pack.types.get i).layout (pack.types.get i).init
    ⟨b, 0⟩ hb
  simp only [checkedType, deserializeType, hvalue, Option.map_some]
  split <;> rfl

theorem checkedByIndexImpl_eq (hb : b.Consistent) (typeIndex : UInt8) (payloadSize : ℕ)
    (resultOut : pack.Variant) (indices : List (Fin pack.types.length)) :
    checkedByIndexImpl o pack typeIndex payloadSize resultOut b indices =
      some (deserializeByIndexImpl o pack typeIndex payloadSize resultOut b indices) := by
  induction indices with
  | nil => rfl
  | cons i rest ih =>
    rw [checkedByIndexImpl, deserializeByIndexImpl]
    split
    · exact checkedType_eq hb i payloadSize resultOut
    · exact ih

theorem readHeader_consistent (hb : b.Consistent) {typeIndex : UInt8} {payloadSize : ℕ}
    {b' : LinearBuffer} (h : readHeader b = some (typeIndex, payloadSize, b')) :
    b'.Consistent := by
  rcases Nat.lt_or_ge b.size headerSize with hlt | hge
  · rw [readHeader_short hlt] at h
    exact absurd h (by simp only [reduceCtorEq, not_false_eq_true])
  · obtain ⟨t, lo, hi, rest, hu⟩ := exists_header hb hge
    rw [readHeader_eq hb hu] at h
    simp only [Option.some.injEq, Prod.mk.injEq] at h
    rw [← h.2.2]
    exact hb.consume headerSize

theorem checkedDeserialize_eq (hb : b.Consistent) :
    checkedDeserialize o pack b = some (deserialize o pack b) := by
  rw [checkedDeserialize, deserialize, checkedHeader_eq hb, Option.bind_some]
  cases hheader : readHeader b with
  | none => rfl
  | some header =>
    obtain ⟨typeIndex, payloadSize, b'⟩ := header
    have hb' := readHeader_consistent hb hheader
    dsimp only
    split
    · rfl
    · split
      · rfl
      · exact checkedByIndexImpl_eq hb' typeIndex payloadSize pack.defaultVariant _

/-! ### One call -/

theorem deserialize_failure (hb : b.Consistent) (h : (deserialize o pack b).success = false) :
    (deserialize o pack b).value = pack.defaultVariant := by
  rcases Nat.lt_or_ge b.size headerSize with hlt | hge
  · rw [deserialize_short hlt]
  · obtain ⟨t, lo, hi, rest, hu⟩ := exists_header hb hge
    rw [deserialize_header hb hu] at h ⊢
    by_cases ht : t.toNat < pack.types.length
    · rw [dif_pos ht] at h ⊢
      by_cases hwait : 0 < announcedSize lo hi ∧ rest.length < announcedSize lo hi
      · rw [if_pos hwait]
      · rw [if_neg hwait] at h ⊢
        have hvalue := (deserializeType_success (o := o) (hb.consume headerSize) ⟨t.toNat, ht⟩
          (announcedSize lo hi) pack.defaultVariant).2.2
        rw [hvalue, h]
        exact if_neg Bool.false_ne_true
    · rw [dif_neg ht]

theorem safeCall (o : ByteOrder) (pack : TypePack) (hb : b.Consistent) : SafeCall o pack b := by
  obtain ⟨n, hconsumed, -⟩ := deserialize_consumes o pack hb
  refine ⟨?_, hconsumed.consistent, hconsumed.capacity_eq, checkedDeserialize_eq hb, ?_, ?_,
    deserialize_failure hb⟩
  · rw [hconsumed.unread_eq]
    exact List.drop_suffix n b.unread
  · intro hlt
    rw [deserialize_short hlt]
    exact ⟨rfl, rfl⟩
  · intro hge
    obtain ⟨m, hm⟩ := deserialize_progress o pack hb hge
    have hsize := hm.size_eq hb
    have hle := hm.le_size
    omega

/-! ### Reading as long as a header is there -/

/-- Arbitrary bytes are consumed from the front, no read leaves them, and a loop of calls
is over after one call for every three bytes at most. -/
theorem hostile_bytes_safe (o : ByteOrder) (pack : TypePack) (b : LinearBuffer)
    (hb : b.Consistent) :
    SafeCall o pack b ∧
      ∀ fuel, b.size / headerSize ≤ fuel →
        ∃ calls b', readAll o pack fuel b = some (calls, b') ∧
          calls.length ≤ b.size / headerSize ∧ b'.size < headerSize ∧ b'.Consistent ∧
          ∀ c ∈ calls, SafeCall o pack c.before := by
  refine ⟨safeCall o pack hb, ?_⟩
  intro fuel hfuel
  have hthree : 0 < headerSize := by decide
  have henough : b.size < (fuel + 1) * headerSize :=
    (Nat.div_lt_iff_lt_mul hthree).mp (Nat.lt_succ_of_le hfuel)
  have hends : ∃ calls b', readAll o pack fuel b = some (calls, b') ∧
      decide (headerSize ≤ b'.size) = false ∧ b'.Consistent ∧
      (∀ c ∈ calls, SafeCall o pack c.before) ∧
      calls.length * headerSize + b'.size ≤ b.size := by
    apply loop_ends (m := LinearBuffer.size)
    · exact fun b hb _ => (safeCall o pack hb).consistent
    · exact fun b hb _ => safeCall o pack hb
    · exact fun b hb hon => (safeCall o pack hb).progress (of_decide_eq_true hon)
    · exact hb
    · exact henough
  obtain ⟨calls, b', hloop, hoff, hb', hsafe, hpaid⟩ := hends
  refine ⟨calls, b', hloop, ?_, Nat.lt_of_not_le (of_decide_eq_false hoff), hb', hsafe⟩
  rw [Nat.le_div_iff_mul_le hthree]
  exact (Nat.le_add_right _ _).trans hpaid

theorem hostile_bytes_safe_garbage :
    let b := ((new 7).write [200, 1, 0, 0, 5, 0, 9]).2
    SafeCall .little bytePack b ∧
      ∃ calls b', readAll .little bytePack 2 b = some (calls, b') ∧ calls.length ≤ 2 ∧
        b'.size < headerSize := by
  intro b
  have hb : b.Consistent := ((Reachable.new 7).write (by decide)).consistent
  obtain ⟨hsafe, hloop⟩ := hostile_bytes_safe .little bytePack b hb
  obtain ⟨calls, b', hread, hcalls, hsize, -, -⟩ := hloop 2 (by decide)
  have htwo : b.size / headerSize = 2 := by decide
  exact ⟨hsafe, calls, b', hread, htwo ▸ hcalls, hsize⟩

end Eestv
