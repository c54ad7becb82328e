import Eestv.Serial.Deserializer
import Eestv.Serial.MultiplexingSerializer

/-! The receiving side of the message multiplexer. The header is consumed before
the payload is looked at, and the payload is read by a `Deserializer` whose
consumption is compared with the announced size afterwards. -/

namespace Eestv
open LinearBuffer FirstFit

/-- The variant returned, `success_out`, and the buffer left behind. -/
structure DemuxResult (pack : TypePack) where
  value : pack.Variant
  success : Bool
  buffer : LinearBuffer

def TypePack.defaultVariant (pack : TypePack) : pack.Variant :=
  ⟨⟨0, pack.nonempty⟩, (pack.types.get ⟨0, pack.nonempty⟩).init⟩

def readHeader (b : LinearBuffer) : Option (UInt8 × ℕ × LinearBuffer) :=
  let (readHead, available) := b.getReadHead
  match readHead with
  | none => none
  | some p =>
    if available < headerSize then none
    else
      let header := b.load p headerSize
      some (header.getD 0 0,
        (header.getD 1 0).toNat ||| ((header.getD 2 0).toNat <<< bitsPerByte),
        (b.consume headerSize).2)

variable (o : ByteOrder) (pack : TypePack)

def deserializeType (i : Fin pack.types.length) (payloadSize : ℕ) (resultOut : pack.Variant)
    (b : LinearBuffer) : DemuxResult pack :=
  let T := pack.types.get i
  if payloadSize = 0 then
    let (value, deser) := deserializeValue o T.layout T.init ⟨b, 0⟩
    ⟨⟨i, value⟩, true, deser.buffer⟩
  else
    let availableBefore := b.getReadHead.2
    let (value, deser) := deserializeValue o T.layout T.init ⟨b, 0⟩
    let availableAfter := deser.buffer.getReadHead.2
    let bytesConsumed :=
      if availableBefore ≥ availableAfter then availableBefore - availableAfter else 0
    if bytesConsumed ≠ payloadSize then ⟨resultOut, false, deser.buffer⟩
    else ⟨⟨i, value⟩, true, deser.buffer⟩

/-- The fold over the index pack, up to the first index that matches. -/
def deserializeByIndexImpl (typeIndex : UInt8) (payloadSize : ℕ) (resultOut : pack.Variant)
    (b : LinearBuffer) : List (Fin pack.types.length) → DemuxResult pack
  | [] => ⟨resultOut, false, b⟩
  | i :: rest =>
    if typeIndex.toNat = i then deserializeType o pack i payloadSize resultOut b
    else deserializeByIndexImpl typeIndex payloadSize resultOut b rest

def deserializeByIndex (typeIndex : UInt8) (payloadSize : ℕ) (b : LinearBuffer) :
    DemuxResult pack :=
  deserializeByIndexImpl o pack typeIndex payloadSize pack.defaultVariant b
    (List.finRange pack.types.length)

def deserialize (b : LinearBuffer) : DemuxResult pack :=
  match readHeader b with
  | none => ⟨pack.defaultVariant, false, b⟩
  | some (typeIndex, payloadSize, b) =>
    if typeIndex.toNat ≥ pack.types.length then ⟨pack.defaultVariant, false, b⟩
    else if payloadSize > 0 ∧ (b.getReadHead.1 = none ∨ b.getReadHead.2 < payloadSize) then
      ⟨pack.defaultVariant, false, b⟩
    else deserializeByIndex o pack typeIndex payloadSize b

/-! ### What a call does with the unread bytes -/

variable {o : ByteOrder} {pack : TypePack} {b : LinearBuffer}

def announcedSize (lo hi : UInt8) : ℕ := lo.toNat + 256 * hi.toNat

theorem announcedSize_ofNat {size : ℕ} (h : size ≤ maxPayloadSize) :
    announcedSize (UInt8.ofNat size) (UInt8.ofNat (size / 256)) = size := by
  rw [announcedSize, UInt8.toNat_ofNat', UInt8.toNat_ofNat']
  simp only [maxPayloadSize] at h
  omega

theorem or_shift_eq (lo hi : UInt8) :
    lo.toNat ||| (hi.toNat <<< bitsPerByte) = announcedSize lo hi := by
  have h := Nat.two_pow_add_eq_or_of_lt (i := 8) lo.toNat_lt hi.toNat
  rw [Nat.shiftLeft_eq, Nat.or_comm, Nat.mul_comm, show bitsPerByte = 8 from rfl, ← h,
    announcedSize, Nat.add_comm]

theorem readHeader_short (h : b.size < headerSize) : readHeader b = none := by
  simp only [readHeader, getReadHead, h, if_true]
  split <;> rfl

theorem size_of_header (hb : b.Consistent) {t lo hi : UInt8} {rest : List UInt8}
    (hu : b.unread = t :: lo :: hi :: rest) : b.size = rest.length + headerSize := by
  rw [← hb.unread_length, hu]
  rfl

theorem readHeader_eq (hb : b.Consistent) {t lo hi : UInt8} {rest : List UInt8}
    (hu : b.unread = t :: lo :: hi :: rest) :
    readHeader b = some (t, announcedSize lo hi, (b.consume headerSize).2) := by
  have hle : headerSize ≤ b.size := by
    rw [size_of_header hb hu]
    exact Nat.le_add_left _ _
  have hload : b.load b.tail headerSize = [t, lo, hi] := by
    rw [load_tail hle, hu]
    rfl
  have hpos : b.size > 0 := Nat.lt_of_lt_of_le (by decide) hle
  simp only [readHeader, getReadHead, hpos, if_true, Nat.not_lt.mpr hle, if_false, hload]
  rw [← or_shift_eq]
  rfl

theorem deserializeByIndexImpl_eq {typeIndex : UInt8} {payloadSize : ℕ} {resultOut : pack.Variant}
    (i : Fin pack.types.length) (h : typeIndex.toNat = i) {indices : List (Fin pack.types.length)}
    (hi : i ∈ indices) :
    deserializeByIndexImpl o pack typeIndex payloadSize resultOut b indices =
      deserializeType o pack i payloadSize resultOut b := by
  induction indices with
  | nil => exact absurd hi List.not_mem_nil
  | cons j rest ih =>
    rw [deserializeByIndexImpl]
    by_cases hj : j = i
    · rw [hj, if_pos h]
    · rw [if_neg (fun he => hj (Fin.ext (he.symm.trans h)))]
      exact ih ((List.mem_cons.mp hi).resolve_left (Ne.symm hj))

theorem deserializeByIndex_eq {typeIndex : UInt8} {payloadSize : ℕ} (i : Fin pack.types.length)
    (h : typeIndex.toNat = i) :
    deserializeByIndex o pack typeIndex payloadSize b =
      deserializeType o pack i payloadSize pack.defaultVariant b :=
  deserializeByIndexImpl_eq i h (List.mem_finRange i)

theorem deserializeType_success (hb : b.Consistent) (i : Fin pack.types.length) (payloadSize : ℕ)
    (resultOut : pack.Variant) :
    let T := pack.types.get i
    let r := deserializeType o pack i payloadSize resultOut b
    (r.success = true ↔ payloadSize = 0 ∨ T.layout.fittingSize b.size = payloadSize) ∧
      r.buffer = (deserializeValue o T.layout T.init ⟨b, 0⟩).2.buffer ∧
      r.value = if r.success then ⟨i, (deserializeValue o T.layout T.init ⟨b, 0⟩).1⟩
        else resultOut := by
  intro T r
  have hconsumed := deserializeValue_consumes (o := o) T.layout T.init ⟨b, 0⟩ hb
  have hsize := hconsumed.size_eq hb
  have hle := hconsumed.le_size
  dsimp only at hsize hle
  by_cases h0 : payloadSize = 0
  · have hr : r = ⟨⟨i, (deserializeValue o T.layout T.init ⟨b, 0⟩).1⟩, true,
        (deserializeValue o T.layout T.init ⟨b, 0⟩).2.buffer⟩ := if_pos h0
    rw [hr]
    exact ⟨by simp only [h0, true_or], rfl, rfl⟩
  · have hbytes : (if b.size ≥ (deserializeValue o T.layout T.init ⟨b, 0⟩).2.buffer.size then
        b.size - (deserializeValue o T.layout T.init ⟨b, 0⟩).2.buffer.size else 0) =
          T.layout.fittingSize b.size := by
      rw [if_pos (by omega), hsize]
      omega
    have hr : r = if T.layout.fittingSize b.size ≠ payloadSize then
        ⟨resultOut, false, (deserializeValue o T.layout T.init ⟨b, 0⟩).2.buffer⟩
        else ⟨⟨i, (deserializeValue o T.layout T.init ⟨b, 0⟩).1⟩, true,
          (deserializeValue o T.layout T.init ⟨b, 0⟩).2.buffer⟩ := by
      rw [← hbytes]
      exact if_neg h0
    rw [hr]
    by_cases hfit : T.layout.fittingSize b.size = payloadSize
    · rw [if_neg (not_not.mpr hfit)]
      exact ⟨by simp only [hfit, or_true], rfl, rfl⟩
    · rw [if_pos hfit]
      exact ⟨by simp only [Bool.false_eq_true, h0, hfit, or_self], rfl, rfl⟩

theorem deserialize_short (h : b.size < headerSize) :
    deserialize o pack b = ⟨pack.defaultVariant, false, b⟩ := by
  rw [deserialize, readHeader_short h]

theorem exists_header (hb : b.Consistent) (h : headerSize ≤ b.size) :
    ∃ t lo hi rest, b.unread = t :: lo :: hi :: rest := by
  have hlen : 3 ≤ b.unread.length := by
    rw [hb.unread_length]
    exact h
  match hx : b.unread, hlen with
  | t :: lo :: hi :: rest, _ => exact ⟨t, lo, hi, rest, rfl⟩

theorem consume_header (hb : b.Consistent) {t lo hi : UInt8} {rest : List UInt8}
    (hu : b.unread = t :: lo :: hi :: rest) :
    Consumes b headerSize (b.consume headerSize).2 ∧
      (b.consume headerSize).2.unread = rest ∧ (b.consume headerSize).2.size = rest.length := by
  have hc : Consumes b headerSize (b.consume headerSize).2 :=
    consume_consumes hb (by rw [size_of_header hb hu]; exact Nat.le_add_left _ _)
  have hrest : (b.consume headerSize).2.unread = rest := by
    rw [hc.unread_eq, hu]
    rfl
  exact ⟨hc, hrest, by rw [← hc.consistent.unread_length, hrest]⟩

theorem deserialize_header (hb : b.Consistent) {t lo hi : UInt8} {rest : List UInt8}
    (hu : b.unread = t :: lo :: hi :: rest) :
    deserialize o pack b =
      if h : t.toNat < pack.types.length then
        if 0 < announcedSize lo hi ∧ rest.length < announcedSize lo hi then
          ⟨pack.defaultVariant, false, (b.consume headerSize).2⟩
        else deserializeType o pack ⟨t.toNat, h⟩ (announcedSize lo hi) pack.defaultVariant
          (b.consume headerSize).2
      else ⟨pack.defaultVariant, false, (b.consume headerSize).2⟩ := by
  obtain ⟨-, -, hrest⟩ := consume_header hb hu
  rw [deserialize, readHeader_eq hb hu]
  by_cases ht : t.toNat < pack.types.length
  · simp only [ge_iff_le, Nat.not_le.mpr ht, if_false, ht, dif_pos, getReadHead_null,
      getReadHead_snd, hrest, gt_iff_lt]
    by_cases hp : 0 < announcedSize lo hi ∧ rest.length < announcedSize lo hi
    · rw [if_pos hp, if_pos ⟨hp.1, Or.inr hp.2⟩]
    · rw [if_neg hp, if_neg (fun h => hp ⟨h.1, by omega⟩),
        deserializeByIndex_eq ⟨t.toNat, ht⟩ rfl]
  · simp only [ge_iff_le, Nat.not_lt.mp ht, if_true, ht, dif_neg, not_false_eq_true]

end Eestv
