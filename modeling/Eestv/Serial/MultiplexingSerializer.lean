import Eestv.Serial.Serializer

/-! The sending side of the message multiplexer. A frame is the index of the
value's type, the payload size in two bytes and the payload; the size is written
as zero at first and patched through the saved write pointer afterwards. -/

namespace Eestv
open LinearBuffer FirstFit Segment

def maxTypes : ℕ := 255
def headerSize : ℕ := 3
def maxPayloadSize : ℕ := 0xFFFF
def byteMask : ℕ := 0xFF
def bitsPerByte : ℕ := 8

/-- A type that can be registered: its name, by which the compiler tells it from
every other type, its layout, and the value of a default-constructed object. -/
structure ArchiveType where
  name : String
  layout : RecordType
  init : layout.Value

/-- The template argument list; both multiplexer templates assert its bounds. -/
structure TypePack where
  types : List ArchiveType
  nonempty : 0 < types.length
  length_le : types.length ≤ maxTypes

abbrev TypePack.Variant (pack : TypePack) : Type :=
  (i : Fin pack.types.length) × (pack.types.get i).layout.Value

abbrev TypePack.typeOf (pack : TypePack) (v : pack.Variant) : ArchiveType := pack.types.get v.1
def TypePack.sizeOf (pack : TypePack) (v : pack.Variant) : ℕ := (pack.typeOf v).layout.encodedSize

def TypePack.Distinct (pack : TypePack) : Prop := (pack.types.map ArchiveType.name).Nodup

instance (pack : TypePack) : Decidable pack.Distinct :=
  inferInstanceAs (Decidable (pack.types.map ArchiveType.name).Nodup)

/-- `type_index_impl<T, Types...>::value`; without a match there is no value in the source. -/
def typeIndexImpl (T : ArchiveType) : List ArchiveType → ℕ
  | [] => 0
  | first :: rest => if T.name = first.name then 0 else 1 + typeIndexImpl T rest

def serialize (o : ByteOrder) (pack : TypePack) (T : ArchiveType) (value : T.layout.Value)
    (buffer : LinearBuffer) : Bool × LinearBuffer :=
  let typeIndex := UInt8.ofNat (typeIndexImpl T pack.types)
  let (writeHead, available) := buffer.getWriteHead
  match writeHead with
  | none => (false, buffer)
  | some p =>
    if available < headerSize then (false, buffer)
    else
      let (committed, buffer) := (buffer.store p [typeIndex, 0x00, 0x00]).commit headerSize
      if !committed then (false, buffer)
      else
        let ser := serializeValue o T.layout value ⟨buffer, 0⟩
        let payloadSize := ser.bytesWritten
        if payloadSize > maxPayloadSize then (false, ser.buffer)
        else
          (true, ser.buffer.store (p + 1) [UInt8.ofNat (payloadSize &&& byteMask),
            UInt8.ofNat ((payloadSize >>> bitsPerByte) &&& byteMask)])

def serializeVariant (o : ByteOrder) (pack : TypePack) (v : pack.Variant) (buffer : LinearBuffer) :
    Bool × LinearBuffer := serialize o pack (pack.typeOf v) v.2 buffer

/-- The three header bytes: type index, then the payload size as a little-endian 16-bit number. -/
def header (index size : ℕ) : List UInt8 := UInt8.ofNat index :: ByteOrder.lowBytes 2 size

variable {o : ByteOrder} {pack : TypePack}

def frame (o : ByteOrder) (pack : TypePack) (T : ArchiveType) (value : T.layout.Value) :
    List UInt8 :=
  header (typeIndexImpl T pack.types) T.layout.encodedSize ++ T.layout.encode o value

def TypePack.frame (pack : TypePack) (o : ByteOrder) (v : pack.Variant) : List UInt8 :=
  Eestv.frame o pack (pack.typeOf v) v.2

theorem header_length (index size : ℕ) : (header index size).length = headerSize := rfl

theorem frame_length (o : ByteOrder) (pack : TypePack) (T : ArchiveType) (value : T.layout.Value) :
    (frame o pack T value).length = headerSize + T.layout.encodedSize := by
  rw [frame, List.length_append, header_length, T.layout.encode_length o value]

theorem TypePack.frame_length (pack : TypePack) (o : ByteOrder) (v : pack.Variant) :
    (pack.frame o v).length = headerSize + pack.sizeOf v :=
  Eestv.frame_length o pack (pack.typeOf v) v.2

theorem typeIndexImpl_get {types : List ArchiveType} (h : (types.map ArchiveType.name).Nodup)
    (i : Fin types.length) : typeIndexImpl (types.get i) types = i := by
  induction types with
  | nil => exact i.elim0
  | cons first rest ih =>
    obtain ⟨hnot, hnodup⟩ := List.nodup_cons.mp h
    refine Fin.cases ?_ (fun j => ?_) i
    · exact if_pos rfl
    · have hne : (rest.get j).name ≠ first.name := fun he =>
        hnot (he ▸ List.mem_map_of_mem (List.get_mem rest j))
      change typeIndexImpl (rest.get j) (first :: rest) = j + 1
      rw [typeIndexImpl, if_neg hne, ih hnodup j, Nat.add_comm]

theorem toNat_index (i : Fin pack.types.length) : (UInt8.ofNat i).toNat = i := by
  have hle := pack.length_le
  have hlt := i.isLt
  rw [UInt8.toNat_ofNat']
  simp only [maxTypes] at hle
  omega

theorem frame_eq (o : ByteOrder) (hd : pack.Distinct) (v : pack.Variant) :
    pack.frame o v = UInt8.ofNat v.1 :: UInt8.ofNat (pack.sizeOf v) ::
      UInt8.ofNat (pack.sizeOf v / 256) :: (pack.typeOf v).layout.encode o v.2 := by
  rw [TypePack.frame, frame, typeIndexImpl_get hd]
  rfl

theorem patchBytes_eq (size : ℕ) :
    [UInt8.ofNat (size &&& byteMask), UInt8.ofNat ((size >>> bitsPerByte) &&& byteMask)] =
      ByteOrder.lowBytes 2 size := by
  have hmask (n : ℕ) : UInt8.ofNat (n &&& byteMask) = UInt8.ofNat n := by
    apply UInt8.toNat_inj.mp
    rw [UInt8.toNat_ofNat', UInt8.toNat_ofNat', show byteMask = 2 ^ 8 - 1 from rfl,
      Nat.and_two_pow_sub_one_eq_mod, Nat.mod_mod]
  rw [hmask, hmask, Nat.shiftRight_eq_div_pow]
  rfl

def writtenPayload (o : ByteOrder) (T : ArchiveType) (value : T.layout.Value) (room : ℕ) :
    List UInt8 :=
  encodeLeaves o (fill Leaf.width room (T.layout.flatten value))

theorem writtenPayload_of_le {T : ArchiveType} {value : T.layout.Value} {room : ℕ}
    (h : T.layout.encodedSize ≤ room) :
    writtenPayload o T value room = T.layout.encode o value := by
  rw [writtenPayload, fill_of_total_le _ (by rwa [T.layout.total_flatten]), RecordType.encode]

theorem serialize_no_room {b : LinearBuffer} (T : ArchiveType) (value : T.layout.Value)
    (h : b.room < headerSize) : serialize o pack T value b = (false, b) := by
  simp only [serialize, getWriteHead_eq, h, if_true]
  split <;> rfl

/-- What a call does when there is room for the header, in terms of the payload
that fits behind it: too large a payload stays in the buffer with size 0. -/
theorem serialize_room (o : ByteOrder) (pack : TypePack) {b : LinearBuffer} (hb : b.Consistent)
    (T : ArchiveType) (value : T.layout.Value) (h : headerSize ≤ b.room) :
    let fitting := T.layout.fittingSize (b.room - headerSize)
    let r := serialize o pack T value b
    r.1 = decide (fitting ≤ maxPayloadSize) ∧
      Appends b (header (typeIndexImpl T pack.types)
        (if fitting ≤ maxPayloadSize then fitting else 0) ++
          writtenPayload o T value (b.room - headerSize)) r.2 := by
  intro fitting r
  have hpos : 0 < b.room := Nat.lt_of_lt_of_le (by decide) h
  let index := UInt8.ofNat (typeIndexImpl T pack.types)
  obtain ⟨hok, hhead⟩ := store_commit_appends hb (show [index, 0x00, 0x00].length ≤ b.room from h)
  -- the buffer once the placeholder header is committed, and the archive after the payload
  let b₁ := ((b.store b.head [index, 0x00, 0x00]).commit headerSize).2
  let ser := serializeValue o T.layout value ⟨b₁, 0⟩
  have hroom : b₁.room = b.room - headerSize := hhead.room_eq hb
  have hpayload : Appends b₁ (writtenPayload o T value (b.room - headerSize)) ser.buffer := by
    rw [← hroom]
    exact (serializeValue_writes T.layout value ⟨b₁, 0⟩ hhead.consistent).appends
  have hwritten : ser.bytesWritten = fitting := by
    rw [serializeValue_bytesWritten T.layout value ⟨b₁, 0⟩ hhead.consistent, Nat.zero_add, hroom]
  have happ := hhead.trans hpayload
  have hr : r = if fitting > maxPayloadSize then (false, ser.buffer)
      else (true, ser.buffer.store (b.head + 1) (ByteOrder.lowBytes 2 fitting)) := by
    rw [← hwritten, ← patchBytes_eq]
    change serialize o pack T value b = _
    simp only [serialize, getWriteHead_eq, gt_iff_lt, hpos, if_true, Nat.not_lt.mpr h, if_false]
    change (if !((b.store b.head [index, 0x00, 0x00]).commit headerSize).1 then _ else _) = _
    rw [show ((b.store b.head [index, 0x00, 0x00]).commit headerSize).1 = true from hok]
    rfl
  rcases Nat.lt_or_ge maxPayloadSize fitting with hgt | hle
  · -- the early return leaves the placeholder and the payload behind
    rw [hr, if_pos hgt, if_neg (Nat.not_le.mpr hgt)]
    exact ⟨(decide_eq_false (Nat.not_le.mpr hgt)).symm, happ⟩
  · rw [hr, if_neg (Nat.not_lt.mpr hle), if_pos hle]
    refine ⟨(decide_eq_true hle).symm, ?_⟩
    have hlen : 1 + (ByteOrder.lowBytes 2 fitting).length ≤
        ([index, 0x00, 0x00] ++ writtenPayload o T value (b.room - headerSize)).length := by
      rw [ByteOrder.lowBytes_length, List.length_append]
      exact Nat.le_add_right 3 _
    exact happ.patch hb hlen

end Eestv
