import Eestv.Serial.DemultiplexingDeserializer

/-! Which messages the multiplexer accepts on either side, and where its
verdict departs from the message format: the sender reports a message as sent
although the buffer cut it off, and the receiver reads a message whose announced
size is not that of its type. -/

namespace Eestv
open LinearBuffer FirstFit

variable {o : ByteOrder} {pack : TypePack} {b : LinearBuffer}

/-! ### The sender -/

/-- The verdict says whether the whole message fits, and a message reported as
sent stands complete behind the earlier bytes. -/
def VerdictSound (o : ByteOrder) (pack : TypePack) (v : pack.Variant) (b : LinearBuffer) : Prop :=
  let r := serializeVariant o pack v b
  (r.1 = true ↔ headerSize + pack.sizeOf v ≤ b.room ∧ pack.sizeOf v ≤ maxPayloadSize) ∧
    (r.1 = true → r.2.unread = b.unread ++ pack.frame o v)

/-- A message reported as not sent leaves no trace. -/
def IntactOnFailure (o : ByteOrder) (pack : TypePack) (v : pack.Variant) (b : LinearBuffer) :
    Prop :=
  let r := serializeVariant o pack v b
  r.1 = false → r.2.unread = b.unread

def TypePack.fitting (pack : TypePack) (v : pack.Variant) (b : LinearBuffer) : ℕ :=
  (pack.typeOf v).layout.fittingSize (b.room - headerSize)

theorem serializeVariant_no_room (v : pack.Variant) (h : b.room < headerSize) :
    serializeVariant o pack v b = (false, b) := serialize_no_room (pack.typeOf v) v.2 h

theorem serializeVariant_verdict (hb : b.Consistent) (v : pack.Variant)
    (h : headerSize ≤ b.room) :
    (serializeVariant o pack v b).1 = true ↔ pack.fitting v b ≤ maxPayloadSize := by
  rw [serializeVariant, (serialize_room o pack hb (pack.typeOf v) v.2 h).1, decide_eq_true_iff,
    TypePack.fitting]

theorem serializeVariant_fits (hb : b.Consistent) (v : pack.Variant)
    (hroom : headerSize + pack.sizeOf v ≤ b.room) (hsize : pack.sizeOf v ≤ maxPayloadSize) :
    (serializeVariant o pack v b).1 = true ∧
      Appends b (pack.frame o v) (serializeVariant o pack v b).2 := by
  have h3 : headerSize ≤ b.room := Nat.le_of_add_right_le hroom
  have hfit : (pack.typeOf v).layout.encodedSize ≤ b.room - headerSize := by
    change pack.sizeOf v ≤ _
    omega
  have hle : (pack.typeOf v).layout.fittingSize (b.room - headerSize) ≤ maxPayloadSize := by
    rw [RecordType.fittingSize_of_le hfit]
    exact hsize
  obtain ⟨hverdict, happ⟩ := serialize_room o pack hb (pack.typeOf v) v.2 h3
  refine ⟨hverdict.trans (decide_eq_true hle), ?_⟩
  rwa [if_pos hle, RecordType.fittingSize_of_le hfit, writtenPayload_of_le hfit] at happ

/-- The verdict is sound unless there is room for the header but not for the
message and what fits of the payload is small enough to be announced. -/
theorem verdictSound_iff (o : ByteOrder) (pack : TypePack) (v : pack.Variant) (b : LinearBuffer)
    (hb : b.Reachable) :
    VerdictSound o pack v b ↔
      b.room < headerSize ∨ headerSize + pack.sizeOf v ≤ b.room ∨
        maxPayloadSize < pack.fitting v b := by
  have hc := hb.consistent
  rcases Nat.lt_or_ge b.room headerSize with hlt | hge
  · have hr := serializeVariant_no_room (o := o) v hlt
    simp only [VerdictSound, hr, hlt, true_or, iff_true, Bool.false_eq_true, false_iff,
      IsEmpty.forall_iff, and_true]
    omega
  have hverdict := serializeVariant_verdict (o := o) hc v hge
  rcases Nat.lt_or_ge b.room (headerSize + pack.sizeOf v) with hcut | hroom
  · constructor
    · intro h
      refine Or.inr (Or.inr (Nat.lt_of_not_le fun hle => ?_))
      have := (h.1.mp (hverdict.mpr hle)).1
      omega
    · intro h
      have hbig : ¬ pack.fitting v b ≤ maxPayloadSize := by omega
      refine ⟨?_, fun ht => absurd (hverdict.mp ht) hbig⟩
      rw [hverdict]
      omega
  · have hfit : pack.fitting v b = pack.sizeOf v :=
      RecordType.fittingSize_of_le (by change pack.sizeOf v ≤ _; omega)
    rw [hfit] at hverdict
    refine iff_of_true ⟨?_, fun ht => ?_⟩ (Or.inr (Or.inl hroom))
    · rw [hverdict]
      omega
    · exact (serializeVariant_fits hc v hroom (hverdict.mp ht)).2.unread_eq

theorem intactOnFailure_iff (hb : b.Consistent) (v : pack.Variant) :
    IntactOnFailure o pack v b ↔
      b.room < headerSize ∨ pack.fitting v b ≤ maxPayloadSize := by
  rcases Nat.lt_or_ge b.room headerSize with hlt | hge
  · have hr := serializeVariant_no_room (o := o) v hlt
    simp only [IntactOnFailure, hr, hlt, true_or, implies_true]
  have hverdict := serializeVariant_verdict (o := o) hb v hge
  constructor
  · intro h
    refine Or.inr (Nat.le_of_not_lt fun hbig => ?_)
    have hfalse : (serializeVariant o pack v b).1 = false :=
      Bool.eq_false_of_not_eq_true fun ht => absurd (hverdict.mp ht) (Nat.not_le.mpr hbig)
    -- the header alone makes the unread bytes longer
    have happ := (serialize_room o pack hb (pack.typeOf v) v.2 hge).2.unread_eq
    have hlen := congrArg List.length (happ.symm.trans (h hfalse))
    rw [List.length_append, List.length_append, header_length] at hlen
    simp only [headerSize] at hlen
    omega
  · intro h hfalse
    have hle := h.resolve_left (Nat.not_lt.mpr hge)
    rw [hverdict.mpr hle] at hfalse
    contradiction

def bytePack : TypePack := ⟨[⟨"Byte", .integer .one, (0 : BitVec 8)⟩], by decide, by decide⟩

def byteSeven : bytePack.Variant := ⟨⟨0, by decide⟩, (7 : BitVec 8)⟩

def byteWordPack : TypePack :=
  ⟨bytePack.types ++ [⟨"Word", .integer .two, (0 : BitVec 16)⟩], by decide, by decide⟩

theorem verdictSound_iff_room_four :
    VerdictSound .little bytePack byteSeven (new 4) :=
  (verdictSound_iff .little bytePack byteSeven (new 4) (.new 4)).mpr (by decide)

theorem verdict_of_cut_off_message :
    (new 3).Reachable ∧ ¬ VerdictSound .little bytePack byteSeven (new 3) :=
  ⟨.new 3, fun h => absurd (h.1.mp (by decide)).1 (by decide)⟩

/-! ### The receiver -/

def StartsWithMessage (pack : TypePack) (i : Fin pack.types.length) (xs : List UInt8) : Prop :=
  ∃ t lo hi rest, xs = t :: lo :: hi :: rest ∧ t.toNat = i ∧
    announcedSize lo hi = (pack.types.get i).layout.encodedSize ∧
    (pack.types.get i).layout.encodedSize ≤ rest.length

/-- Exactly the complete messages are accepted; an accepted one is consumed to
its end, and sending the value again writes the bytes it was read from. -/
def AcceptsImage (o : ByteOrder) (pack : TypePack) (b : LinearBuffer) : Prop :=
  let r := deserialize o pack b
  (r.success = true ↔ ∃ i, StartsWithMessage pack i b.unread) ∧
    (r.success = true →
      r.buffer.unread = b.unread.drop (headerSize + pack.sizeOf r.value) ∧
      ∀ n, headerSize + pack.sizeOf r.value ≤ n →
        (serializeVariant o pack r.value (new n)).1 = true ∧
        (serializeVariant o pack r.value (new n)).2.unread =
          b.unread.take (headerSize + pack.sizeOf r.value))

/-- A header of a registered type announces a size that is not the type's, and the
size is zero or what first-fit reads out of the bytes that are there. -/
def Misread (pack : TypePack) (xs : List UInt8) : Prop :=
  ∃ t lo hi rest, ∃ i : Fin pack.types.length, xs = t :: lo :: hi :: rest ∧ t.toNat = i ∧
    announcedSize lo hi ≠ (pack.types.get i).layout.encodedSize ∧
    (announcedSize lo hi = 0 ∨
      (pack.types.get i).layout.fittingSize rest.length = announcedSize lo hi)

theorem lowBytes_announcedSize (lo hi : UInt8) :
    ByteOrder.lowBytes 2 (announcedSize lo hi) = [lo, hi] := by
  have h := ByteOrder.lowBytes_ofLowBytes [lo, hi]
  rwa [ByteOrder.ofLowBytes, ByteOrder.ofLowBytes, ByteOrder.ofLowBytes, Nat.mul_zero,
    Nat.add_zero] at h

theorem announcedSize_le (lo hi : UInt8) : announcedSize lo hi ≤ maxPayloadSize := by
  have hlo := lo.toNat_lt
  have hhi := hi.toNat_lt
  simp only [announcedSize, maxPayloadSize]
  omega

theorem deserialize_registered (hb : b.Consistent) {t lo hi : UInt8} {rest : List UInt8}
    (hu : b.unread = t :: lo :: hi :: rest) (i : Fin pack.types.length) (ht : t.toNat = i)
    (havail : announcedSize lo hi = 0 ∨ announcedSize lo hi ≤ rest.length) :
    deserialize o pack b =
      deserializeType o pack i (announcedSize lo hi) pack.defaultVariant
        (b.consume headerSize).2 := by
  have hlt : t.toNat < pack.types.length := ht ▸ i.isLt
  rw [deserialize_header hb hu, dif_pos hlt, if_neg (by omega)]
  exact congrArg (fun j => deserializeType o pack j _ _ _) (Fin.ext ht)

theorem deserialize_success_iff (o : ByteOrder) (pack : TypePack) (hb : b.Consistent)
    {t lo hi : UInt8} {rest : List UInt8} (hu : b.unread = t :: lo :: hi :: rest) :
    (deserialize o pack b).success = true ↔
      ∃ i : Fin pack.types.length, t.toNat = i ∧
        (announcedSize lo hi = 0 ∨
          (pack.types.get i).layout.fittingSize rest.length = announcedSize lo hi) := by
  obtain ⟨hc, -, hrest⟩ := consume_header hb hu
  by_cases ht : t.toNat < pack.types.length
  · have hfit := ((pack.types.get ⟨t.toNat, ht⟩).layout).fittingSize_le rest.length
    by_cases havail : announcedSize lo hi = 0 ∨ announcedSize lo hi ≤ rest.length
    · rw [deserialize_registered hb hu ⟨t.toNat, ht⟩ rfl havail,
        (deserializeType_success hc.consistent ⟨t.toNat, ht⟩ _ _).1, hrest]
      constructor
      · exact fun h => ⟨⟨t.toNat, ht⟩, rfl, h⟩
      · rintro ⟨i, hi, h⟩
        rwa [show i = ⟨t.toNat, ht⟩ from Fin.ext hi.symm] at h
    · rw [deserialize_header hb hu, dif_pos ht, if_pos (by omega)]
      refine iff_of_false Bool.false_ne_true ?_
      rintro ⟨i, hi, h⟩
      rw [show i = ⟨t.toNat, ht⟩ from Fin.ext hi.symm] at h
      omega
  · rw [deserialize_header hb hu, dif_neg ht]
    refine iff_of_false Bool.false_ne_true ?_
    rintro ⟨i, hi, -⟩
    exact ht (hi ▸ i.isLt)

theorem startsWithMessage_cons {i : Fin pack.types.length} {t lo hi : UInt8} {rest : List UInt8} :
    StartsWithMessage pack i (t :: lo :: hi :: rest) ↔
      t.toNat = i ∧ announcedSize lo hi = (pack.types.get i).layout.encodedSize ∧
        (pack.types.get i).layout.encodedSize ≤ rest.length := by
  constructor
  · rintro ⟨t', lo', hi', rest', he, h⟩
    simp only [List.cons.injEq] at he
    obtain ⟨rfl, rfl, rfl, rfl⟩ := he
    exact h
  · exact fun h => ⟨t, lo, hi, rest, rfl, h⟩

theorem misread_cons {t lo hi : UInt8} {rest : List UInt8} :
    Misread pack (t :: lo :: hi :: rest) ↔
      ∃ i : Fin pack.types.length, t.toNat = i ∧
        announcedSize lo hi ≠ (pack.types.get i).layout.encodedSize ∧
        (announcedSize lo hi = 0 ∨
          (pack.types.get i).layout.fittingSize rest.length = announcedSize lo hi) := by
  constructor
  · rintro ⟨t', lo', hi', rest', i, he, h⟩
    simp only [List.cons.injEq] at he
    obtain ⟨rfl, rfl, rfl, rfl⟩ := he
    exact ⟨i, h⟩
  · exact fun ⟨i, h⟩ => ⟨t, lo, hi, rest, i, rfl, h⟩

theorem deserialize_message (hb : b.Consistent) {i : Fin pack.types.length}
    (h : StartsWithMessage pack i b.unread) :
    ∃ value : (pack.types.get i).layout.Value,
      (deserialize o pack b).success = true ∧ (deserialize o pack b).value = ⟨i, value⟩ ∧
      Consumes b (headerSize + (pack.types.get i).layout.encodedSize)
        (deserialize o pack b).buffer ∧
      header i (pack.types.get i).layout.encodedSize ++
          (pack.types.get i).layout.encode o value =
        b.unread.take (headerSize + (pack.types.get i).layout.encodedSize) := by
  obtain ⟨t, lo, hi, rest, hu, ht, hsize, hlen⟩ := h
  obtain ⟨hc, hrest, hsz⟩ := consume_header hb hu
  have hr := deserialize_registered (o := o) hb hu i ht (Or.inr (by omega))
  obtain ⟨hs, hbuf, hval⟩ := deserializeType_success (o := o) hc.consistent i (announcedSize lo hi)
    pack.defaultVariant
  rw [← hr, hsz, RecordType.fittingSize_of_le hlen] at hs
  rw [← hr] at hbuf hval
  have hok := hs.mpr (Or.inr hsize.symm)
  rw [hok, if_pos rfl] at hval
  refine ⟨_, hok, hval, ?_, ?_⟩
  · have hread := deserializeValue_consumes (o := o) (pack.types.get i).layout
      (pack.types.get i).init ⟨(b.consume headerSize).2, 0⟩ hc.consistent
    rw [hbuf]
    refine hc.trans hb ?_
    rwa [hsz, RecordType.fittingSize_of_le hlen] at hread
  · rw [encode_deserializeValue _ _ ⟨(b.consume headerSize).2, 0⟩ hc.consistent (by rwa [hsz]),
      hrest, hu, header, ← hsize, lowBytes_announcedSize, ← ht, UInt8.ofNat_toNat, headerSize,
      Nat.add_comm]
    rfl

theorem deserialize_frame (o : ByteOrder) (hd : pack.Distinct) {b : LinearBuffer}
    (hb : b.Consistent) (v : pack.Variant) {rest : List UInt8}
    (hsize : pack.sizeOf v ≤ maxPayloadSize) (hu : b.unread = pack.frame o v ++ rest) :
    (deserialize o pack b).success = true ∧ (deserialize o pack b).value = v ∧
      Consumes b (headerSize + pack.sizeOf v) (deserialize o pack b).buffer := by
  have hframe := frame_eq o hd v
  have hstart : StartsWithMessage pack v.1 b.unread := by
    rw [hu, hframe]
    refine startsWithMessage_cons.mpr ⟨toNat_index v.1, announcedSize_ofNat hsize, ?_⟩
    change (pack.typeOf v).layout.encodedSize ≤ ((pack.typeOf v).layout.encode o v.2 ++ rest).length
    rw [List.length_append, RecordType.encode_length]
    exact Nat.le_add_right _ _
  obtain ⟨value, hok, hval, hcons, hbytes⟩ := deserialize_message (o := o) hb hstart
  have hvalue : value = v.2 := by
    apply RecordType.encode_injective o
    refine List.append_cancel_left (hbytes.trans ?_)
    rw [hu]
    exact (List.take_left' (pack.frame_length o v)).trans hframe
  exact ⟨hok, by rw [hval, hvalue], hcons⟩

theorem acceptsImage_of_short (hb : b.Consistent) (h : b.size < headerSize) :
    AcceptsImage o pack b ∧ ¬Misread pack b.unread := by
  have hshort : ∀ t lo hi rest, b.unread ≠ t :: lo :: hi :: rest := by
    intro t lo hi rest he
    rw [size_of_header hb he] at h
    exact absurd h (Nat.not_lt.mpr (Nat.le_add_left _ _))
  refine ⟨⟨?_, ?_⟩, fun ⟨_, _, _, _, _, he, _⟩ => hshort _ _ _ _ he⟩ <;> rw [deserialize_short h]
  · exact iff_of_false Bool.false_ne_true fun ⟨_, _, _, _, _, he, _⟩ => hshort _ _ _ _ he
  · exact fun h => absurd h Bool.false_ne_true

theorem startsWithMessage_of_success (hb : b.Consistent) (hsize : headerSize ≤ b.size)
    (hm : ¬Misread pack b.unread) (hok : (deserialize o pack b).success = true) :
    ∃ i, StartsWithMessage pack i b.unread := by
  obtain ⟨t, lo, hi, rest, hu⟩ := exists_header hb hsize
  obtain ⟨i, ht, hread⟩ := (deserialize_success_iff o pack hb hu).mp hok
  rw [hu, misread_cons] at hm
  have hannounced : announcedSize lo hi = (pack.types.get i).layout.encodedSize := by
    by_contra hne
    exact hm ⟨i, ht, hne, hread⟩
  refine ⟨i, hu ▸ startsWithMessage_cons.mpr ⟨ht, hannounced, ?_⟩⟩
  rcases hread with hzero | hfit
  · omega
  · rw [hannounced, RecordType.fittingSize_eq_iff] at hfit
    exact hfit

theorem not_misread_of_acceptsImage (hb : b.Consistent) (h : AcceptsImage o pack b) :
    ¬Misread pack b.unread := by
  rintro ⟨t, lo, hi, rest, i, hu, ht, hne, hread⟩
  obtain ⟨j, hj⟩ := h.1.mp ((deserialize_success_iff o pack hb hu).mpr ⟨i, ht, hread⟩)
  rw [hu, startsWithMessage_cons] at hj
  rw [show j = i from Fin.ext (hj.1.symm.trans ht)] at hj
  exact hne hj.2.1

/-- The receiver accepts the sender's messages and nothing else exactly when the
unread bytes are not misread. -/
theorem acceptsImage_iff (o : ByteOrder) (pack : TypePack) (hd : pack.Distinct) (b : LinearBuffer)
    (hb : b.Reachable) : AcceptsImage o pack b ↔ ¬ Misread pack b.unread := by
  have hc := hb.consistent
  rcases Nat.lt_or_ge b.size headerSize with hlt | hge
  · obtain ⟨haccepts, hnot⟩ := acceptsImage_of_short (o := o) hc hlt
    exact iff_of_true haccepts hnot
  refine ⟨not_misread_of_acceptsImage hc, fun hm => ?_⟩
  have hstart := startsWithMessage_of_success (o := o) hc hge hm
  refine ⟨⟨hstart, fun ⟨i, hi⟩ => ?_⟩, fun hok => ?_⟩
  · obtain ⟨_, hok, -⟩ := deserialize_message (o := o) hc hi
    exact hok
  · obtain ⟨i, hi⟩ := hstart hok
    obtain ⟨value, -, hval, hcons, hbytes⟩ := deserialize_message (o := o) hc hi
    rw [hval]
    refine ⟨hcons.unread_eq, fun n hn => ?_⟩
    have hsize : pack.sizeOf ⟨i, value⟩ ≤ maxPayloadSize := by
      obtain ⟨_, lo, hi, _, _, _, hs, _⟩ := hi
      exact hs.symm.trans_le (announcedSize_le lo hi)
    obtain ⟨hv, happ⟩ := serializeVariant_fits (o := o) (new_consistent n) ⟨i, value⟩
      (by rwa [new_room]) hsize
    refine ⟨hv, ?_⟩
    rw [happ.unread_eq, new_unread, List.nil_append, TypePack.frame, frame, typeIndexImpl_get hd]
    exact hbytes

theorem acceptsImage_iff_message :
    AcceptsImage .little bytePack ((new 4).write [0, 1, 0, 7]).2 :=
  (acceptsImage_iff .little bytePack (by decide) _ ((Reachable.new 4).write (by decide))).mpr (by
    rintro ⟨t, lo, hi, rest, i, hu, ht, hne, hread⟩
    have hu' : [0, 1, 0, 7] = t :: lo :: hi :: rest := hu
    simp only [List.cons.injEq] at hu'
    obtain ⟨rfl, rfl, rfl, rfl⟩ := hu'
    obtain rfl : i = ⟨0, by decide⟩ := Fin.ext ht.symm
    exact absurd rfl hne)

theorem accepts_missing_payload :
    ((new 3).write [0, 0, 0]).2.Reachable ∧
      ¬ AcceptsImage .little bytePack ((new 3).write [0, 0, 0]).2 := by
  refine ⟨(Reachable.new 3).write (by decide), fun h => ?_⟩
  obtain ⟨i, t, lo, hi, rest, hu, -, hsize, -⟩ := h.1.mp (by decide)
  have hu' : [0, 0, 0] = t :: lo :: hi :: rest := hu
  simp only [List.cons.injEq] at hu'
  obtain ⟨rfl, rfl, rfl, rfl⟩ := hu'
  obtain rfl : i = ⟨0, by decide⟩ := Fin.ext (Nat.lt_one_iff.mp i.isLt)
  exact absurd hsize (by decide)

end Eestv
