import Eestv.Data.LinearBuffer
import Eestv.Serial.Record

/-! Writing values to a linear buffer. `Serializer` leaves out every integer
that does not fit and goes on with the next one, so the bytes it appends are
those of a first-fit selection of the leaves. -/

namespace Eestv
open LinearBuffer FirstFit

/-- The archive; the buffer it refers to is passed along with it. -/
structure Serializer where
  buffer : LinearBuffer
  bytesWritten : ℕ
deriving DecidableEq

def serializeArithmetic (o : ByteOrder) (w : Width) (value : BitVec (8 * w.bytes))
    (ar : Serializer) : Serializer :=
  let (writeHead, available) := ar.buffer.getWriteHead
  match writeHead with
  | some p =>
    if available ≥ w.bytes then
      let (committed, buffer) := (ar.buffer.store p (o.encode value)).commit w.bytes
      ⟨buffer, if committed then ar.bytesWritten + w.bytes else ar.bytesWritten⟩
    else ar
  | none => ar

mutual
def serializeValue (o : ByteOrder) : (t : RecordType) → t.Value → Serializer → Serializer
  | .integer w, value, ar => serializeArithmetic o w value ar
  | .record fields, value, ar => serializeFields o fields value ar
def serializeFields (o : ByteOrder) :
    (ts : List RecordType) → FieldValues ts → Serializer → Serializer
  | [], _, ar => ar
  | t :: ts, (value, values), ar => serializeFields o ts values (serializeValue o t value ar)
end

/-- `ar'` is `ar` after the leaves `ls` were offered to it in order. -/
structure Writes (o : ByteOrder) (ls : List Leaf) (ar ar' : Serializer) : Prop where
  appends : Appends ar.buffer (encodeLeaves o (fill Leaf.width ar.buffer.room ls)) ar'.buffer
  bytesWritten_eq :
    ar'.bytesWritten = ar.bytesWritten + total Leaf.width (fill Leaf.width ar.buffer.room ls)

variable {o : ByteOrder} {ls ks : List Leaf} {ar ar' ar'' : Serializer}

theorem Writes.nil (h : ar.buffer.Consistent) : Writes o [] ar ar := ⟨Appends.refl h, rfl⟩

theorem Writes.append (hc : ar.buffer.Consistent) (h : Writes o ls ar ar')
    (h' : Writes o ks ar' ar'') : Writes o (ls ++ ks) ar ar'' := by
  have hroom : ar'.buffer.room =
      ar.buffer.room - total Leaf.width (fill Leaf.width ar.buffer.room ls) := by
    rw [h.appends.room_eq hc, encodeLeaves_length]
  constructor
  · rw [fill_append, encodeLeaves_append, ← hroom]
    exact h.appends.trans h'.appends
  · rw [fill_append, total_append, ← hroom, h'.bytesWritten_eq, h.bytesWritten_eq, Nat.add_assoc]

theorem serializeArithmetic_writes (hc : ar.buffer.Consistent) (w : Width)
    (value : BitVec (8 * w.bytes)) :
    Writes o [⟨w, value⟩] ar (serializeArithmetic o w value ar) := by
  have hpos := w.bytes_pos
  have hfill : fill Leaf.width ar.buffer.room [⟨w, value⟩] =
      if w.bytes ≤ ar.buffer.room then [⟨w, value⟩] else [] := rfl
  rcases Nat.lt_or_ge ar.buffer.room w.bytes with hlt | hge
  · -- no room for this integer: it is left out without notice
    have hskip : serializeArithmetic o w value ar = ar := by
      simp only [serializeArithmetic, getWriteHead_eq, ge_iff_le, Nat.not_le.mpr hlt, if_false]
      split <;> rfl
    rw [hskip]
    rw [if_neg (Nat.not_le.mpr hlt)] at hfill
    exact ⟨by rw [hfill]; exact Appends.refl hc, by rw [hfill]; rfl⟩
  · have hlen : (o.encode value).length = w.bytes := o.encode_length value
    obtain ⟨hok, happ⟩ := store_commit_appends hc (hlen.trans_le hge)
    rw [hlen] at hok happ
    have hput : serializeArithmetic o w value ar =
        ⟨((ar.buffer.store ar.buffer.head (o.encode value)).commit w.bytes).2,
          ar.bytesWritten + w.bytes⟩ := by
      simp only [serializeArithmetic, getWriteHead_eq, gt_iff_lt, hpos.trans_le hge, if_true,
        ge_iff_le, hge, hok]
    rw [hput]
    rw [if_pos hge] at hfill
    refine ⟨?_, by rw [hfill]; rfl⟩
    rw [hfill, encodeLeaves_cons]
    exact (List.append_nil (o.encode value)).symm ▸ happ

mutual
theorem serializeValue_writes {o : ByteOrder} :
    ∀ (t : RecordType) (value : t.Value) (ar : Serializer), ar.buffer.Consistent →
      Writes o (t.flatten value) ar (serializeValue o t value ar)
  | .integer w, value, ar, hc => by
    rw [RecordType.flatten, serializeValue]
    exact serializeArithmetic_writes hc w value
  | .record fields, value, ar, hc => by
    rw [RecordType.flatten, serializeValue]
    exact serializeFields_writes fields value ar hc
theorem serializeFields_writes {o : ByteOrder} :
    ∀ (ts : List RecordType) (values : FieldValues ts) (ar : Serializer), ar.buffer.Consistent →
      Writes o (flattenFields ts values) ar (serializeFields o ts values ar)
  | [], _, ar, hc => by
    rw [flattenFields, serializeFields]
    exact Writes.nil hc
  | t :: ts, (value, values), ar, hc => by
    have h := serializeValue_writes (o := o) t value ar hc
    rw [flattenFields, serializeFields]
    exact h.append hc (serializeFields_writes ts values _ h.appends.consistent)
end

theorem serializeValue_bytesWritten (t : RecordType) (value : t.Value) (ar : Serializer)
    (hc : ar.buffer.Consistent) :
    (serializeValue o t value ar).bytesWritten =
      ar.bytesWritten + t.fittingSize ar.buffer.room := by
  rw [(serializeValue_writes t value ar hc).bytesWritten_eq, t.total_fill_flatten]

end Eestv
