import Eestv.Data.LinearBuffer
import Eestv.Serial.Record

/-! Reading values from a linear buffer. `Deserializer` leaves every integer
alone for which too few bytes are unread and goes on with the next one, the
same first-fit selection that `Serializer` makes when it runs out of room. -/

namespace Eestv
open LinearBuffer FirstFit

structure Deserializer where
  buffer : LinearBuffer
  bytesRead : ℕ
deriving DecidableEq

def deserializeArithmetic (o : ByteOrder) (w : Width) (value : BitVec (8 * w.bytes))
    (ar : Deserializer) : BitVec (8 * w.bytes) × Deserializer :=
  let (readHead, available) := ar.buffer.getReadHead
  match readHead with
  | some p =>
    if available ≥ w.bytes then
      let value := o.decode w.bytes (ar.buffer.load p w.bytes)
      let (consumed, buffer) := ar.buffer.consume w.bytes
      (value, ⟨buffer, if consumed then ar.bytesRead + w.bytes else ar.bytesRead⟩)
    else (value, ar)
  | none => (value, ar)

mutual
def deserializeValue (o : ByteOrder) :
    (t : RecordType) → t.Value → Deserializer → t.Value × Deserializer
  | .integer w, value, ar => deserializeArithmetic o w value ar
  | .record fields, value, ar => deserializeFields o fields value ar
def deserializeFields (o : ByteOrder) :
    (ts : List RecordType) → FieldValues ts → Deserializer → FieldValues ts × Deserializer
  | [], _, ar => ((), ar)
  | t :: ts, (value, values), ar =>
    let (value, ar) := deserializeValue o t value ar
    let (values, ar) := deserializeFields o ts values ar
    ((value, values), ar)
end

def readLeaves (o : ByteOrder) : List Leaf → List UInt8 → List Leaf
  | [], _ => []
  | l :: ls, xs =>
    if l.width ≤ xs.length then
      ⟨l.1, o.decode l.1.bytes (xs.take l.width)⟩ :: readLeaves o ls (xs.drop l.width)
    else l :: readLeaves o ls xs

/-- `ls'` and `ar'` are what becomes of the targets `ls` and the archive `ar`. -/
structure Reads (o : ByteOrder) (ls ls' : List Leaf) (ar ar' : Deserializer) : Prop where
  consumes : Consumes ar.buffer (total Leaf.width (fill Leaf.width ar.buffer.size ls)) ar'.buffer
  leaves_eq : ls' = readLeaves o ls ar.buffer.unread
  bytesRead_eq :
    ar'.bytesRead = ar.bytesRead + total Leaf.width (fill Leaf.width ar.buffer.size ls)

theorem readLeaves_append (o : ByteOrder) (ls ks : List Leaf) (xs : List UInt8) :
    readLeaves o (ls ++ ks) xs = readLeaves o ls xs ++
      readLeaves o ks (xs.drop (total Leaf.width (fill Leaf.width xs.length ls))) := by
  induction ls generalizing xs with
  | nil => rfl
  | cons l ls ih =>
    rw [List.cons_append, readLeaves, readLeaves, fill]
    split
    · rw [ih, total_cons, List.cons_append, List.length_drop, List.drop_drop]
    · rw [ih, List.cons_append]

theorem readLeaves_cons_encode (o : ByteOrder) {t v : Leaf} (hw : t.1 = v.1) (ts : List Leaf)
    (xs : List UInt8) :
    readLeaves o (t :: ts) (v.encode o ++ xs) = v :: readLeaves o ts xs := by
  obtain ⟨w, _⟩ := t
  obtain ⟨w', v⟩ := v
  change w = w' at hw
  subst hw
  have hlen : (o.encode v).length = w.bytes := o.encode_length v
  rw [Leaf.encode, readLeaves, Leaf.width, if_pos
    (by rw [List.length_append, hlen]; exact Nat.le_add_right _ _), List.take_left' hlen,
    List.drop_left' hlen, o.decode_encode]

theorem readLeaves_encodeLeaves (o : ByteOrder) {ts ls : List Leaf} (rest : List UInt8)
    (h : ts.map Sigma.fst = ls.map Sigma.fst) :
    readLeaves o ts (encodeLeaves o ls ++ rest) = ls := by
  induction ls generalizing ts with
  | nil => rw [List.map_eq_nil_iff.mp h, readLeaves]
  | cons l ls ih =>
    obtain ⟨t, ts, rfl, hw, hws⟩ := List.map_eq_cons_iff.mp h
    rw [encodeLeaves_cons, List.append_assoc, readLeaves_cons_encode o hw, ih hws]

theorem readLeaves_short (o : ByteOrder) {ls : List Leaf} {xs : List UInt8}
    (h : ∀ l ∈ ls, xs.length < l.width) : readLeaves o ls xs = ls := by
  induction ls with
  | nil => rfl
  | cons l ls ih =>
    have hl := h l List.mem_cons_self
    rw [readLeaves, if_neg (Nat.not_le.mpr hl), ih fun k hk => h k (List.mem_cons_of_mem l hk)]

theorem RecordType.encode_injective (o : ByteOrder) (t : RecordType) {v v' : t.Value}
    (h : t.encode o v = t.encode o v') : v = v' := by
  have hw := t.flatten_widths v
  apply t.flatten_injective
  calc t.flatten v
      = readLeaves o (t.flatten v) (t.encode o v ++ []) := (readLeaves_encodeLeaves o [] rfl).symm
    _ = readLeaves o (t.flatten v) (t.encode o v' ++ []) := by rw [h]
    _ = t.flatten v' := readLeaves_encodeLeaves o [] (hw.trans (t.flatten_widths v').symm)

theorem encodeLeaves_readLeaves (o : ByteOrder) {ls : List Leaf} {xs : List UInt8}
    (h : total Leaf.width ls ≤ xs.length) :
    encodeLeaves o (readLeaves o ls xs) = xs.take (total Leaf.width ls) := by
  induction ls generalizing xs with
  | nil => rfl
  | cons l ls ih =>
    rw [total_cons] at h
    have htake : (xs.take l.width).length = l.1.bytes := List.length_take_of_le (by omega)
    rw [readLeaves, if_pos (by omega), encodeLeaves_cons, ih (by rw [List.length_drop]; omega),
      Leaf.encode, o.encode_decode htake, total_cons, List.take_add]

variable {o : ByteOrder} {ls ls' ks ks' : List Leaf} {ar ar' ar'' : Deserializer}

theorem Reads.nil (h : ar.buffer.Consistent) : Reads o [] [] ar ar := ⟨Consumes.refl h, rfl, rfl⟩

theorem Reads.append (hc : ar.buffer.Consistent) (h : Reads o ls ls' ar ar')
    (h' : Reads o ks ks' ar' ar'') : Reads o (ls ++ ks) (ls' ++ ks') ar ar'' := by
  have hsize := h.consumes.size_eq hc
  constructor
  · rw [fill_append, total_append, ← hsize]
    exact h.consumes.trans hc h'.consumes
  · rw [h.leaves_eq, h'.leaves_eq, readLeaves_append, h.consumes.unread_eq, hc.unread_length]
  · rw [fill_append, total_append, ← hsize, h'.bytesRead_eq, h.bytesRead_eq, Nat.add_assoc]

theorem deserializeArithmetic_short {w : Width} {value : BitVec (8 * w.bytes)}
    (h : ar.buffer.size < w.bytes) : deserializeArithmetic o w value ar = (value, ar) := by
  simp only [deserializeArithmetic, getReadHead, ge_iff_le, Nat.not_le.mpr h, if_false]
  split <;> rfl

theorem deserializeArithmetic_reads (hc : ar.buffer.Consistent) (w : Width)
    (value : BitVec (8 * w.bytes)) :
    Reads o [⟨w, value⟩] [⟨w, (deserializeArithmetic o w value ar).1⟩] ar
      (deserializeArithmetic o w value ar).2 := by
  have hpos := w.bytes_pos
  have hfill : fill Leaf.width ar.buffer.size [⟨w, value⟩] =
      if w.bytes ≤ ar.buffer.size then [⟨w, value⟩] else [] := rfl
  have hread : readLeaves o [⟨w, value⟩] ar.buffer.unread =
      if w.bytes ≤ ar.buffer.size then
        [⟨w, o.decode w.bytes (ar.buffer.unread.take w.bytes)⟩] else [⟨w, value⟩] := by
    rw [← hc.unread_length]
    rfl
  rcases Nat.lt_or_ge ar.buffer.size w.bytes with hlt | hge
  · rw [deserializeArithmetic_short hlt]
    rw [if_neg (Nat.not_le.mpr hlt)] at hfill hread
    exact ⟨by rw [hfill]; exact Consumes.refl hc, hread.symm, by rw [hfill]; rfl⟩
  · have hget : deserializeArithmetic o w value ar =
        (o.decode w.bytes (ar.buffer.unread.take w.bytes),
          ⟨(ar.buffer.consume w.bytes).2, ar.bytesRead + w.bytes⟩) := by
      have hok := (consume_fst ar.buffer w.bytes).mpr hge
      simp only [deserializeArithmetic, getReadHead, gt_iff_lt, hpos.trans_le hge, if_true,
        ge_iff_le, hge, hok, load_tail hge]
    rw [hget]
    rw [if_pos hge] at hfill hread
    exact ⟨by rw [hfill]; exact consume_consumes hc hge, hread.symm, by rw [hfill]; rfl⟩

mutual
theorem deserializeValue_reads {o : ByteOrder} :
    ∀ (t : RecordType) (value : t.Value) (ar : Deserializer), ar.buffer.Consistent →
      Reads o (t.flatten value) (t.flatten (deserializeValue o t value ar).1) ar
        (deserializeValue o t value ar).2
  | .integer w, value, ar, hc => by
    rw [RecordType.flatten, RecordType.flatten, deserializeValue]
    exact deserializeArithmetic_reads hc w value
  | .record fields, value, ar, hc => by
    rw [RecordType.flatten, RecordType.flatten, deserializeValue]
    exact deserializeFields_reads fields value ar hc
theorem deserializeFields_reads {o : ByteOrder} :
    ∀ (ts : List RecordType) (values : FieldValues ts) (ar : Deserializer),
      ar.buffer.Consistent →
      Reads o (flattenFields ts values) (flattenFields ts (deserializeFields o ts values ar).1) ar
        (deserializeFields o ts values ar).2
  | [], _, ar, hc => by
    rw [flattenFields, flattenFields, deserializeFields]
    exact Reads.nil hc
  | t :: ts, (value, values), ar, hc => by
    have h := deserializeValue_reads (o := o) t value ar hc
    rw [deserializeFields, flattenFields, flattenFields]
    exact h.append hc (deserializeFields_reads ts values _ h.consumes.consistent)
end

theorem deserializeValue_consumes (t : RecordType) (target : t.Value) (ar : Deserializer)
    (hc : ar.buffer.Consistent) :
    Consumes ar.buffer (t.fittingSize ar.buffer.size)
      (deserializeValue o t target ar).2.buffer := by
  rw [← t.total_fill_flatten target]
  exact (deserializeValue_reads t target ar hc).consumes

theorem encode_deserializeValue (t : RecordType) (target : t.Value) (ar : Deserializer)
    (hc : ar.buffer.Consistent) (hsize : t.encodedSize ≤ ar.buffer.size) :
    t.encode o (deserializeValue o t target ar).1 = ar.buffer.unread.take t.encodedSize := by
  rw [RecordType.encode, (deserializeValue_reads (o := o) t target ar hc).leaves_eq,
    encodeLeaves_readLeaves o (by rwa [t.total_flatten, hc.unread_length]), t.total_flatten]

end Eestv
