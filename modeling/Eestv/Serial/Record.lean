import Eestv.Library.ByteOrder
import Eestv.Library.FirstFit

/-! The types an archive accepts: integers of 1, 2, 4 or 8 bytes, and user
types whose `serialize` passes their fields to the archive in a fixed order.
A value is seen by the archive as the list of its integer leaves. -/

namespace Eestv
open FirstFit

inductive Width where
  | one
  | two
  | four
  | eight
deriving DecidableEq, Repr

def Width.bytes : Width → ℕ
  | .one => 1
  | .two => 2
  | .four => 4
  | .eight => 8

inductive RecordType where
  | integer (w : Width)
  | record (fields : List RecordType)

mutual
/-- The values of a type; an invalid combination of fields cannot be written down. -/
def RecordType.Value : RecordType → Type
  | .integer w => BitVec (8 * w.bytes)
  | .record fields => FieldValues fields
def FieldValues : List RecordType → Type
  | [] => Unit
  | t :: ts => t.Value × FieldValues ts
end

mutual
def RecordType.zero : (t : RecordType) → t.Value
  | .integer w => (0 : BitVec (8 * w.bytes))
  | .record fields => zeroFields fields
def zeroFields : (ts : List RecordType) → FieldValues ts
  | [] => ()
  | t :: ts => (t.zero, zeroFields ts)
end

abbrev Leaf := (w : Width) × BitVec (8 * w.bytes)

def Leaf.width (l : Leaf) : ℕ := l.1.bytes

def Leaf.encode (o : ByteOrder) (l : Leaf) : List UInt8 := o.encode l.2

mutual
def RecordType.leaves : RecordType → List Width
  | .integer w => [w]
  | .record fields => fieldLeaves fields
def fieldLeaves : List RecordType → List Width
  | [] => []
  | t :: ts => t.leaves ++ fieldLeaves ts
end

mutual
def RecordType.flatten : (t : RecordType) → t.Value → List Leaf
  | .integer w, value => [⟨w, value⟩]
  | .record fields, value => flattenFields fields value
def flattenFields : (ts : List RecordType) → FieldValues ts → List Leaf
  | [], _ => []
  | t :: ts, (value, values) => t.flatten value ++ flattenFields ts values
end

def RecordType.encodedSize (t : RecordType) : ℕ := total Width.bytes t.leaves

/-- The bytes that `room` bytes of space hold of the type when every leaf that
does not fit is left out. -/
def RecordType.fittingSize (t : RecordType) (room : ℕ) : ℕ :=
  total Width.bytes (fill Width.bytes room t.leaves)

def encodeLeaves (o : ByteOrder) (ls : List Leaf) : List UInt8 := ls.flatMap (Leaf.encode o)

/-- The complete encoding of a value: the object representations of its leaves in order. -/
def RecordType.encode (o : ByteOrder) (t : RecordType) (value : t.Value) : List UInt8 :=
  encodeLeaves o (t.flatten value)

theorem Width.bytes_pos (w : Width) : 0 < w.bytes := by cases w <;> decide

mutual
theorem RecordType.flatten_widths :
    ∀ (t : RecordType) (value : t.Value), (t.flatten value).map Sigma.fst = t.leaves
  | .integer w, value => by rw [RecordType.flatten, RecordType.leaves]; rfl
  | .record fields, value => by
    rw [RecordType.flatten, RecordType.leaves]
    exact flattenFields_widths fields value
theorem flattenFields_widths :
    ∀ (ts : List RecordType) (values : FieldValues ts),
      (flattenFields ts values).map Sigma.fst = fieldLeaves ts
  | [], _ => by rw [flattenFields, fieldLeaves]; rfl
  | t :: ts, (value, values) => by
    rw [flattenFields, fieldLeaves, List.map_append, t.flatten_widths value,
      flattenFields_widths ts values]
end

mutual
theorem RecordType.flatten_injective :
    ∀ (t : RecordType) {v v' : t.Value}, t.flatten v = t.flatten v' → v = v'
  | .integer w, v, v', h => by
    rw [RecordType.flatten, RecordType.flatten] at h
    exact eq_of_heq (Sigma.mk.inj (List.cons.inj h).1).2
  | .record fields, v, v', h => by
    rw [RecordType.flatten, RecordType.flatten] at h
    exact flattenFields_injective fields h
theorem flattenFields_injective :
    ∀ (ts : List RecordType) {vs vs' : FieldValues ts},
      flattenFields ts vs = flattenFields ts vs' → vs = vs'
  | [], _, _, _ => rfl
  | t :: ts, (v, vs), (v', vs'), h => by
    rw [flattenFields, flattenFields] at h
    -- both values have the leaves of `t` first, so the lists split at the same place
    have hlen : (t.flatten v).length = (t.flatten v').length := by
      rw [← List.length_map Sigma.fst, t.flatten_widths v, ← t.flatten_widths v', List.length_map]
    obtain ⟨hv, hvs⟩ := List.append_inj h hlen
    rw [t.flatten_injective hv, flattenFields_injective ts hvs]
end

mutual
theorem RecordType.flatten_surjective :
    ∀ (t : RecordType) {ls : List Leaf}, ls.map Sigma.fst = t.leaves → ∃ v, t.flatten v = ls
  | .integer w, ls, h => by
    rw [RecordType.leaves, List.map_eq_singleton_iff] at h
    obtain ⟨⟨w', value⟩, rfl, rfl⟩ := h
    exact ⟨value, rfl⟩
  | .record fields, ls, h => by
    rw [RecordType.leaves] at h
    obtain ⟨values, hvalues⟩ := flattenFields_surjective fields h
    exact ⟨values, hvalues⟩
theorem flattenFields_surjective :
    ∀ (ts : List RecordType) {ls : List Leaf}, ls.map Sigma.fst = fieldLeaves ts →
      ∃ vs, flattenFields ts vs = ls
  | [], ls, h => by
    rw [fieldLeaves, List.map_eq_nil_iff] at h
    exact ⟨(), h.symm⟩
  | t :: ts, ls, h => by
    rw [fieldLeaves, List.map_eq_append_iff] at h
    obtain ⟨ls₁, ls₂, rfl, h₁, h₂⟩ := h
    obtain ⟨v, hv⟩ := t.flatten_surjective h₁
    obtain ⟨vs, hvs⟩ := flattenFields_surjective ts h₂
    refine ⟨(v, vs), ?_⟩
    change t.flatten v ++ flattenFields ts vs = ls₁ ++ ls₂
    rw [hv, hvs]
end

@[simp] theorem Leaf.encode_length (o : ByteOrder) (l : Leaf) : (l.encode o).length = l.width :=
  o.encode_length l.2

theorem encodeLeaves_cons (o : ByteOrder) (l : Leaf) (ls : List Leaf) :
    encodeLeaves o (l :: ls) = l.encode o ++ encodeLeaves o ls := List.flatMap_cons

theorem encodeLeaves_append (o : ByteOrder) (ls ks : List Leaf) :
    encodeLeaves o (ls ++ ks) = encodeLeaves o ls ++ encodeLeaves o ks := List.flatMap_append

theorem encodeLeaves_length (o : ByteOrder) (ls : List Leaf) :
    (encodeLeaves o ls).length = total Leaf.width ls := by
  induction ls with
  | nil => rfl
  | cons l ls ih => rw [encodeLeaves_cons, List.length_append, Leaf.encode_length, ih, total_cons]

theorem RecordType.total_flatten (t : RecordType) (value : t.Value) :
    total Leaf.width (t.flatten value) = t.encodedSize := by
  rw [RecordType.encodedSize, ← t.flatten_widths value, total_map]
  rfl

theorem RecordType.encode_length (o : ByteOrder) (t : RecordType) (value : t.Value) :
    (t.encode o value).length = t.encodedSize := by
  rw [RecordType.encode, encodeLeaves_length, t.total_flatten value]

theorem RecordType.total_fill_flatten (t : RecordType) (value : t.Value) (room : ℕ) :
    total Leaf.width (fill Leaf.width room (t.flatten value)) = t.fittingSize room := by
  rw [RecordType.fittingSize, ← t.flatten_widths value, fill_map, total_map]
  rfl

theorem RecordType.encodedSize_replicate (t : RecordType) (n : ℕ) :
    (RecordType.record (List.replicate n t)).encodedSize = n * t.encodedSize := by
  rw [RecordType.encodedSize, RecordType.leaves]
  induction n with
  | zero => rw [Nat.zero_mul]; rfl
  | succ n ih =>
    rw [List.replicate_succ, fieldLeaves, total_append, ih, Nat.succ_mul, Nat.add_comm]
    rfl

theorem RecordType.fittingSize_le (t : RecordType) (room : ℕ) : t.fittingSize room ≤ room :=
  total_fill_le Width.bytes room t.leaves

theorem RecordType.fittingSize_eq_iff (t : RecordType) (room : ℕ) :
    t.fittingSize room = t.encodedSize ↔ t.encodedSize ≤ room := total_fill_eq_iff Width.bytes

theorem RecordType.fittingSize_of_le {t : RecordType} {room : ℕ} (h : t.encodedSize ≤ room) :
    t.fittingSize room = t.encodedSize := (t.fittingSize_eq_iff room).mpr h

end Eestv
