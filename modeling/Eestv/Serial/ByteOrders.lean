import Eestv.Serial.Arrival

/-! Hosts of different byte orders. The header is the same on both and the payload is the object
representation of the integers: what one host writes for a value is what the other one writes for
the value that it reads. -/

namespace Eestv
open LinearBuffer

def Leaf.reread (o o' : ByteOrder) (l : Leaf) : Leaf := ⟨l.1, o.reread o' l.2⟩

mutual
/-- What a host of byte order `o'` reads where one of byte order `o` has written the value. -/
def RecordType.reread (o o' : ByteOrder) : (t : RecordType) → t.Value → t.Value
  | .integer _, value => o.reread o' value
  | .record fields, values => rereadFields o o' fields values
def rereadFields (o o' : ByteOrder) : (ts : List RecordType) → FieldValues ts → FieldValues ts
  | [], _ => ()
  | t :: ts, (value, values) => (t.reread o o' value, rereadFields o o' ts values)
end

variable {o o' : ByteOrder}

theorem Leaf.encode_reread (l : Leaf) : (l.reread o o').encode o' = l.encode o :=
  ByteOrder.encode_reread o o' l.2

mutual
theorem RecordType.flatten_reread : ∀ (t : RecordType) (value : t.Value),
    t.flatten (t.reread o o' value) = (t.flatten value).map (Leaf.reread o o')
  | .integer w, value => by
    simp only [RecordType.reread, RecordType.flatten]
    rfl
  | .record fields, values => by
    simp only [RecordType.reread, RecordType.flatten]
    exact flattenFields_reread fields values
theorem flattenFields_reread : ∀ (ts : List RecordType) (values : FieldValues ts),
    flattenFields ts (rereadFields o o' ts values) =
      (flattenFields ts values).map (Leaf.reread o o')
  | [], _ => by
    rw [flattenFields, flattenFields]
    rfl
  | t :: ts, (value, values) => by
    rw [rereadFields, flattenFields, flattenFields, List.map_append, t.flatten_reread,
      flattenFields_reread]
end

theorem RecordType.encode_reread (t : RecordType) (value : t.Value) :
    t.encode o' (t.reread o o' value) = t.encode o value := by
  rw [RecordType.encode, RecordType.encode, t.flatten_reread]
  unfold encodeLeaves
  rw [List.flatMap_map]
  congr 1
  funext l
  exact l.encode_reread

theorem RecordType.reread_self (t : RecordType) (value : t.Value) :
    t.reread o o value = value := by
  apply t.flatten_injective
  rw [t.flatten_reread]
  refine (List.map_congr_left fun l _ => ?_).trans (List.map_id _)
  exact congrArg (Sigma.mk l.1) (ByteOrder.reread_self o l.2)

variable {pack : TypePack}

def TypePack.reread (pack : TypePack) (o o' : ByteOrder) (v : pack.Variant) : pack.Variant :=
  ⟨v.1, (pack.typeOf v).layout.reread o o' v.2⟩

theorem TypePack.frame_reread (v : pack.Variant) :
    pack.frame o' (pack.reread o o' v) = pack.frame o v :=
  congrArg _ ((pack.typeOf v).layout.encode_reread v.2)

theorem TypePack.reread_self (v : pack.Variant) : pack.reread o o v = v :=
  congrArg (Sigma.mk v.1) ((pack.typeOf v).layout.reread_self v.2)

theorem TypePack.map_frame_reread (o o' : ByteOrder) (vs : List pack.Variant) :
    (vs.map (pack.reread o o')).map (pack.frame o') = vs.map (pack.frame o) := by
  rw [List.map_map]
  exact List.map_congr_left fun v _ => TypePack.frame_reread v

end Eestv
