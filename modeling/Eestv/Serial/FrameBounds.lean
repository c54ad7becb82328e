import Eestv.Serial.Acceptance

/-! What a bad frame does to the frames behind it. The receiver hands the whole
buffer to the `Deserializer` and compares sizes when the record has been read, so
a record longer than its frame is completed with the bytes of the next one. -/

namespace Eestv
open LinearBuffer FirstFit

/-- A call consumes at most the first `n` unread bytes, and those behind them stay. -/
structure StaysWithin (o : ByteOrder) (pack : TypePack) (b : LinearBuffer) (n : ℕ) : Prop where
  consumed_le : ∃ k ≤ n, (deserialize o pack b).buffer.unread = b.unread.drop k
  successors_stay : b.unread.drop n <:+ (deserialize o pack b).buffer.unread

/-- Every field of a record of the `t`-th type that fits into the `available` bytes
behind the header fits into the `size` bytes of the frame. A type that is not
registered has no fields. -/
def ReadsWithin (pack : TypePack) (t : UInt8) (size available : ℕ) : Prop :=
  ∀ i : Fin pack.types.length, t.toNat = i →
    Within Width.bytes size available (pack.types.get i).layout.leaves

variable {o : ByteOrder} {pack : TypePack} {b : LinearBuffer}

theorem StaysWithin.of_consumes {k n : ℕ} (hk : k ≤ n)
    (h : Consumes b k (deserialize o pack b).buffer) : StaysWithin o pack b n := by
  refine ⟨⟨k, hk, h.unread_eq⟩, ?_⟩
  rw [h.unread_eq, show n = k + (n - k) by omega, ← List.drop_drop]
  exact List.drop_suffix _ _

theorem deserialize_consumes_fitting (hb : b.Consistent) {t lo hi : UInt8} {rest : List UInt8}
    (hu : b.unread = t :: lo :: hi :: rest) (hcomplete : announcedSize lo hi ≤ rest.length)
    (i : Fin pack.types.length) (ht : t.toNat = i) :
    Consumes b (headerSize + (pack.types.get i).layout.fittingSize rest.length)
      (deserialize o pack b).buffer := by
  obtain ⟨hheader, -, hsize⟩ := consume_header hb hu
  have hbuffer := (deserializeType_success (o := o) hheader.consistent i (announcedSize lo hi)
    pack.defaultVariant).2.1
  have hread := deserializeValue_consumes (o := o) (pack.types.get i).layout
    (pack.types.get i).init ⟨(b.consume headerSize).2, 0⟩ hheader.consistent
  rw [hsize] at hread
  rw [deserialize_registered hb hu i ht (Or.inr hcomplete), hbuffer]
  exact hheader.trans hb hread

/-- A complete frame of any type index and any size leaves the bytes behind it alone
exactly when no field that is too long for the rest of the frame fits into what
follows the header in the buffer. -/
theorem staysWithin_iff (o : ByteOrder) (pack : TypePack) (b : LinearBuffer) (hb : b.Reachable)
    (t lo hi : UInt8) (rest : List UInt8) (hu : b.unread = t :: lo :: hi :: rest)
    (hcomplete : announcedSize lo hi ≤ rest.length) :
    StaysWithin o pack b (headerSize + announcedSize lo hi) ↔
      ReadsWithin pack t (announcedSize lo hi) rest.length := by
  have hc := hb.consistent
  by_cases ht : t.toNat < pack.types.length
  · have hconsumes := deserialize_consumes_fitting (o := o) hc hu hcomplete ⟨t.toNat, ht⟩ rfl
    have hcond : ReadsWithin pack t (announcedSize lo hi) rest.length ↔
        (pack.types.get ⟨t.toNat, ht⟩).layout.fittingSize rest.length ≤ announcedSize lo hi := by
      rw [RecordType.fittingSize, total_fill_le_iff Width.bytes hcomplete]
      constructor
      · intro h
        exact h ⟨t.toNat, ht⟩ rfl
      · intro h i hi
        rwa [show i = ⟨t.toNat, ht⟩ from Fin.ext hi.symm]
    rw [hcond]
    constructor
    · rintro ⟨⟨k, hk, hunread⟩, -⟩
      -- both numbers of consumed bytes leave the same number of unread bytes
      have hfit := (pack.types.get ⟨t.toNat, ht⟩).layout.fittingSize_le rest.length
      have hlength := congrArg List.length (hconsumes.unread_eq.symm.trans hunread)
      rw [List.length_drop, List.length_drop, hu] at hlength
      simp only [List.length_cons, headerSize] at hlength hk
      omega
    · intro hle
      exact StaysWithin.of_consumes (Nat.add_le_add_left hle headerSize) hconsumes
  · -- only the header of an unregistered type is consumed
    have hconsumes : Consumes b headerSize (deserialize o pack b).buffer := by
      rw [deserialize_header hc hu, dif_neg ht]
      exact (consume_header hc hu).1
    refine iff_of_true (StaysWithin.of_consumes (Nat.le_add_right _ _) hconsumes) ?_
    intro i hi
    exact absurd i.isLt (hi ▸ ht)

def wordPack : TypePack := ⟨[⟨"Word", .integer .two, (0 : BitVec 16)⟩], by decide, by decide⟩

theorem staysWithin_iff_short_frame :
    StaysWithin .little wordPack ((new 8).write [0, 1, 0, 7]).2 (headerSize + 1) := by
  refine (staysWithin_iff .little wordPack _ ((Reachable.new 8).write (by decide)) 0 1 0 [7]
    (by decide) (by decide)).mpr ?_
  intro i hi
  rw [show i = ⟨0, by decide⟩ from Fin.ext hi.symm]
  exact ⟨by decide, trivial⟩

/-- A frame of one byte in front of a good frame of two: the call fails and takes the
type index of the good frame with it. -/
theorem bad_frame_damages_successor :
    ((new 9).write [0, 1, 0, 7, 0, 2, 0, 1, 2]).2.Reachable ∧
      ((new 9).write [0, 1, 0, 7, 0, 2, 0, 1, 2]).2.unread =
        [0, 1, 0] ++ [7] ++ [0, 2, 0, 1, 2] ∧
      announcedSize 1 0 = [7].length ∧
      (deserialize .little wordPack ((new 9).write [0, 1, 0, 7, 0, 2, 0, 1, 2]).2).success =
        false ∧
      ¬ StaysWithin .little wordPack ((new 9).write [0, 1, 0, 7, 0, 2, 0, 1, 2]).2
        (headerSize + announcedSize 1 0) := by
  refine ⟨(Reachable.new 9).write (by decide), by decide, by decide, by decide, ?_⟩
  intro h
  exact absurd h.successors_stay (by decide)

end Eestv
