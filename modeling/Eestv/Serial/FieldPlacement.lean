import Eestv.Serial.Deserializer
import Eestv.Serial.Serializer

/-! Archives that run out of room. A field that does not fit is skipped and the
next one is tried, so a short field may be written, and read back, where the bytes
of a longer one in front of it belong. -/

namespace Eestv
open LinearBuffer FirstFit

/-- The bytes appended into `room` bytes of space are the first of the encoding. -/
def WritesPrefix (o : ByteOrder) (t : RecordType) (room : ℕ) : Prop :=
  ∀ (v : t.Value) (ar : Serializer), ar.buffer.Reachable → ar.buffer.room = room →
    ∃ xs, (serializeValue o t v ar).buffer.unread = ar.buffer.unread ++ xs ∧ xs <+: t.encode o v

/-- Every leaf of `ls` is that of `vs` or that of `ts` at the same place. -/
def InPlace (ls vs ts : List Leaf) : Prop := ∀ i : ℕ, ls[i]? = vs[i]? ∨ ls[i]? = ts[i]?

/-- The first `n` bytes of an encoding give a field its value or leave it alone. -/
def ReadsInPlace (o : ByteOrder) (t : RecordType) (n : ℕ) : Prop :=
  ∀ (v target : t.Value) (ar : Deserializer), ar.buffer.Reachable →
    ar.buffer.unread = (t.encode o v).take n →
    InPlace (t.flatten (deserializeValue o t target ar).1) (t.flatten v) (t.flatten target)

variable {o : ByteOrder}

theorem inPlace_cons {l v t : Leaf} {ls vs ts : List Leaf} :
    InPlace (l :: ls) (v :: vs) (t :: ts) ↔ (l = v ∨ l = t) ∧ InPlace ls vs ts := by
  constructor
  · intro h
    have hhead := h 0
    simp only [List.getElem?_cons_zero, Option.some.injEq] at hhead
    exact ⟨hhead, fun i => h (i + 1)⟩
  · rintro ⟨hhead, htail⟩ i
    cases i with
    | zero =>
      simp only [List.getElem?_cons_zero, Option.some.injEq]
      exact hhead
    | succ i => exact htail i

theorem inPlace_self {ls vs : List Leaf} (h : InPlace ls vs vs) : ls = vs := by
  apply List.ext_getElem?
  intro i
  exact (h i).elim id id

theorem encodeLeaves_prefix {ks ls : List Leaf} (h : ks <+: ls) :
    encodeLeaves o ks <+: encodeLeaves o ls := by
  obtain ⟨rest, rfl⟩ := h
  rw [encodeLeaves_append]
  exact List.prefix_append _ _

theorem take_encodeLeaves_cons {v : Leaf} {vs : List Leaf} {n : ℕ} (h : v.width ≤ n) :
    (encodeLeaves o (v :: vs)).take n = v.encode o ++ (encodeLeaves o vs).take (n - v.width) := by
  have hlen := v.encode_length o
  rw [encodeLeaves_cons, List.take_append, List.take_of_length_le (by rwa [hlen]), hlen]

theorem readLeaves_inPlace {vs ts : List Leaf} {n : ℕ} (hw : ts.map Sigma.fst = vs.map Sigma.fst)
    (h : Stops Leaf.width n vs) :
    InPlace (readLeaves o ts ((encodeLeaves o vs).take n)) vs ts := by
  induction vs generalizing ts n with
  | nil =>
    rw [List.map_eq_nil_iff.mp hw]
    exact fun _ => Or.inl rfl
  | cons v vs ih =>
    obtain ⟨t, ts, rfl, hwidth, hws⟩ := List.map_eq_cons_iff.mp hw
    rw [Stops] at h
    split at h
    · rw [take_encodeLeaves_cons ‹_›, readLeaves_cons_encode o hwidth]
      exact inPlace_cons.mpr ⟨Or.inl rfl, ih hws h⟩
    · -- neither this field nor a later one is short enough for the bytes left
      have hshort : ∀ w ∈ (v :: vs).map Sigma.fst, n < w.bytes := by
        intro w hwmem
        obtain ⟨l, hl, rfl⟩ := List.mem_map.mp hwmem
        rcases List.mem_cons.mp hl with rfl | hl
        · exact Nat.lt_of_not_le ‹_›
        · exact h l hl
      rw [← hw] at hshort
      rw [readLeaves_short o]
      · exact fun _ => Or.inr rfl
      · intro l hl
        exact (List.length_take_le n _).trans_lt (hshort _ (List.mem_map_of_mem hl))

/-! ### A field in the place of another -/

def Leaf.uniform (o : ByteOrder) (x : UInt8) (w : Width) : Leaf :=
  ⟨w, o.decode w.bytes (List.replicate w.bytes x)⟩

theorem Leaf.uniform_encode (x : UInt8) (w : Width) :
    (Leaf.uniform o x w).encode o = List.replicate w.bytes x :=
  o.encode_decode List.length_replicate

theorem Leaf.uniform_injective {x y : UInt8} {w : Width}
    (h : Leaf.uniform o x w = Leaf.uniform o y w) : x = y := by
  have hbytes := congrArg (Leaf.encode o) h
  rw [Leaf.uniform_encode, Leaf.uniform_encode] at hbytes
  exact List.replicate_right_inj (Nat.ne_of_gt w.bytes_pos) |>.mp hbytes

theorem take_encodeLeaves_uniform {x : UInt8} {w : Width} {n : ℕ} (h : n ≤ w.bytes)
    (ls : List Leaf) :
    (encodeLeaves o (Leaf.uniform o x w :: ls)).take n = List.replicate n x := by
  rw [encodeLeaves_cons, Leaf.uniform_encode,
    List.take_append_of_le_length (by rwa [List.length_replicate]), List.take_replicate,
    Nat.min_eq_left h]

theorem map_uniform (x : UInt8) (ws : List Width) :
    (ws.map (Leaf.uniform o x)).map Sigma.fst = ws := by
  rw [List.map_map]
  exact List.map_id ws

theorem readLeaves_uniform_ne {ws : List Width} {x y : UInt8} {n : ℕ} (hne : x ≠ y)
    (h : ∃ w ∈ ws, w.bytes ≤ n) :
    readLeaves o (ws.map (Leaf.uniform o x)) (List.replicate n y) ≠
      ws.map (Leaf.uniform o x) := by
  induction ws with
  | nil => exact absurd h.choose_spec.1 List.not_mem_nil
  | cons w ws ih =>
    intro heq
    rw [List.map_cons, readLeaves] at heq
    split at heq
    · have hle : w.bytes ≤ (List.replicate n y).length := ‹_›
      rw [List.length_replicate] at hle
      have hhead : Leaf.uniform o y w = Leaf.uniform o x w := by
        have htaken : (List.replicate n y).take w.bytes = List.replicate w.bytes y := by
          rw [List.take_replicate, Nat.min_eq_left hle]
        rw [← (List.cons.inj heq).1, Leaf.uniform, ← htaken]
        rfl
      exact hne (Leaf.uniform_injective hhead).symm
    · have hlt : ¬ w.bytes ≤ (List.replicate n y).length := ‹_›
      rw [List.length_replicate] at hlt
      obtain ⟨w', hw', hle⟩ := h
      rcases List.mem_cons.mp hw' with rfl | hw'
      · exact hlt hle
      · exact ih ⟨w', hw', hle⟩ (List.cons.inj heq).2

theorem uniform_not_prefix {ws : List Width} {x y : UInt8} {n : ℕ} {w : Width} {bytes : List UInt8}
    (hne : x ≠ y) (h : ∃ w ∈ ws, w.bytes ≤ n) :
    ¬ encodeLeaves o (fill Leaf.width n (ws.map (Leaf.uniform o x))) <+:
      List.replicate w.bytes y ++ bytes := by
  intro hprefixed
  have hfits : ∃ l ∈ ws.map (Leaf.uniform o x), l.width ≤ n := by
    obtain ⟨w', hw', hle⟩ := h
    exact ⟨_, List.mem_map_of_mem hw', hle⟩
  obtain ⟨l, ls, hfill⟩ := List.exists_cons_of_ne_nil (fill_ne_nil Leaf.width hfits)
  have hl : l ∈ ws.map (Leaf.uniform o x) := by
    apply (fill_sublist Leaf.width n _).subset
    rw [hfill]
    exact List.mem_cons_self
  obtain ⟨w', -, rfl⟩ := List.mem_map.mp hl
  obtain ⟨k, hk⟩ := Nat.exists_eq_succ_of_ne_zero (Nat.ne_of_gt w'.bytes_pos)
  obtain ⟨m, hm⟩ := Nat.exists_eq_succ_of_ne_zero (Nat.ne_of_gt w.bytes_pos)
  rw [hfill, encodeLeaves_cons, Leaf.uniform_encode, hk, hm, List.replicate_succ,
    List.replicate_succ] at hprefixed
  exact hne (List.cons_prefix_cons.mp hprefixed).1

/-- Where the filling goes on behind a field that does not fit, some values show it. -/
theorem exists_misplaced (o : ByteOrder) {ws : List Width} {n : ℕ}
    (h : ¬ Stops Width.bytes n ws) :
    ∃ vs ts : List Leaf, vs.map Sigma.fst = ws ∧ ts.map Sigma.fst = ws ∧
      ¬ encodeLeaves o (fill Leaf.width n vs) <+: encodeLeaves o vs ∧
      ¬ InPlace (readLeaves o ts ((encodeLeaves o vs).take n)) vs ts := by
  induction ws generalizing n with
  | nil => exact absurd trivial h
  | cons w ws ih =>
    rw [Stops] at h
    split at h
    · have hle : (Leaf.uniform o 0 w).width ≤ n := ‹_›
      obtain ⟨vs, ts, hvs, hts, hwrite, hread⟩ := ih h
      refine ⟨Leaf.uniform o 0 w :: vs, Leaf.uniform o 0 w :: ts, by rw [List.map_cons, hvs]; rfl,
        by rw [List.map_cons, hts]; rfl, ?_, ?_⟩
      · rw [fill, if_pos hle, encodeLeaves_cons, encodeLeaves_cons, List.prefix_append_right_inj]
        exact hwrite
      · rw [take_encodeLeaves_cons hle, readLeaves_cons_encode o rfl, inPlace_cons]
        exact fun hboth => hread hboth.2
    · have hlt : ¬ (Leaf.uniform o 255 w).width ≤ n := ‹_›
      have hlt' : ¬ (Leaf.uniform o 0 w).width ≤ n := ‹_›
      have hlater : ∃ w ∈ ws, w.bytes ≤ n := by
        simpa only [not_forall, exists_prop, Nat.not_lt] using h
      refine ⟨Leaf.uniform o 255 w :: ws.map (Leaf.uniform o 0),
        Leaf.uniform o 0 w :: ws.map (Leaf.uniform o 0), by rw [List.map_cons, map_uniform]; rfl,
        by rw [List.map_cons, map_uniform]; rfl, ?_, ?_⟩
      · rw [fill, if_neg hlt, encodeLeaves_cons, Leaf.uniform_encode]
        exact uniform_not_prefix (by decide) hlater
      · have hn : n ≤ w.bytes := Nat.le_of_not_le hlt
        rw [take_encodeLeaves_uniform hn, readLeaves,
          if_neg (by rwa [List.length_replicate]), inPlace_cons]
        intro hboth
        exact readLeaves_uniform_ne (by decide) hlater (inPlace_self hboth.2)

/-! ### Values -/

theorem stops_flatten {t : RecordType} (v : t.Value) (n : ℕ) :
    Stops Leaf.width n (t.flatten v) ↔ Stops Width.bytes n t.leaves := by
  rw [← t.flatten_widths v, stops_map]
  rfl

theorem writesPrefix_iff (o : ByteOrder) (t : RecordType) (n : ℕ) :
    WritesPrefix o t n ↔ Stops Width.bytes n t.leaves := by
  constructor
  · intro h
    by_contra hgo
    obtain ⟨vs, -, hvs, -, hwrite, -⟩ := exists_misplaced o hgo
    obtain ⟨v, rfl⟩ := t.flatten_surjective hvs
    obtain ⟨xs, hxs, hpre⟩ := h v ⟨new n, 0⟩ (.new n) (new_room n)
    have hwrites := (serializeValue_writes (o := o) t v ⟨new n, 0⟩ (new_consistent n)).appends
    rw [hwrites.unread_eq, new_unread, List.nil_append, List.nil_append, new_room] at hxs
    exact hwrite (hxs ▸ hpre)
  · rintro h v ar hb rfl
    have hwrites := (serializeValue_writes (o := o) t v ar hb.consistent).appends
    refine ⟨_, hwrites.unread_eq, ?_⟩
    exact encodeLeaves_prefix (prefix_of_stops Leaf.width ((stops_flatten v _).mpr h))

theorem readsInPlace_iff (o : ByteOrder) (t : RecordType) (n : ℕ) :
    ReadsInPlace o t n ↔ Stops Width.bytes n t.leaves := by
  constructor
  · intro h
    by_contra hgo
    obtain ⟨vs, ts, hvs, hts, -, hread⟩ := exists_misplaced o hgo
    obtain ⟨v, rfl⟩ := t.flatten_surjective hvs
    obtain ⟨target, rfl⟩ := t.flatten_surjective hts
    let bytes := (t.encode o v).take n
    have hroom : bytes.length ≤ (new bytes.length).room := by rw [new_room]
    have hb := (Reachable.new bytes.length).write hroom
    have hu : ((new bytes.length).write bytes).2.unread = bytes := by
      have happ := (write_appends (new_consistent bytes.length) hroom).2
      rw [happ.unread_eq, new_unread, List.nil_append]
    have hplaced := h v target ⟨((new bytes.length).write bytes).2, 0⟩ hb hu
    have hreads := deserializeValue_reads (o := o) t target
      ⟨((new bytes.length).write bytes).2, 0⟩ hb.consistent
    rw [hreads.leaves_eq, hu] at hplaced
    exact hread hplaced
  · intro h v target ar hb hu
    rw [(deserializeValue_reads (o := o) t target ar hb.consistent).leaves_eq, hu]
    apply readLeaves_inPlace
    · rw [t.flatten_widths, t.flatten_widths]
    · exact (stops_flatten v n).mpr h

/-- With `n` bytes left, a record of a given layout is written as a prefix of its
encoding, whatever its value, and read without misplacing a field exactly when no
field behind the first one that does not fit is short enough for the bytes left. -/
theorem placement_iff (o : ByteOrder) (t : RecordType) (n : ℕ) :
    (WritesPrefix o t n ↔ Stops Width.bytes n t.leaves) ∧
      (ReadsInPlace o t n ↔ Stops Width.bytes n t.leaves) :=
  ⟨writesPrefix_iff o t n, readsInPlace_iff o t n⟩

/-- A 16-bit field in front of an 8-bit one, and one byte of space. -/
def wordByte : RecordType := .record [.integer .two, .integer .one]

def wordByteValue : wordByte.Value := ((0x0101 : BitVec 16), (2 : BitVec 8), ())

theorem placement_fails :
    (new 1).Reachable ∧ (new 1).room < wordByte.encodedSize ∧
      wordByte.encode .little wordByteValue = [1, 1, 2] ∧
      (serializeValue .little wordByte wordByteValue ⟨new 1, 0⟩).buffer.unread = [2] ∧
      ((new 1).write [1]).2.Reachable ∧
      wordByte.flatten wordByteValue = [⟨.two, 0x0101#16⟩, ⟨.one, 2#8⟩] ∧
      wordByte.flatten wordByte.zero = [⟨.two, 0#16⟩, ⟨.one, 0#8⟩] ∧
      wordByte.flatten
          (deserializeValue .little wordByte wordByte.zero ⟨((new 1).write [1]).2, 0⟩).1 =
        [⟨.two, 0#16⟩, ⟨.one, 1#8⟩] ∧
      ¬ WritesPrefix .little wordByte 1 ∧ ¬ ReadsInPlace .little wordByte 1 := by
  refine ⟨.new 1, by decide, by decide, by decide, (Reachable.new 1).write (by decide), rfl, rfl,
    by decide, ?_, ?_⟩
  · intro h
    obtain ⟨xs, hxs, hpre⟩ := h wordByteValue ⟨new 1, 0⟩ (.new 1) (by decide)
    have hsecond : xs = [2] := hxs.symm
    rw [hsecond] at hpre
    exact absurd hpre (by decide)
  · intro h
    have hsecond := h wordByteValue wordByte.zero ⟨((new 1).write [1]).2, 0⟩
      ((Reachable.new 1).write (by decide)) (by decide) 1
    exact absurd hsecond (by decide)

end Eestv
