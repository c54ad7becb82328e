import Eestv.Library.Framing
import Eestv.Serial.Acceptance

/-! A receiver that is fed with the sender's bytes piece by piece and reads
messages after every arrival until a call fails. The header of an incomplete
message is consumed as soon as it is complete, so the pieces may end inside a
header but nowhere else within a message. -/

namespace Eestv
open LinearBuffer

structure DemuxCall (pack : TypePack) where
  before : LinearBuffer
  result : DemuxResult pack

variable {pack : TypePack}

def DemuxCall.failed (c : DemuxCall pack) : Prop := c.result.success = false

/-- A call that fails leaves the unread bytes in place for the next one. -/
def DemuxCall.IntactOnFailure (c : DemuxCall pack) : Prop :=
  c.failed → c.result.buffer.unread = c.before.unread

def received (calls : List (DemuxCall pack)) : List pack.Variant :=
  (calls.filter fun c => c.result.success).map fun c => c.result.value

section Definitions

variable (o : ByteOrder) (pack : TypePack)

def drainFuel : ℕ → LinearBuffer → List (DemuxCall pack) × LinearBuffer
  | 0, b => ([], b)
  | fuel + 1, b =>
    let r := deserialize o pack b
    if r.success then (⟨b, r⟩ :: (drainFuel fuel r.buffer).1, (drainFuel fuel r.buffer).2)
    else ([⟨b, r⟩], r.buffer)

/-- Every call that succeeds consumes a header, so the unread bytes are fuel enough. -/
def drain (b : LinearBuffer) : List (DemuxCall pack) × LinearBuffer :=
  drainFuel o pack (b.size + 1) b

/-- The pieces are committed one after the other, with reads after each of them. -/
def deliver : LinearBuffer → List (List UInt8) → List (DemuxCall pack)
  | _, [] => []
  | b, chunk :: rest =>
    let (calls, b) := drain o pack (b.write chunk).2
    calls ++ deliver b rest

def sendAll (vs : List pack.Variant) (b : LinearBuffer) : LinearBuffer :=
  vs.foldl (fun b v => (serializeVariant o pack v b).2) b

def stream (vs : List pack.Variant) : List UInt8 :=
  (sendAll o pack vs (new (vs.map fun v => headerSize + pack.sizeOf v).sum)).unread

/-- Reading piece by piece gives the values that reading everything at once
gives, and no call that fails takes bytes away. -/
def ArrivalIndependent (capacity : ℕ) (chunks : List (List UInt8)) : Prop :=
  received (deliver o pack (new capacity) chunks) =
      received (deliver o pack (new capacity) [chunks.flatten]) ∧
    ∀ c ∈ deliver o pack (new capacity) chunks, c.IntactOnFailure

end Definitions

variable {o : ByteOrder} {b : LinearBuffer}

theorem received_append (xs ys : List (DemuxCall pack)) :
    received (xs ++ ys) = received xs ++ received ys := by
  rw [received, List.filter_append, List.map_append]
  rfl

/-! ### One call -/

theorem deserialize_progress (o : ByteOrder) (pack : TypePack) (hb : b.Consistent)
    (hge : headerSize ≤ b.size) :
    ∃ n, Consumes b (headerSize + n) (deserialize o pack b).buffer := by
  obtain ⟨t, lo, hi, rest, hu⟩ := exists_header hb hge
  have hc := consume_consumes hb hge
  rw [deserialize_header hb hu]
  split
  · rename_i ht
    split
    · exact ⟨0, hc⟩
    · have hbuffer := (deserializeType_success (o := o) hc.consistent ⟨t.toNat, ht⟩
        (announcedSize lo hi) pack.defaultVariant).2.1
      have hread := deserializeValue_consumes (o := o) (pack.types.get ⟨t.toNat, ht⟩).layout
        (pack.types.get ⟨t.toNat, ht⟩).init ⟨(b.consume headerSize).2, 0⟩ hc.consistent
      rw [← hbuffer] at hread
      exact ⟨_, hc.trans hb hread⟩
  · exact ⟨0, hc⟩

theorem deserialize_consumes (o : ByteOrder) (pack : TypePack) (hb : b.Consistent) :
    ∃ n, Consumes b n (deserialize o pack b).buffer ∧
      ((deserialize o pack b).success = true → headerSize ≤ n) := by
  rcases Nat.lt_or_ge b.size headerSize with hlt | hge
  · refine ⟨0, ?_, ?_⟩ <;> rw [deserialize_short hlt]
    · exact Consumes.refl hb
    · exact fun h => absurd h Bool.false_ne_true
  · obtain ⟨n, hn⟩ := deserialize_progress o pack hb hge
    exact ⟨headerSize + n, hn, fun _ => Nat.le_add_right _ _⟩

theorem deserialize_lt (hb : b.Consistent) (h : (deserialize o pack b).success = true) :
    (deserialize o pack b).buffer.size < b.size := by
  obtain ⟨n, hn, hle⟩ := deserialize_consumes o pack hb
  have hpos : headerSize ≤ n := hle h
  have hsize := hn.size_eq hb
  have hn' := hn.le_size
  simp only [headerSize] at hpos
  omega

theorem deserialize_partial (o : ByteOrder) (hd : pack.Distinct) (hb : b.Consistent)
    (v : pack.Variant) (hsize : pack.sizeOf v ≤ maxPayloadSize)
    (hu : b.unread <+: pack.frame o v)
    (hlt : b.unread.length < headerSize + pack.sizeOf v) :
    (deserialize o pack b).success = false ∧
      ((deserialize o pack b).buffer.unread = b.unread ↔ b.unread.length < headerSize) := by
  rcases Nat.lt_or_ge b.size headerSize with hshort | hge
  · rw [deserialize_short hshort, hb.unread_length]
    exact ⟨rfl, iff_of_true rfl hshort⟩
  obtain ⟨t, lo, hi, u, hcons⟩ := exists_header hb hge
  obtain ⟨rest, hhead⟩ := hu
  rw [hcons, frame_eq o hd v] at hhead
  simp only [List.cons_append, List.cons.injEq] at hhead
  obtain ⟨rfl, rfl, rfl, -⟩ := hhead
  rw [hcons, List.length_cons, List.length_cons, List.length_cons] at hlt
  have hannounced := announcedSize_ofNat hsize
  have hwait : 0 < pack.sizeOf v ∧ u.length < pack.sizeOf v := by
    simp only [headerSize] at hlt
    omega
  rw [deserialize_header hb hcons, dif_pos (by rw [toNat_index]; exact v.1.isLt), hannounced,
    if_pos hwait]
  refine ⟨rfl, iff_of_false (fun h => ?_) (by rw [hb.unread_length]; exact Nat.not_lt.mpr hge)⟩
  have hlen := congrArg List.length h
  dsimp only at hlen
  rw [(consume_consumes hb hge).unread_eq, List.length_drop, hb.unread_length] at hlen
  simp only [headerSize] at hlen hge
  omega

/-! ### Reading until a call fails -/

theorem drainFuel_eq (hb : b.Consistent) {m n : ℕ} (hm : b.size < m) (hn : b.size < n) :
    drainFuel o pack m b = drainFuel o pack n b := by
  induction m generalizing n b with
  | zero => exact absurd hm (Nat.not_lt_zero _)
  | succ m ih =>
    obtain _ | n := n
    · exact absurd hn (Nat.not_lt_zero _)
    rw [drainFuel, drainFuel]
    cases hok : (deserialize o pack b).success with
    | false => rfl
    | true =>
      have hlt := deserialize_lt hb hok
      obtain ⟨_, hc, -⟩ := deserialize_consumes o pack hb
      simp only [if_true, ih hc.consistent (by omega : _ < m) (by omega : _ < n)]

theorem drain_success (hb : b.Consistent) (h : (deserialize o pack b).success = true) :
    drain o pack b =
      (⟨b, deserialize o pack b⟩ :: (drain o pack (deserialize o pack b).buffer).1,
        (drain o pack (deserialize o pack b).buffer).2) := by
  obtain ⟨_, hc, -⟩ := deserialize_consumes o pack hb
  have hlt := deserialize_lt hb h
  rw [drain, drainFuel, drainFuel_eq (n := (deserialize o pack b).buffer.size + 1) hc.consistent
    hlt (Nat.lt_succ_self _)]
  exact if_pos h

theorem drain_failure (h : (deserialize o pack b).success = false) :
    drain o pack b = ([⟨b, deserialize o pack b⟩], (deserialize o pack b).buffer) :=
  if_neg (Bool.eq_false_iff.mp h)

theorem drain_short (h : b.size < headerSize) :
    drain o pack b = ([⟨b, pack.defaultVariant, false, b⟩], b) := by
  have hfail : deserialize o pack b = ⟨pack.defaultVariant, false, b⟩ := deserialize_short h
  rw [drain_failure (by rw [hfail]), hfail]

/-- The header of a message whose payload is incomplete is lost. -/
theorem drain_loses_header (hd : pack.Distinct) (hb : b.Consistent) (v : pack.Variant)
    (hsize : pack.sizeOf v ≤ maxPayloadSize) (hu : b.unread <+: pack.frame o v)
    (hlt : b.unread.length < (pack.frame o v).length) (hge : headerSize ≤ b.unread.length) :
    ∃ c ∈ (drain o pack b).1, ¬ c.IntactOnFailure := by
  rw [pack.frame_length] at hlt
  obtain ⟨hfail, hlost⟩ := deserialize_partial o hd hb v hsize hu hlt
  rw [drain_failure hfail]
  exact ⟨_, List.mem_cons_self, fun h => absurd (hlost.mp (h hfail)) (Nat.not_lt.mpr hge)⟩

theorem drain_frames (hd : pack.Distinct) (vs : List pack.Variant)
    (hsizes : ∀ v ∈ vs, pack.sizeOf v ≤ maxPayloadSize) (hb : b.Consistent) {u : List UInt8}
    (hu : b.unread = (vs.map (pack.frame o)).flatten ++ u) :
    ∃ n b' calls, Consumes b n b' ∧ b'.unread = u ∧ received calls = vs ∧
      (∀ c ∈ calls, c.IntactOnFailure) ∧
      drain o pack b = (calls ++ (drain o pack b').1, (drain o pack b').2) := by
  induction vs generalizing b with
  | nil => exact ⟨0, b, [], Consumes.refl hb, hu, rfl, fun _ hc => absurd hc List.not_mem_nil, rfl⟩
  | cons v vs ih =>
    rw [List.map_cons, List.flatten_cons, List.append_assoc] at hu
    obtain ⟨hok, hval, hcons⟩ := deserialize_frame o hd hb v
      (hsizes v List.mem_cons_self) hu
    have hrest := hcons.unread_eq
    rw [hu, List.drop_left' (pack.frame_length o v)] at hrest
    obtain ⟨n, b', calls, hc', hu', hvals, hintact, hdrain⟩ :=
      ih (fun w hw => hsizes w (List.mem_cons_of_mem v hw)) hcons.consistent hrest
    refine ⟨_, b', ⟨b, deserialize o pack b⟩ :: calls, hcons.trans hb hc', hu', ?_, ?_, ?_⟩
    · simp only [received, List.filter_cons, hok, if_true, List.map_cons, hval] at hvals ⊢
      rw [hvals]
    · intro c hc hfail
      rcases List.mem_cons.mp hc with rfl | hc
      · exact absurd (hok.symm.trans hfail) (by decide)
      · exact hintact c hc hfail
    · rw [drain_success hb hok, hdrain]
      rfl

/-! ### Reading what arrives -/

theorem deliver_cons (chunk : List UInt8) (rest : List (List UInt8)) :
    deliver o pack b (chunk :: rest) = (drain o pack (b.write chunk).2).1 ++
      deliver o pack (drain o pack (b.write chunk).2).2 rest := rfl

def cutOffset (o : ByteOrder) (vs : List pack.Variant) (u : List UInt8)
    (chunks : List (List UInt8)) (k : ℕ) : ℕ :=
  Framing.offset (vs.map (pack.frame o)) (u.length + (chunks.take k).flatten.length)

theorem frames_flatten_length (o : ByteOrder) (vs : List pack.Variant) :
    (vs.map (pack.frame o)).flatten.length = (vs.map fun v => headerSize + pack.sizeOf v).sum := by
  rw [List.length_flatten, List.map_map]
  exact congrArg List.sum (List.map_congr_left fun v _ => pack.frame_length o v)

theorem cutOffset_zero {vs : List pack.Variant} {u : List UInt8} {chunks : List (List UInt8)}
    (h : u.length < headerSize) : cutOffset o vs u chunks 0 = u.length := by
  rw [cutOffset, List.take_zero, List.flatten_nil, List.length_nil, Nat.add_zero]
  cases vs with
  | nil => rfl
  | cons v vs =>
    refine Framing.offset_of_lt ?_
    rw [pack.frame_length]
    exact Nat.lt_add_right _ h

theorem cutOffset_succ {vs ws : List pack.Variant} {u u' chunk : List UInt8}
    {rest : List (List UInt8)} (h : u ++ chunk = (vs.map (pack.frame o)).flatten ++ u') (k : ℕ) :
    cutOffset o (vs ++ ws) u (chunk :: rest) (k + 1) = cutOffset o ws u' rest k := by
  have hlen := congrArg List.length h
  rw [List.length_append, List.length_append] at hlen
  rw [cutOffset, cutOffset, List.take_succ_cons, List.flatten_cons, List.length_append,
    ← Nat.add_assoc, hlen, Nat.add_assoc, List.map_append, Framing.offset_append]

structure Delivery (o : ByteOrder) (b : LinearBuffer) (chunks : List (List UInt8))
    (vs : List pack.Variant) : Prop where
  received_all : (∀ k ≤ chunks.length, cutOffset o vs b.unread chunks k < headerSize) →
    received (deliver o pack b chunks) = vs ∧ ∀ c ∈ deliver o pack b chunks, c.IntactOnFailure
  bytes_lost : ∀ k ≤ chunks.length, headerSize ≤ cutOffset o vs b.unread chunks k →
    ∃ c ∈ deliver o pack b chunks, ¬c.IntactOnFailure

namespace Delivery

variable {b' : LinearBuffer} {vs vs' : List pack.Variant} {u chunk : List UInt8}
  {rest : List (List UInt8)} {calls : List (DemuxCall pack)}

theorem nil (hshort : b.unread.length < headerSize) : Delivery o b [] ([] : List pack.Variant) := by
  refine ⟨fun _ => ⟨rfl, fun _ hc => absurd hc List.not_mem_nil⟩, fun k hk hcut => ?_⟩
  rw [Nat.le_zero.mp hk, cutOffset_zero hshort] at hcut
  exact absurd hshort (Nat.not_lt.mpr hcut)

theorem cons_intact (hshort : b.unread.length < headerSize)
    (hbytes : b.unread ++ chunk = (vs.map (pack.frame o)).flatten ++ b'.unread)
    (hdeliver : deliver o pack b (chunk :: rest) = calls ++ deliver o pack b' rest)
    (hvals : received calls = vs) (hintact : ∀ c ∈ calls, c.IntactOnFailure)
    (h : Delivery o b' rest vs') : Delivery o b (chunk :: rest) (vs ++ vs') := by
  constructor
  · intro hcuts
    obtain ⟨hrec, hall⟩ := h.received_all fun k hk => by
      have hcut := hcuts (k + 1) (Nat.succ_le_succ hk)
      rwa [cutOffset_succ hbytes] at hcut
    rw [hdeliver]
    refine ⟨by rw [received_append, hvals, hrec], fun c hc => ?_⟩
    rcases List.mem_append.mp hc with hc | hc
    · exact hintact c hc
    · exact hall c hc
  · intro k hk hcut
    obtain _ | k := k
    · rw [cutOffset_zero hshort] at hcut
      exact absurd hshort (Nat.not_lt.mpr hcut)
    · rw [cutOffset_succ hbytes] at hcut
      obtain ⟨c, hc, hlost⟩ := h.bytes_lost k (Nat.le_of_succ_le_succ hk) hcut
      rw [hdeliver]
      exact ⟨c, List.mem_append_right _ hc, hlost⟩

theorem cons_lost (hbytes : b.unread ++ chunk = (vs.map (pack.frame o)).flatten ++ u)
    (hcut : headerSize ≤ cutOffset o vs' u rest 0)
    (hlost : ∃ c ∈ deliver o pack b (chunk :: rest), ¬c.IntactOnFailure) :
    Delivery o b (chunk :: rest) (vs ++ vs') := by
  refine ⟨fun hcuts => ?_, fun _ _ _ => hlost⟩
  have hone := hcuts 1 (Nat.succ_le_succ (Nat.zero_le _))
  rw [cutOffset_succ hbytes] at hone
  exact absurd hone (Nat.not_lt.mpr hcut)

end Delivery

/-- A delivery from a state in which only a part of a header is unread. -/
theorem deliver_spec (hd : pack.Distinct) (chunks : List (List UInt8)) (vs : List pack.Variant)
    (hsizes : ∀ v ∈ vs, pack.sizeOf v ≤ maxPayloadSize) (hb : b.Consistent)
    (hroom : chunks.flatten.length ≤ b.room)
    (hu : b.unread ++ chunks.flatten = (vs.map (pack.frame o)).flatten)
    (hshort : b.unread.length < headerSize) : Delivery o b chunks vs := by
  induction chunks generalizing b vs with
  | nil =>
    cases vs with
    | nil => exact Delivery.nil hshort
    | cons v vs =>
      have hlen := congrArg List.length hu
      rw [frames_flatten_length, List.map_cons, List.sum_cons, List.flatten_nil,
        List.append_nil] at hlen
      omega
  | cons chunk rest ih =>
    rw [List.flatten_cons, List.length_append] at hroom
    rw [List.flatten_cons, ← List.append_assoc] at hu
    -- what is unread after the arrival: messages of `vs₁`, then a part `u` of the next one
    obtain ⟨ds, rs, u, hsplit, hbytes, hrest, hhead⟩ := Framing.split_prefix _ hu
    obtain ⟨vs₁, vs₂, rfl, rfl, rfl⟩ := List.map_eq_append_iff.mp hsplit
    have hsizes₂ : ∀ v ∈ vs₂, pack.sizeOf v ≤ maxPayloadSize := fun v hv =>
      hsizes v (List.mem_append_right _ hv)
    have happ : Appends b chunk (b.write chunk).2 := (write_appends hb (by omega)).2
    have hroom₁ := happ.room_eq hb
    obtain ⟨n, b', calls, hcons, hu', hvals, hintact, hdrain⟩ := drain_frames (o := o) hd vs₁
      (fun v hv => hsizes v (List.mem_append_left _ hv)) happ.consistent
      (happ.unread_eq.trans hbytes)
    have hroom' := hcons.room_le happ.consistent
    have hdeliver : deliver o pack b (chunk :: rest) = _ := deliver_cons chunk rest
    subst hu'
    rcases Nat.lt_or_ge b'.unread.length headerSize with hlt | hge
    · -- the next call sees a part of a header and leaves it there
      rw [hdrain, drain_short (by rwa [← hcons.consistent.unread_length])] at hdeliver
      refine Delivery.cons_intact hshort hbytes hdeliver ?_ (fun c hc => ?_)
        (ih vs₂ hsizes₂ hcons.consistent (by omega) hrest hlt)
      · rw [received_append, hvals]
        exact List.append_nil vs₁
      · rcases List.mem_append.mp hc with hc | hc
        · exact hintact c hc
        · rw [List.mem_singleton.mp hc]
          exact fun _ => rfl
    · -- the next call takes the header of an incomplete message away
      cases vs₂ with
      | nil =>
        rw [List.map_nil, List.flatten_nil, List.append_eq_nil_iff] at hrest
        rw [hrest.1] at hge
        exact absurd hge (by decide)
      | cons v vs₃ =>
        have hpart : b'.unread.length < (pack.frame o v).length := hhead _ rfl
        have hprefix : b'.unread <+: pack.frame o v :=
          List.prefix_of_prefix_length_le ⟨rest.flatten, hrest⟩ (List.prefix_append _ _)
            (Nat.le_of_lt hpart)
        have hcut : headerSize ≤ cutOffset o (v :: vs₃) b'.unread rest 0 := by
          rwa [cutOffset, List.take_zero, List.flatten_nil, List.length_nil, Nat.add_zero,
            List.map_cons, Framing.offset_of_lt hpart]
        obtain ⟨c, hc, hlost⟩ := drain_loses_header hd hcons.consistent v
          (hsizes₂ v List.mem_cons_self) hprefix hpart hge
        rw [hdrain] at hdeliver
        refine Delivery.cons_lost hbytes hcut ⟨c, ?_, hlost⟩
        rw [hdeliver]
        exact List.mem_append_left _ (List.mem_append_right _ hc)

/-! ### The sender's bytes -/

theorem sendAll_appends (o : ByteOrder) (vs : List pack.Variant)
    (hsizes : ∀ v ∈ vs, pack.sizeOf v ≤ maxPayloadSize) (hb : b.Consistent)
    (hroom : (vs.map fun v => headerSize + pack.sizeOf v).sum ≤ b.room) :
    Appends b (vs.map (pack.frame o)).flatten (sendAll o pack vs b) := by
  induction vs generalizing b with
  | nil => exact Appends.refl hb
  | cons v vs ih =>
    rw [List.map_cons, List.sum_cons] at hroom
    obtain ⟨-, happ⟩ := serializeVariant_fits (o := o) hb v (by omega)
      (hsizes v List.mem_cons_self)
    have hleft := happ.room_eq hb
    rw [pack.frame_length] at hleft
    exact happ.trans (ih (fun w hw => hsizes w (List.mem_cons_of_mem v hw)) happ.consistent
      (by omega))

theorem stream_eq (o : ByteOrder) (vs : List pack.Variant)
    (hsizes : ∀ v ∈ vs, pack.sizeOf v ≤ maxPayloadSize) :
    stream o pack vs = (vs.map (pack.frame o)).flatten := by
  have happ := sendAll_appends o vs hsizes (new_consistent _) (Nat.le_of_eq (new_room _).symm)
  rw [stream, happ.unread_eq, new_unread, List.nil_append]

theorem received_at_once (o : ByteOrder) (hd : pack.Distinct) (vs : List pack.Variant)
    (hsizes : ∀ v ∈ vs, pack.sizeOf v ≤ maxPayloadSize) {capacity : ℕ}
    (hcap : (stream o pack vs).length ≤ capacity) :
    received (deliver o pack (new capacity) [stream o pack vs]) = vs := by
  have hframes := stream_eq o vs hsizes
  refine ((deliver_spec hd [stream o pack vs] vs hsizes (new_consistent capacity) ?_ ?_
    (by rw [new_unread]; decide)).received_all fun k hk => ?_).1
  · rwa [new_room, List.flatten_singleton]
  · rw [new_unread, List.nil_append, List.flatten_singleton, hframes]
  · rw [new_unread]
    obtain _ | k := k
    · rw [cutOffset_zero (by decide)]
      decide
    · rw [cutOffset, List.take_succ_cons, List.take_nil, List.flatten_singleton, hframes,
        List.length_nil, Nat.zero_add]
      have hend := Framing.offset_append (vs.map (pack.frame o)) [] 0
      rw [List.append_nil, Nat.add_zero] at hend
      rw [hend]
      decide

/-- A refused part of a message stays unread exactly when it ends inside the
header; and reading piece by piece is as good as reading everything at once
exactly when no piece ends behind the header of a message that is not complete. -/
theorem arrival_iff (o : ByteOrder) (pack : TypePack) (hd : pack.Distinct) :
    (∀ (v : pack.Variant) (b : LinearBuffer), pack.sizeOf v ≤ maxPayloadSize → b.Reachable →
      b.unread <+: pack.frame o v → b.unread.length < headerSize + pack.sizeOf v →
      ((deserialize o pack b).success = false ∧
          (deserialize o pack b).buffer.unread = b.unread ↔ b.unread.length < headerSize)) ∧
    (∀ (vs : List pack.Variant) (capacity : ℕ) (chunks : List (List UInt8)),
      (∀ v ∈ vs, pack.sizeOf v ≤ maxPayloadSize) → chunks.flatten = stream o pack vs →
      (stream o pack vs).length ≤ capacity →
      (ArrivalIndependent o pack capacity chunks ↔
        ∀ k ≤ chunks.length, Framing.offset (vs.map (pack.frame o))
          (chunks.take k).flatten.length < headerSize)) := by
  constructor
  · intro v b hsize hb hu hlt
    obtain ⟨hfail, hkept⟩ := deserialize_partial o hd hb.consistent v hsize hu hlt
    exact ⟨fun h => hkept.mp h.2, fun h => ⟨hfail, hkept.mpr h⟩⟩
  · intro vs capacity chunks hsizes hchunks hcap
    have hcuts (k : ℕ) : cutOffset o vs (new capacity).unread chunks k =
        Framing.offset (vs.map (pack.frame o)) (chunks.take k).flatten.length := by
      rw [cutOffset, new_unread, List.length_nil, Nat.zero_add]
    have hspec := deliver_spec (o := o) hd chunks vs hsizes (new_consistent capacity)
      (by rw [new_room, hchunks]; exact hcap)
      (by rw [new_unread, List.nil_append, hchunks, stream_eq o vs hsizes])
      (by rw [new_unread]; decide)
    obtain ⟨hgood, hbad⟩ := hspec
    simp only [hcuts] at hgood hbad
    rw [ArrivalIndependent, hchunks, received_at_once o hd vs hsizes hcap]
    refine ⟨fun h k hk => Nat.lt_of_not_le fun hcut => ?_, hgood⟩
    obtain ⟨c, hc, hlost⟩ := hbad k hk hcut
    exact hlost (h.2 c hc)

theorem arrival_iff_byteSeven :
    ArrivalIndependent .little bytePack 8 [[0], [1, 0, 7]] :=
  ((arrival_iff .little bytePack (by decide)).2 [byteSeven] 8 [[0], [1, 0, 7]] (by decide)
    (by decide) (by decide)).mpr (by decide)

/-- A message whose payload arrives after its header is never received. -/
theorem arrival_loses_message :
    [[0, 1, 0], [7]].flatten = stream .little bytePack [byteSeven] ∧
      received (deliver .little bytePack (new 8) [[0, 1, 0, 7]]) = [byteSeven] ∧
      received (deliver .little bytePack (new 8) [[0, 1, 0], [7]]) = [] ∧
      ¬ ArrivalIndependent .little bytePack 8 [[0, 1, 0], [7]] := by
  refine ⟨by decide, rfl, rfl, fun h => ?_⟩
  exact absurd (congrArg List.length h.1) (by decide)

end Eestv
