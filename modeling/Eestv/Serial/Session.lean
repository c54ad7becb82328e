import Eestv.Library.Runs
import Eestv.Serial.Acceptance

/-! A sender and a receiver that share one buffer. As long as no message is cut
off and no oversized payload is written, the unread bytes are the messages not
yet received, one after the other, for every interleaving of the two. -/

namespace Eestv
open LinearBuffer FirstFit Runs

inductive MuxCall (pack : TypePack) where
  | serialize (v : pack.Variant)
  | deserialize

/-- The shared buffer, every value sent with the sender's verdict, and every value
returned by the receiver with its verdict. -/
structure Session (pack : TypePack) where
  buffer : LinearBuffer
  sent : List (pack.Variant × Bool)
  received : List (pack.Variant × Bool)

namespace Session

variable {pack : TypePack}

def start (pack : TypePack) (capacity : ℕ) : Session pack := ⟨new capacity, [], []⟩

def accepted (s : Session pack) : List pack.Variant :=
  (s.sent.filter Prod.snd).map Prod.fst

def after (o : ByteOrder) (s : Session pack) : MuxCall pack → Session pack
  | .serialize v =>
    let r := serializeVariant o pack v s.buffer
    ⟨r.2, s.sent ++ [(v, r.1)], s.received⟩
  | .deserialize =>
    let r := deserialize o pack s.buffer
    ⟨r.buffer, s.sent, s.received ++ [(r.value, r.success)]⟩

/-- The caller checks the room and the size before sending, and receives only
when a sent message has not been read yet. -/
def Checked (s : Session pack) : MuxCall pack → Prop
  | .serialize v => headerSize + pack.sizeOf v ≤ s.buffer.room ∧ pack.sizeOf v ≤ maxPayloadSize
  | .deserialize => s.received.length < s.sent.length

instance (s : Session pack) : (c : MuxCall pack) → Decidable (Checked s c)
  | .serialize _ => inferInstanceAs (Decidable (_ ∧ _))
  | .deserialize => inferInstanceAs (Decidable (_ < _))

/-- Nothing is checked before sending, but each message either finds no room for
its header or is sent completely. -/
def Clean (s : Session pack) : MuxCall pack → Prop
  | .serialize v => s.buffer.room < headerSize ∨
      (headerSize + pack.sizeOf v ≤ s.buffer.room ∧ pack.sizeOf v ≤ maxPayloadSize)
  | .deserialize => s.received.length < s.accepted.length

def Step (o : ByteOrder) (permitted : Session pack → MuxCall pack → Prop) (s : Session pack)
    (c : MuxCall pack) (t : Session pack) : Prop :=
  permitted s c ∧ t = s.after o c

/-- The invariant: accepted messages are received in order, and those not received
yet are the unread bytes. -/
structure InOrder (o : ByteOrder) (capacity : ℕ) (s : Session pack) : Prop where
  consistent : s.buffer.Consistent
  capacity_eq : s.buffer.capacity = capacity
  small : ∀ v ∈ s.accepted, pack.sizeOf v ≤ maxPayloadSize
  received_le : s.received.length ≤ s.accepted.length
  received_eq : s.received = (s.accepted.take s.received.length).map fun v => (v, true)
  unread_eq : s.buffer.unread = (s.accepted.drop s.received.length).flatMap (pack.frame o)

theorem start_inOrder (o : ByteOrder) (capacity : ℕ) : InOrder o capacity (start pack capacity) :=
  ⟨new_consistent capacity, new_capacity capacity, fun _ hv => absurd hv List.not_mem_nil,
    Nat.le_refl 0, rfl, new_unread capacity⟩

theorem InOrder.serialize {o : ByteOrder} {capacity : ℕ} {s : Session pack}
    (hs : InOrder o capacity s) (v : pack.Variant) (hv : Clean s (.serialize v)) :
    InOrder o capacity (s.after o (.serialize v)) := by
  rcases hv with hlt | ⟨hroom, hsize⟩
  · have hr := serializeVariant_no_room (o := o) v hlt
    have hacc : (s.after o (.serialize v)).accepted = s.accepted := by
      simp only [accepted, after, hr, List.filter_append, List.filter_cons, Bool.false_eq_true,
        if_false, List.filter_nil, List.append_nil]
    have hbuf : (s.after o (.serialize v)).buffer = s.buffer := congrArg Prod.snd hr
    constructor <;> simp only [hacc, hbuf]
    exacts [hs.consistent, hs.capacity_eq, hs.small, hs.received_le, hs.received_eq, hs.unread_eq]
  · obtain ⟨hok, happ⟩ := serializeVariant_fits (o := o) hs.consistent v hroom hsize
    have hacc : (s.after o (.serialize v)).accepted = s.accepted ++ [v] := by
      simp only [accepted, after, hok, List.filter_append, List.filter_cons, if_true,
        List.filter_nil, List.map_append, List.map_cons, List.map_nil]
    refine ⟨happ.consistent, happ.capacity_eq.trans hs.capacity_eq, ?_, ?_, ?_, ?_⟩ <;> rw [hacc]
    · intro w hw
      rcases List.mem_append.mp hw with hw | hw
      · exact hs.small w hw
      · rw [List.mem_singleton.mp hw]
        exact hsize
    · exact hs.received_le.trans (by rw [List.length_append]; exact Nat.le_add_right _ _)
    · change s.received = ((s.accepted ++ [v]).take s.received.length).map _
      rw [List.take_append_of_le_length hs.received_le]
      exact hs.received_eq
    · change (serializeVariant o pack v s.buffer).2.unread = _
      change _ = ((s.accepted ++ [v]).drop s.received.length).flatMap _
      rw [happ.unread_eq, hs.unread_eq, List.drop_append_of_le_length hs.received_le,
        List.flatMap_append, List.flatMap_singleton]

theorem InOrder.deserialize {o : ByteOrder} {capacity : ℕ} {s : Session pack}
    (hd : pack.Distinct) (hs : InOrder o capacity s) (h : s.received.length < s.accepted.length) :
    InOrder o capacity (s.after o .deserialize) := by
  obtain ⟨hok, hval, hcons⟩ := deserialize_frame o hd hs.consistent s.accepted[s.received.length]
    (hs.small _ (List.getElem_mem h))
    (by rw [hs.unread_eq, List.drop_eq_getElem_cons h, List.flatMap_cons])
  have hafter : s.after o .deserialize =
      ⟨(Eestv.deserialize o pack s.buffer).buffer, s.sent,
        s.received ++ [(s.accepted[s.received.length], true)]⟩ := by
    simp only [after, hok, hval]
  rw [hafter]
  refine ⟨hcons.consistent, hcons.capacity_eq.trans hs.capacity_eq, hs.small, ?_, ?_, ?_⟩
  · change (s.received ++ [_]).length ≤ s.accepted.length
    rw [List.length_append, List.length_singleton]
    exact h
  · change s.received ++ [_] = (s.accepted.take (s.received ++ [_]).length).map _
    rw [List.length_append, List.length_singleton, List.take_succ_eq_append_getElem h,
      List.map_append, ← hs.received_eq, List.map_singleton]
  · change _ = (s.accepted.drop (s.received ++ [_]).length).flatMap _
    rw [hcons.unread_eq, hs.unread_eq, List.drop_eq_getElem_cons h, List.flatMap_cons,
      List.drop_left' (pack.frame_length o _), List.length_append, List.length_singleton]

theorem InOrder.step {o : ByteOrder} {capacity : ℕ} (hd : pack.Distinct) (s : Session pack)
    (c : MuxCall pack) (t : Session pack) (hs : InOrder o capacity s)
    (hstep : Step o Clean s c t) : InOrder o capacity t := by
  obtain ⟨hp, rfl⟩ := hstep
  cases c with
  | serialize v => exact hs.serialize v hp
  | deserialize => exact hs.deserialize hd hp

theorem InOrder.of_run {o : ByteOrder} {capacity : ℕ} (hd : pack.Distinct)
    {calls : List (MuxCall pack)} {s : Session pack}
    (h : Run (Step o Clean) (start pack capacity) calls s) : InOrder o capacity s :=
  h.invariant (InOrder.step hd) (start_inOrder o capacity)

theorem InOrder.drained {o : ByteOrder} {capacity : ℕ} {s : Session pack}
    (hs : InOrder o capacity s) (h : s.received.length = s.accepted.length) :
    s.buffer.unread = [] ∧ s.buffer.room = capacity := by
  have hu : s.buffer.unread = [] := by
    rw [hs.unread_eq, h, List.drop_length, List.flatMap_nil]
  exact ⟨hu, (hs.consistent.room_of_unread_nil hu).trans hs.capacity_eq⟩

structure AllAccepted (o : ByteOrder) (capacity : ℕ) (s : Session pack) : Prop extends
    InOrder o capacity s where
  verdicts : ∀ e ∈ s.sent, e.2 = true

theorem accepted_of_verdicts {s : Session pack} (h : ∀ e ∈ s.sent, e.2 = true) :
    s.accepted = s.sent.map Prod.fst := by
  rw [accepted, List.filter_eq_self.mpr h]

theorem AllAccepted.step {o : ByteOrder} {capacity : ℕ} (hd : pack.Distinct) (s : Session pack)
    (c : MuxCall pack) (t : Session pack) (hs : AllAccepted o capacity s)
    (hstep : Step o Checked s c t) : AllAccepted o capacity t := by
  obtain ⟨hp, rfl⟩ := hstep
  cases c with
  | serialize v =>
    refine ⟨hs.toInOrder.serialize v (Or.inr hp), fun e he => ?_⟩
    rcases List.mem_append.mp he with he | he
    · exact hs.verdicts e he
    · rw [List.mem_singleton.mp he]
      exact (serializeVariant_fits hs.consistent v hp.1 hp.2).1
  | deserialize =>
    refine ⟨hs.toInOrder.deserialize hd ?_, hs.verdicts⟩
    rw [accepted_of_verdicts hs.verdicts, List.length_map]
    exact hp

/-- Whatever the interleaving, everything that is sent arrives in order and unchanged. -/
theorem round_trip_of_run (o : ByteOrder) (pack : TypePack) (hd : pack.Distinct) (capacity : ℕ)
    (calls : List (MuxCall pack)) (s : Session pack)
    (h : Run (Step o Checked) (start pack capacity) calls s) :
    (∀ e ∈ s.sent, e.2 = true) ∧
      s.received = ((s.sent.map Prod.fst).take s.received.length).map (fun v => (v, true)) ∧
      (s.received.length = s.sent.length →
        s.buffer.unread = [] ∧ s.buffer.room = capacity) := by
  have hs : AllAccepted o capacity s := h.invariant (AllAccepted.step hd)
    ⟨start_inOrder o capacity, fun _ he => absurd he List.not_mem_nil⟩
  have hacc := accepted_of_verdicts hs.verdicts
  refine ⟨hs.verdicts, hacc ▸ hs.received_eq, fun hlen => hs.drained ?_⟩
  rw [hacc, List.length_map]
  exact hlen

def seven : byteWordPack.Variant := ⟨⟨0, by decide⟩, (7 : BitVec 8)⟩

def word : byteWordPack.Variant := ⟨⟨1, by decide⟩, (258 : BitVec 16)⟩

theorem round_trip_of_run_seven :
    let s := [.serialize seven, .serialize word, .deserialize, .serialize seven, .deserialize,
      .deserialize].foldl (Session.after .little) (start byteWordPack 13)
    s.received = [(seven, true), (word, true), (seven, true)] ∧ s.buffer.unread = [] ∧
      s.buffer.room = 13 := by
  have h := round_trip_of_run .little byteWordPack (by decide) 13
    [.serialize seven, .serialize word, .deserialize, .serialize seven, .deserialize, .deserialize]
    _ (.cons ⟨by decide, rfl⟩ (.cons ⟨by decide, rfl⟩ (.cons ⟨by decide, rfl⟩
      (.cons ⟨by decide, rfl⟩ (.cons ⟨by decide, rfl⟩ (.cons ⟨by decide, rfl⟩ (.nil _)))))))
  exact ⟨h.2.1, h.2.2 rfl⟩

/-! ### Failing calls -/

/-- A failing call leaves the stream intact exactly when no payload that is too
large finds room; and in a run in which that holds and no message is cut off, the
calls that fail do not disturb the messages accepted before and after them. -/
theorem intact_on_failure (o : ByteOrder) (pack : TypePack) :
    (∀ (v : pack.Variant) (b : LinearBuffer), b.Reachable →
      (IntactOnFailure o pack v b ↔
        b.room < headerSize ∨ pack.fitting v b ≤ maxPayloadSize)) ∧
    (pack.Distinct → ∀ (capacity : ℕ) (calls : List (MuxCall pack)) (s : Session pack),
      Run (Step o Clean) (start pack capacity) calls s →
        s.received = (s.accepted.take s.received.length).map (fun v => (v, true)) ∧
        s.buffer.unread = (s.accepted.drop s.received.length).flatMap (pack.frame o)) := by
  refine ⟨fun v b hb => intactOnFailure_iff hb.consistent v, fun hd capacity calls s h => ?_⟩
  have hs := InOrder.of_run hd h
  exact ⟨hs.received_eq, hs.unread_eq⟩

theorem intact_on_failure_no_room :
    IntactOnFailure .little bytePack byteSeven (new 2) ∧
      let s := (((start bytePack 4).after .little (.serialize byteSeven)).after .little
        (.serialize byteSeven)).after .little .deserialize
      s.received = [(byteSeven, true)] := by
  obtain ⟨hcall, hrun⟩ := intact_on_failure .little bytePack
  refine ⟨(hcall byteSeven (new 2) (.new 2)).mpr (Or.inl (by decide)), ?_⟩
  exact (hrun (by decide) 4 [.serialize byteSeven, .serialize byteSeven, .deserialize] _
    (.cons ⟨Or.inr ⟨by decide, by decide⟩, rfl⟩ (.cons ⟨Or.inl (by decide), rfl⟩
      (.cons ⟨Nat.one_pos, rfl⟩ (.nil _))))).1

/-- 8192 integers of eight bytes, one byte more than a header can announce. -/
def hugeLayout : RecordType := .record (List.replicate 8192 (.integer .eight))

def hugePack : TypePack := ⟨[⟨"Huge", hugeLayout, hugeLayout.zero⟩], by decide, by decide⟩

def hugeZero : hugePack.Variant := ⟨⟨0, Nat.one_pos⟩, hugeLayout.zero⟩

/-- The payload that is refused for its size stays in the buffer. -/
theorem oversized_payload_stays :
    (new 65539).Reachable ∧ ¬ IntactOnFailure .little hugePack hugeZero (new 65539) := by
  refine ⟨.new 65539, fun h => ?_⟩
  have hsize : hugeLayout.encodedSize = 65536 := RecordType.encodedSize_replicate _ 8192
  have hfit : hugePack.fitting hugeZero (new 65539) = 65536 := by
    rw [TypePack.fitting, new_room, ← hsize]
    exact RecordType.fittingSize_of_le (Nat.le_of_eq hsize)
  rcases (intactOnFailure_iff (new_consistent 65539) hugeZero).mp h with hroom | hle
  · rw [new_room] at hroom
    exact absurd hroom (by decide)
  · rw [hfit] at hle
    exact absurd hle (by decide)

end Session
end Eestv
