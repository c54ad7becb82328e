import Eestv.Net.TcpConnectionLink
import Eestv.Serial.BufferCallbacks
import Eestv.Serial.ByteOrders

/-! Messages over a link. One side serializes in its queue callbacks, the other one reads messages
in its receive callback until a call fails, whatever portions the stream comes in. The hosts may
have different byte orders. -/

namespace Eestv.Net.TcpConnection
open Runs IoContext LinearBuffer

/-- An end of a link that uses its two buffers for messages only. -/
structure Messenger (K : Type) (pack : TypePack) where
  endpoint : Endpoint K
  /-- Those for which `serialize` returned true. -/
  sent : List pack.Variant
  decoded : List pack.Variant

namespace Messenger

variable {K : Type} {pack : TypePack} {o o' : ByteOrder} {x y z : Messenger K pack}
  {input : List UInt8}

inductive Event (K : Type) (pack : TypePack)
  | send (v : pack.Variant)
  | receive (p n : ℕ) (error : ErrorCode) (bytes : List UInt8)
  | act (e : Endpoint.Event K)

def Other : Endpoint.Event K → Bool
  | .member (.callQueueSendFunction _) => false
  | .member (.onReceive _ _ _ _ _) => false
  | _ => true

def start (pack : TypePack) (receiveBufferSize sendBufferSize : ℕ) : Messenger K pack :=
  ⟨.start receiveBufferSize sendBufferSize, [], []⟩

def step [DecidableEq K] (o : ByteOrder) (input : List UInt8) (x : Messenger K pack) :
    Event K pack → Option (Messenger K pack)
  | .send v =>
    (x.endpoint.step input (.member (.callQueueSendFunction (.serialize o pack v)))).map fun y =>
      { x with
        endpoint := y
        sent := if (serializeVariant o pack v x.endpoint.connection.sendBuffer).1 then
          x.sent ++ [v] else x.sent }
  | .receive p n error bytes =>
    (x.endpoint.step input (.member (.onReceive p n error bytes (.drain o pack)))).map fun y =>
      { x with
        endpoint := y
        decoded := if !error.failed && x.endpoint.connection.dataReceivedCallback then
          x.decoded ++ received (drain o pack (x.endpoint.filled p bytes)).1 else x.decoded }
  | .act e =>
    if Other e then (x.endpoint.step input e).map fun y => { x with endpoint := y } else none

def unread (x : Messenger K pack) : List UInt8 := x.endpoint.connection.receiveBuffer.unread

/-- No message is cut off or too long for a header, no read ends behind the header of an incomplete
message of the other side `y` or before the callback is set, no second read is started, and no
write fails with a part of it on the stream. -/
def Clean (o : ByteOrder) (x y : Messenger K pack) : Event K pack → Prop
  | .send v => x.endpoint.connection.sendBuffer.room < headerSize ∨
      headerSize + pack.sizeOf v ≤ x.endpoint.connection.sendBuffer.room ∧
        pack.sizeOf v ≤ maxPayloadSize
  | .receive _ _ error bytes => error.failed = true ∨
      x.endpoint.connection.dataReceivedCallback = true ∧
        Framing.offset (y.sent.map (pack.frame o)) (x.endpoint.received ++ bytes).length <
          headerSize
  | .act e => ¬ x.endpoint.StartsSecondRead e ∧ ¬ x.endpoint.TearsWrite e

structure Sound (o : ByteOrder) (x : Messenger K pack) : Prop where
  endpoint : x.endpoint.Sound
  committed : x.endpoint.sender.committed = (x.sent.map (pack.frame o)).flatten
  small : ∀ v ∈ x.sent, pack.sizeOf v ≤ maxPayloadSize

/-- What `y`, of byte order `o'`, has made of the messages of `x`, of byte order `o`. -/
structure Agrees (o o' : ByteOrder) (x y : Messenger K pack) : Prop where
  received : y.endpoint.received <+: x.endpoint.socket.sent
  decoded : ∃ rest, x.sent.map (pack.reread o o') = y.decoded ++ rest
  bytes : (y.decoded.map (pack.frame o')).flatten ++ y.unread = y.endpoint.received
  short : y.unread.length < headerSize

theorem start_sound (m n : ℕ) : (start pack m n : Messenger K pack).Sound o :=
  ⟨Endpoint.start_sound m n, rfl, fun _ hv => absurd hv List.not_mem_nil⟩

theorem start_agrees (m n m' n' : ℕ) :
    Agrees o o' (start pack m n : Messenger K pack) (start pack m' n') :=
  ⟨List.nil_prefix, ⟨[], rfl⟩, new_unread m', Nat.succ_pos 2⟩

variable [DecidableEq K]

theorem step_send {v : pack.Variant} : x.step o input (.send v) = some y ↔
    ∃ e, x.endpoint.step input (.member (.callQueueSendFunction (.serialize o pack v))) = some e ∧
      { x with
        endpoint := e
        sent := if (serializeVariant o pack v x.endpoint.connection.sendBuffer).1 then
          x.sent ++ [v] else x.sent } = y := by
  rw [Messenger.step, Option.map_eq_some_iff]

theorem step_receive {p n : ℕ} {error : ErrorCode} {bytes : List UInt8} :
    x.step o input (.receive p n error bytes) = some y ↔
    ∃ e, x.endpoint.step input (.member (.onReceive p n error bytes (.drain o pack))) = some e ∧
      { x with
        endpoint := e
        decoded := if !error.failed && x.endpoint.connection.dataReceivedCallback then
          x.decoded ++ Eestv.received (drain o pack (x.endpoint.filled p bytes)).1
          else x.decoded } = y :=
  Option.map_eq_some_iff

theorem step_act {e : Endpoint.Event K} : x.step o input (.act e) = some y ↔
    Other e = true ∧ ∃ f, x.endpoint.step input e = some f ∧ { x with endpoint := f } = y :=
  Option.ite_none_right_eq_some.trans (and_congr_right fun _ => Option.map_eq_some_iff)

omit [DecidableEq K] in
theorem callbacksBehave_of_other {e : Endpoint.Event K} (he : Other e = true) :
    e.CallbacksBehave := by
  cases e with
  | transmit p bytes n => trivial
  | member e => cases e <;> trivial

theorem step_other {e : Endpoint.Event K} {f f' : Endpoint K} (he : Other e = true)
    (hstep : f.step input e = some f') : f'.sender.committed = f.sender.committed ∧
      f'.received = f.received ∧
      f'.connection.receiveBuffer.unread = f.connection.receiveBuffer.unread := by
  cases e with
  | transmit p bytes n =>
    obtain ⟨k, -, rfl⟩ := Endpoint.step_transmit.mp hstep
    exact ⟨rfl, rfl, rfl⟩
  | member e =>
    obtain ⟨-, t, ht, rfl⟩ := Endpoint.step_member.mp hstep
    obtain ⟨d, hd, rfl⟩ := Sender.step_iff.mp ht
    have hends : e.endsRead = false := by
      cases e <;> first | rfl | cases he
    have hbuffer := Endpoint.step_receiveBuffer hends hd
    cases e with
    | callQueueSendFunction callback => cases he
    | onReceive p n error bytes callback => cases he
    | _ => exact ⟨rfl, rfl, congrArg LinearBuffer.unread hbuffer⟩

/-! ### The sending side -/

theorem committed_serialize {b : LinearBuffer} (hb : b.Consistent) {v : pack.Variant}
    (hclean : b.room < headerSize ∨
      headerSize + pack.sizeOf v ≤ b.room ∧ pack.sizeOf v ≤ maxPayloadSize) :
    (serializeVariant o pack v b).2.unread.drop b.unread.length =
      if (serializeVariant o pack v b).1 then pack.frame o v else [] := by
  rcases hclean with hlt | ⟨hroom, hsize⟩
  · rw [serializeVariant_no_room v hlt, List.drop_length]
    rfl
  · obtain ⟨hok, happ⟩ := serializeVariant_fits (o := o) hb v hroom hsize
    rw [hok, happ.unread_eq, List.drop_left, if_pos rfl]

theorem serialize_small {b : LinearBuffer} {v : pack.Variant}
    (hclean : b.room < headerSize ∨
      headerSize + pack.sizeOf v ≤ b.room ∧ pack.sizeOf v ≤ maxPayloadSize)
    (hok : (serializeVariant o pack v b).1 = true) : pack.sizeOf v ≤ maxPayloadSize := by
  rcases hclean with hlt | ⟨-, hsize⟩
  · rw [serializeVariant_no_room v hlt] at hok
    cases hok
  · exact hsize

theorem Sound.step {e : Event K pack} (hx : x.Sound o) (hclean : Clean o' x y e)
    (hstep : x.step o input e = some z) : z.Sound o := by
  cases e with
  | send v =>
    obtain ⟨f, hf, rfl⟩ := step_send.mp hstep
    have hsound := hx.endpoint.step (e := .member (.callQueueSendFunction (.serialize o pack v)))
      (BufferCallback.serialize_queuesOnly v) hf id id
    obtain ⟨-, t, ht, rfl⟩ := Endpoint.step_member.mp hf
    obtain ⟨d, hd, rfl⟩ := Sender.step_iff.mp ht
    cases hd
    refine ⟨hsound, ?_, ?_⟩
    · have hcommitted := committed_serialize (o := o) (b := x.endpoint.connection.sendBuffer)
        hx.endpoint.carries.sending.consistent hclean
      refine (congrArg (x.endpoint.sender.committed ++ ·) hcommitted).trans ?_
      rcases (serializeVariant o pack v x.endpoint.connection.sendBuffer).1 with _ | _
      · exact (List.append_nil _).trans hx.committed
      · change x.endpoint.sender.committed ++ pack.frame o v = ((x.sent ++ [v]).map _).flatten
        rw [List.map_append, List.flatten_append, hx.committed, List.map_singleton,
          List.flatten_singleton]
    · intro w hw
      dsimp only at hw
      split at hw
      · rename_i hok
        rcases List.mem_append.mp hw with hw | hw
        · exact hx.small w hw
        · rw [List.mem_singleton.mp hw]
          exact serialize_small hclean hok
      · exact hx.small w hw
  | receive p n error bytes =>
    obtain ⟨f, hf, rfl⟩ := step_receive.mp hstep
    have hsound := hx.endpoint.step (e := .member (.onReceive p n error bytes (.drain o pack)))
      BufferCallback.drain_consumesOnly hf id id
    obtain ⟨-, t, ht, rfl⟩ := Endpoint.step_member.mp hf
    obtain ⟨d, -, rfl⟩ := Sender.step_iff.mp ht
    exact ⟨hsound, hx.committed, hx.small⟩
  | act e =>
    obtain ⟨hother, f, hf, rfl⟩ := step_act.mp hstep
    have hsound := hx.endpoint.step (callbacksBehave_of_other hother) hf hclean.1 hclean.2
    refine ⟨hsound, ?_, hx.small⟩
    exact (step_other hother hf).1.trans hx.committed

/-! ### The receiving side -/

omit [DecidableEq K] in
/-- Draining a buffer that holds whole messages and then less than a header. -/
theorem drain_short_rest (hd : pack.Distinct) {b : LinearBuffer} (hb : b.Consistent)
    {vs : List pack.Variant} (hsizes : ∀ v ∈ vs, pack.sizeOf v ≤ maxPayloadSize) {u : List UInt8}
    (hu : b.unread = (vs.map (pack.frame o)).flatten ++ u) (hshort : u.length < headerSize) :
    received (drain o pack b).1 = vs ∧ (drain o pack b).2.unread = u := by
  obtain ⟨n, b', calls, hconsumes, hu', hvals, -, hdrain⟩ := drain_frames (o := o) hd vs hsizes hb hu
  have hlast : drain o pack b' = ([⟨b', pack.defaultVariant, false, b'⟩], b') := by
    apply drain_short
    rwa [← hconsumes.consistent.unread_length, hu']
  rw [hdrain, hlast, received_append, hvals]
  exact ⟨List.append_nil vs, hu'⟩

omit [DecidableEq K] in
theorem split_arrived {rest : List pack.Variant} {ds : List (List UInt8)} {xs ys : List UInt8}
    (h : xs ++ ys = (rest.map (pack.frame o)).flatten)
    (hcut : Framing.offset (ds ++ rest.map (pack.frame o)) (ds.flatten ++ xs).length <
      headerSize) :
    ∃ vs ws u, rest = vs ++ ws ∧ xs = (vs.map (pack.frame o)).flatten ++ u ∧
      u.length < headerSize := by
  obtain ⟨fs, rs, u, hsplit, hxs, hys, hhead⟩ := Framing.split_prefix _ h
  obtain ⟨vs, ws, rfl, rfl, rfl⟩ := List.map_eq_append_iff.mp hsplit
  refine ⟨vs, ws, u, rfl, hxs, ?_⟩
  rw [hxs, List.map_append, ← List.append_assoc, ← List.append_assoc, ← List.flatten_append,
    List.length_append, Framing.offset_append] at hcut
  rcases ws with _ | ⟨w, ws⟩
  · obtain ⟨rfl, -⟩ := List.append_eq_nil_iff.mp hys
    exact Nat.succ_pos 2
  · rwa [List.map_cons, Framing.offset_of_lt (hhead _ rfl)] at hcut

theorem Agrees.sender_step {e : Event K pack} (h : Agrees o o' x y)
    (hstep : x.step o input e = some z) : Agrees o o' z y := by
  obtain ⟨rest, hrest⟩ := h.decoded
  have hsame : ∀ f : Endpoint K, ∀ e, x.endpoint.step input e = some f →
      y.endpoint.received <+: f.socket.sent :=
    fun f e hf => h.received.trans (Endpoint.sent_prefix_of_step hf)
  cases e with
  | send v =>
    obtain ⟨f, hf, rfl⟩ := step_send.mp hstep
    refine ⟨hsame f _ hf, ?_, h.bytes, h.short⟩
    rcases (serializeVariant o pack v x.endpoint.connection.sendBuffer).1 with _ | _
    · exact ⟨rest, hrest⟩
    · refine ⟨rest ++ [pack.reread o o' v], ?_⟩
      change (x.sent ++ [v]).map _ = _
      rw [List.map_append, hrest, List.append_assoc, List.map_singleton]
  | receive p n error bytes =>
    obtain ⟨f, hf, rfl⟩ := step_receive.mp hstep
    exact ⟨hsame f _ hf, ⟨rest, hrest⟩, h.bytes, h.short⟩
  | act e =>
    obtain ⟨-, f, hf, rfl⟩ := step_act.mp hstep
    exact ⟨hsame f _ hf, ⟨rest, hrest⟩, h.bytes, h.short⟩

/-- A read decodes the messages that it completes. -/
theorem Agrees.receive {p n : ℕ} {error : ErrorCode} {bytes : List UInt8} (hd : pack.Distinct)
    (hx : x.Sound o) (hy : y.Sound o') (h : Agrees o o' x y)
    (hclean : Clean o y x (.receive p n error bytes))
    (hstep : y.step o' x.endpoint.socket.sent (.receive p n error bytes) = some z) :
    Agrees o o' x z := by
  obtain ⟨f, hf, rfl⟩ := step_receive.mp hstep
  have hreceived := Endpoint.received_prefix_of_step h.received hf
  obtain ⟨⟨-, hreads⟩, t, ht, rfl⟩ := Endpoint.step_member.mp hf
  obtain ⟨d, hd', rfl⟩ := Sender.step_iff.mp ht
  have hbuffer := Endpoint.onReceive_receiveBuffer hd'
  rcases herror : error.failed with _ | _
  · obtain ⟨hset, hcut⟩ := hclean.resolve_left (by simp [herror])
    obtain ⟨hlen, io, hio, -⟩ := step_onReceive.mp hd'
    have happ := Endpoint.filled_appends hy.endpoint.receives (finish_eq_some.mp hio).1 hlen
    have hfilled := happ.unread_eq
    obtain ⟨rest, hrest⟩ := h.decoded
    -- the unread bytes are in front of the messages that are not decoded yet
    have hbytes : (y.decoded.map (pack.frame o')).flatten ++ (y.endpoint.filled p bytes).unread =
        y.endpoint.received ++ bytes := by
      rw [hfilled, ← List.append_assoc]
      exact congrArg (· ++ bytes) h.bytes
    obtain ⟨later, hlater⟩ := hreceived.trans hx.endpoint.carries.sent_prefix
    change (y.endpoint.received ++ bytes) ++ later = _ at hlater
    -- in the order of the receiver they are the messages that it reads
    rw [hx.committed, ← TypePack.map_frame_reread o o', hrest, List.map_append,
      List.flatten_append, ← hbytes, List.append_assoc] at hlater
    rw [← TypePack.map_frame_reread o o', hrest, List.map_append, ← hbytes] at hcut
    obtain ⟨vs, ws, u, rfl, hunread, hshort⟩ := split_arrived (List.append_cancel_left hlater) hcut
    have hsizes : ∀ v ∈ vs, pack.sizeOf v ≤ maxPayloadSize := by
      intro v hv
      have hmem : v ∈ x.sent.map (pack.reread o o') := by
        rw [hrest]
        exact List.mem_append_right _ (List.mem_append_left _ hv)
      obtain ⟨w, hw, rfl⟩ := List.mem_map.mp hmem
      exact hx.small w hw
    obtain ⟨hvals, hrest'⟩ := drain_short_rest hd happ.consistent hsizes hunread hshort
    have hunread' : d.receiveBuffer.unread = u := by
      rw [hbuffer, herror, if_neg Bool.false_ne_true, delivered]
      rw [show y.endpoint.sender.connection.dataReceivedCallback = true from hset, if_pos rfl]
      exact hrest'
    have hdecoded : (if !false && y.endpoint.connection.dataReceivedCallback then
        y.decoded ++ Eestv.received (drain o' pack (y.endpoint.filled p bytes)).1
        else y.decoded) =
        y.decoded ++ vs := by
      rw [hset, hvals]
      rfl
    rw [hdecoded]
    refine ⟨hreceived, ⟨ws, hrest.trans (List.append_assoc _ _ _).symm⟩, ?_, ?_⟩
    · change ((y.decoded ++ vs).map _).flatten ++ d.receiveBuffer.unread =
        y.endpoint.received ++ bytes
      rw [hunread', List.map_append, List.flatten_append, List.append_assoc, ← hunread]
      exact hbytes
    · change d.receiveBuffer.unread.length < headerSize
      rwa [hunread']
  · obtain rfl := hreads.2 herror
    have hunread : d.receiveBuffer = y.endpoint.connection.receiveBuffer := by
      rw [hbuffer, herror, if_pos rfl, store_nil]
      rfl
    refine ⟨hreceived, h.decoded, ?_, ?_⟩
    · change _ ++ d.receiveBuffer.unread = y.endpoint.received ++ []
      rw [hunread, List.append_nil]
      exact h.bytes
    · change d.receiveBuffer.unread.length < headerSize
      rw [hunread]
      exact h.short

theorem Agrees.receiver_step {e : Event K pack} (hd : pack.Distinct) (hx : x.Sound o)
    (hy : y.Sound o') (h : Agrees o o' x y) (hclean : Clean o y x e)
    (hstep : y.step o' x.endpoint.socket.sent e = some z) : Agrees o o' x z := by
  cases e with
  | send v =>
    obtain ⟨f, hf, rfl⟩ := step_send.mp hstep
    have hreceived := Endpoint.received_prefix_of_step h.received hf
    obtain ⟨-, t, ht, rfl⟩ := Endpoint.step_member.mp hf
    obtain ⟨d, hd', rfl⟩ := Sender.step_iff.mp ht
    cases hd'
    exact ⟨hreceived, h.decoded, h.bytes, h.short⟩
  | receive p n error bytes => exact h.receive hd hx hy hclean hstep
  | act e =>
    obtain ⟨hother, f, hf, rfl⟩ := step_act.mp hstep
    obtain ⟨-, hreceived, hunread⟩ := step_other hother hf
    refine ⟨Endpoint.received_prefix_of_step h.received hf, h.decoded, ?_, ?_⟩
    · change _ ++ f.connection.receiveBuffer.unread = f.received
      rw [hreceived, hunread]
      exact h.bytes
    · change f.connection.receiveBuffer.unread.length < headerSize
      rw [hunread]
      exact h.short

end Messenger

/-! ### Both sides -/

def messageLink (K : Type) [DecidableEq K] (order : Side → ByteOrder) (pack : TypePack) :
    Nodes Side (Messenger K pack) (ByteOrder × List UInt8) (Messenger.Event K pack) where
  view l side := (order side, (l side.peer).endpoint.socket.sent)
  step seen x e y := x.step seen.1 seen.2 e = some y

variable {K : Type} [DecidableEq K] {order : Side → ByteOrder} {pack : TypePack}

theorem Side.peer_eq_of_ne {side i : Side} (h : side ≠ i) : side.peer = i ∧ i.peer = side := by
  cases side <;> cases i <;> first | exact ⟨rfl, rfl⟩ | exact absurd rfl h

def Messenger.Holds (order : Side → ByteOrder) (l : Side → Messenger K pack) (side : Side) : Prop :=
  (l side).Sound (order side) ∧ Agrees (order side) (order side.peer) (l side) (l side.peer)

theorem holds_of_step (hd : pack.Distinct) {l l' : Side → Messenger K pack}
    {a : Side × Messenger.Event K pack} (hl : ∀ side, Messenger.Holds order l side)
    (hstep : (messageLink K order pack).Step l a l')
    (hclean : Messenger.Clean (order a.1.peer) (l a.1) (l a.1.peer) a.2) (side : Side) :
    Messenger.Holds order l' side := by
  have hself := Nodes.step_self hstep
  rcases eq_or_ne side a.1 with rfl | hne
  · unfold Messenger.Holds
    rw [Nodes.step_other hstep (Side.peer_ne _)]
    exact ⟨(hl _).1.step hclean hself, (hl _).2.sender_step hself⟩
  · obtain ⟨hpeer, hback⟩ := Side.peer_eq_of_ne hne
    obtain ⟨hsound, hagrees⟩ := hl side
    rw [hback] at hclean
    change (l a.1).step (order a.1) (l a.1.peer).endpoint.socket.sent a.2 = some (l' a.1) at hself
    rw [hback] at hself
    unfold Messenger.Holds
    rw [hpeer] at hagrees ⊢
    rw [Nodes.step_other hstep hne]
    exact ⟨hsound, hagrees.receiver_step hd hsound (hl a.1).1 hclean hself⟩

/-- In every run of steps that are all clean the other side has decoded in order exactly the
messages that arrived in full, each as its byte order reads it; what it has not decoded is less than
a header. -/
theorem messages_arrive_in_order (hd : pack.Distinct) (m n : Side → ℕ)
    (as : List (Side × Messenger.Event K pack)) (l : Side → Messenger K pack)
    (h : Run (messageLink K order pack).Step (fun side => .start pack (m side) (n side)) as l)
    (hclean : Each (messageLink K order pack).Step
      (fun l a => Messenger.Clean (order a.1.peer) (l a.1) (l a.1.peer) a.2)
      (fun side => .start pack (m side) (n side)) as) (side : Side) :
    (∃ rest, (l side).sent.map (pack.reread (order side) (order side.peer)) =
        (l side.peer).decoded ++ rest) ∧
      ((l side.peer).decoded.map (pack.frame (order side.peer))).flatten ++ (l side.peer).unread =
        (l side.peer).endpoint.received ∧
      (l side.peer).unread.length < headerSize := by
  have hok : ∀ a ∈ as, (fun _ : Side × Messenger.Event K pack => True) a := fun _ _ => trivial
  have hall : ∀ side, Messenger.Holds order l side :=
    h.of_each (I := fun l => ∀ side, Messenger.Holds order l side)
      (fun _ a _ _ hl hstep hclean side => holds_of_step (a := a) hd hl hstep hclean side) hok hclean
      fun _ => ⟨Messenger.start_sound _ _, Messenger.start_agrees _ _ _ _⟩
  obtain ⟨-, hagrees⟩ := hall side
  exact ⟨hagrees.decoded, hagrees.bytes, hagrees.short⟩

/-- One message, whose header comes in two parts. -/
def splitHeader : List (Side × Messenger.Event ℕ bytePack) :=
  [(.server, .act (.member .startReceiving)),
    (.server, .act (.member (.setDataReceivedCallback true))),
    (.server, .act (.member (.run .startReceiving))), (.client, .send byteSeven),
    (.client, .act (.member .startSending)), (.client, .act (.member (.run .startSending))),
    (.client, .act (.transmit 0 [0, 1, 0, 7] 2)), (.server, .receive 0 8 .success [0, 1]),
    (.client, .act (.transmit 0 [0, 1, 0, 7] 2)), (.server, .receive 2 6 .success [0, 7])]

theorem messages_arrive_in_order_byteSeven : ∃ l : Side → Messenger ℕ bytePack,
    (l .client).sent = [byteSeven] ∧ (l .server).endpoint.received = [0, 1, 0, 7] ∧
    (l .server).decoded = [byteSeven] := by
  obtain ⟨l, hrun, hsent, hreceived⟩ : ∃ l : Side → Messenger ℕ bytePack,
      Run (messageLink ℕ (fun _ => .little) bytePack).Step (fun _ => .start bytePack 8 8) splitHeader l ∧
      (l .client).sent = [byteSeven] ∧ (l .server).endpoint.received = [0, 1, 0, 7] :=
    ⟨_, .cons ⟨_, rfl, rfl⟩ (.cons ⟨_, rfl, rfl⟩ (.cons ⟨_, rfl, rfl⟩ (.cons ⟨_, rfl, rfl⟩
      (.cons ⟨_, rfl, rfl⟩ (.cons ⟨_, rfl, rfl⟩ (.cons ⟨_, rfl, rfl⟩ (.cons ⟨_, rfl, rfl⟩
      (.cons ⟨_, rfl, rfl⟩ (.cons ⟨_, rfl, rfl⟩ (.nil _)))))))))), rfl, rfl⟩
  -- neither read ends behind the header of an incomplete message
  have hpart : Framing.offset ([byteSeven].map (bytePack.frame .little)) 2 < headerSize := by
    decide
  have hdone : Framing.offset ([byteSeven].map (bytePack.frame .little)) 4 < headerSize := by
    decide
  have hclean : Each (messageLink ℕ (fun _ => .little) bytePack).Step
      (fun l a => Messenger.Clean .little (l a.1) (l a.1.peer) a.2)
      (fun _ => .start bytePack 8 8) splitHeader := by
    refine Nodes.each_cons_of_step rfl rfl ⟨?_, id⟩ (Nodes.each_cons_of_step rfl rfl ⟨id, id⟩
      (Nodes.each_cons_of_step rfl rfl ⟨id, id⟩
      (Nodes.each_cons_of_step rfl rfl (Or.inr (by decide))
      (Nodes.each_cons_of_step rfl rfl ⟨id, id⟩ (Nodes.each_cons_of_step rfl rfl ⟨id, id⟩
      (Nodes.each_cons_of_step rfl rfl ⟨id, id⟩
      (Nodes.each_cons_of_step rfl rfl (Or.inr ⟨rfl, hpart⟩)
      (Nodes.each_cons_of_step rfl rfl ⟨id, id⟩
      (Nodes.each_cons_of_step rfl rfl (Or.inr ⟨rfl, hdone⟩) each_nil)))))))))
    rintro ⟨-, p, n, hmem⟩
    cases hmem
  obtain ⟨⟨rest, hrest⟩, hbytes, hshort⟩ :=
    messages_arrive_in_order (by decide) _ _ _ l hrun hclean .client
  dsimp only [Side.peer] at hrest hbytes hshort
  refine ⟨l, hsent, hreceived, ?_⟩
  rw [hsent, List.map_singleton, TypePack.reread_self] at hrest
  rcases List.singleton_eq_append_iff.mp hrest with ⟨hnil, -⟩ | ⟨hone, -⟩
  · rw [hnil, hreceived, List.map_nil, List.flatten_nil, List.nil_append] at hbytes
    rw [hbytes] at hshort
    exact absurd hshort (by decide)
  · exact hone

end Eestv.Net.TcpConnection
