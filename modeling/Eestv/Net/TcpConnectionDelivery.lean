import Eestv.Net.TcpConnectionLink
import Eestv.Net.TcpConnectionWakeups

/-! What was asked to be sent arrives. While a requested byte is missing at the other side, the
loops or the sockets have something to do that brings it closer, and they cannot go on forever. -/

namespace Eestv

namespace BufferCallback

def TakesAll (callback : BufferCallback LinearBuffer) : Prop :=
  callback.ConsumesOnly ∧ ∀ b : LinearBuffer, b.Consistent → (callback.apply b).unread = []

def consumeAll : BufferCallback LinearBuffer where
  apply b := (b.consume b.size).2
  reachable := by
    intro b hb
    exact hb.consume b.size

theorem consumeAll_takesAll : consumeAll.TakesAll := by
  constructor
  · intro b
    exact Relation.ReflTransGen.single ⟨b.size, rfl⟩
  · intro b hb
    have hconsumes := LinearBuffer.consume_consumes hb (Nat.le_refl b.size)
    change (b.consume b.size).2.unread = []
    rw [hconsumes.unread_eq, List.drop_eq_nil_iff, hb.unread_length]

end BufferCallback

namespace Net.TcpConnection
open Runs IoContext LinearBuffer

section Work

variable {R S K : Type} {c : TcpConnection R S K}

theorem asyncSend_posted [IoBuffer S] : c.asyncSend.ioContext.posted = c.ioContext.posted := by
  unfold asyncSend
  split <;> rfl

theorem onSend_of_running [IoBuffer S] {error : ErrorCode} (herror : error.failed = false)
    (hrun : c.flags.getFlag .stopSignaled = false) (n : ℕ) :
    c.onSend error n = ({ c with
      sendBuffer := (IoBuffer.consume c.sendBuffer n).2 } : TcpConnection R S K).asyncSend := by
  have hstop := (Effect.frame_asyncSend (c := ({ c with
    sendBuffer := (IoBuffer.consume c.sendBuffer n).2 } : TcpConnection R S K))).stopSignaled
  unfold onSend
  rw [if_neg (by rw [herror]; exact Bool.false_ne_true)]
  dsimp only at hstop ⊢
  rw [hstop, hrun, Bool.and_false, if_neg Bool.false_ne_true]

theorem work_of_posted {d : TcpConnection R S K} (h : d.ioContext.posted = c.ioContext.posted) :
    d.work .startSending = c.work .startSending := by
  have hnone : ∀ l : List Operation,
      l.countP (fun o => decide (o.flag = some .startSending)) = 0 := by
    intro l
    rw [List.countP_eq_zero]
    intro o _
    cases o <;> simp [Operation.flag]
  simp only [work, IoContext.work, h, hnone]

variable [IoBuffer R] [IoBuffer S] [DecidableEq K] {d : TcpConnection R S K}

theorem run_startSending_work (hstep : c.Step (.run .startSending) d)
    (hrun : c.flags.getFlag .stopSignaled = false) :
    d.work .startSending + 1 = c.work .startSending := by
  obtain ⟨io, hio, rfl⟩ := step_run.mp hstep
  have hwork := c.work_of_take hio .startSending
  rw [if_pos (by rfl)] at hwork
  refine Eq.trans (congrArg (· + 1) ?_) hwork
  change ({ c with ioContext := io } : TcpConnection R S K).onStartSending.work .startSending = _
  rw [onStartSending_of_running (c := { c with ioContext := io }) hrun]
  exact work_of_posted asyncSend_posted

theorem onSend_work_startSending {p n : ℕ} {bytes : List UInt8} {error : ErrorCode}
    (herror : error.failed = false) (hstep : c.Step (.onSend p bytes error n) d)
    (hrun : c.flags.getFlag .stopSignaled = false) :
    d.work .startSending = c.work .startSending := by
  obtain ⟨-, io, hio, rfl⟩ := step_onSend.mp hstep
  have hwork := c.work_of_finish hio .startSending
  rw [if_neg (by simp [Operation.flag])] at hwork
  refine Eq.trans ?_ hwork
  rw [onSend_of_running (c := { c with ioContext := io }) herror hrun n]
  exact work_of_posted asyncSend_posted

end Work

section Reads

variable {S K : Type} [IoBuffer S] [DecidableEq K] {c d : TcpConnection LinearBuffer S K}

omit [DecidableEq K] [IoBuffer S] in
theorem asyncReceive_dataReceivedCallback :
    c.asyncReceive.dataReceivedCallback = c.dataReceivedCallback := by
  unfold asyncReceive
  dsimp only
  split
  · split <;> rfl
  · exact resolveOnStopped_induction (P := fun d => d.dataReceivedCallback = c.dataReceivedCallback)
      rfl fun _ _ _ => rfl

theorem onReceive_reads {p n : ℕ} {error : ErrorCode} {bytes : List UInt8}
    {callback : BufferCallback LinearBuffer} (herror : error.failed = false)
    (hall : callback.TakesAll) (hc : c.Reading) (hrun : c.flags.getFlag .stopSignaled = false)
    (hset : c.dataReceivedCallback = true)
    (hstep : c.Step (.onReceive p n error bytes callback) d) :
    d.dataReceivedCallback = true ∧ ∃ p n, .readSome p n ∈ d.ioContext.operations := by
  obtain ⟨hlen, io, hio, rfl⟩ := step_onReceive.mp hstep
  have hwindow := hc.window p n (finish_eq_some.mp hio).1
  have hconsistent := LinearBuffer.Reachable.consistent hc.reachable
  obtain ⟨hdelivered, hcapacity, -⟩ := delivered_spec (c := c) hconsistent hall.1 hwindow hlen
  obtain ⟨rfl, rfl, hpos⟩ := window_eq hwindow
  rw [onReceive_delivered herror]
  refine ⟨asyncReceive_dataReceivedCallback.trans hset, ?_⟩
  have hempty : (c.delivered c.receiveBuffer.head bytes callback).unread = [] := by
    unfold delivered
    rw [hset]
    exact hall.2 _ (store_commit_appends hconsistent hlen).2.consistent
  have hroom : 0 < (c.delivered c.receiveBuffer.head bytes callback).room := by
    rw [hdelivered.room_of_unread_nil hempty, hcapacity]
    have hle := hconsistent.head_add_room
    omega
  have husable := usable_getWriteHead (c.delivered c.receiveBuffer.head bytes callback)
  rw [if_pos hroom] at husable
  rw [asyncReceive_start (c := { c with
    receiveBuffer := c.delivered c.receiveBuffer.head bytes callback
    ioContext := io }) hrun husable]
  exact ⟨_, _, List.mem_append_right _ List.mem_cons_self⟩

end Reads

namespace Sender

variable {R K : Type} {s : Sender R K} {k : Socket}

theorem Carries.writing (h : s.Carries k)
    (hrun : s.connection.flags.getFlag .stopSignaled = false) : s.Writing k := by
  refine h.stream.resolve_right ?_
  intro hended
  have hstop := hended.stopped
  rw [hrun] at hstop
  cases hstop

end Sender

namespace Endpoint

variable {K : Type} {x y z : Endpoint K} {C : List UInt8} {q : ℕ} {input : List UInt8}

def Event.Sends : Event K → Prop
  | .member (.run h) => h = .startSending
  | .member (.onSend _ _ error _) => error.failed = false
  | .transmit _ _ n => 0 < n
  | _ => False

/-- A read that ends with bytes, all of which the callback takes. -/
def Event.Delivers : Event K → Prop
  | .member (.onReceive _ _ error bytes callback) =>
    error.failed = false ∧ bytes ≠ [] ∧ callback.TakesAll
  | _ => False

/-- `x` is sending `C`, of which `q` bytes were requested, to `y`, which reads. -/
structure Pending (C : List UInt8) (q : ℕ) (x y : Endpoint K) : Prop where
  carries : x.sender.Carries x.socket
  requested : x.sender.Requested
  committed_eq : x.sender.committed = C
  requested_eq : x.sender.requested = q
  peer : y.Receives
  received : y.received <+: x.socket.sent
  running : y.connection.flags.getFlag .stopSignaled = false
  callback : y.connection.dataReceivedCallback = true
  reads : ∃ p n, .readSome p n ∈ y.connection.ioContext.operations

def remaining (x y : Endpoint K) : ℕ :=
  (x.sender.committed.length - x.socket.sent.length) +
    (x.sender.committed.length - y.received.length) +
    (x.sender.committed.length - x.sender.acknowledged.length) +
    x.connection.work .startSending

namespace Pending

theorem writing (h : Pending C q x y) : x.sender.Writing x.socket :=
  h.carries.writing h.requested.running

theorem acknowledged_le (h : Pending C q x y) :
    x.sender.acknowledged.length ≤ x.socket.sent.length :=
  h.carries.acknowledged_prefix.length_le

theorem sent_le (h : Pending C q x y) : x.socket.sent.length ≤ x.sender.committed.length :=
  h.carries.sent_prefix.length_le

theorem sent_length (h : Pending C q x y) :
    x.socket.sent.length = x.sender.acknowledged.length + x.socket.taken :=
  h.writing.sent_length h.carries.sending

theorem remaining_le (h : Pending C q x y) : x.remaining y ≤ 3 * C.length + 1 := by
  have hwork : x.connection.work .startSending ≤ 1 :=
    h.carries.sending.tracked.mirrors.work_le_one (by decide)
  have hc := congrArg List.length h.committed_eq
  unfold remaining
  omega

variable [DecidableEq K]

theorem next {e : Event K} (he : e.Sends) (h : Pending C q x y)
    (hstep : x.step input e = some z) (hrequested : z.sender.Requested)
    (hsame : z.sender.committed = x.sender.committed ∧ z.sender.requested = x.sender.requested) :
    Pending C q z y := by
  have hbehaves : e.CallbacksBehave := by
    cases e with
    | transmit p bytes n => trivial
    | member e => cases e <;> trivial
  have htears : ¬ x.TearsWrite e := by
    cases e with
    | transmit p bytes n => exact id
    | member e =>
      cases e with
      | onSend p bytes error n =>
        rintro ⟨hfailed, -⟩
        exact absurd hfailed (Bool.eq_false_iff.mp he)
      | _ => exact id
  exact ⟨carries_of_step hbehaves h.carries hstep htears, hrequested,
    hsame.1.trans h.committed_eq, hsame.2.trans h.requested_eq, h.peer,
    h.received.trans (sent_prefix_of_step hstep), h.running, h.callback, h.reads⟩

theorem transmit {p n : ℕ} {bytes : List UInt8} (hn : 0 < n) (h : Pending C q x y)
    (hstep : x.step input (.transmit p bytes n) = some z) :
    Pending C q z y ∧ z.remaining y < x.remaining y := by
  have hz := hstep
  obtain ⟨k, hk, rfl⟩ := step_transmit.mp hz
  have heq := (Option.ite_none_right_eq_some.mp hk).2
  have htaken : k.taken = x.socket.taken + n := by
    cases heq
    rfl
  have hz := h.next (e := .transmit p bytes n) hn hstep h.requested ⟨rfl, rfl⟩
  have hsent := h.sent_length
  have hsent' := hz.sent_length
  have hle := hz.sent_le
  refine ⟨hz, ?_⟩
  simp only [remaining, connection]
  dsimp only at hsent' hle
  omega

theorem startSending (h : Pending C q x y)
    (hstep : x.step input (.member (.run .startSending)) = some z) :
    Pending C q z y ∧ z.remaining y < x.remaining y := by
  have hz := hstep
  obtain ⟨-, t, ht, rfl⟩ := step_member.mp hz
  have hrequested := h.requested.step (e := .run .startSending) ⟨trivial, trivial⟩ ht
  obtain ⟨d, hd, rfl⟩ := Sender.step_iff.mp ht
  refine ⟨h.next (e := .member (.run .startSending)) rfl hstep hrequested ⟨rfl, rfl⟩, ?_⟩
  have hwork := run_startSending_work hd h.requested.running
  change (_ - _) + (_ - _) + (_ - _) + d.work .startSending < _
  exact Nat.add_lt_add_left (Nat.lt_of_lt_of_eq (Nat.lt_succ_self _) hwork) _

theorem onSend {p n : ℕ} {bytes : List UInt8} {error : ErrorCode} (herror : error.failed = false)
    (h : Pending C q x y) (hstep : x.step input (.member (.onSend p bytes error n)) = some z) :
    Pending C q z y ∧ z.remaining y < x.remaining y := by
  have hz := hstep
  obtain ⟨-, t, ht, rfl⟩ := step_member.mp hz
  have hrequested := h.requested.step (e := .onSend p bytes error n) ⟨herror, herror⟩ ht
  obtain ⟨d, hd, rfl⟩ := Sender.step_iff.mp ht
  have hz := h.next (e := .member (.onSend p bytes error n)) herror hstep hrequested ⟨rfl, rfl⟩
  refine ⟨hz, ?_⟩
  have hpos : 0 < bytes.length := by
    obtain ⟨-, io, hio, -⟩ := step_onSend.mp hd
    have hmem := (finish_eq_some.mp hio).1
    exact List.length_pos_iff.mpr (h.carries.sending.front p bytes hmem).2.1
  have hle : (if error.failed then x.sender.acknowledged
      else x.sender.acknowledged ++ bytes).length ≤ x.socket.sent.length := hz.acknowledged_le
  have hle' := h.sent_le
  have hwork : d.work .startSending = x.sender.connection.work .startSending :=
    onSend_work_startSending herror hd h.requested.running
  change (x.sender.committed.length - x.socket.sent.length) +
    (x.sender.committed.length - y.received.length) +
    (x.sender.committed.length - (if error.failed then x.sender.acknowledged
      else x.sender.acknowledged ++ bytes).length) + d.work .startSending < _
  rw [herror, if_neg Bool.false_ne_true, List.length_append] at hle ⊢
  rw [hwork, remaining, connection]
  omega

theorem sends {e : Event K} (he : e.Sends) (h : Pending C q x y)
    (hstep : x.step input e = some z) : Pending C q z y ∧ z.remaining y < x.remaining y := by
  cases e with
  | transmit p bytes n => exact h.transmit he hstep
  | member e =>
    cases e with
    | run a =>
      obtain rfl : a = .startSending := he
      exact h.startSending hstep
    | onSend p bytes error n => exact h.onSend he hstep
    | _ => exact he.elim

theorem delivers {e : Event K} (he : e.Delivers) (h : Pending C q x y)
    (hstep : y.step x.socket.sent e = some z) :
    Pending C q x z ∧ x.remaining z < x.remaining y := by
  have hreceived := received_prefix_of_step h.received hstep
  cases e with
  | transmit p bytes n => exact he.elim
  | member e =>
    cases e with
    | onReceive p n error bytes callback =>
      obtain ⟨herror, hne, hall⟩ := he
      have hpeer := h.peer.step (e := .member (.onReceive p n error bytes callback)) hall.1 hstep id
      obtain ⟨-, t, ht, rfl⟩ := step_member.mp hstep
      obtain ⟨d, hd, rfl⟩ := Sender.step_iff.mp ht
      obtain ⟨hset, hreads⟩ := onReceive_reads herror hall h.peer.reading h.running h.callback hd
      have hrunning := step_running (e := .onReceive p n error bytes callback) ⟨herror, hall.1⟩ hd
        h.running
      refine ⟨⟨h.carries, h.requested, h.committed_eq, h.requested_eq, hpeer, hreceived, hrunning,
        hset, hreads⟩, ?_⟩
      have hpos := List.length_pos_iff.mpr hne
      have hle : (y.received ++ bytes).length ≤ x.sender.committed.length :=
        (hreceived.trans h.carries.sent_prefix).length_le
      change _ + (x.sender.committed.length - (y.received ++ bytes).length) + _ + _ < _
      rw [List.length_append] at hle ⊢
      rw [remaining]
      omega
    | _ => exact he.elim

theorem delivers_enabled (h : Pending C q x y) (hne : y.received ≠ x.socket.sent) :
    ∃ e z, Event.Delivers e ∧ y.step x.socket.sent e = some z := by
  obtain ⟨rest, hrest⟩ := h.received
  obtain ⟨p, n, hmem⟩ := h.reads
  obtain ⟨-, hn, hpos⟩ := window_eq (h.peer.reading.window p n hmem)
  have hsome : rest.take n ≠ [] := by
    intro hnil
    rcases List.take_eq_nil_iff.mp hnil with hzero | hrest'
    · omega
    · rw [hrest', List.append_nil] at hrest
      exact hne hrest
  have hstep : y.connection.Step (.onReceive p n .success (rest.take n) .consumeAll) _ :=
    step_onReceive.mpr ⟨List.length_take_le _ _, _, finish_eq_some.mpr ⟨hmem, rfl⟩, rfl⟩
  refine ⟨.member (.onReceive p n .success (rest.take n) .consumeAll), _,
    ⟨rfl, hsome, BufferCallback.consumeAll_takesAll⟩,
    step_member.mpr ⟨⟨trivial, ?_, nofun⟩, _, Sender.step_iff.mpr ⟨_, hstep, rfl⟩, rfl⟩⟩
  rw [← hrest, List.drop_left]
  exact List.take_prefix _ _

theorem sends_enabled (h : Pending C q x y) (hawake : x.connection.Awake) (input : List UInt8) :
    ∃ e z, Event.Sends e ∧ x.step input e = some z := by
  rcases h.carries.sending.tracked.sendsOn hawake with ⟨-, hmem⟩ | ⟨-, p, bytes, hmem⟩
  · have hstep : x.connection.Step (.run .startSending) _ :=
      step_run.mpr ⟨_, take_eq_some.mpr ⟨hmem, rfl⟩, rfl⟩
    exact ⟨.member (.run .startSending), _, rfl,
      step_member.mpr ⟨⟨trivial, trivial⟩, _, Sender.step_iff.mpr ⟨_, hstep, rfl⟩, rfl⟩⟩
  · rcases Nat.lt_or_eq_of_le (h.writing.taken_le p bytes hmem) with hlt | heq
    · have htake : x.socket.transmit x.connection p bytes 1 = some _ :=
        if_pos ⟨hmem, hlt⟩
      exact ⟨.transmit p bytes 1, _, Nat.one_pos, step_transmit.mpr ⟨_, htake, rfl⟩⟩
    · have hstep : x.connection.Step (.onSend p bytes .success bytes.length) _ :=
        step_onSend.mpr ⟨Or.inr rfl, _, finish_eq_some.mpr ⟨hmem, rfl⟩, rfl⟩
      exact ⟨.member (.onSend p bytes .success bytes.length), _, rfl,
        step_member.mpr ⟨⟨Or.inr heq, trivial⟩, _, Sender.step_iff.mpr ⟨_, hstep, rfl⟩, rfl⟩⟩

/-- As long as requested bytes are missing, one of the two sides can go on. -/
theorem enabled (h : Pending C q x y) (input : List UInt8) : C.take q <+: y.received ∨
    (∃ e z, Event.Sends e ∧ x.step input e = some z) ∨
    ∃ e z, Event.Delivers e ∧ y.step x.socket.sent e = some z := by
  rcases eq_or_ne y.received x.socket.sent with heq | hne
  · rcases Nat.lt_or_ge x.sender.acknowledged.length x.sender.requested with hlt | hge
    · exact Or.inr (Or.inl (h.sends_enabled (h.requested.awake hlt) input))
    · left
      rw [heq, ← h.requested_eq, ← h.committed_eq]
      refine List.IsPrefix.trans ?_ h.carries.acknowledged_prefix
      rw [← h.carries.sending.conserved, List.take_append_of_le_length hge]
      exact List.take_prefix _ _
  · exact Or.inr (Or.inr (h.delivers_enabled hne))

end Pending
end Endpoint

/-! ### From one side to the other -/

variable {K : Type} [DecidableEq K] {l l' : Side → Endpoint K} {side : Side} {C : List UInt8}
  {q : ℕ}

/-- What the loops and the sockets do by themselves for the bytes that `side` sends. -/
def Carrying (side : Side) (a : Side × Endpoint.Event K) : Prop :=
  a.1 = side ∧ a.2.Sends ∨ a.1 = side.peer ∧ a.2.Delivers

def Endpoint.Event.Undisturbed : Endpoint.Event K → Prop
  | .member e => e.Undisturbed
  | .transmit _ _ _ => True

theorem pending_of_carrying {a : Side × Endpoint.Event K} (ha : Carrying side a)
    (h : (l side).Pending C q (l side.peer)) (hstep : (link K).Step l a l') :
    (l' side).Pending C q (l' side.peer) ∧
      (l' side).remaining (l' side.peer) < (l side).remaining (l side.peer) := by
  obtain ⟨i, e⟩ := a
  rcases ha with ⟨rfl, he⟩ | ⟨rfl, he⟩
  · rw [Nodes.step_other hstep (Side.peer_ne i)]
    exact h.sends he (Nodes.step_self hstep)
  · rw [Nodes.step_other hstep (Side.peer_ne side).symm]
    refine h.delivers he ?_
    have hself := Nodes.step_self hstep
    cases side <;> exact hself

theorem carrying_enabled (h : (l side).Pending C q (l side.peer)) :
    C.take q <+: (l side.peer).received ∨ ∃ a l', Carrying side a ∧ (link K).Step l a l' := by
  rcases h.enabled (l side.peer).socket.sent with hdone | ⟨e, z, he, hstep⟩ | ⟨e, z, he, hstep⟩
  · exact Or.inl hdone
  · exact Or.inr ⟨(side, e), _, Or.inl ⟨rfl, he⟩, z, hstep, rfl⟩
  · refine Or.inr ⟨(side.peer, e), _, Or.inr ⟨rfl, he⟩, z, ?_, rfl⟩
    cases side <;> exact hstep

namespace Endpoint

def Undisturbed (x : Endpoint K) : Prop := x.sender.Carries x.socket ∧ x.sender.Requested

omit [DecidableEq K] in
theorem start_undisturbed (m n : ℕ) : (start m n : Endpoint K).Undisturbed := by
  refine ⟨Sender.start_carries m n, Sender.start_sending m n, Flags.getFlag_empty _,
    Nat.zero_le _, ?_⟩
  intro hlt
  cases hlt

theorem Undisturbed.step {x y : Endpoint K} {e : Endpoint.Event K}
    (he : e.Undisturbed ∧ e.CallbacksBehave) (hx : x.Undisturbed) (hstep : (link K).Local x e y) :
    y.Undisturbed := by
  obtain ⟨input, hstep⟩ := hstep
  cases e with
  | transmit p bytes n =>
    have hcarries := carries_of_step he.2 hx.1 hstep id
    obtain ⟨k, -, rfl⟩ := step_transmit.mp hstep
    exact ⟨hcarries, hx.2⟩
  | member e =>
    have htears : ¬ x.TearsWrite (.member e) := by
      cases e with
      | onSend p bytes error n =>
        rintro ⟨hfailed, -⟩
        exact absurd hfailed (Bool.eq_false_iff.mp he.1)
      | _ => exact id
    have hcarries := carries_of_step he.2 hx.1 hstep htears
    obtain ⟨-, t, ht, rfl⟩ := step_member.mp hstep
    have horders : e.Orders := by
      cases e with
      | callQueueSendFunction callback => exact he.2
      | onSend p bytes error n => exact he.1
      | _ => trivial
    have hrequested := hx.2.step ⟨he.1, horders⟩ ht
    cases e <;> exact ⟨hcarries, hrequested⟩

end Endpoint

section Runs

variable {m n : Side → ℕ} {as : List (Side × Endpoint.Event K)}

theorem undisturbed_of_run
    (h : Run (link K).Step (fun side => .start (m side) (n side)) as l)
    (hcallbacks : ∀ a ∈ as, a.2.CallbacksBehave)
    (hside : ∀ a ∈ as, a.1 = side → a.2.Undisturbed) : (l side).Undisturbed := by
  refine (Nodes.local_of_run h side).invariant_of_forall (I := Endpoint.Undisturbed)
    (fun _ _ _ he hx hstep => hx.step he hstep) ?_ (Endpoint.start_undisturbed _ _)
  intro e he
  obtain ⟨a, ha, rfl⟩ := List.mem_map.mp he
  obtain ⟨hmem, hfrom⟩ := List.mem_filter.mp ha
  exact ⟨hside a hmem (of_decide_eq_true hfrom), hcallbacks a hmem⟩

end Runs

/-- In every run in which callbacks behave, no side starts a second read, and `side` is not stopped
and has no write that fails: when the other side is not stopped either, has its callback set and a
read outstanding, then its loop and those of the sockets, as long as the callback takes all, can go
on until every byte for which `start_sending` was called has arrived, and they do not go on for
long. -/
theorem requested_bytes_arrive (m n : Side → ℕ) (as bs : List (Side × Endpoint.Event K))
    (l l' : Side → Endpoint K) (side : Side)
    (h : Run (link K).Step (fun side => .start (m side) (n side)) as l)
    (hcallbacks : ∀ a ∈ as, a.2.CallbacksBehave)
    (hreads : Each (link K).Step (fun l a => ¬ (l a.1).StartsSecondRead a.2)
      (fun side => .start (m side) (n side)) as)
    (hside : ∀ a ∈ as, a.1 = side → a.2.Undisturbed)
    (hrun : (l side.peer).connection.flags.getFlag .stopSignaled = false)
    (hset : (l side.peer).connection.dataReceivedCallback = true)
    (hread : ∃ p k, .readSome p k ∈ (l side.peer).connection.ioContext.operations)
    (h' : Run (link K).Step l bs l') (hbs : ∀ a ∈ bs, Carrying side a) :
    bs.length ≤ 3 * (l side).sender.committed.length + 1 ∧
      ((l side).sender.committed.take (l side).sender.requested <+: (l' side.peer).received ∨
        ∃ a l'', Carrying side a ∧ (link K).Step l' a l'') := by
  obtain ⟨hcarries, hrequested⟩ := undisturbed_of_run h hcallbacks hside
  have hpending : (l side).Pending (l side).sender.committed (l side).sender.requested
      (l side.peer) :=
    ⟨hcarries, hrequested, rfl, rfl, receives_of_run h hcallbacks hreads _,
      received_prefix_of_run h side, hrun, hset, hread⟩
  have hlast := h'.invariant_of_forall
    (I := fun k => (k side).Pending (l side).sender.committed (l side).sender.requested
      (k side.peer))
    (fun _ _ _ ha hl hstep => (pending_of_carrying ha hl hstep).1) hbs hpending
  have hlength := h'.length_add_le
    (I := fun k => (k side).Pending (l side).sender.committed (l side).sender.requested
      (k side.peer)) (fun k => (k side).remaining (k side.peer))
    (fun _ _ _ ha hl hstep => pending_of_carrying ha hl hstep) hbs hpending
  refine ⟨?_, carrying_enabled hlast⟩
  exact Nat.le_trans (Nat.le_of_add_right_le hlength) hpending.remaining_le

theorem requested_bytes_arrive_two_bytes : ∃ l : Side → Endpoint ℕ,
    (l .client).sender.requested = 2 ∧ (l .server).received = [] ∧
    ∃ a l', Carrying .client a ∧ (link ℕ).Step l a l' := by
  obtain ⟨l, l', hrun, hrun', hstop, hset, hread, hrequested, hbefore, hcommitted, hreceived⟩ :
      ∃ l l' : Side → Endpoint ℕ, Run (link ℕ).Step (fun _ => .start 4 4)
        [(.server, .member .startReceiving), (.server, .member (.setDataReceivedCallback true)),
          (.server, .member (.run .startReceiving)),
          (.client, .member (.callQueueSendFunction (.write [1, 2]))),
          (.client, .member .startSending)] l ∧
      Run (link ℕ).Step l [(.client, .member (.run .startSending))] l' ∧
      (l .server).connection.flags.getFlag .stopSignaled = false ∧
      (l .server).connection.dataReceivedCallback = true ∧
      .readSome 0 4 ∈ (l .server).connection.ioContext.operations ∧
      (l' .client).sender.requested = 2 ∧ (l .client).sender.requested = 2 ∧
      (l .client).sender.committed = [1, 2] ∧ (l' .server).received = [] :=
    ⟨_, _, .cons ⟨_, rfl, rfl⟩ (.cons ⟨_, rfl, rfl⟩ (.cons ⟨_, rfl, rfl⟩ (.cons ⟨_, rfl, rfl⟩
      (.cons ⟨_, rfl, rfl⟩ (.nil _))))), .single ⟨_, rfl, rfl⟩, rfl, rfl, List.mem_cons_self, rfl,
      rfl, rfl, rfl⟩
  have harrive := requested_bytes_arrive _ _ _ _ l l' .client hrun ?_ ?_ ?_ hstop hset
    ⟨0, 4, hread⟩ hrun' ?_
  · refine ⟨l', hrequested, hreceived, harrive.2.resolve_left ?_⟩
    change ¬ (l .client).sender.committed.take (l .client).sender.requested <+:
      (l' .server).received
    rw [hcommitted, hbefore, hreceived]
    decide
  · simp [Endpoint.Event.CallbacksBehave, Event.CallbacksBehave, BufferCallback.write_queuesOnly]
  · rw [each_cons]
    refine fun _ _ => ⟨?_, each_of_forall ?_⟩
    · rintro ⟨-, p, n, hmem⟩
      cases hmem
    · simp [Endpoint.StartsSecondRead, StartsSecondRead]
  · simp [Endpoint.Event.Undisturbed, Event.Undisturbed]
  · simp [Carrying, Endpoint.Event.Sends]

end Net.TcpConnection
end Eestv
