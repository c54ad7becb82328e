import Eestv.Library.Nodes
import Eestv.Net.TcpConnectionFlow
import Eestv.Net.TcpConnectionSocket

/-! Two connections and the TCP streams between them. A read delivers what comes next on the
stream of the other side, in portions of any size; steps of the two sides and of their sockets
come in any order. -/

namespace Eestv.Net.TcpConnection
open Runs IoContext LinearBuffer

/-- A connection with its socket and what went through both. -/
structure Endpoint (K : Type) where
  sender : Sender LinearBuffer K
  socket : Socket
  received : List UInt8
  /-- What of it was taken out of the receive buffer. -/
  consumed : List UInt8

/-- Callbacks that only queue, and only take out. -/
def Event.CallbacksBehave {K : Type} : Event LinearBuffer LinearBuffer K → Prop
  | .callQueueSendFunction callback => callback.QueuesOnly
  | .onReceive _ _ _ _ callback => callback.ConsumesOnly
  | _ => True

def Event.endsRead {R S K : Type} [IoBuffer R] [IoBuffer S] : Event R S K → Bool
  | .onReceive _ _ _ _ _ => true
  | _ => false

namespace Endpoint

variable {K : Type} {x y : Endpoint K} {input : List UInt8}

inductive Event (K : Type)
  | member (e : TcpConnection.Event LinearBuffer LinearBuffer K)
  | transmit (p : ℕ) (bytes : List UInt8) (n : ℕ)

def Event.CallbacksBehave : Event K → Prop
  | .member e => e.CallbacksBehave
  | .transmit _ _ _ => True

def connection (x : Endpoint K) : TcpConnection LinearBuffer LinearBuffer K := x.sender.connection

def start (receiveBufferSize sendBufferSize : ℕ) : Endpoint K :=
  ⟨.start receiveBufferSize sendBufferSize, {}, [], []⟩

def Reads (x : Endpoint K) (input : List UInt8) :
    TcpConnection.Event LinearBuffer LinearBuffer K → Prop
  | .onReceive _ _ error bytes _ =>
    bytes <+: input.drop x.received.length ∧ (error.failed = true → bytes = [])
  | _ => True

instance (x : Endpoint K) (input : List UInt8) :
    (e : TcpConnection.Event LinearBuffer LinearBuffer K) → Decidable (x.Reads input e)
  | .onReceive _ _ error bytes _ => inferInstanceAs
    (Decidable (bytes <+: input.drop x.received.length ∧ (error.failed = true → bytes = [])))
  | .setConnectionLostCallback _ => .isTrue trivial
  | .setDataReceivedCallback _ => .isTrue trivial
  | .callQueueSendFunction _ => .isTrue trivial
  | .startSending => .isTrue trivial
  | .startReceiving => .isTrue trivial
  | .asyncStop _ _ => .isTrue trivial
  | .run _ => .isTrue trivial
  | .onSend _ _ _ _ => .isTrue trivial

def filled (x : Endpoint K) (p : ℕ) (bytes : List UInt8) : LinearBuffer :=
  ((x.connection.receiveBuffer.store p bytes).commit bytes.length).2

def record (x : Endpoint K) (t : Sender LinearBuffer K) :
    TcpConnection.Event LinearBuffer LinearBuffer K → Endpoint K
  | .onReceive p _ _ bytes _ =>
    let unread := (x.filled p bytes).unread
    { x with
      sender := t
      received := x.received ++ bytes
      consumed := x.consumed ++
        unread.take (unread.length - t.connection.receiveBuffer.unread.length) }
  | e => { x with sender := t, socket := x.socket.after e }

def step [DecidableEq K] (input : List UInt8) (x : Endpoint K) : Event K → Option (Endpoint K)
  | .member e =>
    if x.socket.Permits e ∧ x.Reads input e then (x.sender.step e).map fun t => x.record t e
    else none
  | .transmit p bytes n =>
    (x.socket.transmit x.connection p bytes n).map fun k => { x with socket := k }

def StartsSecondRead (x : Endpoint K) : Event K → Prop
  | .member e => x.connection.StartsSecondRead e
  | .transmit _ _ _ => False

/-- A write fails without a stop with a part of it on the stream. -/
def TearsWrite (x : Endpoint K) : Event K → Prop
  | .member e => x.socket.Tears x.connection e
  | .transmit _ _ _ => False

/-- The invariant of an end that reads. -/
structure Receives (x : Endpoint K) : Prop where
  reading : x.connection.Reading
  conserved : x.consumed ++ x.connection.receiveBuffer.unread = x.received

structure Sound (x : Endpoint K) : Prop where
  receives : x.Receives
  carries : x.sender.Carries x.socket

theorem start_receives (m n : ℕ) : (start m n : Endpoint K).Receives :=
  ⟨new_reading m n, new_unread m⟩

theorem start_sound (m n : ℕ) : (start m n : Endpoint K).Sound :=
  ⟨start_receives m n, Sender.start_carries m n⟩

variable [DecidableEq K]

theorem step_member {e : TcpConnection.Event LinearBuffer LinearBuffer K} :
    x.step input (.member e) = some y ↔
      (x.socket.Permits e ∧ x.Reads input e) ∧ ∃ t, x.sender.Step e t ∧ x.record t e = y :=
  Option.ite_none_right_eq_some.trans (and_congr_right fun _ => Option.map_eq_some_iff)

theorem step_transmit {p n : ℕ} {bytes : List UInt8} :
    x.step input (.transmit p bytes n) = some y ↔
      ∃ k, x.socket.transmit x.connection p bytes n = some k ∧ { x with socket := k } = y :=
  Option.map_eq_some_iff

theorem sent_prefix_of_step {e : Event K} (hstep : x.step input e = some y) :
    x.socket.sent <+: y.socket.sent := by
  cases e with
  | member e =>
    obtain ⟨-, t, -, rfl⟩ := step_member.mp hstep
    cases e <;> exact List.prefix_rfl
  | transmit p bytes n =>
    obtain ⟨k, hk, rfl⟩ := step_transmit.mp hstep
    obtain ⟨-, heq⟩ := Option.ite_none_right_eq_some.mp hk
    cases heq
    exact List.prefix_append _ _

theorem received_prefix_of_step {e : Event K} (hx : x.received <+: input)
    (hstep : x.step input e = some y) : y.received <+: input := by
  cases e with
  | member e =>
    obtain ⟨⟨-, hreads⟩, t, -, rfl⟩ := step_member.mp hstep
    cases e with
    | onReceive p n error bytes callback =>
      obtain ⟨rest, rfl⟩ := hx
      have hfront := hreads.1
      rw [List.drop_left] at hfront
      exact (List.prefix_append_right_inj _).mpr hfront
    | _ => exact hx
  | transmit p bytes n =>
    obtain ⟨k, -, rfl⟩ := step_transmit.mp hstep
    exact hx

omit [DecidableEq K] in
theorem asyncReceive_receiveBuffer (c : TcpConnection LinearBuffer LinearBuffer K) :
    c.asyncReceive.receiveBuffer = c.receiveBuffer := by
  unfold asyncReceive
  dsimp only
  split
  · split <;> rfl
  · exact resolveOnStopped_induction (P := fun d => d.receiveBuffer = c.receiveBuffer) rfl
      fun _ _ _ => rfl

omit [DecidableEq K] in
theorem onFailure_receiveBuffer (c : TcpConnection LinearBuffer LinearBuffer K) :
    (c.onFailure .receiving).receiveBuffer = c.receiveBuffer :=
  (ReceiveFrame.onFailure (by decide)).buffer

theorem step_receiveBuffer {c d : TcpConnection LinearBuffer LinearBuffer K}
    {e : TcpConnection.Event LinearBuffer LinearBuffer K} (he : e.endsRead = false)
    (hd : c.Step e d) : d.receiveBuffer = c.receiveBuffer := by
  rcases hreceives : e.receives with _ | _
  · exact (step_receiveFrame hreceives hd).buffer
  · cases e with
    | startReceiving =>
      cases hd
      unfold startReceiving
      split <;> rfl
    | run a =>
      obtain ⟨io, -, rfl⟩ := step_run.mp hd
      cases a with
      | startReceiving => exact asyncReceive_receiveBuffer _
      | _ => cases hreceives
    | onReceive p n error bytes callback => cases he
    | _ => cases hreceives

theorem onReceive_receiveBuffer {c d : TcpConnection LinearBuffer LinearBuffer K} {p n : ℕ}
    {error : ErrorCode} {bytes : List UInt8} {callback : BufferCallback LinearBuffer}
    (hd : c.Step (.onReceive p n error bytes callback) d) :
    d.receiveBuffer =
      if error.failed then c.receiveBuffer.store p bytes else c.delivered p bytes callback := by
  obtain ⟨-, io, -, rfl⟩ := step_onReceive.mp hd
  rcases herror : error.failed with _ | _
  · rw [onReceive_delivered herror, asyncReceive_receiveBuffer, if_neg Bool.false_ne_true]
  · rw [onReceive, if_pos herror, onFailure_receiveBuffer, if_pos rfl]
    rfl

omit [DecidableEq K] in
theorem filled_appends {p n : ℕ} {bytes : List UInt8} (hx : x.Receives)
    (hmem : .readSome p n ∈ x.connection.ioContext.operations) (hlen : bytes.length ≤ n) :
    x.connection.receiveBuffer.Appends bytes (x.filled p bytes) := by
  obtain ⟨rfl, rfl, -⟩ := window_eq (hx.reading.window p n hmem)
  exact (store_commit_appends (LinearBuffer.Reachable.consistent hx.reading.reachable) hlen).2

theorem onReceive_consumes {p n : ℕ} {error : ErrorCode} {bytes : List UInt8}
    {callback : BufferCallback LinearBuffer} {d : TcpConnection LinearBuffer LinearBuffer K}
    (hcallback : callback.ConsumesOnly) (hx : x.Receives)
    (hfailed : error.failed = true → bytes = [])
    (hd : x.connection.Step (.onReceive p n error bytes callback) d) :
    x.connection.receiveBuffer.Appends bytes (x.filled p bytes) ∧
      ∃ k, (x.filled p bytes).Consumes k d.receiveBuffer := by
  obtain ⟨hlen, io, hio, -⟩ := step_onReceive.mp hd
  have happ := filled_appends hx (finish_eq_some.mp hio).1 hlen
  refine ⟨happ, ?_⟩
  rw [onReceive_receiveBuffer hd]
  rcases herror : error.failed with _ | _
  · rw [if_neg Bool.false_ne_true]
    unfold delivered
    dsimp only
    split
    · exact hcallback.consumes happ.consistent
    · exact ⟨0, Consumes.refl happ.consistent⟩
  · obtain rfl := hfailed herror
    have hsame : x.filled p [] = x.connection.receiveBuffer := by
      simp [filled, commit]
    rw [if_pos rfl, store_nil, ← hsame]
    exact ⟨0, Consumes.refl happ.consistent⟩

theorem Receives.step {e : Event K} (he : e.CallbacksBehave) (hx : x.Receives)
    (hstep : x.step input e = some y) (hread : ¬ x.StartsSecondRead e) : y.Receives := by
  cases e with
  | transmit p bytes n =>
    obtain ⟨k, -, rfl⟩ := step_transmit.mp hstep
    exact ⟨hx.reading, hx.conserved⟩
  | member e =>
    obtain ⟨⟨-, hreads⟩, t, ht, rfl⟩ := step_member.mp hstep
    obtain ⟨d, hd, rfl⟩ := Sender.step_iff.mp ht
    have hreading := hx.reading.step hd hread
    have hconnection : (x.sender.record d e).connection = d := by
      cases e <;> rfl
    rcases hends : e.endsRead with _ | _
    · have hrecord : x.record (x.sender.record d e) e =
          { x with
            sender := x.sender.record d e
            socket := x.socket.after e } := by
        cases e <;> first | rfl | cases hends
      rw [hrecord]
      refine ⟨?_, ?_⟩
      · change (x.sender.record d e).connection.Reading
        rwa [hconnection]
      · change x.consumed ++ (x.sender.record d e).connection.receiveBuffer.unread = x.received
        rw [hconnection, step_receiveBuffer hends hd]
        exact hx.conserved
    · cases e with
      | onReceive p n error bytes callback =>
        refine ⟨hreading, ?_⟩
        obtain ⟨happ, k, hk⟩ := onReceive_consumes he hx hreads.2 hd
        have htaken : (x.filled p bytes).unread.length - d.receiveBuffer.unread.length = k := by
          have hle := hk.le_size
          rw [hk.consistent.unread_length, hk.size_eq happ.consistent,
            happ.consistent.unread_length]
          omega
        change (x.consumed ++ (x.filled p bytes).unread.take
          ((x.filled p bytes).unread.length - d.receiveBuffer.unread.length)) ++
            d.receiveBuffer.unread = x.received ++ bytes
        rw [htaken, hk.unread_eq, List.append_assoc, List.take_append_drop, happ.unread_eq,
          ← List.append_assoc, hx.conserved]
      | _ => cases hends

theorem carries_of_step {e : Event K} (he : e.CallbacksBehave) (hx : x.sender.Carries x.socket)
    (hstep : x.step input e = some y) (htears : ¬ x.TearsWrite e) :
    y.sender.Carries y.socket := by
  cases e with
  | transmit p bytes n =>
    obtain ⟨k, hk, rfl⟩ := step_transmit.mp hstep
    exact hx.transmit hk
  | member e =>
    obtain ⟨⟨hpermits, -⟩, t, ht, rfl⟩ := step_member.mp hstep
    have hqueues : e.Queues := by
      cases e <;> first | exact he | trivial
    have hcarries := hx.step hqueues hpermits ht htears
    cases e <;> exact hcarries

theorem Sound.step {e : Event K} (he : e.CallbacksBehave) (hx : x.Sound)
    (hstep : x.step input e = some y) (hread : ¬ x.StartsSecondRead e)
    (htears : ¬ x.TearsWrite e) : y.Sound :=
  ⟨hx.receives.step he hstep hread, carries_of_step he hx.carries hstep htears⟩

end Endpoint

/-! ### Both ends -/

inductive Side
  | client
  | server
deriving DecidableEq

def Side.peer : Side → Side
  | .client => .server
  | .server => .client

theorem Side.peer_ne (side : Side) : side.peer ≠ side := by
  cases side <;> exact nofun

def link (K : Type) [DecidableEq K] : Nodes Side (Endpoint K) (List UInt8) (Endpoint.Event K) where
  view l side := (l side.peer).socket.sent
  step input x e y := x.step input e = some y

variable {K : Type} [DecidableEq K]

theorem sent_prefix_of_link_step {l l' : Side → Endpoint K} {a : Side × Endpoint.Event K}
    (h : (link K).Step l a l') (side : Side) :
    (l side).socket.sent <+: (l' side).socket.sent := by
  rcases eq_or_ne side a.1 with rfl | hside
  · exact Endpoint.sent_prefix_of_step (Nodes.step_self h)
  · rw [Nodes.step_other h hside]

section Runs

variable {m n : Side → ℕ} {as : List (Side × Endpoint.Event K)} {l : Side → Endpoint K}

theorem receives_of_run (h : Run (link K).Step (fun side => .start (m side) (n side)) as l)
    (hcallbacks : ∀ a ∈ as, a.2.CallbacksBehave)
    (hreads : Each (link K).Step (fun l a => ¬ (l a.1).StartsSecondRead a.2)
      (fun side => .start (m side) (n side)) as) (side : Side) : (l side).Receives :=
  Nodes.forall_of_run (I := Endpoint.Receives) (fun _ _ _ he hx ⟨_, hstep⟩ => hx.step he hstep) h
    hcallbacks hreads (fun _ => Endpoint.start_receives _ _) side

theorem carries_of_run (h : Run (link K).Step (fun side => .start (m side) (n side)) as l)
    (hcallbacks : ∀ a ∈ as, a.2.CallbacksBehave)
    (htears : Each (link K).Step (fun l a => ¬ (l a.1).TearsWrite a.2)
      (fun side => .start (m side) (n side)) as) (side : Side) :
    (l side).sender.Carries (l side).socket :=
  Nodes.forall_of_run (I := fun x => x.sender.Carries x.socket)
    (fun _ _ _ he hx ⟨_, hstep⟩ => Endpoint.carries_of_step he hx hstep) h hcallbacks htears
    (fun _ => Sender.start_carries _ _) side

theorem received_prefix_of_run
    (h : Run (link K).Step (fun side => .start (m side) (n side)) as l) (side : Side) :
    (l side.peer).received <+: (l side).socket.sent := by
  have hreceived : ∀ side, (l side).received <+: (l side.peer).socket.sent :=
    Nodes.view_of_run (N := link K) (I := fun input x => x.received <+: input) (G := (· <+: ·))
      (fun _ _ _ _ hx hstep => Endpoint.received_prefix_of_step hx hstep)
      (fun _ _ _ side hstep => sent_prefix_of_link_step hstep side.peer)
      (fun w w' x (hgrows : w <+: w') hx => hx.trans hgrows) h fun _ => List.nil_prefix
  have hlast := hreceived side.peer
  cases side <;> exact hlast

end Runs

/-- In every run in which callbacks only queue and only take out, no side starts a second read and
no write fails with a part of it on the stream unless a stop was called, each side has received, in
order and once, a front of what the other one committed: the bytes it has consumed, then those
unread in its buffer. What is acknowledged was sent. -/
theorem delivers_in_order (m n : Side → ℕ) (as : List (Side × Endpoint.Event K))
    (l : Side → Endpoint K)
    (h : Run (link K).Step (fun side => .start (m side) (n side)) as l)
    (hcallbacks : ∀ a ∈ as, a.2.CallbacksBehave)
    (hreads : Each (link K).Step (fun l a => ¬ (l a.1).StartsSecondRead a.2)
      (fun side => .start (m side) (n side)) as)
    (htears : Each (link K).Step (fun l a => ¬ (l a.1).TearsWrite a.2)
      (fun side => .start (m side) (n side)) as) (side : Side) :
    (l side.peer).consumed ++ (l side.peer).connection.receiveBuffer.unread =
        (l side.peer).received ∧
      (l side.peer).received <+: (l side).socket.sent ∧
      (l side).sender.acknowledged <+: (l side).socket.sent ∧
      (l side).socket.sent <+: (l side).sender.committed := by
  have hcarries := carries_of_run h hcallbacks htears side
  exact ⟨(receives_of_run h hcallbacks hreads _).conserved, received_prefix_of_run h side,
    hcarries.acknowledged_prefix, hcarries.sent_prefix⟩

theorem consume_consumesOnly (n : ℕ) : (BufferCallback.consume n).ConsumesOnly :=
  fun _ => Relation.ReflTransGen.single ⟨n, rfl⟩

/-- Bytes arrive twice when a write fails behind the first one. -/
example : ∃ l : Side → Endpoint ℕ,
    Run (link ℕ).Step (fun _ => .start 4 4)
      [(.client, .member (.callQueueSendFunction (.write [1, 2]))),
        (.client, .member .startSending), (.client, .member (.run .startSending)),
        (.client, .transmit 0 [1, 2] 1), (.client, .member (.onSend 0 [1, 2] (.other 1) 1)),
        (.client, .member .startSending), (.client, .member (.run .startSending)),
        (.client, .transmit 0 [1, 2] 2)] l ∧
    (l .client).socket.sent = [1, 1, 2] :=
  ⟨_, .cons ⟨_, rfl, rfl⟩ (.cons ⟨_, rfl, rfl⟩ (.cons ⟨_, rfl, rfl⟩ (.cons ⟨_, rfl, rfl⟩
    (.cons ⟨_, rfl, rfl⟩ (.cons ⟨_, rfl, rfl⟩ (.cons ⟨_, rfl, rfl⟩ (.cons ⟨_, rfl, rfl⟩
    (.nil _)))))))), rfl⟩

/-- A write that failed is made again, and two of its bytes are read while it goes on. -/
def writtenAgain : List (Side × Endpoint.Event ℕ) :=
  [(.server, .member .startReceiving), (.server, .member (.setDataReceivedCallback true)),
    (.client, .member (.callQueueSendFunction (.write [1, 2, 3, 4]))),
    (.client, .member .startSending), (.client, .member (.run .startSending)),
    (.client, .member (.onSend 0 [1, 2, 3, 4] (.other 1) 0)),
    (.client, .member .startSending), (.client, .member (.run .startSending)),
    (.server, .member (.run .startReceiving)), (.client, .transmit 0 [1, 2, 3, 4] 2),
    (.server, .member (.onReceive 0 4 .success [1, 2] (.consume 1))),
    (.client, .transmit 0 [1, 2, 3, 4] 1)]

theorem delivers_in_order_two_bytes : ∃ l : Side → Endpoint ℕ,
    (l .server).consumed = [1] ∧ (l .server).connection.receiveBuffer.unread = [2] ∧
    (l .client).socket.sent = [1, 2, 3] ∧ (l .client).sender.acknowledged = [] ∧
    (l .server).received <+: (l .client).socket.sent := by
  obtain ⟨l, hrun, hconsumed, hunread, hsent, hacknowledged⟩ : ∃ l : Side → Endpoint ℕ,
      Run (link ℕ).Step (fun _ => .start 4 4) writtenAgain l ∧
      (l .server).consumed = [1] ∧ (l .server).connection.receiveBuffer.unread = [2] ∧
      (l .client).socket.sent = [1, 2, 3] ∧ (l .client).sender.acknowledged = [] := by
    refine ⟨_, .cons ⟨_, rfl, rfl⟩ (.cons ⟨_, rfl, rfl⟩ (.cons ⟨_, rfl, rfl⟩ (.cons ⟨_, rfl, rfl⟩
      (.cons ⟨_, rfl, rfl⟩ (.cons ⟨_, rfl, rfl⟩ (.cons ⟨_, rfl, rfl⟩ (.cons ⟨_, rfl, rfl⟩
      (.cons ⟨_, rfl, rfl⟩ (.cons ⟨_, rfl, rfl⟩ (.cons ⟨_, rfl, rfl⟩ (.cons ⟨_, rfl, rfl⟩
      (.nil _)))))))))))), rfl, rfl, rfl, rfl⟩
  have hreads : Each (link ℕ).Step (fun l a => ¬ (l a.1).StartsSecondRead a.2)
      (fun _ => .start 4 4) writtenAgain := by
    unfold writtenAgain
    rw [each_cons]
    refine fun _ _ => ⟨?_, each_of_forall ?_⟩
    · rintro ⟨-, p, n, hmem⟩
      cases hmem
    · simp [Endpoint.StartsSecondRead, StartsSecondRead]
  have htears : Each (link ℕ).Step (fun l a => ¬ (l a.1).TearsWrite a.2)
      (fun _ => .start 4 4) writtenAgain := by
    unfold writtenAgain
    refine Nodes.each_cons_of_step rfl rfl id (Nodes.each_cons_of_step rfl rfl id
      (Nodes.each_cons_of_step rfl rfl id (Nodes.each_cons_of_step rfl rfl id
      (Nodes.each_cons_of_step rfl rfl id
      (Nodes.each_cons_of_step rfl rfl ?_ (each_of_forall ?_))))))
    · -- the socket has taken no byte of the write that fails
      rintro ⟨-, htaken, -⟩
      exact htaken rfl
    · simp [Endpoint.TearsWrite, Socket.Tears]
  refine ⟨l, hconsumed, hunread, hsent, hacknowledged,
    (delivers_in_order _ _ _ l hrun ?_ hreads htears .client).2.1⟩
  simp [writtenAgain, Endpoint.Event.CallbacksBehave, Event.CallbacksBehave,
    BufferCallback.write_queuesOnly, consume_consumesOnly]

end Eestv.Net.TcpConnection
