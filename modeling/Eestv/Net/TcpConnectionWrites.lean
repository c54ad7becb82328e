import Eestv.Net.TcpConnectionSend

/-! The bytes that a connection sends. With the linear buffer, what is acknowledged and what is
unread make up everything that was ever queued, and the write in flight is from its front. -/

namespace Eestv.Net.TcpConnection
open Runs IoContext LinearBuffer

/-- A connection with the bytes that were ever committed to its send buffer, the bytes that its
writes acknowledged, and how many had been committed when `start_sending` was called last. -/
structure Sender (R K : Type) where
  connection : TcpConnection R LinearBuffer K
  committed : List UInt8
  acknowledged : List UInt8
  requested : ℕ

variable {R S K : Type} {c d : TcpConnection R LinearBuffer K}

/-! ### The writes in flight -/

def WritesFront (c : TcpConnection R LinearBuffer K) : Prop :=
  ∀ p bytes, .write p bytes ∈ c.ioContext.operations →
    p = c.sendBuffer.tail ∧ bytes ≠ [] ∧ bytes <+: c.sendBuffer.unread

theorem usable_getReadHead (b : LinearBuffer) :
    usable b.getReadHead = if b.size = 0 then none else some (b.tail, b.size) := by
  unfold getReadHead
  rcases Nat.eq_zero_or_pos b.size with hzero | hpos
  · simp [hzero, usable]
  · simp [hpos, usable, Nat.ne_of_gt hpos]

namespace WritesFront

theorem frame (hc : c.WritesFront) (h : SendFrame c d) : d.WritesFront := by
  intro p bytes hmem
  rw [h.buffer]
  exact hc p bytes ((h.writes p bytes).mp hmem)

theorem asyncSend (hc : c.WritesFront) (hb : c.sendBuffer.Consistent) :
    c.asyncSend.WritesFront ∧ c.asyncSend.sendBuffer = c.sendBuffer := by
  have husable := usable_getReadHead c.sendBuffer
  split at husable
  · rw [asyncSend_of_none husable]
    exact ⟨hc, rfl⟩
  · rename_i hsize
    rw [asyncSend_of_some husable]
    refine ⟨?_, rfl⟩
    intro p bytes hmem
    rcases List.mem_append.mp hmem with hold | hnew
    · exact hc p bytes hold
    · cases List.mem_singleton.mp hnew
      refine ⟨rfl, ?_, List.prefix_rfl⟩
      intro hnil
      exact hsize (hb.unread_eq_nil.mp hnil)

theorem onStartSending (hc : c.WritesFront) (hb : c.sendBuffer.Consistent) :
    c.onStartSending.WritesFront ∧ c.onStartSending.sendBuffer = c.sendBuffer := by
  rcases hstop : c.flags.getFlag .stopSignaled with _ | _
  · rw [onStartSending_of_running hstop]
    exact asyncSend (c := { c with
      flags := (c.flags.clearFlag .startSending).setFlag .sending }) hc hb
  · have hclear : WritesFront { c with flags := c.flags.clearFlag .startSending } := hc
    rw [onStartSending_of_stopped hstop]
    exact ⟨hclear.frame SendFrame.resolveOnStopped, SendFrame.resolveOnStopped.buffer⟩

theorem onSend {error : ErrorCode} (herror : error.failed = false) (n : ℕ)
    (hwork : c.work .sending = 0) (hb : c.sendBuffer.Consistent) :
    (c.onSend error n).WritesFront ∧
      (c.onSend error n).sendBuffer = (c.sendBuffer.consume n).2 := by
  have hnone : WritesFront { c with sendBuffer := (c.sendBuffer.consume n).2 } := by
    intro p bytes hmem
    exact absurd hmem (no_operation_of_work hwork rfl)
  have hframe := onSend_frame (c := c) herror n
  obtain ⟨hfront, hbuffer⟩ := hnone.asyncSend (hb.consume n)
  exact ⟨hfront.frame hframe, hframe.buffer.trans hbuffer⟩

end WritesFront

variable [IoBuffer R]

/-- Callbacks that queue bytes, and no failed write. -/
def Event.Orders : Event R LinearBuffer K → Prop
  | .callQueueSendFunction callback => callback.QueuesOnly
  | .onSend _ _ error _ => error.failed = false
  | _ => True

namespace Sender

def start (m n : ℕ) : Sender R K := ⟨new m n, [], [], 0⟩

def record (s : Sender R K) (d : TcpConnection R LinearBuffer K) :
    Event R LinearBuffer K → Sender R K
  | .callQueueSendFunction _ =>
    { s with
      connection := d
      committed := s.committed ++
        d.sendBuffer.unread.drop s.connection.sendBuffer.unread.length }
  | .startSending => { s with connection := d, requested := s.committed.length }
  | .onSend _ bytes error _ =>
    { s with
      connection := d
      acknowledged := if error.failed then s.acknowledged else s.acknowledged ++ bytes }
  | _ => { s with connection := d }

def step [DecidableEq K] (s : Sender R K) (e : Event R LinearBuffer K) : Option (Sender R K) :=
  (s.connection.step e).map fun d => s.record d e

def Step [DecidableEq K] (s : Sender R K) (e : Event R LinearBuffer K) (t : Sender R K) : Prop :=
  s.step e = some t

/-- The bytes are sent in order, by one write at a time, which is from the front of what is
left and has not been written over. -/
structure Ordered (s : Sender R K) : Prop where
  conserved : s.acknowledged ++ s.connection.sendBuffer.unread = s.committed
  one_write : s.connection.work .sending ≤ 1
  in_flight : ∀ p bytes, .write p bytes ∈ s.connection.ioContext.operations →
    s.connection.sendBuffer.getReadHead.1 = some p ∧
      s.connection.sendBuffer.load p bytes.length = bytes ∧
      bytes <+: s.connection.sendBuffer.unread

structure Sending (s : Sender R K) : Prop where
  tracked : s.connection.Tracked
  consistent : s.connection.sendBuffer.Consistent
  conserved : s.acknowledged ++ s.connection.sendBuffer.unread = s.committed
  front : s.connection.WritesFront

omit [IoBuffer R] in
theorem Sending.ordered {s : Sender R K} (hs : s.Sending) : s.Ordered := by
  refine ⟨hs.conserved, hs.tracked.mirrors.work_le_one (by decide), ?_⟩
  intro p bytes hmem
  obtain ⟨rfl, hne, hprefix⟩ := hs.front p bytes hmem
  have hle : bytes.length ≤ s.connection.sendBuffer.size := by
    rw [← hs.consistent.unread_length]
    exact hprefix.length_le
  have hpos := List.length_pos_iff.mpr hne
  refine ⟨?_, ?_, hprefix⟩
  · exact if_pos (Nat.lt_of_lt_of_le hpos hle)
  · rw [load_tail hle]
    exact (List.prefix_iff_eq_take.mp hprefix).symm

theorem start_sending (m n : ℕ) : (start m n : Sender R K).Sending := by
  refine ⟨new_tracked m n, new_consistent n, new_unread n, ?_⟩
  intro p bytes hmem
  cases hmem

omit [IoBuffer R] in
theorem Sending.keep {s : Sender R K} {d : TcpConnection R LinearBuffer K} (hs : s.Sending)
    (hd : d.Tracked) (hbuffer : d.sendBuffer = s.connection.sendBuffer) (hfront : d.WritesFront)
    (n : ℕ) : Sending { s with connection := d, requested := n } := by
  refine ⟨hd, ?_, ?_, hfront⟩
  · rw [hbuffer]
    exact hs.consistent
  · rw [hbuffer]
    exact hs.conserved

variable [DecidableEq K] {s t : Sender R K}

theorem step_iff {e : Event R LinearBuffer K} :
    s.Step e t ↔ ∃ d, s.connection.Step e d ∧ s.record d e = t :=
  Option.map_eq_some_iff

theorem Sending.step {e : Event R LinearBuffer K} (he : e.Orders) (hs : s.Sending)
    (hstep : s.Step e t) : t.Sending := by
  obtain ⟨d, hd, rfl⟩ := step_iff.mp hstep
  have htracked := hs.tracked.step hd
  rcases hsends : e.sends with _ | _
  · have hframe := step_sendFrame hsends hd
    have hrecord : s.record d e = { s with connection := d } := by
      cases e <;> first | rfl | cases hsends
    rw [hrecord]
    exact hs.keep htracked hframe.buffer (hs.front.frame hframe) _
  · cases e with
    | callQueueSendFunction callback =>
      cases hd
      -- a write in flight is from bytes that stay in front of the new ones
      have happ := (he _ hs.consistent).appends hs.consistent
      refine ⟨htracked, happ.consistent, ?_, ?_⟩
      · change s.acknowledged ++ (callback.apply s.connection.sendBuffer).unread = _
        rw [happ.unread_eq, ← List.append_assoc, hs.conserved]
        rfl
      · intro p bytes hmem
        obtain ⟨hp, hne, hprefix⟩ := hs.front p bytes hmem
        refine ⟨hp.trans happ.tail_eq.symm, hne, hprefix.trans ?_⟩
        exact ⟨_, happ.unread_eq.symm⟩
    | startSending =>
      cases hd
      have hsame : s.connection.startSending.sendBuffer = s.connection.sendBuffer ∧
          s.connection.startSending.ioContext.operations = s.connection.ioContext.operations := by
        unfold startSending
        split <;> exact ⟨rfl, rfl⟩
      refine hs.keep htracked hsame.1 ?_ _
      intro p bytes hmem
      rw [hsame.2] at hmem
      rw [hsame.1]
      exact hs.front p bytes hmem
    | run h =>
      obtain ⟨io, hio, rfl⟩ := step_run.mp hd
      cases h with
      | startSending =>
        have hfront : WritesFront { s.connection with ioContext := io } := by
          obtain ⟨-, rfl⟩ := take_eq_some.mp hio
          exact hs.front
        obtain ⟨hfront, hbuffer⟩ := hfront.onStartSending hs.consistent
        exact hs.keep htracked hbuffer hfront _
      | _ => cases hsends
    | onSend p bytes error n =>
      obtain ⟨hlen, io, hio, rfl⟩ := step_onSend.mp hd
      have herror : error.failed = false := he
      obtain rfl : n = bytes.length := by
        rw [herror] at hlen
        exact hlen.resolve_left Bool.false_ne_true
      have hwork : ({ s.connection with ioContext := io } :
          TcpConnection R LinearBuffer K).work .sending = 0 := by
        have hw := s.connection.work_of_finish hio .sending
        have hone := hs.tracked.mirrors.work_le_one (f := .sending) (by decide)
        rw [if_pos (by rfl)] at hw
        exact Nat.le_zero.mp (Nat.le_of_succ_le_succ (hw.trans_le hone))
      obtain ⟨-, -, hprefix⟩ := hs.front p bytes (finish_eq_some.mp hio).1
      have hle : bytes.length ≤ s.connection.sendBuffer.size := by
        rw [← hs.consistent.unread_length]
        exact hprefix.length_le
      -- the bytes that the write acknowledges are those that `consume` takes off the front
      have hconsumes := consume_consumes hs.consistent hle
      obtain ⟨hfront, hbuffer⟩ := WritesFront.onSend herror bytes.length hwork hs.consistent
      refine ⟨htracked, ?_, ?_, hfront⟩
      · exact hbuffer ▸ hconsumes.consistent
      · obtain ⟨rest, hrest⟩ := hprefix
        have hdrop : (s.connection.sendBuffer.consume bytes.length).2.unread = rest := by
          rw [hconsumes.unread_eq, ← hrest, List.drop_left]
        simp only [record, herror, hbuffer, hdrop, Bool.false_eq_true, if_false]
        rw [List.append_assoc, hrest, hs.conserved]
    | _ => cases hsends

/-- In every run with callbacks that only queue bytes and without a failed write, the bytes
acknowledged and the unread ones are the committed ones in their order, one write is
outstanding at most, and its region is an unmodified front of the unread bytes. -/
theorem ordered_of_run (m n : ℕ) (es : List (Event R LinearBuffer K)) (s : Sender R K)
    (h : Run Step (start m n) es s) (hes : ∀ e ∈ es, e.Orders) : s.Ordered := by
  have hs := h.invariant_of_forall (fun _ _ _ he hs hstep => hs.step he hstep) hes
    (start_sending m n)
  exact hs.ordered

theorem ordered_of_run_two_writes : ∃ s : Sender LinearBuffer ℕ,
    s.acknowledged = [1, 2] ∧ s.connection.ioContext.operations = [.write 2 [3]] ∧
    s.Ordered := by
  obtain ⟨s, hrun, hack, hwrite⟩ : ∃ s : Sender LinearBuffer ℕ,
      Run Step (start 4 4) [.callQueueSendFunction (.write [1, 2]), .startSending,
        .run .startSending, .callQueueSendFunction (.write [3]), .onSend 0 [1, 2] .success 2] s ∧
      s.acknowledged = [1, 2] ∧ s.connection.ioContext.operations = [.write 2 [3]] :=
    ⟨_, Run.iff_foldlM.mpr rfl, rfl, rfl⟩
  refine ⟨s, hack, hwrite, ordered_of_run 4 4 _ s hrun ?_⟩
  simp [Event.Orders, BufferCallback.write_queuesOnly, ErrorCode.failed]

end Sender
end Eestv.Net.TcpConnection
