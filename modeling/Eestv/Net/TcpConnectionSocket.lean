import Eestv.Net.TcpConnectionCancel
import Eestv.Net.TcpConnectionWrites

/-! What the writes of a connection put on the stream. A socket takes the bytes of a write a few
at a time, from the memory that the write points to, and may have taken some when the write fails.
After a stop no write follows a failed one. Without a stop the next `start_sending` writes all
the bytes again that the failed write did not acknowledge. -/

namespace Eestv.Net.TcpConnection
open Runs IoContext LinearBuffer

/-- The sending half of the socket under a connection. -/
structure Socket where
  /-- How many bytes of the outstanding write are taken. -/
  taken : ℕ := 0
  sent : List UInt8 := []

variable {R K : Type} {c d : TcpConnection R LinearBuffer K}

def Socket.transmit (k : Socket) (c : TcpConnection R LinearBuffer K) (p : ℕ)
    (bytes : List UInt8) (n : ℕ) : Option Socket :=
  if .write p bytes ∈ c.ioContext.operations ∧ k.taken + n ≤ bytes.length then
    some ⟨k.taken + n, k.sent ++ c.sendBuffer.load (p + k.taken) n⟩
  else none

theorem onStartSending_same (hstop : c.flags.getFlag .stopSignaled = true) :
    c.onStartSending.sendBuffer = c.sendBuffer ∧
      ∀ p bytes, .write p bytes ∈ c.onStartSending.ioContext.operations ↔
        .write p bytes ∈ c.ioContext.operations := by
  rw [onStartSending_of_stopped hstop]
  exact ⟨SendFrame.resolveOnStopped.buffer, SendFrame.resolveOnStopped.writes⟩

section Events

variable [IoBuffer R]

def Socket.Permits (k : Socket) : Event R LinearBuffer K → Prop
  | .onSend _ bytes error _ => error.failed = true ∨ k.taken = bytes.length
  | _ => True

instance (k : Socket) : (e : Event R LinearBuffer K) → Decidable (k.Permits e)
  | .onSend _ bytes error _ =>
    inferInstanceAs (Decidable (error.failed = true ∨ k.taken = bytes.length))
  | .setConnectionLostCallback _ => .isTrue trivial
  | .setDataReceivedCallback _ => .isTrue trivial
  | .callQueueSendFunction _ => .isTrue trivial
  | .startSending => .isTrue trivial
  | .startReceiving => .isTrue trivial
  | .asyncStop _ _ => .isTrue trivial
  | .run _ => .isTrue trivial
  | .onReceive _ _ _ _ _ => .isTrue trivial

def Socket.after (k : Socket) : Event R LinearBuffer K → Socket
  | .onSend _ _ _ _ => { k with taken := 0 }
  | _ => k

/-- A write fails without a stop when a part of it is on the stream, so that this part would be
written a second time. -/
def Socket.Tears (k : Socket) (c : TcpConnection R LinearBuffer K) :
    Event R LinearBuffer K → Prop
  | .onSend _ _ error _ =>
    error.failed = true ∧ k.taken ≠ 0 ∧ c.flags.getFlag .stopSignaled = false
  | _ => False

def Event.Queues : Event R LinearBuffer K → Prop
  | .callQueueSendFunction callback => callback.QueuesOnly
  | _ => True

end Events

def NoWrite (c : TcpConnection R LinearBuffer K) : Prop :=
  ∀ p bytes, .write p bytes ∉ c.ioContext.operations

theorem noWrite_of_work (h : c.work .sending = 0) : c.NoWrite :=
  fun _ _ => no_operation_of_work h rfl

theorem eq_of_work_le_one {f : TcpConnectionState} {o o' : Operation} (h : c.work f ≤ 1)
    (ho : o ∈ c.ioContext.operations) (ho' : o' ∈ c.ioContext.operations)
    (hf : o.flag = some f) (hf' : o'.flag = some f) : o = o' := by
  by_contra hne
  have hone := countP_erase_of_mem (fun x => decide (Operation.flag x = some f)) ho
  have hother : 0 < (c.ioContext.operations.erase o).countP
      fun x => decide (Operation.flag x = some f) :=
    List.countP_pos_iff.mpr ⟨o', (List.mem_erase_of_ne (Ne.symm hne)).mpr ho', by simpa using hf'⟩
  have hle : c.ioContext.operations.countP (fun x => decide (Operation.flag x = some f)) ≤ 1 :=
    Nat.le_trans (Nat.le_add_left _ _) h
  rw [if_pos (by simpa using hf)] at hone
  omega

theorem onFailure_operations (f : TcpConnectionState) :
    (c.onFailure f).ioContext.operations = c.ioContext.operations := by
  unfold onFailure
  dsimp only
  have hresolve : ∀ d : TcpConnection R LinearBuffer K,
      d.resolveOnStopped.ioContext.operations = d.ioContext.operations := by
    intro d
    exact resolveOnStopped_induction
      (P := fun e => e.ioContext.operations = d.ioContext.operations) rfl fun _ _ _ => rfl
  split <;> split <;> simp only [post_operations, hresolve]

theorem onFailure_sendBuffer (f : TcpConnectionState) :
    (c.onFailure f).sendBuffer = c.sendBuffer := by
  have hresolve : ∀ d : TcpConnection R LinearBuffer K,
      d.resolveOnStopped.sendBuffer = d.sendBuffer := by
    intro d
    exact resolveOnStopped_induction (P := fun e => e.sendBuffer = d.sendBuffer) rfl
      fun _ _ _ => rfl
  unfold onFailure
  dsimp only
  split <;> split <;> simp only [hresolve]

namespace Sender

structure Writing (s : Sender R K) (k : Socket) : Prop where
  sent : k.sent = s.acknowledged ++ s.connection.sendBuffer.unread.take k.taken
  taken_le : ∀ p bytes, .write p bytes ∈ s.connection.ioContext.operations →
    k.taken ≤ bytes.length
  idle : s.connection.NoWrite → k.taken = 0

structure Ended (s : Sender R K) (k : Socket) : Prop where
  stopped : s.connection.flags.getFlag .stopSignaled = true
  idle : s.connection.NoWrite
  acknowledged : s.acknowledged <+: k.sent
  sent : k.sent <+: s.committed

/-- How the stream of a socket goes with the connection over it. -/
structure Carries (s : Sender R K) (k : Socket) : Prop where
  sending : s.Sending
  stream : s.Writing k ∨ s.Ended k

variable {s t : Sender R K} {k l : Socket}

theorem Writing.taken_le_unread (h : s.Writing k) (hs : s.Sending) :
    k.taken ≤ s.connection.sendBuffer.unread.length := by
  by_cases hnone : s.connection.NoWrite
  · rw [h.idle hnone]
    exact Nat.zero_le _
  · simp only [NoWrite, not_forall, not_not] at hnone
    obtain ⟨p, bytes, hmem⟩ := hnone
    obtain ⟨-, -, hprefix⟩ := hs.front p bytes hmem
    exact Nat.le_trans (h.taken_le p bytes hmem) hprefix.length_le

theorem Writing.sent_length (h : s.Writing k) (hs : s.Sending) :
    k.sent.length = s.acknowledged.length + k.taken := by
  rw [h.sent, List.length_append, List.length_take_of_le (h.taken_le_unread hs)]

theorem start_carries [IoBuffer R] (m n : ℕ) : (start m n : Sender R K).Carries {} := by
  refine ⟨start_sending m n, Or.inl ⟨rfl, ?_, fun _ => rfl⟩⟩
  intro p bytes hmem
  cases hmem

theorem Carries.acknowledged_prefix (h : s.Carries k) : s.acknowledged <+: k.sent := by
  rcases h.stream with hw | he
  · rw [hw.sent]
    exact List.prefix_append _ _
  · exact he.acknowledged

theorem Carries.sent_prefix (h : s.Carries k) : k.sent <+: s.committed := by
  rcases h.stream with hw | he
  · rw [hw.sent, ← h.sending.conserved]
    exact (List.prefix_append_right_inj _).mpr (List.take_prefix _ _)
  · exact he.sent

theorem Carries.same (h : s.Carries k) (ht : t.Sending)
    (hbuffer : t.connection.sendBuffer = s.connection.sendBuffer)
    (hwrites : ∀ p bytes, .write p bytes ∈ t.connection.ioContext.operations ↔
      .write p bytes ∈ s.connection.ioContext.operations)
    (hstop : s.connection.flags.getFlag .stopSignaled = true →
      t.connection.flags.getFlag .stopSignaled = true)
    (hacknowledged : t.acknowledged = s.acknowledged) (hcommitted : t.committed = s.committed) :
    t.Carries k := by
  have hnone : t.connection.NoWrite ↔ s.connection.NoWrite :=
    forall_congr' fun p => forall_congr' fun bytes => not_congr (hwrites p bytes)
  refine ⟨ht, ?_⟩
  rcases h.stream with hw | he
  · left
    refine ⟨?_, ?_, fun h => hw.idle (hnone.mp h)⟩
    · rw [hacknowledged, hbuffer]
      exact hw.sent
    · exact fun p bytes hmem => hw.taken_le p bytes ((hwrites p bytes).mp hmem)
  · right
    refine ⟨hstop he.stopped, hnone.mpr he.idle, ?_, ?_⟩
    · rw [hacknowledged]
      exact he.acknowledged
    · rw [hcommitted]
      exact he.sent

theorem Sending.carries (ht : t.Sending) (hsent : k.sent = t.acknowledged)
    (htaken : k.taken = 0) : t.Carries k := by
  refine ⟨ht, Or.inl ⟨?_, ?_, fun _ => htaken⟩⟩
  · rw [htaken, List.take_zero, List.append_nil]
    exact hsent
  · rw [htaken]
    exact fun _ _ _ => Nat.zero_le _

theorem Carries.transmit {p n : ℕ} {bytes : List UInt8} (h : s.Carries k)
    (htransmit : k.transmit s.connection p bytes n = some l) : s.Carries l := by
  obtain ⟨⟨hmem, hle⟩, heq⟩ := Option.ite_none_right_eq_some.mp htransmit
  cases heq
  rcases h.stream with hw | he
  · obtain ⟨rfl, -, hprefix⟩ := h.sending.front p bytes hmem
    have hsize := hprefix.length_le
    rw [h.sending.consistent.unread_length] at hsize
    have hload : s.connection.sendBuffer.load (s.connection.sendBuffer.tail + k.taken) n =
        (s.connection.sendBuffer.unread.drop k.taken).take n := by
      rw [load, unread, ← Segment.segment_drop]
      exact Segment.segment_take (by omega)
    refine ⟨h.sending, Or.inl ⟨?_, ?_, ?_⟩⟩
    · rw [hw.sent, hload, List.append_assoc, List.take_add]
    · intro q others hother
      have hone := h.sending.tracked.mirrors.work_le_one (f := .sending) (by decide)
      cases eq_of_work_le_one hone hmem hother rfl rfl
      exact hle
    · exact fun hnone => absurd hmem (hnone _ _)
  · exact absurd hmem (he.idle _ _)

/-! ### The steps of the connection -/

section Steps

variable [IoBuffer R] [DecidableEq K]

theorem Sending.step_failed {p n : ℕ} {bytes : List UInt8} {error : ErrorCode}
    (herror : error.failed = true) (hs : s.Sending) (hstep : s.Step (.onSend p bytes error n) t) :
    t.Sending ∧ t.connection.NoWrite ∧ t.acknowledged = s.acknowledged ∧
      t.committed = s.committed := by
  obtain ⟨d, hd, rfl⟩ := step_iff.mp hstep
  have htracked := hs.tracked.step hd
  obtain ⟨-, io, hio, rfl⟩ := step_onSend.mp hd
  have hnone : NoWrite ({ s.connection with ioContext := io } :
      TcpConnection R LinearBuffer K) := by
    apply noWrite_of_work
    have hw := s.connection.work_of_finish hio .sending
    have hone := hs.tracked.mirrors.work_le_one (f := .sending) (by decide)
    rw [if_pos (by rfl)] at hw
    exact Nat.le_zero.mp (Nat.le_of_succ_le_succ (hw.trans_le hone))
  have hfailed : ({ s.connection with ioContext := io } :
      TcpConnection R LinearBuffer K).onSend error n =
      ({ s.connection with ioContext := io } :
        TcpConnection R LinearBuffer K).onFailure .sending := if_pos herror
  have hbuffer := onFailure_sendBuffer .sending (c := { s.connection with ioContext := io })
  have hnone' : NoWrite (({ s.connection with ioContext := io } :
      TcpConnection R LinearBuffer K).onFailure .sending) := by
    unfold NoWrite
    rwa [onFailure_operations]
  simp only [record, herror, if_true, hfailed] at htracked ⊢
  refine ⟨⟨htracked, ?_, ?_, ?_⟩, hnone', trivial, trivial⟩
  · rw [hbuffer]
    exact hs.consistent
  · rw [hbuffer]
    exact hs.conserved
  · exact fun q others hmem => absurd hmem (hnone' q others)

theorem Carries.failed {p n : ℕ} {bytes : List UInt8} {error : ErrorCode}
    (herror : error.failed = true) (h : s.Carries k) (hstep : s.Step (.onSend p bytes error n) t)
    (htears : ¬ k.Tears s.connection (.onSend p bytes error n)) :
    t.Carries { k with taken := 0 } := by
  obtain ⟨hsending, hnone, hacknowledged, hcommitted⟩ := h.sending.step_failed herror hstep
  obtain ⟨d, hd, rfl⟩ := step_iff.mp hstep
  rcases hstop : s.connection.flags.getFlag .stopSignaled with _ | _
  · have htaken : k.taken = 0 := by
      by_contra hne
      exact htears ⟨herror, hne, hstop⟩
    rcases h.stream with hw | he
    · apply hsending.carries _ rfl
      rw [hacknowledged, hw.sent, htaken, List.take_zero, List.append_nil]
    · rw [he.stopped] at hstop
      cases hstop
  · refine ⟨hsending, Or.inr ⟨step_stopSignaled hd hstop, hnone, ?_, ?_⟩⟩
    · rw [hacknowledged]
      exact h.acknowledged_prefix
    · rw [hcommitted]
      exact h.sent_prefix

theorem Carries.run_startSending (h : s.Carries k) (hstep : s.Step (.run .startSending) t)
    (ht : t.Sending) : t.Carries k := by
  obtain ⟨d, hd, rfl⟩ := step_iff.mp hstep
  obtain ⟨io, hio, rfl⟩ := step_run.mp hd
  have hnone : s.connection.NoWrite := by
    have hset := h.sending.tracked.flag_of_take (f := .startSending) hio rfl (by decide)
    have hone := h.sending.tracked.one_sender.resolve_left (by simp [hset])
    exact noWrite_of_work (h.sending.tracked.mirrors.work_eq_zero (by decide) hone)
  obtain ⟨-, rfl⟩ := take_eq_some.mp hio
  rcases hstop : s.connection.flags.getFlag .stopSignaled with _ | _
  · rcases h.stream with hw | he
    · apply ht.carries _ (hw.idle hnone)
      rw [hw.sent, hw.idle hnone, List.take_zero, List.append_nil]
      rfl
    · rw [he.stopped] at hstop
      cases hstop
  · obtain ⟨hbuffer, hwrites⟩ := onStartSending_same (c := { s.connection with
      ioContext := ⟨s.connection.ioContext.posted.erase .startSending,
        s.connection.ioContext.operations,
        s.connection.ioContext.log ++ [.ran .startSending]⟩ }) hstop
    exact h.same ht hbuffer hwrites (step_stopSignaled hd) rfl rfl

/-- Whatever the connection does, its stream goes on where it was. -/
theorem Carries.step {e : Event R LinearBuffer K} (he : e.Queues) (hsocket : k.Permits e)
    (h : s.Carries k) (hstep : s.Step e t) (htears : ¬ k.Tears s.connection e) :
    t.Carries (k.after e) := by
  have hqueues : (∀ p bytes error n, e = .onSend p bytes error n → error.failed = false) →
      t.Sending := by
    intro hsuccess
    refine h.sending.step ?_ hstep
    cases e with
    | callQueueSendFunction callback => exact he
    | onSend p bytes error n => exact hsuccess p bytes error n rfl
    | _ => trivial
  obtain ⟨d, hd, ht⟩ := step_iff.mp hstep
  rcases hsends : e.sends with _ | _
  · have hframe := step_sendFrame hsends hd
    have hother : ∀ p bytes error n, e ≠ .onSend p bytes error n := by
      rintro p bytes error n rfl
      cases hsends
    have hsending := hqueues fun p bytes error n heq => absurd heq (hother p bytes error n)
    have hafter : k.after e = k ∧ s.record d e = { s with connection := d } := by
      cases e <;> first | exact ⟨rfl, rfl⟩ | cases hsends
    rw [hafter.1]
    rw [← ht, hafter.2] at hsending ⊢
    exact h.same hsending hframe.buffer hframe.writes (step_stopSignaled hd) rfl rfl
  · cases e with
    | callQueueSendFunction callback =>
      have hsending := hqueues nofun
      cases hd
      subst ht
      have happ := (he _ h.sending.consistent).appends h.sending.consistent
      refine ⟨hsending, ?_⟩
      rcases h.stream with hw | hended
      · left
        -- the taken part of the write in flight is in front of what is queued now
        refine ⟨?_, hw.taken_le, hw.idle⟩
        change _ = s.acknowledged ++
          (callback.apply s.connection.sendBuffer).unread.take k.taken
        rw [happ.unread_eq, List.take_append_of_le_length (hw.taken_le_unread h.sending)]
        exact hw.sent
      · right
        exact ⟨hended.stopped, hended.idle, hended.acknowledged,
          hended.sent.trans (List.prefix_append _ _)⟩
    | startSending =>
      have hsending := hqueues nofun
      cases hd
      subst ht
      have hsame : s.connection.startSending.sendBuffer = s.connection.sendBuffer ∧
          s.connection.startSending.ioContext.operations = s.connection.ioContext.operations := by
        unfold TcpConnection.startSending
        split <;> exact ⟨rfl, rfl⟩
      refine h.same hsending hsame.1 ?_ ?_ rfl rfl
      · intro p bytes
        exact iff_of_eq (congrArg (Operation.write p bytes ∈ ·) hsame.2)
      · exact step_stopSignaled (e := .startSending) rfl
    | run a =>
      cases a with
      | startSending => exact h.run_startSending hstep (hqueues nofun)
      | _ => cases hsends
    | onSend p bytes error n =>
      rcases herror : error.failed with _ | _
      · have hsending := hqueues (by rintro _ _ _ _ ⟨⟩; exact herror)
        have hmem := (finish_eq_some.mp (step_onSend.mp hd).2.choose_spec.1).1
        have htaken := hsocket.resolve_left (by simp [herror])
        subst ht
        obtain ⟨-, -, hprefix⟩ := h.sending.front p bytes hmem
        rcases h.stream with hw | hended
        · refine hsending.carries ?_ rfl
          simp only [record, herror, Bool.false_eq_true, if_false]
          rw [List.prefix_iff_eq_take.mp hprefix, ← htaken]
          exact hw.sent
        · exact absurd hmem (hended.idle _ _)
      · exact h.failed herror hstep htears
    | _ => cases hsends

end Steps

end Sender
end Eestv.Net.TcpConnection
