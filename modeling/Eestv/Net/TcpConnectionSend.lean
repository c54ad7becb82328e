import Eestv.Net.TcpConnectionWork

/-! The send side of a connection: what every step does to the send buffer and the writes. -/

namespace Eestv.Net.TcpConnection
open Runs IoContext

variable {R S K : Type} {b c d : TcpConnection R S K}

structure SendFrame (c d : TcpConnection R S K) : Prop where
  buffer : d.sendBuffer = c.sendBuffer
  startSending : d.flags.getFlag .startSending = c.flags.getFlag .startSending
  sending : d.flags.getFlag .sending = c.flags.getFlag .sending
  writes : ∀ p bytes, .write p bytes ∈ d.ioContext.operations ↔
    .write p bytes ∈ c.ioContext.operations

namespace SendFrame

theorem refl (c : TcpConnection R S K) : SendFrame c c := ⟨rfl, rfl, rfl, fun _ _ => Iff.rfl⟩

theorem trans (h : SendFrame b c) (h' : SendFrame c d) : SendFrame b d :=
  ⟨h'.buffer.trans h.buffer, h'.startSending.trans h.startSending, h'.sending.trans h.sending,
    fun p bytes => (h'.writes p bytes).trans (h.writes p bytes)⟩

theorem of_eq (hbuffer : d.sendBuffer = c.sendBuffer)
    (hstart : d.flags.getFlag .startSending = c.flags.getFlag .startSending)
    (hsending : d.flags.getFlag .sending = c.flags.getFlag .sending)
    (hio : d.ioContext.operations = c.ioContext.operations) : SendFrame c d := by
  refine ⟨hbuffer, hstart, hsending, ?_⟩
  rw [hio]
  exact fun _ _ => Iff.rfl

theorem clear {f : TcpConnectionState} (hstart : f ≠ .startSending) (hsending : f ≠ .sending) :
    SendFrame c { c with flags := c.flags.clearFlag f } := by
  refine of_eq rfl ?_ ?_ rfl
  · simp [hstart]
  · simp [hsending]

theorem resolveOnStopped : SendFrame c c.resolveOnStopped := by
  refine resolveOnStopped_induction (P := SendFrame c) (refl c) ?_
  intro k _ _
  exact of_eq rfl rfl rfl rfl

theorem onFailure {f : TcpConnectionState} (hstart : f ≠ .startSending) (hsending : f ≠ .sending) :
    SendFrame c (c.onFailure f) := by
  have hclear : SendFrame c { c with flags := c.flags.clearFlag f } := clear hstart hsending
  have hlost : ∀ d : TcpConnection R S K,
      SendFrame d { d with ioContext := d.ioContext.post .connectionLost } :=
    fun _ => of_eq rfl rfl rfl rfl
  unfold TcpConnection.onFailure
  dsimp only
  split <;> split
  · exact hclear.trans (resolveOnStopped.trans (hlost _))
  · exact hclear.trans resolveOnStopped
  · exact hclear.trans (hlost _)
  · exact hclear

theorem asyncReceive [IoBuffer R] : SendFrame c c.asyncReceive := by
  have hclear : SendFrame c { c with flags := c.flags.clearFlag .startReceiving } :=
    clear (by decide) (by decide)
  unfold TcpConnection.asyncReceive
  dsimp only
  split
  · split
    · refine hclear.trans ⟨rfl, rfl, rfl, ?_⟩
      simp
    · exact hclear
  · exact hclear.trans resolveOnStopped

theorem onReceive [IoBuffer R] {error : ErrorCode} {n : ℕ} {callback : BufferCallback R} :
    SendFrame c (c.onReceive error n callback) := by
  unfold TcpConnection.onReceive
  split
  · exact onFailure (by decide) (by decide)
  · refine trans ?_ asyncReceive
    exact of_eq rfl rfl rfl rfl

theorem handle [IoBuffer R] [IoBuffer S] {h : Handler K} (hh : h ≠ .startSending) :
    SendFrame c (c.handle h) := by
  cases h with
  | cancelAsyncOperations => exact trans (clear (by decide) (by decide)) resolveOnStopped
  | startReceiving => exact asyncReceive
  | startSending => contradiction
  | connectionLost =>
    unfold TcpConnection.handle
    dsimp only
    split
    · exact of_eq rfl rfl rfl rfl
    · exact refl c
  | disconnected k => exact of_eq rfl rfl rfl rfl

end SendFrame

section Send

variable [IoBuffer S]

theorem asyncSend_of_none (h : usable (IoBuffer.getReadHead c.sendBuffer) = none) :
    c.asyncSend = { c with flags := c.flags.clearFlag .sending } := by
  unfold asyncSend
  rw [h]

theorem asyncSend_of_some {p n : ℕ}
    (h : usable (IoBuffer.getReadHead c.sendBuffer) = some (p, n)) :
    c.asyncSend = { c with
      ioContext := c.ioContext.start (.write p (IoBuffer.load c.sendBuffer p n)) } := by
  unfold asyncSend
  rw [h]

theorem onStartSending_of_stopped (h : c.flags.getFlag .stopSignaled = true) :
    c.onStartSending =
      ({ c with flags := c.flags.clearFlag .startSending } :
        TcpConnection R S K).resolveOnStopped := by
  unfold onStartSending
  simp [h]

theorem onStartSending_of_running (h : c.flags.getFlag .stopSignaled = false) :
    c.onStartSending =
      ({ c with flags := (c.flags.clearFlag .startSending).setFlag .sending } :
        TcpConnection R S K).asyncSend := by
  unfold onStartSending
  simp [h]

theorem onSend_frame {error : ErrorCode} (herror : error.failed = false) (n : ℕ) :
    SendFrame ({ c with sendBuffer := (IoBuffer.consume c.sendBuffer n).2 } :
      TcpConnection R S K).asyncSend (c.onSend error n) := by
  unfold onSend
  rw [if_neg (by rw [herror]; exact Bool.false_ne_true)]
  dsimp only
  split
  · exact SendFrame.resolveOnStopped
  · exact SendFrame.refl _

end Send

variable [IoBuffer R] [IoBuffer S]

def Event.sends : Event R S K → Bool
  | .callQueueSendFunction _ => true
  | .startSending => true
  | .run .startSending => true
  | .onSend _ _ _ _ => true
  | _ => false

theorem step_sendFrame [DecidableEq K] {e : Event R S K} (he : e.sends = false)
    (hstep : c.Step e d) : SendFrame c d := by
  cases e with
  | setConnectionLostCallback b =>
    cases hstep
    exact SendFrame.of_eq rfl rfl rfl rfl
  | setDataReceivedCallback b =>
    cases hstep
    exact SendFrame.of_eq rfl rfl rfl rfl
  | callQueueSendFunction b => cases he
  | startSending => cases he
  | startReceiving =>
    cases hstep
    unfold startReceiving
    split
    · exact SendFrame.refl c
    · refine SendFrame.of_eq rfl ?_ ?_ rfl <;> simp
  | asyncStop k r =>
    obtain ⟨-, rfl⟩ | ⟨-, -, rfl⟩ := step_asyncStop hstep
    · exact SendFrame.refl _
    · refine SendFrame.of_eq rfl ?_ ?_ rfl <;> simp
  | run h =>
    obtain ⟨io, hio, rfl⟩ := step_run.mp hstep
    have hh : h ≠ .startSending := by
      rintro rfl
      cases he
    obtain ⟨-, rfl⟩ := take_eq_some.mp hio
    refine SendFrame.trans ?_ (SendFrame.handle hh)
    exact SendFrame.of_eq rfl rfl rfl rfl
  | onReceive p n error bytes callback =>
    obtain ⟨-, io, hio, rfl⟩ := step_onReceive.mp hstep
    have hfinish : SendFrame c { c with
        receiveBuffer := IoBuffer.store c.receiveBuffer p bytes
        ioContext := io } := by
      refine ⟨rfl, rfl, rfl, ?_⟩
      intro q m
      rw [(finish_eq_some.mp hio).2]
      exact List.mem_erase_of_ne (by simp)
    exact hfinish.trans SendFrame.onReceive
  | onSend p bytes error n => cases he

end Eestv.Net.TcpConnection
