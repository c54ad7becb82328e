import Eestv.Net.TcpConnectionWork

/-! The receive side of a connection: what every step does to the buffer and the reads. -/

namespace Eestv.Net.TcpConnection
open Runs IoContext

variable {R S K : Type} {b c d : TcpConnection R S K}

structure ReceiveFrame (c d : TcpConnection R S K) : Prop where
  buffer : d.receiveBuffer = c.receiveBuffer
  flag : d.flags.getFlag .startReceiving = c.flags.getFlag .startReceiving
  receiving : d.work .receiving = c.work .receiving
  startReceiving : d.work .startReceiving = c.work .startReceiving
  reads : ∀ p n, .readSome p n ∈ d.ioContext.operations ↔ .readSome p n ∈ c.ioContext.operations

namespace ReceiveFrame

theorem refl (c : TcpConnection R S K) : ReceiveFrame c c :=
  ⟨rfl, rfl, rfl, rfl, fun _ _ => Iff.rfl⟩

theorem trans (h : ReceiveFrame b c) (h' : ReceiveFrame c d) : ReceiveFrame b d :=
  ⟨h'.buffer.trans h.buffer, h'.flag.trans h.flag, h'.receiving.trans h.receiving,
    h'.startReceiving.trans h.startReceiving, fun p n => (h'.reads p n).trans (h.reads p n)⟩

theorem of_eq (hbuffer : d.receiveBuffer = c.receiveBuffer)
    (hflag : d.flags.getFlag .startReceiving = c.flags.getFlag .startReceiving)
    (hio : d.ioContext = c.ioContext) : ReceiveFrame c d := by
  refine ⟨hbuffer, hflag, ?_, ?_, ?_⟩
  · rw [work, hio, work]
  · rw [work, hio, work]
  · rw [hio]
    exact fun _ _ => Iff.rfl

theorem clear {f : TcpConnectionState} (hf : f ≠ .startReceiving) :
    ReceiveFrame c { c with flags := c.flags.clearFlag f } := by
  refine of_eq rfl ?_ rfl
  simp [hf]

theorem post {h : Handler K} (hh : h.flag ≠ some .startReceiving)
    (hr : h.flag ≠ some .receiving) :
    ReceiveFrame c { c with ioContext := c.ioContext.post h } := by
  refine ⟨rfl, rfl, ?_, ?_, fun _ _ => Iff.rfl⟩
  · simp [work, hr]
  · simp [work, hh]

theorem resolveOnStopped : ReceiveFrame c c.resolveOnStopped := by
  refine resolveOnStopped_induction (P := ReceiveFrame c) (refl c) ?_
  intro k _ _
  exact ⟨rfl, rfl, work_post, work_post, fun _ _ => Iff.rfl⟩

theorem onFailure {f : TcpConnectionState} (hf : f ≠ .startReceiving) :
    ReceiveFrame c (c.onFailure f) := by
  have hlost : ∀ d : TcpConnection R S K,
      ReceiveFrame d { d with ioContext := d.ioContext.post .connectionLost } := by
    intro d
    exact post (h := .connectionLost) (by simp [Handler.flag]) (by simp [Handler.flag])
  unfold TcpConnection.onFailure
  dsimp only
  split <;> split
  · exact (clear hf).trans (resolveOnStopped.trans (hlost _))
  · exact (clear hf).trans resolveOnStopped
  · exact (clear hf).trans (hlost _)
  · exact clear hf

theorem asyncSend [IoBuffer S] : ReceiveFrame c c.asyncSend := by
  unfold TcpConnection.asyncSend
  split
  · refine ⟨rfl, rfl, work_start, work_start, ?_⟩
    simp
  · exact clear (by decide)

theorem onStartSending [IoBuffer S] : ReceiveFrame c c.onStartSending := by
  have hclear : ReceiveFrame c { c with flags := c.flags.clearFlag .startSending } :=
    clear (by decide)
  unfold TcpConnection.onStartSending
  dsimp only
  split
  · have hset : ReceiveFrame c { c with
        flags := (c.flags.clearFlag .startSending).setFlag .sending } :=
      of_eq rfl (by simp) rfl
    exact hset.trans asyncSend
  · exact hclear.trans resolveOnStopped

theorem onSend [IoBuffer S] {error : ErrorCode} {n : ℕ} :
    ReceiveFrame c (c.onSend error n) := by
  unfold TcpConnection.onSend
  split
  · exact onFailure (by decide)
  · have hconsume : ReceiveFrame c { c with
        sendBuffer := (IoBuffer.consume c.sendBuffer n).2 } := of_eq rfl rfl rfl
    have hsend := hconsume.trans asyncSend
    dsimp only
    split
    · exact hsend.trans resolveOnStopped
    · exact hsend

theorem handle [IoBuffer R] [IoBuffer S] {h : Handler K} (hh : h ≠ .startReceiving) :
    ReceiveFrame c (c.handle h) := by
  cases h with
  | cancelAsyncOperations => exact trans (clear (by decide)) resolveOnStopped
  | startReceiving => contradiction
  | startSending => exact onStartSending
  | connectionLost =>
    unfold TcpConnection.handle
    dsimp only
    split
    · exact ⟨rfl, rfl, work_call _, work_call _, fun _ _ => Iff.rfl⟩
    · exact refl c
  | disconnected k => exact ⟨rfl, rfl, work_call _, work_call _, fun _ _ => Iff.rfl⟩

end ReceiveFrame

section Receive

variable [IoBuffer R]

theorem asyncReceive_frame
    (h : c.flags.getFlag .stopSignaled = true ∨
      usable (IoBuffer.getWriteHead c.receiveBuffer) = none) :
    ReceiveFrame { c with flags := c.flags.clearFlag .startReceiving } c.asyncReceive := by
  unfold asyncReceive
  dsimp only
  split
  · rename_i hrun
    have hnone := h.resolve_left (by simpa using hrun)
    simp only [hnone]
    exact ReceiveFrame.refl _
  · exact ReceiveFrame.resolveOnStopped

theorem asyncReceive_start {p n : ℕ} (hstop : c.flags.getFlag .stopSignaled = false)
    (hsome : usable (IoBuffer.getWriteHead c.receiveBuffer) = some (p, n)) :
    c.asyncReceive = { c with
      flags := c.flags.clearFlag .startReceiving
      ioContext := c.ioContext.start (.readSome p n) } := by
  unfold asyncReceive
  simp [hstop, hsome]

theorem usable_eq_some {w : Option ℕ × ℕ} {p n : ℕ} (h : usable w = some (p, n)) :
    w = (some p, n) := by
  obtain ⟨_ | q, m⟩ := w
  · cases h
  · simp only [usable] at h
    split at h
    · cases h
    · cases h
      rfl

end Receive

variable [IoBuffer R] [IoBuffer S]

def Event.receives : Event R S K → Bool
  | .startReceiving => true
  | .run .startReceiving => true
  | .onReceive _ _ _ _ _ => true
  | _ => false

theorem step_receiveFrame [DecidableEq K] {e : Event R S K} (he : e.receives = false)
    (hstep : c.Step e d) : ReceiveFrame c d := by
  cases e with
  | setConnectionLostCallback b =>
    cases hstep
    exact ReceiveFrame.of_eq rfl rfl rfl
  | setDataReceivedCallback b =>
    cases hstep
    exact ReceiveFrame.of_eq rfl rfl rfl
  | callQueueSendFunction b =>
    cases hstep
    exact ReceiveFrame.of_eq rfl rfl rfl
  | startSending =>
    cases hstep
    unfold startSending
    split
    · exact ReceiveFrame.refl c
    · refine ⟨rfl, ?_, work_post, work_post, fun _ _ => Iff.rfl⟩
      simp
  | startReceiving => cases he
  | asyncStop k r =>
    obtain ⟨-, rfl⟩ | ⟨-, -, rfl⟩ := step_asyncStop hstep
    · exact ReceiveFrame.refl _
    · refine ⟨rfl, ?_, work_post, work_post, fun _ _ => Iff.rfl⟩
      simp
  | run h =>
    obtain ⟨io, hio, rfl⟩ := step_run.mp hstep
    have hh : h ≠ .startReceiving := by
      rintro rfl
      cases he
    have hnot : h.flag ≠ some .startReceiving ∧ h.flag ≠ some .receiving := by
      cases h <;> first | contradiction | simp [Handler.flag]
    have htake : ReceiveFrame c { c with ioContext := io } := by
      refine ⟨rfl, rfl, ?_, ?_, ?_⟩
      · have hwork := c.work_of_take hio .receiving
        rwa [if_neg hnot.2] at hwork
      · have hwork := c.work_of_take hio .startReceiving
        rwa [if_neg hnot.1] at hwork
      · rw [(take_eq_some.mp hio).2]
        exact fun _ _ => Iff.rfl
    exact htake.trans (ReceiveFrame.handle hh)
  | onReceive p n error bytes callback => cases he
  | onSend p bytes error n =>
    obtain ⟨-, io, hio, rfl⟩ := step_onSend.mp hstep
    have hwork : ∀ f, f ≠ .sending → ({ c with ioContext := io } : TcpConnection R S K).work f =
        c.work f := by
      intro f hf
      have hwork := c.work_of_finish hio f
      rwa [if_neg (by simpa [Operation.flag] using Ne.symm hf)] at hwork
    have hfinish : ReceiveFrame c { c with ioContext := io } := by
      refine ⟨rfl, rfl, hwork _ (by decide), hwork _ (by decide), ?_⟩
      intro q m
      rw [(finish_eq_some.mp hio).2]
      exact List.mem_erase_of_ne (by simp)
    exact hfinish.trans ReceiveFrame.onSend

end Eestv.Net.TcpConnection
