import Eestv.Net.TcpConnectionWork

/-! What a step of the connection does to a stop. Every step but an accepted `async_stop`
either leaves the callback of `async_stop` alone or comes down to one call of
`resolve_on_stopped`. -/

namespace Eestv.Net.TcpConnection
open Runs

variable {R S K : Type} {b c d : TcpConnection R S K}

structure Frame (c d : TcpConnection R S K) : Prop where
  stopSignaled : d.flags.getFlag .stopSignaled = c.flags.getFlag .stopSignaled
  callback : d.disconnectedCallback = c.disconnectedCallback
  cancelled : c.flags.getFlag .closing = true →
    d.flags.getFlag .closing = true ∨ .ran .cancelAsyncOperations ∈ d.ioContext.log
  log : ∃ l, d.ioContext.log = c.ioContext.log ++ l ∧ ∀ k, .posted (.disconnected k) ∉ l

inductive Effect (c d : TcpConnection R S K) : Prop
  | quiet (frame : Frame c d)
      (busy : c.flags.getFlag .stopSignaled = true → c.busy = true → d.busy = true)
  | resolve (b : TcpConnection R S K) (before : Frame c b) (after : Frame b.resolveOnStopped d)
      (flags : d.flags = b.flags)

namespace Frame

theorem refl (c : TcpConnection R S K) : Frame c c := by
  refine ⟨rfl, rfl, Or.inl, [], (List.append_nil _).symm, ?_⟩
  intro k hk
  cases hk

theorem trans (h : Frame b c) (h' : Frame c d) : Frame b d := by
  obtain ⟨l, hl, hnot⟩ := h.log
  obtain ⟨l', hl', hnot'⟩ := h'.log
  refine ⟨h'.stopSignaled.trans h.stopSignaled, h'.callback.trans h.callback, ?_, l ++ l', ?_, ?_⟩
  · intro hclosing
    rcases h.cancelled hclosing with hc | hran
    · exact h'.cancelled hc
    · right
      rw [hl']
      exact List.mem_append_left _ hran
  · rw [hl', hl, List.append_assoc]
  · intro k hk
    rcases List.mem_append.mp hk with hk | hk
    · exact hnot k hk
    · exact hnot' k hk

theorem of_log {l : List (Entry (Handler K) Operation (Call K))}
    (hstop : d.flags.getFlag .stopSignaled = c.flags.getFlag .stopSignaled)
    (hcallback : d.disconnectedCallback = c.disconnectedCallback)
    (hclosing : d.flags.getFlag .closing = c.flags.getFlag .closing)
    (hlog : d.ioContext.log = c.ioContext.log ++ l) (hl : ∀ k, .posted (.disconnected k) ∉ l) :
    Frame c d := by
  refine ⟨hstop, hcallback, ?_, l, hlog, hl⟩
  intro h
  exact Or.inl (hclosing.trans h)

end Frame

namespace Effect

theorem after_frame (h : Frame c b) (hflags : b.flags = c.flags) (h' : Effect b d) :
    Effect c d := by
  cases h' with
  | quiet frame busy =>
    refine .quiet (h.trans frame) ?_
    unfold TcpConnection.busy at *
    rwa [hflags] at busy
  | resolve b' before after flags => exact .resolve b' (h.trans before) after flags

theorem of_running (hstop : c.flags.getFlag .stopSignaled = false) (h : Frame c d) :
    Effect c d := by
  apply quiet h
  intro h
  rw [hstop] at h
  cases h

theorem asyncReceive [IoBuffer R] : Effect c c.asyncReceive := by
  have hclear : Frame c { c with flags := c.flags.clearFlag .startReceiving } := by
    apply Frame.of_log (l := []) <;> simp
  unfold TcpConnection.asyncReceive
  dsimp only
  split
  · rename_i hstop
    apply of_running
    · simpa using hstop
    · split
      · rename_i p n _
        apply hclear.trans
        apply Frame.of_log (l := [.started (.readSome p n)]) <;> simp
      · exact hclear
  · exact .resolve _ hclear (Frame.refl _) resolveOnStopped_flags

theorem onFailure {f : TcpConnectionState} (hclosing : f ≠ .closing) (hstop : f ≠ .stopSignaled) :
    Effect c (c.onFailure f) := by
  have hclear : Frame c { c with flags := c.flags.clearFlag f } := by
    apply Frame.of_log (l := []) <;> simp [hclosing, hstop]
  have hlost : ∀ d : TcpConnection R S K,
      Frame d { d with ioContext := d.ioContext.post .connectionLost } := by
    intro d
    apply Frame.of_log (l := [.posted .connectionLost]) <;> simp
  unfold TcpConnection.onFailure
  dsimp only
  split
  · -- stopped: `resolve_on_stopped` comes before the notification
    split
    · exact .resolve _ hclear (hlost _) resolveOnStopped_flags
    · exact .resolve _ hclear (Frame.refl _) resolveOnStopped_flags
  · rename_i hrun
    apply of_running
    · simpa [hstop] using hrun
    · split
      · exact hclear.trans (hlost _)
      · exact hclear

theorem onReceive [IoBuffer R] {error : ErrorCode} {n : ℕ} {callback : BufferCallback R} :
    Effect c (c.onReceive error n callback) := by
  unfold TcpConnection.onReceive
  split
  · exact onFailure (by decide) (by decide)
  · refine after_frame ?_ ?_ asyncReceive
    · apply Frame.of_log (l := []) <;> simp
    · rfl

theorem frame_asyncSend [IoBuffer S] : Frame c c.asyncSend := by
  unfold asyncSend
  split
  · rename_i p n _
    apply Frame.of_log (l := [.started (.write p (IoBuffer.load c.sendBuffer p n))]) <;> simp
  · apply Frame.of_log (l := []) <;> simp

theorem onStartSending [IoBuffer S] : Effect c c.onStartSending := by
  have hclear : Frame c { c with flags := c.flags.clearFlag .startSending } := by
    apply Frame.of_log (l := []) <;> simp
  unfold TcpConnection.onStartSending
  dsimp only
  split
  · rename_i hstop
    apply of_running
    · simpa using hstop
    · refine hclear.trans (Frame.trans ?_ frame_asyncSend)
      apply Frame.of_log (l := []) <;> simp
  · exact .resolve _ hclear (Frame.refl _) resolveOnStopped_flags

theorem onSend [IoBuffer S] {error : ErrorCode} {n : ℕ} : Effect c (c.onSend error n) := by
  unfold TcpConnection.onSend
  split
  · exact onFailure (by decide) (by decide)
  · have hconsume : Frame c { c with sendBuffer := (IoBuffer.consume c.sendBuffer n).2 } := by
      apply Frame.of_log (l := []) <;> simp
    have hsend := hconsume.trans frame_asyncSend
    dsimp only
    split
    · exact .resolve _ hsend (Frame.refl _) resolveOnStopped_flags
    · rename_i hmore
      apply quiet hsend
      intro hstop _
      -- the stop waits for the write that was started again
      rw [← hsend.stopSignaled] at hstop
      simp only [hstop, Bool.and_true, Bool.not_eq_true, Bool.not_eq_false'] at hmore
      simp only [busy, hmore, Bool.or_true, Bool.true_or]

theorem handle [IoBuffer R] [IoBuffer S] {h : Handler K} (hh : h ≠ .cancelAsyncOperations) :
    Effect c (c.handle h) := by
  cases h with
  | cancelAsyncOperations => contradiction
  | startReceiving => exact asyncReceive
  | startSending => exact onStartSending
  | connectionLost =>
    unfold TcpConnection.handle
    dsimp only
    refine quiet ?_ ?_
    · split
      · apply Frame.of_log (l := [.called .connectionLost]) <;> simp
      · exact Frame.refl c
    · split <;> exact fun _ h => h
  | disconnected k =>
    apply quiet
    · apply Frame.of_log (l := [.called (.disconnected k)]) <;> simp [TcpConnection.handle]
    · exact fun _ h => h

theorem stopSignaled (h : Effect c d) :
    d.flags.getFlag .stopSignaled = c.flags.getFlag .stopSignaled := by
  cases h with
  | quiet frame _ => exact frame.stopSignaled
  | resolve b before after _ =>
    rw [after.stopSignaled, resolveOnStopped_flags, before.stopSignaled]

end Effect

section Steps

variable [IoBuffer R] [IoBuffer S] [DecidableEq K]

def Event.accepts : Event R S K → Bool
  | .asyncStop _ returned => returned
  | _ => false

theorem step_effect {e : Event R S K} (he : e.accepts = false) (hstep : c.Step e d) :
    Effect c d := by
  cases e with
  | setConnectionLostCallback b =>
    cases hstep
    apply Effect.quiet
    · apply Frame.of_log (l := []) <;> simp
    · exact fun _ h => h
  | setDataReceivedCallback b =>
    cases hstep
    apply Effect.quiet
    · apply Frame.of_log (l := []) <;> simp
    · exact fun _ h => h
  | callQueueSendFunction b =>
    cases hstep
    apply Effect.quiet
    · apply Frame.of_log (l := []) <;> simp [TcpConnection.callQueueSendFunction]
    · exact fun _ h => h
  | startSending =>
    cases hstep
    unfold TcpConnection.startSending
    split
    · exact .quiet (Frame.refl c) fun _ h => h
    · apply Effect.quiet
      · apply Frame.of_log (l := [.posted .startSending]) <;> simp
      · simp [busy]
  | startReceiving =>
    cases hstep
    unfold TcpConnection.startReceiving
    split
    · exact .quiet (Frame.refl c) fun _ h => h
    · apply Effect.quiet
      · apply Frame.of_log (l := [.posted .startReceiving]) <;> simp
      · simp [busy]
  | asyncStop k r =>
    obtain rfl : r = false := he
    obtain ⟨-, rfl⟩ := (step_asyncStop hstep).resolve_right (by simp)
    exact .quiet (Frame.refl _) fun _ h => h
  | run h =>
    obtain ⟨io, hio, rfl⟩ := step_run.mp hstep
    obtain ⟨-, rfl⟩ := IoContext.take_eq_some.mp hio
    by_cases hh : h = .cancelAsyncOperations
    · subst hh
      refine .resolve _ ?_ (Frame.refl _) resolveOnStopped_flags
      refine ⟨by simp, rfl, ?_, [.ran .cancelAsyncOperations], rfl, by simp⟩
      intro _
      right
      simp
    · have hran : Frame c { c with ioContext := ⟨c.ioContext.posted.erase h,
          c.ioContext.operations, c.ioContext.log ++ [.ran h]⟩ } := by
        apply Frame.of_log (l := [.ran h]) <;> simp
      exact Effect.after_frame hran rfl (Effect.handle hh)
  | onReceive p n error bytes callback =>
    obtain ⟨-, io, hio, rfl⟩ := step_onReceive.mp hstep
    obtain ⟨-, rfl⟩ := IoContext.finish_eq_some.mp hio
    refine Effect.after_frame ?_ ?_ Effect.onReceive
    · apply Frame.of_log (l := [.finished (.readSome p n)]) <;> simp
    · rfl
  | onSend p bytes error n =>
    obtain ⟨-, io, hio, rfl⟩ := step_onSend.mp hstep
    obtain ⟨-, rfl⟩ := IoContext.finish_eq_some.mp hio
    refine Effect.after_frame ?_ ?_ Effect.onSend
    · apply Frame.of_log (l := [.finished (.write p bytes)]) <;> simp
    · rfl

end Steps

end Eestv.Net.TcpConnection
