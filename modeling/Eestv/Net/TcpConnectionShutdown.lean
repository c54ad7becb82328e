import Eestv.Library.Shutdown
import Eestv.Net.TcpConnectionSocket
import Eestv.Net.TcpConnectionStop

/-! `stop()` of a connection with the linear send buffer. A write that succeeds behind the stop is
followed by the next one, so that the bytes still queued are part of what is left to do. -/

namespace Eestv.Net.TcpConnection
open Runs IoContext

variable {R S K : Type}

def stop [IoBuffer R] [IoBuffer S] (c : TcpConnection R S K) (isOnIoThread : Bool) (stopped : K) :
    Option K × TcpConnection R S K :=
  Shutdown.stop asyncStop c isOnIoThread stopped

def Event.ofLoop [IoBuffer R] [IoBuffer S] : Event R S K → Bool
  | .run _ => true
  | .onReceive _ _ _ _ _ => true
  | .onSend _ _ _ _ => true
  | _ => false

/-! ### No handler is lost -/

section Grows

variable {c d : TcpConnection R S K}

theorem resolveOnStopped_grows : c.ioContext.Grows c.resolveOnStopped.ioContext :=
  resolveOnStopped_induction (P := fun b => c.ioContext.Grows b.ioContext) .refl
    fun _ _ _ => .post _ .refl

theorem onFailure_grows (f : TcpConnectionState) :
    c.ioContext.Grows (c.onFailure f).ioContext := by
  have hresolves := resolveOnStopped_grows (c := { c with flags := c.flags.clearFlag f })
  unfold onFailure
  dsimp only
  split <;> split
  · exact .post _ hresolves
  · exact hresolves
  · exact .post _ .refl
  · exact .refl

variable [IoBuffer R] [IoBuffer S]

omit [IoBuffer S] in
theorem asyncReceive_grows : c.ioContext.Grows c.asyncReceive.ioContext := by
  unfold asyncReceive
  dsimp only
  split
  · split
    · exact .start _ .refl
    · exact .refl
  · exact resolveOnStopped_grows (c := { c with flags := c.flags.clearFlag .startReceiving })

omit [IoBuffer R] in
theorem asyncSend_grows : c.ioContext.Grows c.asyncSend.ioContext := by
  unfold asyncSend
  split
  · exact .start _ .refl
  · exact .refl

omit [IoBuffer S] in
theorem onReceive_grows (error : ErrorCode) (n : ℕ) (callback : BufferCallback R) :
    c.ioContext.Grows (c.onReceive error n callback).ioContext := by
  unfold onReceive
  split
  · exact onFailure_grows _
  · exact asyncReceive_grows (c := { c with
      receiveBuffer :=
        if c.dataReceivedCallback then callback.apply (IoBuffer.commit c.receiveBuffer n).2
        else (IoBuffer.commit c.receiveBuffer n).2 })

omit [IoBuffer R] in
theorem onSend_grows (error : ErrorCode) (n : ℕ) :
    c.ioContext.Grows (c.onSend error n).ioContext := by
  unfold onSend
  split
  · exact onFailure_grows _
  · have hsends := asyncSend_grows
      (c := { c with sendBuffer := (IoBuffer.consume c.sendBuffer n).2 })
    dsimp only
    split
    · exact hsends.trans resolveOnStopped_grows
    · exact hsends

theorem handle_grows (h : Handler K) : c.ioContext.Grows (c.handle h).ioContext := by
  cases h with
  | cancelAsyncOperations =>
    exact resolveOnStopped_grows (c := { c with flags := c.flags.clearFlag .closing })
  | startReceiving => exact asyncReceive_grows
  | startSending =>
    unfold handle onStartSending
    dsimp only
    split
    · exact asyncSend_grows (c := { c with
        flags := (c.flags.clearFlag .startSending).setFlag .sending })
    · exact resolveOnStopped_grows (c := { c with flags := c.flags.clearFlag .startSending })
  | connectionLost =>
    unfold handle
    dsimp only
    split
    · exact .call _ .refl
    · exact .refl
  | disconnected k => exact .call _ .refl

theorem step_moves [DecidableEq K] {e : Event R S K} (hstep : c.Step e d) :
    c.ioContext.Moves d.ioContext := by
  cases e with
  | setConnectionLostCallback callback =>
    cases hstep
    exact .call .refl
  | setDataReceivedCallback callback =>
    cases hstep
    exact .call .refl
  | callQueueSendFunction callback =>
    cases hstep
    exact .call .refl
  | startSending =>
    cases hstep
    unfold startSending
    split
    · exact .call .refl
    · exact .call (.post _ .refl)
  | startReceiving =>
    cases hstep
    unfold startReceiving
    split
    · exact .call .refl
    · exact .call (.post _ .refl)
  | asyncStop k r =>
    obtain ⟨-, rfl⟩ | ⟨-, -, rfl⟩ := step_asyncStop hstep
    · exact .call .refl
    · exact .call (.post _ .refl)
  | run h =>
    obtain ⟨io, hio, rfl⟩ := step_run.mp hstep
    exact .run hio (handle_grows (c := { c with ioContext := io }) h)
  | onReceive p n error bytes callback =>
    obtain ⟨-, io, hio, rfl⟩ := step_onReceive.mp hstep
    exact .finish hio (onReceive_grows (c := { c with
      receiveBuffer := IoBuffer.store c.receiveBuffer p bytes
      ioContext := io }) error bytes.length callback)
  | onSend p bytes error n =>
    obtain ⟨-, io, hio, rfl⟩ := step_onSend.mp hstep
    exact .finish hio (onSend_grows (c := { c with ioContext := io }) error n)

theorem conserves_of_run [DecidableEq K] {m n : ℕ} {as : List (Event R S K)}
    (h : Run Step (new m n) as c) : c.ioContext.Conserves :=
  .of_run (fun _ _ _ hstep => step_moves hstep) rfl h

theorem ran_of_idle [DecidableEq K] {m n : ℕ} {as : List (Event R S K)} {k : K}
    (h : Run Step (new m n) as c) (hmem : .asyncStop (some k) true ∈ as)
    (hidle : c.ioContext.Idle) : .ran (.disconnected k) ∈ c.ioContext.log := by
  have hc := Stopping.of_run h
  have hbusy := hc.settled.tracked.busy_of_no_work fun _ => hidle.work_eq_zero
  have hnone : c.disconnectedCallback ≠ some k := by
    intro hheld
    have hwait := hc.settled.waits (by rw [hheld]; rfl)
    rw [hbusy] at hwait
    cases hwait
  have hpos : 0 < as.countP (Event.acceptsFor k) :=
    List.countP_pos_iff.mpr ⟨_, hmem, by simp [Event.acceptsFor]⟩
  rw [← hc.disconnects k, disconnects, if_neg hnone, Nat.add_zero, List.count_pos_iff] at hpos
  exact (conserves_of_run h).ran hidle hpos

theorem exists_step_of_not_idle [DecidableEq K] (h : ¬ c.ioContext.Idle) :
    ∃ e d, e.ofLoop = true ∧ c.Step e d := by
  rcases exists_take_or_finish h with ⟨x, io, hio⟩ | ⟨o, io, hio⟩
  · exact ⟨.run x, _, rfl, step_run.mpr ⟨io, hio, rfl⟩⟩
  · cases o with
    | readSome p n =>
      exact ⟨.onReceive p n .operationAborted [] ⟨id, id⟩, _, rfl,
        step_onReceive.mpr ⟨Nat.zero_le _, io, hio, rfl⟩⟩
    | write p bytes =>
      exact ⟨.onSend p bytes .operationAborted 0, _, rfl,
        step_onSend.mpr ⟨Or.inl rfl, io, hio, rfl⟩⟩

end Grows

/-! ### What is left to do -/

variable {c d : TcpConnection R LinearBuffer K}

def remaining (c : TcpConnection R LinearBuffer K) : ℕ :=
  c.ioContext.workload (fun _ => 1) (fun _ => 2) + c.disconnectedCallback.isSome.toNat +
    c.sendBuffer.unread.length

theorem resolveOnStopped_remaining : c.resolveOnStopped.remaining = c.remaining :=
  resolveOnStopped_induction (P := fun b => b.remaining = c.remaining) rfl fun k _ hk => by
    simp only [remaining, workload_post, hk, Option.isSome_some, Option.isSome_none,
      Bool.toNat_true, Bool.toNat_false]

theorem onFailure_remaining (f : TcpConnectionState) :
    (c.onFailure f).remaining ≤ c.remaining + 1 := by
  have hresolves := resolveOnStopped_remaining (c := { c with flags := c.flags.clearFlag f })
  have hpost : ∀ b : TcpConnection R LinearBuffer K,
      remaining { b with ioContext := b.ioContext.post .connectionLost } = b.remaining + 1 := by
    intro b
    simp only [remaining, workload_post]
    omega
  unfold onFailure
  dsimp only
  split <;> split
  · rw [hpost, hresolves]
    exact Nat.le_refl _
  · rw [hresolves]
    exact Nat.le_succ _
  · rw [hpost]
    exact Nat.le_refl _
  · exact Nat.le_succ _

theorem asyncReceive_remaining [IoBuffer R] (hstop : c.flags.getFlag .stopSignaled = true) :
    c.asyncReceive.remaining = c.remaining := by
  unfold asyncReceive
  simp only [Flags.getFlag_clearFlag, hstop, reduceCtorEq, decide_false, Bool.not_false,
    Bool.true_and, Bool.not_true, Bool.false_eq_true, if_false]
  exact resolveOnStopped_remaining

theorem handle_remaining [IoBuffer R] (hstop : c.flags.getFlag .stopSignaled = true)
    (h : Handler K) : (c.handle h).remaining = c.remaining := by
  cases h with
  | cancelAsyncOperations =>
    exact resolveOnStopped_remaining (c := { c with flags := c.flags.clearFlag .closing })
  | startReceiving => exact asyncReceive_remaining hstop
  | startSending =>
    change c.onStartSending.remaining = _
    rw [onStartSending_of_stopped hstop, resolveOnStopped_remaining]
    rfl
  | connectionLost =>
    unfold handle
    dsimp only
    split <;> rfl
  | disconnected k => rfl

theorem onReceive_remaining [IoBuffer R] (hstop : c.flags.getFlag .stopSignaled = true)
    (error : ErrorCode) (n : ℕ) (callback : BufferCallback R) :
    (c.onReceive error n callback).remaining ≤ c.remaining + 1 := by
  unfold onReceive
  split
  · exact onFailure_remaining _
  · exact Nat.le_succ_of_le (asyncReceive_remaining (c := { c with
      receiveBuffer :=
        if c.dataReceivedCallback then callback.apply (IoBuffer.commit c.receiveBuffer n).2
        else (IoBuffer.commit c.receiveBuffer n).2 }) hstop).le

theorem asyncSend_remaining : c.asyncSend.remaining ≤ c.remaining + 2 := by
  unfold asyncSend
  split
  · simp only [remaining, workload_start]
    omega
  · exact Nat.le_add_right _ 2

theorem onSend_remaining {n : ℕ} (hb : c.sendBuffer.Consistent) (hpos : 0 < n)
    (hle : n ≤ c.sendBuffer.size) (error : ErrorCode) :
    (c.onSend error n).remaining ≤ c.remaining + 1 := by
  have hconsumes := LinearBuffer.consume_consumes hb hle
  unfold onSend
  split
  · exact onFailure_remaining _
  · have hsends := asyncSend_remaining (c := { c with sendBuffer := (c.sendBuffer.consume n).2 })
    have htaken : remaining { c with sendBuffer := (c.sendBuffer.consume n).2 } + n =
        c.remaining := by
      have hlength := hb.unread_length
      simp only [remaining, hconsumes.unread_eq, List.length_drop]
      omega
    have hle' : (asyncSend { c with sendBuffer := (c.sendBuffer.consume n).2 }).remaining ≤
        c.remaining + 1 := by omega
    dsimp only
    split
    · rw [resolveOnStopped_remaining]
      exact hle'
    · exact hle'

/-! ### Runs -/

namespace Sender

variable [IoBuffer R] [DecidableEq K] {s t : Sender R K}

theorem Sending.step_queues {e : Event R LinearBuffer K} (he : e.Queues) (hs : s.Sending)
    (hstep : s.Step e t) : t.Sending := by
  by_cases horders : e.Orders
  · exact hs.step horders hstep
  · cases e with
    | onSend p bytes error n =>
      exact (hs.step_failed (by simpa [Event.Orders] using horders) hstep).1
    | callQueueSendFunction callback => exact absurd he horders
    | _ => exact absurd trivial horders

theorem step_remaining {e : Event R LinearBuffer K} (he : e.Queues) (hs : s.Sending)
    (hstop : s.connection.flags.getFlag .stopSignaled = true) (hstep : s.Step e t) :
    t.connection.remaining + e.ofLoop.toNat + s.committed.length ≤
      s.connection.remaining + t.committed.length := by
  obtain ⟨d, hd, rfl⟩ := step_iff.mp hstep
  cases e with
  | setConnectionLostCallback callback =>
    cases hd
    exact Nat.le_refl _
  | setDataReceivedCallback callback =>
    cases hd
    exact Nat.le_refl _
  | callQueueSendFunction callback =>
    cases hd
    have happ := (he _ hs.consistent).appends hs.consistent
    have hle : s.connection.sendBuffer.unread.length ≤
        (callback.apply s.connection.sendBuffer).unread.length := by
      rw [happ.unread_eq, List.length_append]
      exact Nat.le_add_right _ _
    simp only [record, remaining, callQueueSendFunction, Event.ofLoop, Bool.toNat_false,
      List.length_append, List.length_drop]
    omega
  | startSending =>
    cases hd
    have hsame : s.connection.startSending = s.connection := by
      simp [startSending, hstop]
    simp only [record, hsame]
    exact Nat.le_refl _
  | startReceiving =>
    cases hd
    have hsame : s.connection.startReceiving = s.connection := by
      simp [startReceiving, hstop]
    simp only [record, hsame]
    exact Nat.le_refl _
  | asyncStop k r =>
    obtain ⟨-, rfl⟩ | ⟨-, hnot, -⟩ := step_asyncStop hd
    · exact Nat.le_refl _
    · rw [hstop] at hnot
      cases hnot
  | run h =>
    obtain ⟨io, hio, rfl⟩ := step_run.mp hd
    have hload := workload_take (p := fun _ => 1) (q := fun _ => 2) hio
    have hsame := handle_remaining (c := { s.connection with ioContext := io }) hstop h
    simp only [record, remaining, Event.ofLoop, Bool.toNat_true] at hsame ⊢
    omega
  | onReceive p n error bytes callback =>
    obtain ⟨-, io, hio, rfl⟩ := step_onReceive.mp hd
    have hload := workload_finish (p := fun _ => 1) (q := fun _ => 2) hio
    have hle := onReceive_remaining (c := { s.connection with
      receiveBuffer := IoBuffer.store s.connection.receiveBuffer p bytes
      ioContext := io }) hstop error bytes.length callback
    simp only [record, remaining, Event.ofLoop, Bool.toNat_true] at hle ⊢
    omega
  | onSend p bytes error n =>
    obtain ⟨hlen, io, hio, rfl⟩ := step_onSend.mp hd
    have hload := workload_finish (p := fun _ => 1) (q := fun _ => 2) hio
    obtain ⟨-, hne, hprefix⟩ := hs.front p bytes (finish_eq_some.mp hio).1
    have hle := hprefix.length_le
    rw [hs.consistent.unread_length] at hle
    have hafter : (({ s.connection with ioContext := io } :
        TcpConnection R LinearBuffer K).onSend error n).remaining ≤
          remaining { s.connection with ioContext := io } + 1 := by
      rcases hlen with hfailed | rfl
      · rw [onSend, if_pos hfailed]
        exact onFailure_remaining _
      · exact onSend_remaining (c := { s.connection with ioContext := io }) hs.consistent
          (List.length_pos_of_ne_nil hne) hle error
    simp only [record, remaining, Event.ofLoop, Bool.toNat_true] at hafter ⊢
    omega

theorem sending_of_run {m n : ℕ} {as : List (Event R LinearBuffer K)}
    (h : Run Step (start m n) as s) (hqueues : ∀ a ∈ as, a.Queues) : s.Sending :=
  h.invariant_of_forall (I := Sending) (fun _ _ _ ha hs hstep => hs.step_queues ha hstep) hqueues
    (start_sending m n)

theorem connection_of_step {e : Event R LinearBuffer K} (hstep : s.Step e t) :
    s.connection.Step e t.connection := by
  obtain ⟨d, hd, rfl⟩ := step_iff.mp hstep
  cases e <;> exact hd

theorem exists_step {e : Event R LinearBuffer K} (hstep : s.connection.Step e d) :
    ∃ t, s.Step e t := ⟨_, step_iff.mpr ⟨d, hstep, rfl⟩⟩

theorem ofLoop_le {as : List (Event R LinearBuffer K)} (h : Run Step s as t)
    (hqueues : ∀ a ∈ as, a.Queues) (hs : s.Sending)
    (hstop : s.connection.flags.getFlag .stopSignaled = true) :
    as.countP Event.ofLoop + s.committed.length ≤
      s.connection.remaining + t.committed.length := by
  have hcount := h.countP_add_le
    (I := fun s => s.Sending ∧ s.connection.flags.getFlag .stopSignaled = true) (p := Event.Queues)
    Event.ofLoop (fun _ => false) 0 (fun s => s.connection.remaining) (fun s => s.committed.length)
    (fun _ _ _ he hs hstep => ⟨⟨hs.1.step_queues he hstep,
      step_stopSignaled (connection_of_step hstep) hs.2⟩, step_remaining he hs.1 hs.2 hstep⟩)
    hqueues ⟨hs, hstop⟩
  omega

end Sender

/-- `stop()` of a connection with callbacks that only queue bytes. Behind it the loop and the socket
make only so many steps, and as many more as bytes are queued behind it; and until the callback that
it waits for has been called, there is a step that they can make. It may be the end of a write that
was started behind the stop, and that nothing cancels. -/
theorem connection_stop_returns [IoBuffer R] [DecidableEq K] (m n : ℕ)
    (as : List (Event R LinearBuffer K)) (s : Sender R K) (h : Run Sender.Step (.start m n) as s)
    (hqueues : ∀ a ∈ as, a.Queues) (onIoThread : Bool) (j k : K)
    (d : TcpConnection R LinearBuffer K) (hstop : s.connection.stop onIoThread k = (some j, d))
    (bs : List (Event R LinearBuffer K)) (t : Sender R K)
    (h' : Run Sender.Step { s with connection := d } bs t) (hqueues' : ∀ a ∈ bs, a.Queues) :
    bs.countP Event.ofLoop + s.committed.length ≤ s.connection.ioContext.posted.length +
        2 * s.connection.ioContext.operations.length + s.connection.sendBuffer.unread.length + 2 +
        t.committed.length ∧
      (.ran (.disconnected j) ∈ t.connection.ioContext.log ∨
        ∃ a u, a.ofLoop = true ∧ t.Step a u) := by
  obtain ⟨rfl, haccepted⟩ := Shutdown.stop_eq_some hstop
  have hstep : s.connection.Step (.asyncStop (some j) true) d := returned_iff.mpr haccepted
  have hstep' : s.Step (.asyncStop (some j) true) { s with connection := d } :=
    Sender.step_iff.mpr ⟨d, hstep, rfl⟩
  have hs := (Sender.sending_of_run h hqueues).step_queues (e := .asyncStop (some j) true) trivial
    hstep'
  have hwhole : Run Step (new m n) (as ++ [.asyncStop (some j) true] ++ bs) t.connection :=
    ((h.append (.single hstep')).append h').simulates (I := fun _ => True)
      (f := Sender.connection) (fun _ _ _ _ _ => trivial)
      (fun _ _ _ _ hstep => Sender.connection_of_step hstep) trivial
  constructor
  · obtain ⟨hfalse, -⟩ | ⟨-, -, rfl⟩ := step_asyncStop hstep
    · cases hfalse
    have hle := Sender.ofLoop_le h' hqueues' hs (by simp)
    have hload := workload_le (p := fun _ => 1) (q := fun _ => 2) (m := 1) (n := 2)
      (fun _ => Nat.le_refl 1) (fun _ => Nat.le_refl 2) s.connection.ioContext
    simp only [remaining, workload_post, Option.isSome_some, Bool.toNat_true] at hle
    omega
  · by_cases hidle : t.connection.ioContext.Idle
    · left
      exact ran_of_idle hwhole (by simp) hidle
    · right
      obtain ⟨a, d', ha, hd'⟩ := exists_step_of_not_idle hidle
      obtain ⟨u, hu⟩ := Sender.exists_step hd'
      exact ⟨a, u, ha, hu⟩

theorem connection_stop_returns_writing : ∃ s t : Sender LinearBuffer ℕ,
    Run Sender.Step { s with connection := (s.connection.stop false 7).2 }
      [.run .cancelAsyncOperations, .callQueueSendFunction (.write [4]),
        .onSend 0 [1] .success 1] t ∧ t.committed.length = s.committed.length + 1 ∧
    (.ran (.disconnected 7) ∈ t.connection.ioContext.log ∨
      ∃ a u, a.ofLoop = true ∧ t.Step a u) := by
  obtain ⟨s, t, hrun, hstop, hrest, hlength⟩ : ∃ s t : Sender LinearBuffer ℕ,
      Run Sender.Step (.start 4 4) [.callQueueSendFunction (.write [1]), .startSending,
        .run .startSending, .callQueueSendFunction (.write [2, 3])] s ∧
      (s.connection.stop false 7).1 = some 7 ∧
      Run Sender.Step { s with connection := (s.connection.stop false 7).2 }
        [.run .cancelAsyncOperations, .callQueueSendFunction (.write [4]),
          .onSend 0 [1] .success 1] t ∧ t.committed.length = s.committed.length + 1 :=
    ⟨_, _, Run.iff_foldlM.mpr rfl, rfl, Run.iff_foldlM.mpr rfl, rfl⟩
  have hreturns := connection_stop_returns 4 4 _ s hrun
    (by simp [Event.Queues, BufferCallback.write_queuesOnly]) false 7 7 _ (Prod.ext hstop rfl) _ t
    hrest (by simp [Event.Queues, BufferCallback.write_queuesOnly])
  exact ⟨s, t, hrest, hlength, hreturns.2⟩

end Eestv.Net.TcpConnection
