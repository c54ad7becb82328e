import Eestv.Library.Shutdown
import Eestv.Net.UdpDiscoveryServerStop

/-! `stop()` of the discovery's server, which the destructor calls: it waits in a loop of its own
for the callback that it hands to `async_stop`. -/

namespace Eestv.Net.UdpDiscoveryServer
open Runs IoContext

variable {A K : Type} {c d : UdpDiscoveryServer A K}

def stop (c : UdpDiscoveryServer A K) (isOnIoThread : Bool) (stopped : K) :
    Option K × UdpDiscoveryServer A K :=
  Shutdown.stop asyncStop c isOnIoThread stopped

def Event.ofLoop : Event A K → Bool
  | .run _ => true
  | .handleReceive _ _ _ => true
  | .handleSend _ _ _ => true
  | _ => false

/-! ### No handler is lost -/

theorem resolveOnStopped_grows : c.ioContext.Grows c.resolveOnStopped.ioContext :=
  resolveOnStopped_induction (P := fun b => c.ioContext.Grows b.ioContext) .refl
    fun _ _ => .post _ .refl

theorem onStop_grows : c.ioContext.Grows c.onStop.ioContext :=
  onStop_induction (P := fun b => c.ioContext.Grows b.ioContext) .refl fun _ _ => .post _ .refl

theorem handle_grows (h : Handler K) : c.ioContext.Grows (c.handle h).ioContext := by
  cases h with
  | start =>
    unfold handle onStart
    dsimp only
    split
    · exact .start _ .refl
    · exact resolveOnStopped_grows
  | stop => exact onStop_grows
  | stopped k => exact .call _ .refl

theorem sendReply_grows (reply : List UInt8) :
    c.ioContext.Grows (c.sendReply reply).ioContext := by
  unfold sendReply
  split
  · exact .start _ .refl
  · exact .refl

theorem goOn_grows : c.ioContext.Grows c.goOn.ioContext := by
  unfold goOn
  split
  · exact .start _ .refl
  · exact resolveOnStopped_grows (c := { c with flags := c.flags.clearFlag .receivingAsync })

/-! ### What is left to do -/

/-- A reception may start one more send. -/
def Operation.weight : Operation A → ℕ
  | .receiveFrom => 2
  | .sendTo _ _ => 1

theorem Operation.weight_le (o : Operation A) : o.weight ≤ 2 := by
  cases o with
  | receiveFrom => exact Nat.le_refl 2
  | sendTo buffer endpoint => exact Nat.le_succ 1

def remaining (c : UdpDiscoveryServer A K) : ℕ :=
  c.ioContext.workload (fun _ => 1) Operation.weight + c.onStopped.isSome.toNat

theorem resolveOnStopped_remaining : c.resolveOnStopped.remaining = c.remaining :=
  resolveOnStopped_induction (P := fun b => b.remaining = c.remaining) rfl fun k hk => by
    simp [remaining, hk]

theorem onStop_remaining : c.onStop.remaining = c.remaining :=
  onStop_induction (P := fun b => b.remaining = c.remaining) rfl fun k hk => by
    simp [remaining, hk]

theorem handle_remaining (hstop : c.flags.getFlag .stopping = true) (h : Handler K) :
    (c.handle h).remaining = c.remaining := by
  cases h with
  | start =>
    unfold handle onStart
    rw [hstop]
    exact resolveOnStopped_remaining
  | stop => exact onStop_remaining
  | stopped k => rfl

theorem sendReply_remaining (reply : List UInt8) :
    (c.sendReply reply).remaining ≤ c.remaining + 1 := by
  unfold sendReply
  split
  · simp only [remaining, workload_start, Operation.weight]
    omega
  · exact Nat.le_succ _

theorem goOn_remaining (hstop : c.flags.getFlag .stopping = true) :
    c.goOn.remaining = c.remaining := by
  unfold goOn
  rw [hstop]
  exact resolveOnStopped_remaining

theorem handleReceive_grows (error : ErrorCode) (n : ℕ) :
    c.ioContext.Grows (c.handleReceive error n).ioContext := by
  rw [handleReceive_eq]
  exact (sendReply_grows _).trans goOn_grows

theorem handleReceive_remaining (hstop : c.flags.getFlag .stopping = true) (error : ErrorCode)
    (n : ℕ) : (c.handleReceive error n).remaining ≤ c.remaining + 1 := by
  rw [handleReceive_eq, goOn_remaining]
  · exact sendReply_remaining _
  · unfold sendReply
    split
    · simp [hstop]
    · exact hstop

section Steps

variable [DecidableEq A] [DecidableEq K]

theorem step_moves {e : Event A K} (hstep : c.Step e d) : c.ioContext.Moves d.ioContext := by
  cases e with
  | addDiscoverable discoverable =>
    cases hstep
    obtain ⟨discoverables, heq⟩ := addDiscoverable_eq c discoverable
    rw [heq]
    exact .call .refl
  | asyncStart r =>
    obtain rfl | ⟨-, -, rfl⟩ := step_asyncStart hstep
    · exact .call .refl
    · exact .call (.post _ .refl)
  | asyncStop k r =>
    obtain ⟨-, rfl⟩ | ⟨-, -, rfl⟩ := step_asyncStop hstep
    · exact .call .refl
    · exact .call (.post _ .refl)
  | reset =>
    cases hstep
    exact .call .refl
  | run h =>
    obtain ⟨io, hio, rfl⟩ := step_run.mp hstep
    exact .run hio (handle_grows (c := { c with ioContext := io }) h)
  | handleReceive error datagram a =>
    obtain ⟨-, io, hio, rfl⟩ := step_handleReceive.mp hstep
    have hgrows := handleReceive_grows (c := received { c with ioContext := io } error datagram a)
      error datagram.length
    obtain ⟨buffer, b, heq⟩ := received_eq { c with ioContext := io } error datagram a
    rw [heq] at hgrows ⊢
    exact .finish hio hgrows
  | handleSend buffer a error =>
    obtain ⟨io, hio, rfl⟩ := step_handleSend.mp hstep
    exact .finish hio (resolveOnStopped_grows
      (c := { c with flags := c.flags.clearFlag .sendingAsync, ioContext := io }))

theorem step_remaining {e : Event A K} (he : e ≠ .reset)
    (hstop : c.flags.getFlag .stopping = true) (hstep : c.Step e d) :
    d.remaining + e.ofLoop.toNat ≤ c.remaining := by
  cases e with
  | addDiscoverable discoverable =>
    cases hstep
    obtain ⟨discoverables, heq⟩ := addDiscoverable_eq c discoverable
    rw [heq]
    exact Nat.le_refl _
  | asyncStart r =>
    obtain rfl | ⟨-, hnot, -⟩ := step_asyncStart hstep
    · exact Nat.le_refl _
    · rw [hstop] at hnot
      cases hnot
  | asyncStop k r =>
    obtain ⟨-, rfl⟩ | ⟨-, hnot, -⟩ := step_asyncStop hstep
    · exact Nat.le_refl _
    · rw [hstop] at hnot
      cases hnot
  | reset => exact absurd rfl he
  | run h =>
    obtain ⟨io, hio, rfl⟩ := step_run.mp hstep
    have hload := workload_take (p := fun _ => 1) (q := Operation.weight) hio
    have hsame := handle_remaining (c := { c with ioContext := io }) hstop h
    simp only [remaining, Event.ofLoop, Bool.toNat_true] at hsame ⊢
    omega
  | handleReceive error datagram a =>
    obtain ⟨-, io, hio, rfl⟩ := step_handleReceive.mp hstep
    have hload := workload_finish (p := fun _ => 1) (q := Operation.weight) hio
    obtain ⟨buffer, b, heq⟩ := received_eq { c with ioContext := io } error datagram a
    have hle := handleReceive_remaining
      (c := { c with remoteEndpoint := b, recvBuffer := buffer, ioContext := io }) hstop error
      datagram.length
    rw [heq]
    simp only [remaining, Event.ofLoop, Bool.toNat_true, Operation.weight] at hle hload ⊢
    omega
  | handleSend buffer a error =>
    obtain ⟨io, hio, rfl⟩ := step_handleSend.mp hstep
    have hload := workload_finish (p := fun _ => 1) (q := Operation.weight) hio
    have hsame := resolveOnStopped_remaining
      (c := { c with flags := c.flags.clearFlag .sendingAsync, ioContext := io })
    simp only [remaining, handleSend, Event.ofLoop, Bool.toNat_true, Operation.weight]
      at hsame hload ⊢
    omega

theorem conserves_of_run [Inhabited A] {as : List (Event A K)} (h : Run Step new as c) :
    c.ioContext.Conserves :=
  .of_run (fun _ _ _ hstep => step_moves hstep) rfl h

theorem ofLoop_le {as : List (Event A K)} (h : Run Step c as d) (hreset : .reset ∉ as)
    (hstop : c.flags.getFlag .stopping = true) :
    as.countP Event.ofLoop ≤ c.remaining := by
  have hcount := h.countP_add_le (I := fun s => s.flags.getFlag .stopping = true)
    (p := (· ≠ .reset)) Event.ofLoop (fun _ => false) 0 remaining (fun _ => 0)
    (fun _ _ _ he hs hstep => ⟨(step_handover he hstep).signaled hs, step_remaining he hs hstep⟩)
    (fun _ he => ne_of_mem_of_not_mem he hreset) hstop
  omega

theorem ran_of_idle [Inhabited A] {as : List (Event A K)} {k : K} (h : Run Step new as c)
    (hreset : .reset ∉ as) (hmem : .asyncStop (some k) true ∈ as) (hidle : c.ioContext.Idle) :
    .ran (.stopped k) ∈ c.ioContext.log := by
  have hnone := (Stoppable.of_run h hreset).waits.onStopped_of_idle hidle
  have hhas := Handover.has_of_run (run_handover h hreset) hmem rfl
  exact (conserves_of_run h).ran_of_has hidle Handler.stopCallback_iff hhas hnone

theorem exists_step_of_not_idle (h : ¬ c.ioContext.Idle) :
    ∃ e d, e.ofLoop = true ∧ c.Step e d := by
  rcases exists_take_or_finish h with ⟨x, io, hio⟩ | ⟨o, io, hio⟩
  · exact ⟨.run x, _, rfl, step_run.mpr ⟨io, hio, rfl⟩⟩
  · cases o with
    | receiveFrom =>
      exact ⟨.handleReceive .operationAborted [] c.remoteEndpoint, _, rfl,
        step_handleReceive.mpr ⟨Nat.zero_le _, io, hio, rfl⟩⟩
    | sendTo buffer endpoint =>
      exact ⟨.handleSend buffer endpoint .operationAborted, _, rfl,
        step_handleSend.mpr ⟨io, hio, rfl⟩⟩

/-- `stop()` from a state that is reached without a reset, and not followed by one. Behind it the
loop and the socket make only so many steps, whatever else is called; and until the callback that it
waits for has been called, there is a step that they can make. -/
theorem server_stop_returns [Inhabited A] (as : List (Event A K)) (c : UdpDiscoveryServer A K)
    (h : Run Step new as c) (hreset : .reset ∉ as) (onIoThread : Bool) (j k : K)
    (d : UdpDiscoveryServer A K) (hstop : c.stop onIoThread k = (some j, d))
    (bs : List (Event A K)) (e : UdpDiscoveryServer A K) (h' : Run Step d bs e)
    (hreset' : .reset ∉ bs) :
    bs.countP Event.ofLoop ≤ c.ioContext.posted.length + 2 * c.ioContext.operations.length + 2 ∧
      (.ran (.stopped j) ∈ e.ioContext.log ∨ ∃ a f, a.ofLoop = true ∧ e.Step a f) := by
  obtain ⟨rfl, haccepted⟩ := Shutdown.stop_eq_some hstop
  have hstep : c.Step (.asyncStop (some j) true) d := returned_iff.mpr haccepted
  have hwhole := (h.append (.single hstep)).append h'
  constructor
  · obtain ⟨hfalse, -⟩ | ⟨-, -, rfl⟩ := step_asyncStop hstep
    · cases hfalse
    have hle := ofLoop_le h' hreset' (by simp)
    have hload := workload_le (p := fun _ => 1) (m := 1) (fun _ => Nat.le_refl 1)
      Operation.weight_le c.ioContext
    simp only [remaining, workload_post, Option.isSome_some, Bool.toNat_true] at hle
    omega
  · by_cases hidle : e.ioContext.Idle
    · left
      apply ran_of_idle hwhole _ _ hidle
      · simp [hreset, hreset']
      · simp
    · exact Or.inr (exists_step_of_not_idle hidle)

end Steps

theorem server_stop_returns_replying : ∃ c e : UdpDiscoveryServer ℕ ℕ,
    Run Step (c.stop false 3).2 [.handleReceive .operationAborted [] 0, .run .stop,
      .handleSend [9] 1 .success] e ∧
    (.ran (.stopped 3) ∈ e.ioContext.log ∨ ∃ a f, a.ofLoop = true ∧ e.Step a f) := by
  obtain ⟨c, e, hrun, hstop, hrest⟩ : ∃ c e : UdpDiscoveryServer ℕ ℕ,
      Run Step new [.addDiscoverable ⟨[7], fun _ => [9]⟩, .asyncStart true, .run .start,
        .handleReceive .success [7] 1] c ∧
      (c.stop false 3).1 = some 3 ∧
      Run Step (c.stop false 3).2 [.handleReceive .operationAborted [] 0, .run .stop,
        .handleSend [9] 1 .success] e :=
    ⟨_, _, Run.iff_foldlM.mpr rfl, rfl, Run.iff_foldlM.mpr rfl⟩
  have hreturns := server_stop_returns _ c hrun (by simp) false 3 3 _ (Prod.ext hstop rfl) _ e hrest
    (by simp)
  exact ⟨c, e, hrest, hreturns.2⟩

end Eestv.Net.UdpDiscoveryServer
