import Eestv.Library.FlagMirror
import Eestv.Library.Handover
import Eestv.Net.UdpDiscoveryServer

/-! The flags of the discovery's server and the work that they stand for. The flag of the sends
is shared: it is set by each of them, and cleared by the first that ends. -/

namespace Eestv.Net.UdpDiscoveryServer
open Runs IoContext

variable {A K : Type} {c d : UdpDiscoveryServer A K}

def Handler.flag : Handler K → Option UdpDiscoveryState
  | .start => some .running
  | .stop => none
  | .stopped _ => none

theorem Handler.flag_ne {f : UdpDiscoveryState} (hf : f ≠ .running) (h : Handler K) :
    h.flag ≠ some f := by
  cases h <;> simp [flag, hf.symm]

def Operation.flag : Operation A → Option UdpDiscoveryState
  | .receiveFrom => some .receivingAsync
  | .sendTo _ _ => some .sendingAsync

def receives (c : UdpDiscoveryServer A K) : ℕ :=
  c.ioContext.operations.countP (·.flag = some .receivingAsync)

def Mirrors (c : UdpDiscoveryServer A K) (hand : Option UdpDiscoveryState) : Prop :=
  FlagMirror [.receivingAsync, .sendingAsync] [.running, .receivingAsync] Handler.flag
    Operation.flag c.flags.getFlag c.ioContext hand

def Live (c : UdpDiscoveryServer A K) : Prop :=
  c.flags.getFlag .running = true ∧ c.ioContext.work Handler.flag Operation.flag .running = 0

/-! ### A reception in three steps -/

def reply (c : UdpDiscoveryServer A K) (error : ErrorCode) (n : ℕ) : List UInt8 :=
  if error.failed then []
  else if n > 0 then
    match c.discoverables.lookup (c.recvBuffer.take n) with
    | some discoverable => discoverable.getReply c.remoteEndpoint
    | none => []
  else []

def sendReply (c : UdpDiscoveryServer A K) (reply : List UInt8) : UdpDiscoveryServer A K :=
  if !reply.isEmpty then
    { c with
      flags := c.flags.setFlag .sendingAsync
      ioContext := c.ioContext.start (.sendTo reply c.remoteEndpoint) }
  else c

def goOn (c : UdpDiscoveryServer A K) : UdpDiscoveryServer A K :=
  if !c.flags.getFlag .stopping then { c with ioContext := c.ioContext.start .receiveFrom }
  else { c with flags := c.flags.clearFlag .receivingAsync }.resolveOnStopped

theorem handleReceive_eq (error : ErrorCode) (n : ℕ) :
    c.handleReceive error n = (c.sendReply (c.reply error n)).goOn := by
  unfold handleReceive reply
  split
  · rfl
  · split
    · rfl
    · rfl

theorem resolveOnStopped_induction {P : UdpDiscoveryServer A K → Prop} (hc : P c)
    (hpost : ∀ k, c.onStopped = some k → P { c with
      onStopped := none
      ioContext := c.ioContext.post (.stopped k) }) : P c.resolveOnStopped := by
  unfold resolveOnStopped
  split
  · split
    · split
      · exact hpost _ ‹_›
      · exact hc
    · exact hc
  · exact hc

theorem onStop_induction {P : UdpDiscoveryServer A K → Prop} (hc : P c)
    (hpost : ∀ k, c.onStopped = some k → P { c with
      onStopped := none
      ioContext := c.ioContext.post (.stopped k) }) : P c.onStop := by
  unfold onStop
  split
  · exact hc
  · split
    · exact hpost _ ‹_›
    · exact hc

@[simp] theorem resolveOnStopped_flags : c.resolveOnStopped.flags = c.flags :=
  resolveOnStopped_induction (P := fun d => d.flags = c.flags) rfl fun _ _ => rfl

@[simp] theorem resolveOnStopped_operations :
    c.resolveOnStopped.ioContext.operations = c.ioContext.operations :=
  resolveOnStopped_induction
    (P := fun d => d.ioContext.operations = c.ioContext.operations) rfl fun _ _ => rfl

structure Tracked (c : UdpDiscoveryServer A K) (hand : Option UdpDiscoveryState) : Prop where
  mirrors : c.Mirrors hand
  fresh : ¬ c.Live → c.ioContext.operations = [] ∧ hand = none

namespace Tracked

theorem new [Inhabited A] : (new : UdpDiscoveryServer A K).Tracked none := by
  refine ⟨?_, fun _ => ⟨rfl, rfl⟩⟩
  exact FlagMirror.of_clear Flags.getFlag_empty fun _ => rfl

theorem post {h : Handler K} {k : Option K} (hc : c.Tracked none) (hh : h.flag = none) :
    Tracked { c with onStopped := k, ioContext := c.ioContext.post h } none := by
  have hm := hc.mirrors
  refine ⟨?_, ?_⟩
  · apply FlagMirror.post
    rwa [hh]
  · simpa [Live, hh] using hc.fresh

theorem resolveOnStopped (hc : c.Tracked none) : c.resolveOnStopped.Tracked none :=
  resolveOnStopped_induction (P := fun d => d.Tracked none) hc fun _ _ => hc.post rfl

theorem onStop (hc : c.Tracked none) : c.onStop.Tracked none :=
  onStop_induction (P := fun d => d.Tracked none) hc fun _ _ => hc.post rfl

theorem call {hand : Option UdpDiscoveryState} {x : Call K} (hc : c.Tracked hand) :
    Tracked { c with ioContext := c.ioContext.call x } hand :=
  ⟨FlagMirror.call hc.mirrors, hc.fresh⟩

theorem live {f : UdpDiscoveryState} (hc : c.Tracked (some f)) : c.Live := by
  by_contra hnot
  cases (hc.fresh hnot).2

theorem clear {f : UdpDiscoveryState} (hc : c.Tracked (some f))
    (hf : f = .receivingAsync ∨ f = .sendingAsync) :
    Tracked { c with flags := c.flags.clearFlag f } none := by
  refine ⟨Flags.mirror_clearFlag hc.mirrors, fun hnot => absurd ⟨?_, hc.live.2⟩ hnot⟩
  rcases hf with rfl | rfl <;> simpa using hc.live.1

theorem take [DecidableEq K] {h : Handler K} {io : IoContext (Handler K) (Operation A) (Call K)}
    (hc : c.Tracked none) (hh : h.flag = none) (hio : c.ioContext.take h = some io) :
    Tracked { c with ioContext := io } none := by
  have hm := FlagMirror.take hc.mirrors hio
  have hwork := work_take (p := Handler.flag) (q := Operation.flag) (f := .running) hio
  rw [hh] at hm hwork
  refine ⟨hm, ?_⟩
  intro hnot
  have hsame : io.operations = c.ioContext.operations := by
    rw [(take_eq_some.mp hio).2]
  rw [hsame]
  apply hc.fresh
  simpa [Live, ← hwork] using hnot

theorem finish [DecidableEq A] {o : Operation A}
    {io : IoContext (Handler K) (Operation A) (Call K)} (hc : c.Tracked none)
    (hio : c.ioContext.finish o = some io) : Tracked { c with ioContext := io } o.flag := by
  refine ⟨FlagMirror.finish hc.mirrors hio, ?_⟩
  intro hnot
  have hwork := work_finish (p := Handler.flag) (q := Operation.flag) (f := .running) hio
  have hno : o.flag ≠ some .running := by
    cases o <;> simp [Operation.flag]
  rw [if_neg hno, Nat.add_zero] at hwork
  have hempty := (hc.fresh (by simpa [Live, ← hwork] using hnot)).1
  have hmem := (finish_eq_some.mp hio).1
  rw [hempty] at hmem
  cases hmem

theorem receives_eq (hc : c.Tracked none) :
    c.receives = (c.flags.getFlag .receivingAsync).toNat := by
  rw [← hc.mirrors.work_eq (by decide) (by decide),
    work_of_operations (Handler.flag_ne (by decide)), receives]

theorem takeStart [DecidableEq K] {io : IoContext (Handler K) (Operation A) (Call K)}
    (hc : c.Tracked none) (hio : c.ioContext.take .start = some io) :
    Tracked { c with ioContext := io } none ∧ Live { c with ioContext := io } ∧
      io.operations = [] := by
  obtain ⟨hmem, hafter⟩ := take_eq_some.mp hio
  have hwork := work_take (p := Handler.flag) (q := Operation.flag) (f := .running) hio
  have hle := hc.mirrors.work_le (f := .running) (by decide)
  have hbool := Bool.toNat_le (c.flags.getFlag .running)
  rw [show Handler.flag .start = some .running from rfl, if_pos rfl] at hwork
  have hlive : Live { c with ioContext := io } := by
    refine ⟨?_, ?_⟩
    · rw [← Bool.toNat_eq_one]
      dsimp only
      omega
    · dsimp only
      omega
  refine ⟨⟨?_, fun hnot => absurd hlive hnot⟩, hlive, ?_⟩
  · exact FlagMirror.release (FlagMirror.take hc.mirrors hio) (by decide)
  · have hempty := (hc.fresh fun h => ?_).1
    · rw [hafter]
      exact hempty
    · rw [h.2] at hwork
      cases hwork

theorem onStart (hc : c.Tracked none) (hlive : c.Live) (hnone : c.ioContext.operations = []) :
    c.onStart.Tracked none := by
  unfold UdpDiscoveryServer.onStart
  split
  · have hset := Flags.mirror_setFlag hc.mirrors
      (hc.mirrors.flag_of_operations (f := .receivingAsync) (by decide)
        (Handler.flag_ne (by decide)) hnone)
    refine ⟨FlagMirror.start (o := Operation.receiveFrom) hset, fun hnot => absurd ⟨?_, ?_⟩ hnot⟩
    · simp [startReceive, hlive.1]
    · simp [startReceive, Operation.flag, hlive.2]
  · exact hc.resolveOnStopped

theorem sendReply {f : UdpDiscoveryState} (hc : c.Tracked (some f)) (reply : List UInt8) :
    (c.sendReply reply).Tracked (some f) := by
  unfold UdpDiscoveryServer.sendReply
  split
  · refine ⟨?_, fun hnot => absurd ⟨?_, ?_⟩ hnot⟩
    · exact Flags.mirror_raise (o := Operation.sendTo reply c.remoteEndpoint) hc.mirrors rfl
        (by decide)
    · simp [hc.live.1]
    · simp [Operation.flag, hc.live.2]
  · exact hc

theorem goOn (hc : c.Tracked (some .receivingAsync)) : c.goOn.Tracked none := by
  unfold UdpDiscoveryServer.goOn
  split
  · refine ⟨?_, fun hnot => absurd ⟨hc.live.1, ?_⟩ hnot⟩
    · exact FlagMirror.start (o := Operation.receiveFrom) hc.mirrors
    · simp [Operation.flag, hc.live.2]
  · exact (hc.clear (by decide)).resolveOnStopped

theorem handleReceive (hc : c.Tracked (some .receivingAsync)) (error : ErrorCode) (n : ℕ) :
    (c.handleReceive error n).Tracked none := by
  rw [handleReceive_eq]
  exact (hc.sendReply _).goOn

theorem handleSend (hc : c.Tracked (some .sendingAsync)) (error : ErrorCode) :
    (c.handleSend error).Tracked none :=
  (hc.clear (by decide)).resolveOnStopped

end Tracked

section Steps

variable [DecidableEq A] [DecidableEq K]

theorem step_asyncStart {r : Bool} (hstep : c.Step (.asyncStart r) d) :
    d = c ∨ c.flags.getFlag .running = false ∧ c.flags.getFlag .stopping = false ∧ d = { c with
      flags := c.flags.setFlag .running
      ioContext := c.ioContext.post .start } := by
  have h := returned_iff.mp hstep
  unfold asyncStart at h
  split at h
  · cases h
    exact Or.inl rfl
  · rename_i hnot
    cases h
    simp only [Bool.or_eq_true, not_or, Bool.not_eq_true] at hnot
    exact Or.inr ⟨hnot.1, hnot.2, rfl⟩

theorem step_asyncStop {k : Option K} {r : Bool} (hstep : c.Step (.asyncStop k r) d) :
    r = false ∧ d = c ∨ r = true ∧ c.flags.getFlag .stopping = false ∧ d = { c with
      flags := c.flags.setFlag .stopping
      onStopped := k
      ioContext := c.ioContext.post .stop } := by
  have h := returned_iff.mp hstep
  unfold asyncStop at h
  split at h
  · cases h
    exact Or.inl ⟨rfl, rfl⟩
  · rename_i hnot
    cases h
    exact Or.inr ⟨rfl, by simpa using hnot, rfl⟩

theorem step_run {h : Handler K} : c.Step (.run h) d ↔
    ∃ io, c.ioContext.take h = some io ∧
      ({ c with ioContext := io } : UdpDiscoveryServer A K).handle h = d :=
  Option.map_eq_some_iff

theorem step_handleSend {buffer : List UInt8} {a : A} {error : ErrorCode} :
    c.Step (.handleSend buffer a error) d ↔
      ∃ io, c.ioContext.finish (.sendTo buffer a) = some io ∧
        ({ c with ioContext := io } : UdpDiscoveryServer A K).handleSend error = d :=
  Option.map_eq_some_iff

def received (c : UdpDiscoveryServer A K) (error : ErrorCode) (datagram : List UInt8)
    (remoteEndpoint : A) : UdpDiscoveryServer A K :=
  if error.failed then c else c.receive datagram remoteEndpoint

omit [DecidableEq A] [DecidableEq K] in
theorem received_of_success {error : ErrorCode} {datagram : List UInt8} {a : A}
    (herror : ¬ error.failed = true) : c.received error datagram a = c.receive datagram a :=
  if_neg herror

omit [DecidableEq A] [DecidableEq K] in
theorem receive_reply {error : ErrorCode} {datagram : List UInt8} {a : A}
    (herror : ¬ error.failed = true) (hempty : datagram ≠ []) :
    (c.receive datagram a).reply error datagram.length =
      match c.discoverables.lookup datagram with
      | some discoverable => discoverable.getReply a
      | none => [] := by
  have htake : (c.receive datagram a).recvBuffer.take datagram.length = datagram :=
    List.take_left' rfl
  unfold reply
  rw [if_neg herror, if_pos (List.length_pos_of_ne_nil hempty), htake]
  rfl

theorem step_handleReceive {error : ErrorCode} {datagram : List UInt8} {a : A} :
    c.Step (.handleReceive error datagram a) d ↔
      datagram.length ≤ recvBufferSize ∧ ∃ io, c.ioContext.finish .receiveFrom = some io ∧
        (({ c with ioContext := io } : UdpDiscoveryServer A K).received error datagram
          a).handleReceive error datagram.length = d :=
  Option.ite_none_right_eq_some.trans (and_congr_right fun _ => Option.map_eq_some_iff)

omit [DecidableEq A] [DecidableEq K] in
theorem received_eq (c : UdpDiscoveryServer A K) (error : ErrorCode) (datagram : List UInt8)
    (a : A) : ∃ buffer b, c.received error datagram a =
      { c with recvBuffer := buffer, remoteEndpoint := b } := by
  unfold received
  split
  · exact ⟨_, _, rfl⟩
  · exact ⟨_, _, rfl⟩

omit [DecidableEq A] [DecidableEq K] in
theorem Tracked.received {hand : Option UdpDiscoveryState} (hc : c.Tracked hand)
    (error : ErrorCode) (datagram : List UInt8) (a : A) :
    (c.received error datagram a).Tracked hand := by
  obtain ⟨buffer, b, heq⟩ := received_eq c error datagram a
  rw [heq]
  exact ⟨hc.mirrors, hc.fresh⟩

omit [DecidableEq A] [DecidableEq K] in
theorem addDiscoverable_eq (c : UdpDiscoveryServer A K) (discoverable : Discoverable A) :
    ∃ discoverables, c.addDiscoverable discoverable = { c with discoverables := discoverables } := by
  unfold addDiscoverable
  split
  · exact ⟨_, rfl⟩
  · exact ⟨_, rfl⟩

theorem Tracked.step {e : Event A K} (he : e ≠ .reset) (hc : c.Tracked none)
    (hstep : c.Step e d) : d.Tracked none := by
  cases e with
  | addDiscoverable discoverable =>
    cases hstep
    obtain ⟨discoverables, heq⟩ := addDiscoverable_eq c discoverable
    rw [heq]
    exact ⟨hc.mirrors, hc.fresh⟩
  | asyncStart r =>
    obtain rfl | ⟨hrunning, -, rfl⟩ := step_asyncStart hstep
    · exact hc
    · have hnone := hc.fresh fun hlive => by simp [Live, hrunning] at hlive
      have hset := Flags.mirror_setFlag hc.mirrors hrunning
      exact ⟨FlagMirror.post (h := Handler.start) hset, fun _ => hnone⟩
  | asyncStop k r =>
    obtain ⟨-, rfl⟩ | ⟨-, -, rfl⟩ := step_asyncStop hstep
    · exact hc
    · have hset := Flags.mirror_setFlag_of_not_mem (a := .stopping) hc.mirrors (by decide)
        (by decide)
      have hstop : Tracked { c with flags := c.flags.setFlag .stopping } none := by
        refine ⟨hset, ?_⟩
        simpa [Live] using hc.fresh
      exact hstop.post rfl
  | reset => exact absurd rfl he
  | run h =>
    obtain ⟨io, hio, rfl⟩ := step_run.mp hstep
    cases h with
    | start =>
      obtain ⟨ht, hlive, hnone⟩ := hc.takeStart hio
      exact ht.onStart hlive hnone
    | stop => exact (hc.take rfl hio).onStop
    | stopped k => exact (hc.take rfl hio).call
  | handleReceive error datagram a =>
    obtain ⟨-, io, hio, rfl⟩ := step_handleReceive.mp hstep
    exact ((hc.finish hio).received error datagram a).handleReceive error datagram.length
  | handleSend buffer a error =>
    obtain ⟨io, hio, rfl⟩ := step_handleSend.mp hstep
    exact (hc.finish hio).handleSend error

theorem Tracked.of_run [Inhabited A] {as : List (Event A K)}
    (h : Run Step UdpDiscoveryServer.new as c) (hreset : .reset ∉ as) : c.Tracked none := by
  have hkeep : ∀ (s : UdpDiscoveryServer A K) e t, e ≠ .reset → s.Tracked none → Step s e t →
      t.Tracked none := fun _ _ _ he hs hstep => hs.step he hstep
  exact h.invariant_of_not_mem (I := fun s => s.Tracked none) hkeep hreset new

end Steps

end Eestv.Net.UdpDiscoveryServer
