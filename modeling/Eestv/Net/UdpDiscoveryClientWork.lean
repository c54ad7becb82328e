import Eestv.Library.FlagMirror
import Eestv.Library.Handover
import Eestv.Net.UdpDiscoveryClient

/-! The flags of the discovery's client and the work that they stand for. The flag of the receive
is cleared behind every response, so it need not be set while a receive is outstanding; a client
is tracked exactly as long as it is. -/

namespace Eestv.Net.UdpDiscoveryClient
open Runs IoContext

variable {A K : Type} {exact : Bool} {c d : UdpDiscoveryClient A K}

def Handler.flag : Handler K → Option UdpDiscoveryState
  | .start => some .running
  | .stop => none
  | .stopped _ => none

theorem Handler.flag_ne {f : UdpDiscoveryState} (hf : f ≠ .running) (h : Handler K) :
    h.flag ≠ some f := by
  cases h <;> simp [flag, hf.symm]

def Operation.flag : Operation → Option UdpDiscoveryState
  | .receiveFrom => some .receivingAsync
  | .sendTo _ _ _ => some .sendingAsync
  | .wait _ => some .timerRunning

def outstanding (c : UdpDiscoveryClient A K) (f : UdpDiscoveryState) : ℕ :=
  c.ioContext.operations.countP (·.flag = some f)

def needed : Bool → List UdpDiscoveryState
  | false => [.running, .sendingAsync, .timerRunning]
  | true => [.running, .sendingAsync, .timerRunning, .receivingAsync]

def Mirrors (exact : Bool) (c : UdpDiscoveryClient A K) (hand : Option UdpDiscoveryState) : Prop :=
  FlagMirror [.receivingAsync, .sendingAsync, .timerRunning] (needed exact) Handler.flag
    Operation.flag c.flags.getFlag c.ioContext hand

/-- The start handler has run, or runs. -/
def Live (c : UdpDiscoveryClient A K) : Prop :=
  c.flags.getFlag .running = true ∧ c.ioContext.work Handler.flag Operation.flag .running = 0

theorem Live.start (hc : c.Live) : .start ∉ c.ioContext.posted :=
  not_posted_of_work_eq_zero hc.2 rfl

theorem resolveOnStopped_induction {P : UdpDiscoveryClient A K → Prop} (hc : P c)
    (hpost : ∀ k, c.onStopped = some k → P { c with
      onStopped := none
      ioContext := c.ioContext.post (.stopped k) }) : P c.resolveOnStopped := by
  unfold resolveOnStopped
  split
  · split
    · split
      · exact hpost _ ‹_›
      · exact hc
    · exact hc
  · exact hc

@[simp] theorem resolveOnStopped_flags : c.resolveOnStopped.flags = c.flags :=
  resolveOnStopped_induction (P := fun d => d.flags = c.flags) rfl fun _ _ => rfl

@[simp] theorem resolveOnStopped_operations :
    c.resolveOnStopped.ioContext.operations = c.ioContext.operations :=
  resolveOnStopped_induction
    (P := fun d => d.ioContext.operations = c.ioContext.operations) rfl fun _ _ => rfl

theorem onStop_induction {P : UdpDiscoveryClient A K → Prop} (hc : P c)
    (hpost : ∀ k, c.onStopped = some k → P { c with
      onStopped := none
      ioContext := c.ioContext.post (.stopped k) }) : P c.onStop := by
  unfold onStop
  split
  · exact hc
  · split
    · exact hpost _ ‹_›
    · exact hc

structure Tracked (exact : Bool) (c : UdpDiscoveryClient A K) (hand : Option UdpDiscoveryState) :
    Prop where
  mirrors : c.Mirrors exact hand
  one_request : (c.flags.getFlag .sendingAsync).toNat + (c.flags.getFlag .timerRunning).toNat ≤ 1
  fresh : ¬ c.Live → c.ioContext.operations = [] ∧ hand = none

namespace Tracked

theorem new [Inhabited A] (name : List UInt8) (timeout port : ℤ) (onResponse : Bool) :
    (new name timeout port onResponse : UdpDiscoveryClient A K).Tracked exact none := by
  refine ⟨?_, ?_, fun _ => ⟨rfl, rfl⟩⟩
  · exact FlagMirror.of_clear Flags.getFlag_empty fun _ => rfl
  · simp [UdpDiscoveryClient.new]

theorem post {h : Handler K} {k : Option K} (hc : c.Tracked exact none) (hh : h.flag = none) :
    Tracked exact { c with onStopped := k, ioContext := c.ioContext.post h } none := by
  have hm := hc.mirrors
  refine ⟨?_, hc.one_request, ?_⟩
  · apply FlagMirror.post
    rwa [hh]
  · simpa [Live, hh] using hc.fresh

theorem resolveOnStopped (hc : c.Tracked exact none) : c.resolveOnStopped.Tracked exact none :=
  resolveOnStopped_induction (P := fun d => d.Tracked exact none) hc fun _ _ => hc.post rfl

theorem onStop (hc : c.Tracked exact none) : c.onStop.Tracked exact none :=
  onStop_induction (P := fun d => d.Tracked exact none) hc fun _ _ => hc.post rfl

theorem call {hand : Option UdpDiscoveryState} {x : Call A K} (hc : c.Tracked exact hand) :
    Tracked exact { c with ioContext := c.ioContext.call x } hand :=
  ⟨FlagMirror.call hc.mirrors, hc.one_request, hc.fresh⟩

theorem live {f : UdpDiscoveryState} (hc : c.Tracked exact (some f)) : c.Live := by
  by_contra hnot
  cases (hc.fresh hnot).2

theorem clear {f : UdpDiscoveryState} (hc : c.Tracked exact (some f))
    (hf : f = .receivingAsync ∨ f = .sendingAsync ∨ f = .timerRunning) :
    Tracked exact { c with flags := c.flags.clearFlag f } none := by
  have hle : ∀ g, ((c.flags.clearFlag f).getFlag g).toNat ≤ (c.flags.getFlag g).toNat := by
    intro g
    rw [Flags.getFlag_clearFlag]
    cases c.flags.getFlag g <;> cases (decide (f = g)) <;> decide
  refine ⟨Flags.mirror_clearFlag hc.mirrors, ?_, ?_⟩
  · exact Nat.le_trans (Nat.add_le_add (hle _) (hle _)) hc.one_request
  · intro hnot
    refine absurd ⟨?_, hc.live.2⟩ hnot
    rcases hf with rfl | rfl | rfl <;> simpa using hc.live.1

theorem begin {f : UdpDiscoveryState} {o : Operation} (hc : c.Tracked exact none) (hlive : c.Live)
    (ho : o.flag = some f) (hf : f = .receivingAsync ∨ (f = .sendingAsync ∨ f = .timerRunning) ∧
      c.flags.getFlag .sendingAsync = false ∧ c.flags.getFlag .timerRunning = false)
    (hflag : c.flags.getFlag f = false) :
    Tracked exact { c with flags := c.flags.setFlag f, ioContext := c.ioContext.start o } none := by
  have hset := Flags.mirror_setFlag hc.mirrors hflag
  rw [← ho] at hset
  refine ⟨FlagMirror.start hset, ?_, ?_⟩
  · rcases hf with rfl | ⟨rfl | rfl, hsending, htimer⟩
    · simpa using hc.one_request
    · simp [htimer]
    · simp [hsending]
  · intro hnot
    refine absurd ⟨?_, ?_⟩ hnot
    · simp [hlive.1]
    · rcases hf with rfl | ⟨rfl | rfl, -, -⟩ <;> simp [ho, hlive.2]

theorem congr_flags {hand : Option UdpDiscoveryState} {flags : Flags UdpDiscoveryState}
    (hc : c.Tracked exact hand) (hflags : ∀ f, flags.getFlag f = c.flags.getFlag f) :
    Tracked exact { c with flags := flags } hand := by
  refine ⟨FlagMirror.congr hc.mirrors (fun f _ => hflags f) (fun _ _ => rfl), ?_, ?_⟩
  · simpa only [hflags] using hc.one_request
  · simpa only [Live, hflags] using hc.fresh

theorem take [DecidableEq K] {h : Handler K} {io : IoContext (Handler K) Operation (Call A K)}
    (hc : c.Tracked exact none) (hh : h.flag = none) (hio : c.ioContext.take h = some io) :
    Tracked exact { c with ioContext := io } none := by
  have hm := FlagMirror.take hc.mirrors hio
  have hwork := work_take (p := Handler.flag) (q := Operation.flag) (f := .running) hio
  rw [hh] at hm hwork
  refine ⟨hm, hc.one_request, ?_⟩
  intro hnot
  have hsame : io.operations = c.ioContext.operations := by
    rw [(take_eq_some.mp hio).2]
  rw [hsame]
  apply hc.fresh
  simpa [Live, ← hwork] using hnot

theorem finish {o : Operation} {io : IoContext (Handler K) Operation (Call A K)}
    (hc : c.Tracked exact none) (hio : c.ioContext.finish o = some io) :
    Tracked exact { c with ioContext := io } o.flag := by
  refine ⟨FlagMirror.finish hc.mirrors hio, hc.one_request, ?_⟩
  intro hnot
  have hwork := work_finish (p := Handler.flag) (q := Operation.flag) (f := .running) hio
  have hno : o.flag ≠ some .running := by
    cases o <;> simp [Operation.flag]
  rw [if_neg hno, Nat.add_zero] at hwork
  have hempty := (hc.fresh (by simpa [Live, ← hwork] using hnot)).1
  have hmem := (finish_eq_some.mp hio).1
  rw [hempty] at hmem
  cases hmem

theorem takeStart [DecidableEq K] {io : IoContext (Handler K) Operation (Call A K)}
    (hc : c.Tracked exact none) (hio : c.ioContext.take .start = some io) :
    Tracked exact { c with ioContext := io } none ∧ Live { c with ioContext := io } ∧
      io.operations = [] := by
  obtain ⟨hmem, hafter⟩ := take_eq_some.mp hio
  have hupper : .running ∈ needed exact := by
    cases exact <;> decide
  have hwork := work_take (p := Handler.flag) (q := Operation.flag) (f := .running) hio
  have hle := hc.mirrors.work_le hupper
  have hbool := Bool.toNat_le (c.flags.getFlag .running)
  rw [show Handler.flag .start = some .running from rfl, if_pos rfl] at hwork
  have hlive : Live { c with ioContext := io } := by
    refine ⟨?_, ?_⟩
    · rw [← Bool.toNat_eq_one]
      dsimp only
      omega
    · dsimp only
      omega
  refine ⟨⟨?_, hc.one_request, fun hnot => absurd hlive hnot⟩, hlive, ?_⟩
  · exact FlagMirror.release (FlagMirror.take hc.mirrors hio) (by decide)
  · have hempty := (hc.fresh fun h => ?_).1
    · rw [hafter]
      exact hempty
    · rw [h.2] at hwork
      cases hwork

theorem onStart (hc : c.Tracked exact none) (hlive : c.Live)
    (hnone : c.ioContext.operations = []) : c.onStart.Tracked exact none := by
  have hreceiving := hc.mirrors.flag_of_operations (f := .receivingAsync) (by decide)
    (Handler.flag_ne (by decide)) hnone
  have hsending := hc.mirrors.flag_of_operations (f := .sendingAsync) (by decide)
    (Handler.flag_ne (by decide)) hnone
  have htimer := hc.mirrors.flag_of_operations (f := .timerRunning) (by decide)
    (Handler.flag_ne (by decide)) hnone
  unfold UdpDiscoveryClient.onStart
  split
  · have hreceive := hc.begin hlive (o := .receiveFrom) rfl (Or.inl rfl) hreceiving
    refine hreceive.begin (f := .sendingAsync) ?_ rfl (Or.inr ⟨Or.inl rfl, ?_, ?_⟩) ?_
    · simpa [Live, Operation.flag] using hlive
    · simpa using hsending
    · simpa using htimer
    · simpa using hsending
  · exact hc.resolveOnStopped

theorem other_of_hand {f g : UdpDiscoveryState} (hc : c.Tracked exact (some f))
    (hfg : f = .sendingAsync ∧ g = .timerRunning ∨ f = .timerRunning ∧ g = .sendingAsync) :
    c.flags.getFlag g = false := by
  have hupper : f ∈ needed exact := by
    rcases hfg with ⟨rfl, -⟩ | ⟨rfl, -⟩ <;> cases exact <;> decide
  have hflag := hc.mirrors.flag_of_hand hupper
  have hone := hc.one_request
  rw [← Bool.toNat_eq_zero]
  rcases hfg with ⟨rfl, rfl⟩ | ⟨rfl, rfl⟩ <;> rw [hflag, Bool.toNat_true] at hone <;> omega

theorem follow {f g : UdpDiscoveryState} {o : Operation} (hc : c.Tracked exact (some f))
    (hfg : f = .sendingAsync ∧ g = .timerRunning ∨ f = .timerRunning ∧ g = .sendingAsync)
    (ho : o.flag = some g) :
    Tracked exact { c with
      flags := (c.flags.setFlag g).clearFlag f
      ioContext := c.ioContext.start o } none := by
  have hother := hc.other_of_hand hfg
  have hf : f = .receivingAsync ∨ f = .sendingAsync ∨ f = .timerRunning := by
    rcases hfg with ⟨rfl, -⟩ | ⟨rfl, -⟩ <;> decide
  have hclear := hc.clear hf
  have hlive : Live { c with flags := c.flags.clearFlag f } := by
    refine ⟨?_, hc.live.2⟩
    rcases hf with rfl | rfl | rfl <;> simpa using hc.live.1
  have hbegin := hclear.begin (f := g) (o := o) hlive ho ?_ ?_
  · apply hbegin.congr_flags
    rcases hfg with ⟨rfl, rfl⟩ | ⟨rfl, rfl⟩ <;> intro h <;> cases h <;> simp
  · right
    rcases hfg with ⟨rfl, rfl⟩ | ⟨rfl, rfl⟩ <;> simpa using hother
  · rcases hfg with ⟨rfl, rfl⟩ | ⟨rfl, rfl⟩ <;> simpa using hother

theorem handleSendComplete (hc : c.Tracked exact (some .sendingAsync)) (error : ErrorCode) :
    (c.handleSendComplete error).Tracked exact none := by
  have hclear := hc.clear (by decide)
  unfold UdpDiscoveryClient.handleSendComplete
  apply resolveOnStopped
  split
  · exact hclear
  · split
    · exact hc.follow (o := .wait c.retryTimeout) (Or.inl ⟨rfl, rfl⟩) rfl
    · exact hclear

theorem handleTimeout (hc : c.Tracked exact (some .timerRunning)) (error : ErrorCode) :
    (c.handleTimeout error).Tracked exact none := by
  unfold UdpDiscoveryClient.handleTimeout
  apply resolveOnStopped
  split
  · exact hc.clear (by decide)
  · exact hc.follow (o := c.request) (Or.inr ⟨rfl, rfl⟩) rfl

theorem handleResponse (hc : c.Tracked exact (some .receivingAsync)) (error : ErrorCode)
    (n : ℕ) (hexact : exact = true → error.failed = false → n > 0 → c.onResponse = false) :
    (c.handleResponse error n).Tracked exact none := by
  have hclear := hc.clear (by decide)
  unfold UdpDiscoveryClient.handleResponse
  apply resolveOnStopped
  split
  · exact hclear
  · split
    · dsimp only
      split
      · rename_i herror hn hresponse
        have hnarrow : exact = false := by
          rcases exact with _ | _
          · rfl
          · rw [hexact rfl (by simpa using herror) hn] at hresponse
            cases hresponse
        subst hnarrow
        have hcall := FlagMirror.call
          (x := Call.response (c.recvBuffer.take n) c.remoteEndpoint) hc.mirrors
        have hstart := FlagMirror.start (o := Operation.receiveFrom) hcall
        refine ⟨Flags.mirror_clearFlag_of_not_mem hstart (by decide), ?_, fun hnot => ?_⟩
        · simpa using hc.one_request
        · refine absurd ⟨?_, ?_⟩ hnot
          · simpa using hc.live.1
          · simpa [Operation.flag] using hc.live.2
      · exact hclear
    · exact hclear

end Tracked

/-- A response is handled: the receive is armed again, and then its flag cleared. -/
def Rearms (c : UdpDiscoveryClient A K) : Event A K → Prop
  | .handleResponse error datagram _ =>
    error.failed = false ∧ datagram ≠ [] ∧ c.onResponse = true
  | _ => False

section Steps

variable [DecidableEq K]

theorem step_asyncStart {r : Bool} (hstep : c.Step (.asyncStart r) d) :
    d = c ∨ c.flags.getFlag .running = false ∧ c.flags.getFlag .stopping = false ∧ d = { c with
      flags := c.flags.setFlag .running
      ioContext := c.ioContext.post .start } := by
  have h := returned_iff.mp hstep
  unfold asyncStart at h
  split at h
  · cases h
    exact Or.inl rfl
  · rename_i hnot
    cases h
    simp only [Bool.or_eq_true, not_or, Bool.not_eq_true] at hnot
    exact Or.inr ⟨hnot.1, hnot.2, rfl⟩

theorem step_asyncStop {k : Option K} {r : Bool} (hstep : c.Step (.asyncStop k r) d) :
    r = false ∧ d = c ∨ r = true ∧ c.flags.getFlag .stopping = false ∧ d = { c with
      flags := c.flags.setFlag .stopping
      onStopped := k
      ioContext := c.ioContext.post .stop } := by
  have h := returned_iff.mp hstep
  unfold asyncStop at h
  split at h
  · cases h
    exact Or.inl ⟨rfl, rfl⟩
  · rename_i hnot
    cases h
    exact Or.inr ⟨rfl, by simpa using hnot, rfl⟩

theorem step_run {h : Handler K} : c.Step (.run h) d ↔
    ∃ io, c.ioContext.take h = some io ∧
      ({ c with ioContext := io } : UdpDiscoveryClient A K).handle h = d :=
  Option.map_eq_some_iff

theorem step_handleSendComplete {error : ErrorCode} : c.Step (.handleSendComplete error) d ↔
    ∃ io, c.ioContext.finish c.request = some io ∧
      ({ c with ioContext := io } : UdpDiscoveryClient A K).handleSendComplete error = d :=
  Option.map_eq_some_iff

theorem step_handleTimeout {error : ErrorCode} : c.Step (.handleTimeout error) d ↔
    ∃ io, c.ioContext.finish (.wait c.retryTimeout) = some io ∧
      ({ c with ioContext := io } : UdpDiscoveryClient A K).handleTimeout error = d :=
  Option.map_eq_some_iff

def received (c : UdpDiscoveryClient A K) (error : ErrorCode) (datagram : List UInt8)
    (remoteEndpoint : A) : UdpDiscoveryClient A K :=
  if error.failed then c else c.receive datagram remoteEndpoint

theorem step_handleResponse {error : ErrorCode} {datagram : List UInt8} {a : A} :
    c.Step (.handleResponse error datagram a) d ↔
      datagram.length ≤ recvBufferSize ∧ ∃ io, c.ioContext.finish .receiveFrom = some io ∧
        (({ c with ioContext := io } : UdpDiscoveryClient A K).received error datagram
          a).handleResponse error datagram.length = d :=
  Option.ite_none_right_eq_some.trans (and_congr_right fun _ => Option.map_eq_some_iff)

omit [DecidableEq K] in
theorem Tracked.received {hand : Option UdpDiscoveryState} (hc : c.Tracked exact hand)
    (error : ErrorCode) (datagram : List UInt8) (a : A) :
    (c.received error datagram a).Tracked exact hand := by
  unfold UdpDiscoveryClient.received
  split
  · exact hc
  · exact ⟨hc.mirrors, hc.one_request, hc.fresh⟩

omit [DecidableEq K] in
theorem received_ioContext {error : ErrorCode} {datagram : List UInt8} {a : A} :
    (c.received error datagram a).ioContext = c.ioContext := by
  unfold received
  split <;> rfl

omit [DecidableEq K] in
theorem received_onResponse {error : ErrorCode} {datagram : List UInt8} {a : A} :
    (c.received error datagram a).onResponse = c.onResponse := by
  unfold received
  split <;> rfl

theorem Tracked.step {e : Event A K} (he : e ≠ .reset) (hc : c.Tracked exact none)
    (hexact : exact = true → ¬ c.Rearms e) (hstep : c.Step e d) : d.Tracked exact none := by
  cases e with
  | asyncStart r =>
    obtain rfl | ⟨hrunning, -, rfl⟩ := step_asyncStart hstep
    · exact hc
    · have hnone := hc.fresh fun hlive => by simp [Live, hrunning] at hlive
      have hset := Flags.mirror_setFlag hc.mirrors hrunning
      refine ⟨FlagMirror.post (h := Handler.start) hset, ?_, fun _ => hnone⟩
      simpa using hc.one_request
  | asyncStop k r =>
    obtain ⟨-, rfl⟩ | ⟨-, -, rfl⟩ := step_asyncStop hstep
    · exact hc
    · have hset := Flags.mirror_setFlag_of_not_mem (a := .stopping) hc.mirrors (by decide)
        (by cases exact <;> decide)
      have hstop : Tracked exact { c with flags := c.flags.setFlag .stopping } none := by
        refine ⟨hset, ?_, ?_⟩
        · simpa using hc.one_request
        · simpa [Live] using hc.fresh
      exact hstop.post rfl
  | reset => exact absurd rfl he
  | run h =>
    obtain ⟨io, hio, rfl⟩ := step_run.mp hstep
    cases h with
    | start =>
      obtain ⟨ht, hlive, hnone⟩ := hc.takeStart hio
      exact ht.onStart hlive hnone
    | stop => exact (hc.take rfl hio).onStop
    | stopped k => exact (hc.take rfl hio).call
  | handleSendComplete error =>
    obtain ⟨io, hio, rfl⟩ := step_handleSendComplete.mp hstep
    exact (hc.finish hio).handleSendComplete error
  | handleResponse error datagram a =>
    obtain ⟨-, io, hio, rfl⟩ := step_handleResponse.mp hstep
    refine ((hc.finish hio).received error datagram a).handleResponse error _ ?_
    intro he herror hpos
    rw [received_onResponse]
    by_contra hresponse
    exact hexact he ⟨herror, List.ne_nil_of_length_pos hpos, by simpa using hresponse⟩
  | handleTimeout error =>
    obtain ⟨io, hio, rfl⟩ := step_handleTimeout.mp hstep
    exact (hc.finish hio).handleTimeout error

end Steps

end Eestv.Net.UdpDiscoveryClient
