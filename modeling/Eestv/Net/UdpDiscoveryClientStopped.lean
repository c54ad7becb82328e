import Eestv.Net.UdpDiscoveryClientWork

/-! Whether the callback of a stop means that the discovery's client has stopped, restarts
included. Each response is followed by a receive whose flag is cleared at once. -/

namespace Eestv.Net.UdpDiscoveryClient
open Runs IoContext

variable {A K : Type} {c d : UdpDiscoveryClient A K}

def announce (released : Bool) : Entry (Handler K) Operation (Call A K) → Bool
  | .posted (.stopped _) => true
  | .posted .start => false
  | _ => released

def released (c : UdpDiscoveryClient A K) : Bool := c.ioContext.log.foldl announce false

/-- Nothing is outstanding that is, or could start, an operation. -/
def Quiet (c : UdpDiscoveryClient A K) : Prop :=
  c.ioContext.operations = [] ∧ .start ∉ c.ioContext.posted

instance [DecidableEq K] (c : UdpDiscoveryClient A K) : Decidable c.Quiet :=
  inferInstanceAs (Decidable (_ ∧ _))

/-- The client is to be reset after a successful stop: when its callback was posted or, as a
callback may be empty, when it is quiet. -/
def Permits (c : UdpDiscoveryClient A K) (e : Event A K) : Prop :=
  e = .reset → c.released = true ∨ c.Quiet

instance [DecidableEq A] [DecidableEq K] (c : UdpDiscoveryClient A K) (e : Event A K) :
    Decidable (c.Permits e) :=
  inferInstanceAs (Decidable (_ → _))

def ownedStep [DecidableEq A] [DecidableEq K] (c : UdpDiscoveryClient A K) (e : Event A K) :
    Option (UdpDiscoveryClient A K) :=
  if c.Permits e then c.step e else none

def OwnedStep [DecidableEq A] [DecidableEq K] (c : UdpDiscoveryClient A K) (e : Event A K)
    (d : UdpDiscoveryClient A K) : Prop :=
  c.ownedStep e = some d

/-- The flags say which operations are outstanding, of each kind one at most, and after the stop
callback there is none, until the client is started again. -/
structure MeansStopped (c : UdpDiscoveryClient A K) : Prop where
  exact_flags : ∀ f ∈ [UdpDiscoveryState.receivingAsync, .sendingAsync, .timerRunning],
    c.outstanding f = (c.flags.getFlag f).toNat
  stopped : c.released = true → c.ioContext.operations = []

def Calm (c : UdpDiscoveryClient A K) : Prop := c.released = true → c.Quiet

/-! ### One step -/

/-- What is released is released when all flags are clear, and no start is posted. -/
structure Calmly (c d : UdpDiscoveryClient A K) : Prop where
  released : d.released = true → c.released = true ∨
    ∀ f ∈ [UdpDiscoveryState.receivingAsync, .sendingAsync, .timerRunning],
      d.flags.getFlag f = false
  start : .start ∈ d.ioContext.posted → .start ∈ c.ioContext.posted

theorem calmly_resolveOnStopped (hlog : d.released = c.released)
    (hposted : d.ioContext.posted = c.ioContext.posted) : Calmly c d.resolveOnStopped := by
  have hkeep : Calmly c d := by
    constructor
    · rw [hlog]
      exact Or.inl
    · rw [hposted]
      exact id
  unfold resolveOnStopped
  split
  · split
    · rename_i hidle
      split
      · constructor
        · intro _
          right
          simpa [and_assoc] using hidle
        · simp [hposted]
      · exact hkeep
    · exact hkeep
  · exact hkeep

theorem released_start {o : Operation} {flags : Flags UdpDiscoveryState} :
    released { c with flags := flags, ioContext := c.ioContext.start o } = c.released := by
  simp [released, announce]

theorem onStart_calmly : Calmly c c.onStart := by
  unfold onStart
  split
  · refine ⟨?_, id⟩
    intro h
    left
    simpa [sendDiscoveryRequest, released, announce] using h
  · exact calmly_resolveOnStopped rfl rfl

theorem handleSendComplete_calmly (error : ErrorCode) : Calmly c (c.handleSendComplete error) := by
  unfold handleSendComplete
  split
  · exact calmly_resolveOnStopped rfl rfl
  · split
    · exact calmly_resolveOnStopped released_start rfl
    · exact calmly_resolveOnStopped rfl rfl

theorem handleResponse_calmly (error : ErrorCode) (n : ℕ) :
    Calmly c (c.handleResponse error n) := by
  unfold handleResponse
  split
  · exact calmly_resolveOnStopped rfl rfl
  · split
    · dsimp only
      split
      · refine calmly_resolveOnStopped ?_ rfl
        simp [released, announce]
      · exact calmly_resolveOnStopped rfl rfl
    · exact calmly_resolveOnStopped rfl rfl

theorem handleTimeout_calmly (error : ErrorCode) : Calmly c (c.handleTimeout error) := by
  unfold handleTimeout
  split
  · exact calmly_resolveOnStopped rfl rfl
  · exact calmly_resolveOnStopped released_start rfl

theorem mem_needed : ∀ f ∈ [UdpDiscoveryState.receivingAsync, .sendingAsync, .timerRunning],
    f ∈ needed true := by
  decide

namespace Tracked

theorem operations_of_flags (hc : c.Tracked true none)
    (hflags : ∀ f ∈ [UdpDiscoveryState.receivingAsync, .sendingAsync, .timerRunning],
      c.flags.getFlag f = false) : c.ioContext.operations = [] := by
  apply List.eq_nil_iff_forall_not_mem.mpr
  intro o hmem
  obtain ⟨f, hf, ho⟩ : ∃ f ∈ [UdpDiscoveryState.receivingAsync, .sendingAsync, .timerRunning],
      o.flag = some f := by
    cases o <;> simp [Operation.flag]
  have hset := hc.mirrors.flag_of_work_pos (mem_needed f hf) (work_pos_of_operation hmem ho)
  rw [hflags f hf] at hset
  cases hset

theorem exact_flags (hc : c.Tracked true none) :
    ∀ f ∈ [UdpDiscoveryState.receivingAsync, .sendingAsync, .timerRunning],
      c.outstanding f = (c.flags.getFlag f).toNat := by
  intro f hf
  have hposted : c.ioContext.posted.countP (·.flag = some f) = 0 := by
    apply List.countP_eq_zero.mpr
    intro h _
    cases h <;> simp only [Handler.flag, decide_eq_true_eq, reduceCtorEq, not_false_eq_true,
      Option.some.injEq]
    rintro rfl
    revert hf
    decide
  have hwork := hc.mirrors.work_eq hf (mem_needed f hf)
  rw [← hwork, work, hposted, Nat.zero_add, outstanding]

end Tracked

theorem Calmly.calm (h : Calmly c d) (hd : d.Tracked true none) (hreleased : c.released = false)
    (hstart : .start ∉ c.ioContext.posted) : d.Calm := by
  intro hafter
  rcases h.released hafter with hbefore | hflags
  · rw [hreleased] at hbefore
    cases hbefore
  · exact ⟨hd.operations_of_flags hflags, fun hmem => hstart (h.start hmem)⟩

theorem Calm.released_of_operation {o : Operation} (hc : c.Calm)
    (hmem : o ∈ c.ioContext.operations) : c.released = false := by
  rcases hreleased : c.released with _ | _
  · rfl
  · rw [(hc hreleased).1] at hmem
    cases hmem

theorem Calm.released_of_start (hc : c.Calm) (hmem : .start ∈ c.ioContext.posted) :
    c.released = false := by
  rcases hreleased : c.released with _ | _
  · rfl
  · exact absurd hmem (hc hreleased).2

theorem Quiet.reset (hc : c.Quiet) : c.reset.Tracked true none := by
  obtain ⟨hoperations, hstart⟩ := hc
  have hnone : ∀ f, (c.flags.clearAll).getFlag f = false := Flags.getFlag_empty
  have hposted : ∀ h ∈ c.ioContext.posted, h.flag = none := by
    intro h hmem
    cases h with
    | start => exact absurd hmem hstart
    | stop => rfl
    | stopped k => rfl
  refine ⟨?_, ?_, fun _ => ⟨hoperations, rfl⟩⟩
  · exact FlagMirror.of_clear hnone fun _ => work_eq_zero hposted hoperations
  · change ((c.flags.clearAll).getFlag _).toNat + ((c.flags.clearAll).getFlag _).toNat ≤ 1
    rw [hnone, hnone]
    exact Nat.zero_le 1

section Steps

variable [DecidableEq A] [DecidableEq K]

omit [DecidableEq A] in
theorem take_released {h : Handler K} {io : IoContext (Handler K) Operation (Call A K)}
    (hio : c.ioContext.take h = some io) : released { c with ioContext := io } = c.released := by
  simp [released, announce, take_log hio]

omit [DecidableEq A] [DecidableEq K] in
theorem finish_released {o : Operation} {io : IoContext (Handler K) Operation (Call A K)}
    (hio : c.ioContext.finish o = some io) :
    released { c with ioContext := io } = c.released := by
  simp [released, announce, finish_log hio]

omit [DecidableEq A] [DecidableEq K] in
theorem received_released {error : ErrorCode} {datagram : List UInt8} {a : A} :
    (c.received error datagram a).released = c.released := by
  unfold released
  rw [received_ioContext]

omit [DecidableEq A] [DecidableEq K] in
theorem Calm.in_hand {o : Operation} {io : IoContext (Handler K) Operation (Call A K)}
    (hc : c.Calm) (ht : c.Tracked true none) (hio : c.ioContext.finish o = some io) :
    released { c with ioContext := io } = false ∧ .start ∉ io.posted := by
  constructor
  · rw [finish_released hio]
    exact hc.released_of_operation (finish_eq_some.mp hio).1
  · have hhand := ht.finish hio
    obtain ⟨f, hf⟩ : ∃ f, o.flag = some f := by
      cases o <;> exact ⟨_, rfl⟩
    rw [hf] at hhand
    exact hhand.live.start

omit [DecidableEq A] in
theorem Calm.step {e : Event A K} (he : e ≠ .reset) (ht : c.Tracked true none) (hc : c.Calm)
    (hd : d.Tracked true none) (hstep : c.Step e d) : d.Calm := by
  cases e with
  | asyncStart r =>
    obtain rfl | ⟨-, -, rfl⟩ := step_asyncStart hstep
    · exact hc
    · intro hreleased
      simp [released, announce] at hreleased
  | asyncStop k r =>
    obtain ⟨-, rfl⟩ | ⟨-, -, rfl⟩ := step_asyncStop hstep
    · exact hc
    · simpa [Calm, Quiet, released, announce] using hc
  | reset => exact absurd rfl he
  | run h =>
    obtain ⟨io, hio, rfl⟩ := step_run.mp hstep
    obtain ⟨hmem, hafter⟩ := take_eq_some.mp hio
    have htaken : Calm { c with ioContext := io } := by
      intro hreleased
      rw [take_released hio] at hreleased
      obtain ⟨hoperations, hstart⟩ := hc hreleased
      rw [hafter]
      exact ⟨hoperations, fun h => hstart (List.mem_of_mem_erase h)⟩
    cases h with
    | start =>
      refine onStart_calmly.calm hd ?_ (ht.takeStart hio).2.1.start
      rw [take_released hio]
      exact hc.released_of_start hmem
    | stop =>
      have hnone := (ht.take rfl hio).fresh
      unfold handle onStop
      dsimp only
      split
      · exact htaken
      · rename_i hrunning
        split
        · intro _
          have hempty := (hnone fun hlive => hrunning hlive.1).1
          have hstart := (ht.take rfl hio).mirrors.work_eq_zero (f := .running) (by decide)
            (by simpa using hrunning)
          refine ⟨hempty, ?_⟩
          intro hmem
          have hpos := work_pos_of_posted (q := Operation.flag) (p := Handler.flag)
            (f := .running) (c := io) (by simpa using hmem) rfl
          rw [hstart] at hpos
          cases hpos
        · exact htaken
    | stopped k => simpa [Calm, Quiet, handle, released, announce] using htaken
  | handleSendComplete error =>
    obtain ⟨io, hio, rfl⟩ := step_handleSendComplete.mp hstep
    obtain ⟨hreleased, hstart⟩ := hc.in_hand ht hio
    exact (handleSendComplete_calmly error).calm hd hreleased hstart
  | handleResponse error datagram a =>
    obtain ⟨-, io, hio, rfl⟩ := step_handleResponse.mp hstep
    obtain ⟨hreleased, hstart⟩ := hc.in_hand ht hio
    apply (handleResponse_calmly error datagram.length).calm hd
    · rwa [received_released]
    · rwa [received_ioContext]
  | handleTimeout error =>
    obtain ⟨io, hio, rfl⟩ := step_handleTimeout.mp hstep
    obtain ⟨hreleased, hstart⟩ := hc.in_hand ht hio
    exact (handleTimeout_calmly error).calm hd hreleased hstart

theorem ownedStep_iff {e : Event A K} : c.OwnedStep e d ↔ c.Permits e ∧ c.Step e d :=
  Option.ite_none_right_eq_some

omit [DecidableEq A] [DecidableEq K] in
theorem handleResponse_of_response {error : ErrorCode} {n : ℕ} (herror : error.failed = false)
    (hn : n > 0) (hresponse : c.onResponse = true) :
    (c.handleResponse error n).flags.getFlag .receivingAsync = false ∧
      (c.handleResponse error n).ioContext.operations =
        c.ioContext.operations ++ [.receiveFrom] := by
  unfold handleResponse
  simp [herror, hn, hresponse]

omit [DecidableEq A] in
theorem not_meansStopped_of_rearms {e : Event A K} (he : c.Rearms e) (hstep : c.Step e d) :
    ¬ d.MeansStopped := by
  cases e with
  | handleResponse error datagram a =>
    obtain ⟨herror, hdatagram, hresponse⟩ := he
    obtain ⟨-, io, -, rfl⟩ := step_handleResponse.mp hstep
    intro hd
    have hexact := hd.exact_flags .receivingAsync (by decide)
    obtain ⟨hflag, hoperations⟩ := handleResponse_of_response
      (c := received { c with ioContext := io } error datagram a) herror
      (List.length_pos_of_ne_nil hdatagram) (received_onResponse.trans hresponse)
    rw [hflag, outstanding, hoperations, List.countP_append] at hexact
    simp [Operation.flag] at hexact
  | _ => exact absurd he id

/-- In every run in which the client is reset only after a successful stop, the flags say which
operations are outstanding, and after the stop callback there is none, exactly if no response is
handled. -/
theorem meansStopped_iff [Inhabited A] (name : List UInt8) (timeout port : ℤ)
    (onResponse : Bool) (as : List (Event A K)) :
    Always OwnedStep MeansStopped (new name timeout port onResponse) as ↔
      Each OwnedStep (fun c e => ¬ Rearms c e) (new name timeout port onResponse) as := by
  refine always_iff_each (I := fun c => Tracked true c none ∧ Calm c) ?_ ?_ ?_
    ⟨.new name timeout port onResponse, fun h => by cases h⟩
  · rintro c ⟨ht, hc⟩
    exact ⟨ht.exact_flags, fun hreleased => (hc hreleased).1⟩
  · rintro c e d ⟨ht, hc⟩ hstep hnot
    obtain ⟨hpermits, hd⟩ := ownedStep_iff.mp hstep
    by_cases he : e = .reset
    · subst he
      cases hd
      exact ⟨((hpermits rfl).elim hc id).reset, hc⟩
    · have htracked := ht.step he (fun _ => hnot) hd
      exact ⟨htracked, hc.step he ht htracked hd⟩
  · rintro c e d ⟨ht, hc⟩ hstep hmeans hrearms
    exact not_meansStopped_of_rearms hrearms (ownedStep_iff.mp hstep).2 hmeans

end Steps

/-- After one response the stop callback is released while a receive is outstanding. -/
theorem stopped_during_receive : ∃ c : UdpDiscoveryClient ℕ ℕ,
    Run OwnedStep (new [115] 1000 12345 true) [.asyncStart true, .run .start,
      .handleResponse .success [1] 0, .asyncStop (some 7) true, .run .stop,
      .handleSendComplete .operationAborted] c ∧
    .posted (.stopped 7) ∈ c.ioContext.log ∧ c.ioContext.operations = [.receiveFrom] :=
  ⟨_, Run.iff_foldlM.mpr rfl, by decide, rfl⟩

end Eestv.Net.UdpDiscoveryClient
