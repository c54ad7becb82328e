import Eestv.Net.UdpDiscoveryServerWork

/-! The stop of the discovery's server. Until then a running server has its start handler posted
or a receive outstanding, and one of these, or a send, releases the callback. -/

namespace Eestv.Net.UdpDiscoveryServer
open Runs IoContext

variable {A K : Type} {c d : UdpDiscoveryServer A K}

def Handler.stopCallback : Handler K → Option K
  | .stopped callback => some callback
  | _ => none

theorem Handler.stopCallback_iff {k : K} (h : Handler K) :
    h.stopCallback = some k ↔ h = .stopped k := by
  cases h <;> simp [stopCallback]

def Event.stops : Event A K → Option (Option K)
  | .asyncStop onStopped true => some onStopped
  | _ => none

def handover (c : UdpDiscoveryServer A K) : Handover K :=
  .ofLoop Handler.stopCallback (c.flags.getFlag .stopping) c.onStopped c.ioContext

theorem resolveOnStopped_passes (h : d.handover = c.handover) :
    c.handover.Passes d.resolveOnStopped.handover := by
  rw [← h]
  exact resolveOnStopped_induction (P := fun b => d.handover.Passes b.handover) (.refl _)
    fun _ hk => Or.inr (Handover.ofLoop_release hk.symm)

theorem onStop_passes : c.handover.Passes c.onStop.handover :=
  onStop_induction (P := fun b => c.handover.Passes b.handover) (.refl _)
    fun _ hk => Or.inr (Handover.ofLoop_release hk.symm)

theorem onStart_passes : c.handover.Passes c.onStart.handover := by
  unfold onStart
  split
  · left
    simp [startReceive, handover]
  · exact resolveOnStopped_passes rfl

theorem sendReply_handover (reply : List UInt8) : (c.sendReply reply).handover = c.handover := by
  unfold sendReply
  split
  · simp [handover]
  · rfl

theorem goOn_passes (h : d.handover = c.handover) : c.handover.Passes d.goOn.handover := by
  unfold goOn
  split
  · left
    rw [← h]
    simp [handover]
  · apply resolveOnStopped_passes
    rw [← h]
    simp [handover]

theorem handleReceive_passes (error : ErrorCode) (n : ℕ) :
    c.handover.Passes (c.handleReceive error n).handover := by
  rw [handleReceive_eq]
  exact goOn_passes (sendReply_handover _)

theorem handleSend_passes (error : ErrorCode) :
    c.handover.Passes (c.handleSend error).handover := by
  apply resolveOnStopped_passes
  simp [handover]

section Steps

variable [DecidableEq A] [DecidableEq K]

omit [DecidableEq A] in
theorem take_handover {h : Handler K} {io : IoContext (Handler K) (Operation A) (Call K)}
    (hio : c.ioContext.take h = some io) : handover { c with ioContext := io } = c.handover :=
  Handover.ofLoop_take hio

omit [DecidableEq K] in
theorem finish_handover {o : Operation A} {io : IoContext (Handler K) (Operation A) (Call K)}
    (hio : c.ioContext.finish o = some io) :
    handover { c with ioContext := io } = c.handover :=
  Handover.ofLoop_finish hio

omit [DecidableEq A] [DecidableEq K] in
theorem received_handover {error : ErrorCode} {datagram : List UInt8} {a : A} :
    (c.received error datagram a).handover = c.handover := by
  obtain ⟨buffer, b, heq⟩ := received_eq c error datagram a
  rw [heq]
  rfl

theorem step_handover {e : Event A K} (he : e ≠ .reset) (hstep : c.Step e d) :
    Handover.Step Event.stops c.handover e d.handover := by
  cases e with
  | addDiscoverable discoverable =>
    cases hstep
    obtain ⟨discoverables, heq⟩ := addDiscoverable_eq c discoverable
    rw [heq]
    exact .keep rfl
  | asyncStart r =>
    refine Handover.Passes.step (Or.inl ?_) rfl
    obtain rfl | ⟨-, -, rfl⟩ := step_asyncStart hstep
    · rfl
    · simp only [handover, Flags.getFlag_setFlag, reduceCtorEq, decide_false, Bool.false_or]
      exact Handover.ofLoop_post rfl
  | asyncStop k r =>
    obtain ⟨rfl, rfl⟩ | ⟨rfl, hstop, rfl⟩ := step_asyncStop hstep
    · exact .keep rfl
    · simp only [handover, Flags.getFlag_setFlag, decide_true, Bool.true_or]
      exact .of_accept rfl hstop rfl
  | reset => exact absurd rfl he
  | run h =>
    obtain ⟨io, hio, rfl⟩ := step_run.mp hstep
    rw [← take_handover hio]
    cases h with
    | start => exact onStart_passes.step rfl
    | stop => exact onStop_passes.step rfl
    | stopped k =>
      refine Handover.Passes.step (Or.inl ?_) rfl
      simp [handle, handover]
  | handleReceive error datagram a =>
    obtain ⟨-, io, hio, rfl⟩ := step_handleReceive.mp hstep
    rw [← finish_handover hio, ← received_handover]
    exact (handleReceive_passes error datagram.length).step rfl
  | handleSend buffer a error =>
    obtain ⟨io, hio, rfl⟩ := step_handleSend.mp hstep
    rw [← finish_handover hio]
    exact (handleSend_passes error).step rfl

theorem run_handover [Inhabited A] {as : List (Event A K)} (h : Run Step new as c)
    (hreset : .reset ∉ as) : Run (Handover.Step Event.stops) {} as c.handover :=
  Handover.run_of_steps (fun _ _ _ he hstep => step_handover he hstep)
    (by simp [handover, Handover.ofLoop, new]) h hreset

end Steps

/-! ### What a held callback waits for -/

/-- A running server whose stop was not signaled is to receive, or does. -/
def Loops (c : UdpDiscoveryServer A K) : Prop :=
  c.flags.getFlag .running = true → c.flags.getFlag .stopping = false →
    .start ∈ c.ioContext.posted ∨ c.flags.getFlag .receivingAsync = true

def Waits (c : UdpDiscoveryServer A K) : Prop :=
  c.onStopped ≠ none → c.ioContext.Awaits .start .stop (c.flags.getFlag .running)

def Settles (c : UdpDiscoveryServer A K) : Prop :=
  FlagMirror.Holds [.receivingAsync, .sendingAsync] c.flags.getFlag c.onStopped

theorem resolveOnStopped_settles (hstop : c.flags.getFlag .stopping = true) :
    c.resolveOnStopped.Settles := by
  intro hheld
  unfold resolveOnStopped at hheld ⊢
  rw [if_pos hstop] at hheld ⊢
  split at hheld
  · split at hheld
    · exact absurd rfl hheld
    · rename_i hk
      exact absurd hk hheld
  · rename_i hwork
    rw [if_neg hwork]
    by_contra hnone
    push Not at hnone
    simp [hnone] at hwork

theorem Settles.waits (hc : c.Settles) (ht : c.Tracked none) : c.Waits := by
  have hp : ∀ f ∈ [UdpDiscoveryState.receivingAsync, .sendingAsync], ∀ h : Handler K,
      h.flag ≠ some f := fun f hf => Handler.flag_ne (by rintro rfl; simp at hf)
  exact fun hheld => awaits_of_operations (ht.mirrors.operations_of_holds hp hc hheld)

theorem waits_of_operation {o : Operation A} (h : o ∈ c.ioContext.operations) : c.Waits :=
  fun _ => awaits_of_operations (List.ne_nil_of_mem h)

theorem waits_of_running (hc : c.handover.Coherent) (hstop : c.flags.getFlag .stopping = false) :
    c.Waits :=
  fun hheld => absurd (hc hstop).1 hheld

theorem Waits.onStopped_of_idle (hc : c.Waits) (hidle : c.ioContext.Idle) :
    c.onStopped = none := by
  by_contra hheld
  exact (hc hheld).not_idle hidle

theorem loops_of_stopping (hstop : c.flags.getFlag .stopping = true) : c.Loops := by
  intro _ hrunning
  rw [hstop] at hrunning
  cases hrunning

theorem Loops.congr (hc : c.Loops) (hflags : d.flags = c.flags)
    (hstart : .start ∈ c.ioContext.posted → .start ∈ d.ioContext.posted) : d.Loops := by
  intro hrunning hstop
  rw [hflags] at hrunning hstop ⊢
  exact (hc hrunning hstop).imp_left hstart

theorem onStart_loops : c.onStart.Loops := by
  unfold onStart
  split
  · exact fun _ _ => Or.inr (by simp [startReceive])
  · rename_i hstop
    apply loops_of_stopping
    simpa using hstop

theorem resolveOnStopped_posted {h : Handler K} (hmem : h ∈ c.ioContext.posted) :
    h ∈ c.resolveOnStopped.ioContext.posted :=
  resolveOnStopped_induction (P := fun b => h ∈ b.ioContext.posted) hmem
    fun _ _ => List.mem_append_left _ hmem

theorem onStop_posted {h : Handler K} (hmem : h ∈ c.ioContext.posted) :
    h ∈ c.onStop.ioContext.posted :=
  onStop_induction (P := fun b => h ∈ b.ioContext.posted) hmem
    fun _ _ => List.mem_append_left _ hmem

theorem onStop_flags : c.onStop.flags = c.flags :=
  onStop_induction (P := fun b => b.flags = c.flags) rfl fun _ _ => rfl

theorem goOn_loops (hc : c.Tracked (some .receivingAsync)) : c.goOn.Loops := by
  unfold goOn
  split
  · exact fun _ _ => Or.inr (hc.mirrors.flag_of_hand (by decide))
  · rename_i hstop
    apply loops_of_stopping
    simpa using hstop

theorem goOn_waits (hc : c.Tracked (some .receivingAsync)) : c.goOn.Waits := by
  have ht := hc.goOn
  unfold goOn at ht ⊢
  split at ht
  · rename_i hrun
    rw [if_pos hrun]
    exact waits_of_operation (o := .receiveFrom) (by simp)
  · rename_i hstop
    rw [if_neg hstop]
    apply Settles.waits _ ht
    apply resolveOnStopped_settles
    simpa using hstop

theorem handleSend_loops (hc : c.Loops) (error : ErrorCode) : (c.handleSend error).Loops := by
  intro hrunning hstop
  simp only [handleSend, resolveOnStopped_flags, Flags.getFlag_clearFlag, reduceCtorEq]
    at hrunning hstop
  refine (hc hrunning hstop).imp resolveOnStopped_posted fun hflag => ?_
  simpa [handleSend] using hflag

structure Stoppable (c : UdpDiscoveryServer A K) : Prop where
  tracked : c.Tracked none
  coherent : c.handover.Coherent
  loops : c.Loops
  waits : c.Waits

theorem Stoppable.new [Inhabited A] : (new : UdpDiscoveryServer A K).Stoppable := by
  refine ⟨Tracked.new, fun _ => ⟨rfl, rfl⟩, ?_, fun hheld => absurd rfl hheld⟩
  exact fun hrunning => absurd hrunning (by simp [UdpDiscoveryServer.new])

section Steps

variable [DecidableEq A] [DecidableEq K]

theorem step_loops {e : Event A K} (he : e ≠ .reset) (ht : c.Tracked none) (hc : c.Loops)
    (hstep : c.Step e d) : d.Loops := by
  cases e with
  | addDiscoverable discoverable =>
    cases hstep
    obtain ⟨discoverables, heq⟩ := addDiscoverable_eq c discoverable
    rw [heq]
    exact hc
  | asyncStart r =>
    obtain rfl | ⟨-, -, rfl⟩ := step_asyncStart hstep
    · exact hc
    · exact fun _ _ => Or.inl (by simp)
  | asyncStop k r =>
    obtain ⟨-, rfl⟩ | ⟨-, -, rfl⟩ := step_asyncStop hstep
    · exact hc
    · apply loops_of_stopping
      simp
  | reset => exact absurd rfl he
  | run h =>
    obtain ⟨io, hio, rfl⟩ := step_run.mp hstep
    have hkept : h ≠ .start → .start ∈ c.ioContext.posted → .start ∈ io.posted := by
      intro hne hmem
      rw [(take_eq_some.mp hio).2]
      exact (List.mem_erase_of_ne (Ne.symm hne)).mpr hmem
    cases h with
    | start => exact onStart_loops
    | stop => exact hc.congr onStop_flags fun hmem => onStop_posted (hkept (by simp) hmem)
    | stopped k => exact hc.congr rfl (hkept (by simp))
  | handleReceive error datagram a =>
    obtain ⟨-, io, hio, rfl⟩ := step_handleReceive.mp hstep
    rw [handleReceive_eq]
    exact goOn_loops (((ht.finish hio).received error datagram a).sendReply _)
  | handleSend buffer a error =>
    obtain ⟨io, hio, rfl⟩ := step_handleSend.mp hstep
    apply handleSend_loops
    exact hc.congr rfl (by simp [(finish_eq_some.mp hio).2])

theorem step_waits {e : Event A K} (he : e ≠ .reset) (ht : c.Tracked none)
    (hc : c.handover.Coherent) (hloops : c.Loops) (hw : c.Waits) (hstep : c.Step e d) :
    d.Waits := by
  have htd := ht.step he hstep
  have hd : d.handover.Coherent := (step_handover he hstep).coherent hc
  cases e with
  | addDiscoverable discoverable =>
    cases hstep
    obtain ⟨discoverables, heq⟩ := addDiscoverable_eq c discoverable
    rw [heq]
    exact hw
  | asyncStart r =>
    obtain rfl | ⟨-, hstop, rfl⟩ := step_asyncStart hstep
    · exact hw
    · exact waits_of_running hd (by simp [hstop])
  | asyncStop k r =>
    obtain ⟨-, rfl⟩ | ⟨-, hstop, rfl⟩ := step_asyncStop hstep
    · exact hw
    · intro _
      rcases hrunning : c.flags.getFlag .running with _ | _
      · exact Or.inl ⟨by simp [hrunning], by simp⟩
      · rcases hloops hrunning hstop with hstart | hreceiving
        · exact Or.inr (Or.inl (by simp [hstart]))
        · refine awaits_of_operations fun hnone => ?_
          rw [ht.mirrors.flag_of_operations (by decide) (Handler.flag_ne (by decide)) hnone]
            at hreceiving
          cases hreceiving
  | reset => exact absurd rfl he
  | run h =>
    obtain ⟨io, hio, rfl⟩ := step_run.mp hstep
    cases h with
    | start =>
      revert htd
      simp only [handle, onStart]
      split
      · intro _
        exact waits_of_operation (o := .receiveFrom) (by simp [startReceive])
      · rename_i hstop
        apply Settles.waits
        apply resolveOnStopped_settles
        simpa using hstop
    | stop =>
      simp only [handle, onStop]
      split
      · rename_i hrunning
        exact fun hheld => (hw hheld).take hio (by simp) (Or.inl hrunning)
      · split
        · exact fun hheld => absurd rfl hheld
        · rename_i hnone
          exact fun hheld => absurd hnone hheld
    | stopped k =>
      intro hheld
      have hafter := (hw hheld).take hio (by simp) (Or.inr (by simp))
      exact hafter
  | handleReceive error datagram a =>
    obtain ⟨-, io, hio, rfl⟩ := step_handleReceive.mp hstep
    rw [handleReceive_eq]
    exact goOn_waits (((ht.finish hio).received error datagram a).sendReply _)
  | handleSend buffer a error =>
    obtain ⟨io, hio, rfl⟩ := step_handleSend.mp hstep
    rcases hstop : c.flags.getFlag .stopping with _ | _
    · exact waits_of_running hd (by simp [handleSend, hstop])
    · apply Settles.waits _ htd
      apply resolveOnStopped_settles
      simp [hstop]

theorem Stoppable.step {e : Event A K} (he : e ≠ .reset) (hc : c.Stoppable)
    (hstep : c.Step e d) : d.Stoppable where
  tracked := hc.tracked.step he hstep
  coherent := (step_handover he hstep).coherent hc.coherent
  loops := step_loops he hc.tracked hc.loops hstep
  waits := step_waits he hc.tracked hc.coherent hc.loops hc.waits hstep

theorem Stoppable.of_run [Inhabited A] {as : List (Event A K)}
    (h : Run Step UdpDiscoveryServer.new as c)
    (hreset : .reset ∉ as) : c.Stoppable := by
  have hkeep : ∀ (s : UdpDiscoveryServer A K) e t, e ≠ .reset → s.Stoppable → Step s e t →
      t.Stoppable := fun _ _ _ he hs hstep => hs.step he hstep
  exact h.invariant_of_not_mem hkeep hreset Stoppable.new

end Steps

/-! ### The receives after a stop -/

def startsReceive : Entry (Handler K) (Operation A) (Call K) → Bool
  | .started .receiveFrom => true
  | _ => false

def receivesStarted (c : UdpDiscoveryServer A K) : ℕ := c.ioContext.log.countP startsReceive

theorem post_receivesStarted {h : Handler K} {k : Option K} :
    receivesStarted { c with onStopped := k, ioContext := c.ioContext.post h } =
      c.receivesStarted := by
  simp [receivesStarted, startsReceive]

@[simp] theorem resolveOnStopped_receivesStarted :
    c.resolveOnStopped.receivesStarted = c.receivesStarted :=
  resolveOnStopped_induction (P := fun b => b.receivesStarted = c.receivesStarted) rfl
    fun _ _ => post_receivesStarted

@[simp] theorem onStop_receivesStarted : c.onStop.receivesStarted = c.receivesStarted :=
  onStop_induction (P := fun b => b.receivesStarted = c.receivesStarted) rfl
    fun _ _ => post_receivesStarted

@[simp] theorem sendReply_receivesStarted (reply : List UInt8) :
    (c.sendReply reply).receivesStarted = c.receivesStarted := by
  unfold sendReply
  split
  · simp [receivesStarted, startsReceive]
  · rfl

theorem goOn_receivesStarted (hstop : c.flags.getFlag .stopping = true) :
    c.goOn.receivesStarted = c.receivesStarted := by
  unfold goOn
  rw [hstop]
  exact resolveOnStopped_receivesStarted

theorem handleReceive_receivesStarted (error : ErrorCode) (n : ℕ)
    (hstop : c.flags.getFlag .stopping = true) :
    (c.handleReceive error n).receivesStarted = c.receivesStarted := by
  rw [handleReceive_eq, goOn_receivesStarted, sendReply_receivesStarted]
  exact (congrArg Handover.signaled (sendReply_handover _)).trans hstop

section Steps

variable [DecidableEq A] [DecidableEq K]

omit [DecidableEq A] in
theorem take_receivesStarted {h : Handler K}
    {io : IoContext (Handler K) (Operation A) (Call K)} (hio : c.ioContext.take h = some io) :
    receivesStarted { c with ioContext := io } = c.receivesStarted := by
  simp [receivesStarted, startsReceive, take_log hio]

omit [DecidableEq K] in
theorem finish_receivesStarted {o : Operation A}
    {io : IoContext (Handler K) (Operation A) (Call K)} (hio : c.ioContext.finish o = some io) :
    receivesStarted { c with ioContext := io } = c.receivesStarted := by
  simp [receivesStarted, startsReceive, finish_log hio]

omit [DecidableEq A] [DecidableEq K] in
theorem received_receivesStarted {error : ErrorCode} {datagram : List UInt8} {a : A} :
    (c.received error datagram a).receivesStarted = c.receivesStarted := by
  obtain ⟨buffer, b, heq⟩ := received_eq c error datagram a
  rw [heq]
  rfl

theorem step_receivesStarted {e : Event A K} (hstop : c.flags.getFlag .stopping = true)
    (hstep : c.Step e d) : d.receivesStarted = c.receivesStarted := by
  cases e with
  | addDiscoverable discoverable =>
    cases hstep
    obtain ⟨discoverables, heq⟩ := addDiscoverable_eq c discoverable
    rw [heq]
    rfl
  | asyncStart r =>
    rw [(step_asyncStart hstep).resolve_right (by simp [hstop])]
  | asyncStop k r =>
    rw [((step_asyncStop hstep).resolve_right (by simp [hstop])).2]
  | reset =>
    cases hstep
    rfl
  | run h =>
    obtain ⟨io, hio, rfl⟩ := step_run.mp hstep
    rw [← take_receivesStarted hio]
    cases h with
    | start =>
      simp only [handle, onStart, hstop, Bool.not_true, Bool.false_eq_true, if_false,
        resolveOnStopped_receivesStarted]
    | stop => exact onStop_receivesStarted
    | stopped k => simp [handle, receivesStarted, startsReceive]
  | handleReceive error datagram a =>
    obtain ⟨-, io, hio, rfl⟩ := step_handleReceive.mp hstep
    rw [handleReceive_receivesStarted, received_receivesStarted, finish_receivesStarted hio]
    show (received _ error datagram a).handover.signaled = true
    rw [received_handover, finish_handover hio]
    exact hstop
  | handleSend buffer a error =>
    obtain ⟨io, hio, rfl⟩ := step_handleSend.mp hstep
    rw [← finish_receivesStarted hio]
    exact resolveOnStopped_receivesStarted

/-- Once a stop was signaled, it stays so, and no receive is started any more. -/
theorem run_receivesStarted {as : List (Event A K)} (h : Run Step c as d) (hreset : .reset ∉ as)
    (hstop : c.flags.getFlag .stopping = true) : d.receivesStarted = c.receivesStarted := by
  have hkeep : ∀ (s : UdpDiscoveryServer A K) e t, e ≠ .reset →
      s.flags.getFlag .stopping = true ∧ s.receivesStarted = c.receivesStarted → Step s e t →
      t.flags.getFlag .stopping = true ∧ t.receivesStarted = c.receivesStarted := by
    rintro s e t he ⟨hs, hsame⟩ hstep
    exact ⟨(step_handover he hstep).signaled hs, (step_receivesStarted hs hstep).trans hsame⟩
  exact (h.invariant_of_not_mem hkeep hreset ⟨hstop, rfl⟩).2

/-- In every state that is reached without a reset: if a stop was accepted and nothing is pending,
its callback has been posted once; and if a stop was signaled, no receive is started later. -/
theorem stops_once [Inhabited A] (as : List (Event A K)) (c : UdpDiscoveryServer A K)
    (h : Run Step new as c) (hreset : .reset ∉ as) :
    (∀ k, .asyncStop (some k) true ∈ as → c.ioContext.Idle →
      posts Handler.stopCallback c.ioContext.log = [k]) ∧
    (c.flags.getFlag .stopping = true → ∀ (es : List (Event A K)) (d : UdpDiscoveryServer A K),
      Run Step c es d → .reset ∉ es → d.receivesStarted = c.receivesStarted) := by
  refine ⟨?_, fun hstop es d hrun hlater => run_receivesStarted hrun hlater hstop⟩
  intro k hmem hidle
  have hhas := Handover.has_of_run (run_handover h hreset) hmem rfl
  exact hhas.released_eq ((Stoppable.of_run h hreset).waits.onStopped_of_idle hidle)

end Steps

theorem stops_once_replying : ∃ c : UdpDiscoveryServer ℕ ℕ,
    Run Step new [.addDiscoverable ⟨[7], fun _ => [9]⟩, .asyncStart true, .run .start,
      .handleReceive .success [7] 1, .handleReceive .success [7] 2, .asyncStop (some 3) true,
      .handleReceive .operationAborted [] 0, .handleSend [9] 2 .success,
      .handleSend [9] 1 .operationAborted, .run .stop, .run (.stopped 3)] c ∧
    posts Handler.stopCallback c.ioContext.log = [3] := by
  obtain ⟨c, hrun, hidle⟩ : ∃ c : UdpDiscoveryServer ℕ ℕ,
      Run Step new [.addDiscoverable ⟨[7], fun _ => [9]⟩, .asyncStart true, .run .start,
        .handleReceive .success [7] 1, .handleReceive .success [7] 2, .asyncStop (some 3) true,
        .handleReceive .operationAborted [] 0, .handleSend [9] 2 .success,
        .handleSend [9] 1 .operationAborted, .run .stop, .run (.stopped 3)] c ∧
      c.ioContext.Idle :=
    ⟨_, Run.iff_foldlM.mpr rfl, by decide⟩
  exact ⟨c, hrun, (stops_once _ c hrun (by simp)).1 3 (by simp) hidle⟩

end Eestv.Net.UdpDiscoveryServer
