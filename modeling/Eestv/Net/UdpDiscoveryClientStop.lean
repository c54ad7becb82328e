import Eestv.Net.UdpDiscoveryClientWork

/-! Whether a stop of the discovery's client completes. Its handler cancels what is outstanding
and leaves the callback to whatever ends last; when a running client has nothing outstanding any
more, there is nothing that could release it. -/

namespace Eestv.Net.UdpDiscoveryClient
open Runs IoContext

variable {A K : Type} {c d : UdpDiscoveryClient A K}

def Handler.stopCallback : Handler K → Option K
  | .stopped callback => some callback
  | _ => none

theorem Handler.stopCallback_iff {k : K} (h : Handler K) :
    h.stopCallback = some k ↔ h = .stopped k := by
  cases h <;> simp [stopCallback]

def Event.stops : Event A K → Option (Option K)
  | .asyncStop onStopped true => some onStopped
  | _ => none

def handover (c : UdpDiscoveryClient A K) : Handover K :=
  .ofLoop Handler.stopCallback (c.flags.getFlag .stopping) c.onStopped c.ioContext

theorem resolveOnStopped_passes (h : d.handover = c.handover) :
    c.handover.Passes d.resolveOnStopped.handover := by
  rw [← h]
  exact resolveOnStopped_induction (P := fun b => d.handover.Passes b.handover) (.refl _)
    fun _ hk => Or.inr (Handover.ofLoop_release hk.symm)

theorem onStop_passes : c.handover.Passes c.onStop.handover :=
  onStop_induction (P := fun b => c.handover.Passes b.handover) (.refl _)
    fun _ hk => Or.inr (Handover.ofLoop_release hk.symm)

theorem onStart_passes : c.handover.Passes c.onStart.handover := by
  unfold onStart
  split
  · left
    simp [sendDiscoveryRequest, handover]
  · exact resolveOnStopped_passes rfl

theorem handleSendComplete_passes (error : ErrorCode) :
    c.handover.Passes (c.handleSendComplete error).handover := by
  unfold handleSendComplete
  apply resolveOnStopped_passes
  split
  · simp [handover]
  · split <;> simp [handover]

theorem handleResponse_passes (error : ErrorCode) (n : ℕ) :
    c.handover.Passes (c.handleResponse error n).handover := by
  unfold handleResponse
  apply resolveOnStopped_passes
  split
  · simp [handover]
  · split
    · dsimp only
      split <;> simp [handover]
    · simp [handover]

theorem handleTimeout_passes (error : ErrorCode) :
    c.handover.Passes (c.handleTimeout error).handover := by
  unfold handleTimeout
  apply resolveOnStopped_passes
  split <;> simp [sendDiscoveryRequest, handover]

section Steps

variable [DecidableEq K]

theorem take_handover {h : Handler K} {io : IoContext (Handler K) Operation (Call A K)}
    (hio : c.ioContext.take h = some io) : handover { c with ioContext := io } = c.handover :=
  Handover.ofLoop_take hio

omit [DecidableEq K] in
theorem finish_handover {o : Operation} {io : IoContext (Handler K) Operation (Call A K)}
    (hio : c.ioContext.finish o = some io) :
    handover { c with ioContext := io } = c.handover :=
  Handover.ofLoop_finish hio

omit [DecidableEq K] in
theorem received_handover {error : ErrorCode} {datagram : List UInt8} {a : A} :
    (c.received error datagram a).handover = c.handover := by
  unfold received
  split <;> rfl

theorem step_handover {e : Event A K} (he : e ≠ .reset) (hstep : c.Step e d) :
    Handover.Step Event.stops c.handover e d.handover := by
  cases e with
  | asyncStart r =>
    refine Handover.Passes.step (Or.inl ?_) rfl
    obtain rfl | ⟨-, -, rfl⟩ := step_asyncStart hstep
    · rfl
    · simp only [handover, Flags.getFlag_setFlag, reduceCtorEq, decide_false, Bool.false_or]
      exact Handover.ofLoop_post rfl
  | asyncStop k r =>
    obtain ⟨rfl, rfl⟩ | ⟨rfl, hstop, rfl⟩ := step_asyncStop hstep
    · exact .keep rfl
    · simp only [handover, Flags.getFlag_setFlag, decide_true, Bool.true_or]
      exact .of_accept rfl hstop rfl
  | reset => exact absurd rfl he
  | run h =>
    obtain ⟨io, hio, rfl⟩ := step_run.mp hstep
    rw [← take_handover hio]
    cases h with
    | start => exact onStart_passes.step rfl
    | stop => exact onStop_passes.step rfl
    | stopped k =>
      refine Handover.Passes.step (Or.inl ?_) rfl
      simp [handle, handover]
  | handleSendComplete error =>
    obtain ⟨io, hio, rfl⟩ := step_handleSendComplete.mp hstep
    rw [← finish_handover hio]
    exact (handleSendComplete_passes error).step rfl
  | handleResponse error datagram a =>
    obtain ⟨-, io, hio, rfl⟩ := step_handleResponse.mp hstep
    rw [← finish_handover hio, ← received_handover]
    exact (handleResponse_passes error datagram.length).step rfl
  | handleTimeout error =>
    obtain ⟨io, hio, rfl⟩ := step_handleTimeout.mp hstep
    rw [← finish_handover hio]
    exact (handleTimeout_passes error).step rfl

theorem run_handover [Inhabited A] {name : List UInt8} {timeout port : ℤ} {onResponse : Bool}
    {as : List (Event A K)} (h : Run Step (new name timeout port onResponse) as c)
    (hreset : .reset ∉ as) : Run (Handover.Step Event.stops) {} as c.handover :=
  Handover.run_of_steps (fun _ _ _ he hstep => step_handover he hstep)
    (by simp [handover, Handover.ofLoop, new]) h hreset

theorem tracked_of_run [Inhabited A] {name : List UInt8} {timeout port : ℤ} {onResponse : Bool}
    {as : List (Event A K)} (h : Run Step (new name timeout port onResponse) as c)
    (hreset : .reset ∉ as) : c.Tracked false none := by
  have hkeep : ∀ (s : UdpDiscoveryClient A K) e t, e ≠ .reset → s.Tracked false none →
      Step s e t → t.Tracked false none := by
    intro s e t he hs hstep
    exact hs.step he (by simp) hstep
  exact h.invariant_of_not_mem (I := fun s => s.Tracked false none) hkeep hreset
    (.new name timeout port onResponse)

end Steps

/-! ### What a held callback waits for -/

/-- The client was not started, its start handler is still to come, or an operation is
outstanding. -/
def CanRelease (c : UdpDiscoveryClient A K) : Prop :=
  c.flags.getFlag .running = false ∨ .start ∈ c.ioContext.posted ∨ c.ioContext.operations ≠ []

structure Waits (c : UdpDiscoveryClient A K) : Prop where
  stopping : c.flags.getFlag .stopping = true
  held : c.onStopped ≠ none → c.ioContext.Awaits .start .stop (c.flags.getFlag .running)

/-- A stopping client that holds the callback for ever. -/
structure Stuck (k : K) (c : UdpDiscoveryClient A K) : Prop where
  stopping : c.flags.getFlag .stopping = true
  running : c.flags.getFlag .running = true
  onStopped : c.onStopped = some k
  start : .start ∉ c.ioContext.posted
  operations : c.ioContext.operations = []

def Settles (c : UdpDiscoveryClient A K) : Prop :=
  FlagMirror.Holds [.receivingAsync, .sendingAsync, .timerRunning] c.flags.getFlag c.onStopped

theorem resolveOnStopped_settles (hstop : c.flags.getFlag .stopping = true) :
    c.resolveOnStopped.Settles := by
  intro hheld
  unfold resolveOnStopped at hheld ⊢
  rw [if_pos hstop] at hheld ⊢
  split at hheld
  · split at hheld
    · exact absurd rfl hheld
    · rename_i hk
      exact absurd hk hheld
  · rename_i hwork
    rw [if_neg hwork]
    by_contra hnone
    push Not at hnone
    simp [hnone] at hwork

theorem handleSendComplete_settles (hstop : c.flags.getFlag .stopping = true)
    (error : ErrorCode) : (c.handleSendComplete error).Settles := by
  unfold handleSendComplete
  apply resolveOnStopped_settles
  simp [hstop]

theorem handleResponse_settles (hstop : c.flags.getFlag .stopping = true) (error : ErrorCode)
    (n : ℕ) : (c.handleResponse error n).Settles := by
  unfold handleResponse
  apply resolveOnStopped_settles
  split
  · simp [hstop]
  · split
    · dsimp only
      split <;> simp [hstop]
    · simp [hstop]

theorem handleTimeout_settles (hstop : c.flags.getFlag .stopping = true) (error : ErrorCode) :
    (c.handleTimeout error).Settles := by
  unfold handleTimeout
  apply resolveOnStopped_settles
  split <;> simp [sendDiscoveryRequest, hstop]

theorem Settles.awaits (hc : c.Settles) (ht : c.Tracked false none) (hheld : c.onStopped ≠ none) :
    c.ioContext.Awaits .start .stop (c.flags.getFlag .running) := by
  have hp : ∀ f ∈ [UdpDiscoveryState.receivingAsync, .sendingAsync, .timerRunning],
      ∀ h : Handler K, h.flag ≠ some f := fun f hf => Handler.flag_ne (by rintro rfl; simp at hf)
  exact awaits_of_operations (ht.mirrors.operations_of_holds hp hc hheld)

theorem Waits.onStopped_of_idle (hc : c.Waits) (hidle : c.ioContext.Idle) :
    c.onStopped = none := by
  by_contra hheld
  exact (hc.held hheld).not_idle hidle

section Steps

variable [DecidableEq K]

theorem Waits.step {e : Event A K} (he : e ≠ .reset) (ht : c.Tracked false none)
    (hw : c.Waits) (hstep : c.Step e d) : d.Waits := by
  have hd := ht.step he (by simp) hstep
  have hstop := hw.stopping
  refine ⟨(step_handover he hstep).signaled hstop, ?_⟩
  cases e with
  | asyncStart r =>
    obtain rfl := (step_asyncStart hstep).resolve_right (by simp [hstop])
    exact hw.held
  | asyncStop k r =>
    obtain ⟨-, rfl⟩ := (step_asyncStop hstep).resolve_right (by simp [hstop])
    exact hw.held
  | reset => exact absurd rfl he
  | run h =>
    obtain ⟨io, hio, rfl⟩ := step_run.mp hstep
    cases h with
    | start =>
      have hsettles : Settles (onStart { c with ioContext := io }) := by
        unfold onStart
        simp only [hstop, Bool.not_true, Bool.false_eq_true, if_false]
        exact resolveOnStopped_settles hstop
      exact hsettles.awaits hd
    | stop =>
      unfold handle onStop
      dsimp only
      split
      · rename_i hrunning
        exact fun hheld => (hw.held hheld).take hio (by simp) (Or.inl hrunning)
      · split
        · exact fun hheld => absurd rfl hheld
        · rename_i hk
          exact fun hheld => absurd hk hheld
    | stopped k =>
      intro hheld
      have hafter := (hw.held hheld).take hio (by simp) (Or.inr (by simp))
      exact hafter
  | handleSendComplete error =>
    obtain ⟨io, hio, rfl⟩ := step_handleSendComplete.mp hstep
    have hsettles := handleSendComplete_settles (c := { c with ioContext := io }) hstop error
    exact hsettles.awaits hd
  | handleResponse error datagram a =>
    obtain ⟨-, io, hio, rfl⟩ := step_handleResponse.mp hstep
    have hsettles := handleResponse_settles
      (c := received { c with ioContext := io } error datagram a) ?_ error datagram.length
    · exact hsettles.awaits hd
    · unfold received
      split <;> exact hstop
  | handleTimeout error =>
    obtain ⟨io, hio, rfl⟩ := step_handleTimeout.mp hstep
    have hsettles := handleTimeout_settles (c := { c with ioContext := io }) hstop error
    exact hsettles.awaits hd

/-- Nothing but the handlers of stops can still happen, and they release nothing. -/
theorem Stuck.step {k : K} {e : Event A K} (he : e ≠ .reset) (hc : c.Stuck k)
    (hstep : c.Step e d) : d.Stuck k := by
  have hfinish : ∀ {o io}, c.ioContext.finish o = some io → False := by
    intro o io hio
    have hmem := (finish_eq_some.mp hio).1
    rw [hc.operations] at hmem
    cases hmem
  cases e with
  | asyncStart r =>
    obtain rfl := (step_asyncStart hstep).resolve_right (by simp [hc.running])
    exact hc
  | asyncStop j r =>
    obtain ⟨-, rfl⟩ := (step_asyncStop hstep).resolve_right (by simp [hc.stopping])
    exact hc
  | reset => exact absurd rfl he
  | run h =>
    obtain ⟨io, hio, rfl⟩ := step_run.mp hstep
    obtain ⟨hmem, hafter⟩ := take_eq_some.mp hio
    have hstart : .start ∉ io.posted := by
      rw [hafter]
      exact fun h => hc.start (List.mem_of_mem_erase h)
    have hoperations : io.operations = [] := by
      rw [hafter]
      exact hc.operations
    cases h with
    | start => exact absurd hmem hc.start
    | stop =>
      unfold handle onStop
      dsimp only
      rw [if_pos hc.running]
      exact ⟨hc.stopping, hc.running, hc.onStopped, hstart, hoperations⟩
    | stopped j => exact ⟨hc.stopping, hc.running, hc.onStopped, hstart, hoperations⟩
  | handleSendComplete error =>
    obtain ⟨io, hio, -⟩ := step_handleSendComplete.mp hstep
    exact absurd hio hfinish
  | handleResponse error datagram a =>
    obtain ⟨-, io, hio, -⟩ := step_handleResponse.mp hstep
    exact absurd hio hfinish
  | handleTimeout error =>
    obtain ⟨io, hio, -⟩ := step_handleTimeout.mp hstep
    exact absurd hio hfinish

theorem waits_or_stuck {k : K} (hstep : c.Step (.asyncStop (some k) true) d) :
    (c.CanRelease → d.Waits) ∧ (¬ c.CanRelease → d.Stuck k) := by
  obtain ⟨hrefused, -⟩ | ⟨-, -, rfl⟩ := step_asyncStop hstep
  · cases hrefused
  · refine ⟨fun hcan => ⟨by simp, fun _ => ?_⟩, fun hcan => ?_⟩
    · rcases hcan with hrunning | hstart | hoperations
      · exact Or.inl ⟨by simpa using hrunning, by simp⟩
      · exact Or.inr (Or.inl (List.mem_append_left _ hstart))
      · exact Or.inr (Or.inr hoperations)
    · simp only [CanRelease, not_or, Bool.not_eq_false, ne_eq, not_not] at hcan
      obtain ⟨hrunning, hstart, hoperations⟩ := hcan
      exact ⟨by simp, by simpa using hrunning, rfl, by simpa using hstart, hoperations⟩

theorem Waits.run {as : List (Event A K)} (h : Run Step c as d) (hreset : .reset ∉ as)
    (ht : c.Tracked false none) (hc : c.Waits) : d.Waits := by
  have hkeep : ∀ (s : UdpDiscoveryClient A K) e t, e ≠ .reset →
      s.Tracked false none ∧ s.Waits → Step s e t → t.Tracked false none ∧ t.Waits :=
    fun s e t he hs hstep => ⟨hs.1.step he (by simp) hstep, hs.2.step he hs.1 hstep⟩
  exact (h.invariant_of_not_mem hkeep hreset ⟨ht, hc⟩).2

theorem Stuck.run {k : K} {as : List (Event A K)} (h : Run Step c as d) (hreset : .reset ∉ as)
    (hc : c.Stuck k) : d.Stuck k := by
  have hkeep : ∀ (s : UdpDiscoveryClient A K) e t, e ≠ .reset → s.Stuck k → Step s e t →
      t.Stuck k := fun _ _ _ he hs hstep => hs.step he hstep
  exact h.invariant_of_not_mem hkeep hreset hc

/-- In every run without a reset in which an `async_stop` returned true and nothing is pending
any more, its callback was posted exactly if in the state `b` of that call the client was not
started, or its start handler was still to come, or an operation was outstanding. -/
theorem stopped_iff_canRelease [Inhabited A] (name : List UInt8) (timeout port : ℤ)
    (onResponse : Bool) (bs cs : List (Event A K)) (k : K) (b c : UdpDiscoveryClient A K)
    (hb : Run Step (new name timeout port onResponse) bs b)
    (hc : Run Step b (.asyncStop (some k) true :: cs) c) (hreset : .reset ∉ bs ++ cs)
    (hidle : c.ioContext.Idle) :
    .posted (.stopped k) ∈ c.ioContext.log ↔ b.CanRelease := by
  have hbefore : .reset ∉ bs := fun hmem => hreset (List.mem_append_left _ hmem)
  have hafter : .reset ∉ cs := fun hmem => hreset (List.mem_append_right _ hmem)
  have hwhole := run_handover (hb.append hc) (by simpa using hreset)
  have hhas : c.handover.Has k :=
    Handover.has_of_run (a := .asyncStop (some k) true) hwhole (by simp) rfl
  have hposted : .posted (.stopped k) ∈ c.ioContext.log ↔ k ∈ c.handover.released :=
    (mem_posts_iff Handler.stopCallback_iff).symm
  have ht := tracked_of_run hb hbefore
  cases hc with
  | cons hstep hrest =>
    obtain ⟨hwaits, hstuck⟩ := waits_or_stuck hstep
    have hd := ht.step (by simp) (by simp) hstep
    rw [hposted]
    by_cases hcan : b.CanRelease
    · have hw := (hwaits hcan).run hrest hafter hd
      rw [hhas.released_eq (hw.onStopped_of_idle hidle)]
      exact iff_of_true List.mem_cons_self hcan
    · have hs := (hstuck hcan).run hrest hafter
      rw [hhas.released_nil hs.onStopped]
      exact iff_of_false List.not_mem_nil hcan

end Steps

theorem stopped_after_abort : ∃ b c : UdpDiscoveryClient ℕ ℕ,
    Run Step (new [115] 1000 12345 true) [.asyncStart true, .run .start] b ∧
    Run Step b (.asyncStop (some 7) true :: [.run .stop, .handleSendComplete .operationAborted,
      .handleResponse .operationAborted [] 0, .run (.stopped 7)]) c ∧
    .posted (.stopped 7) ∈ c.ioContext.log := by
  obtain ⟨b, c, hb, hc, hoperations, hidle⟩ : ∃ b c : UdpDiscoveryClient ℕ ℕ,
      Run Step (new [115] 1000 12345 true) [.asyncStart true, .run .start] b ∧
      Run Step b (.asyncStop (some 7) true :: [.run .stop, .handleSendComplete .operationAborted,
        .handleResponse .operationAborted [] 0, .run (.stopped 7)]) c ∧
      b.ioContext.operations ≠ [] ∧ c.ioContext.Idle :=
    ⟨_, _, Run.iff_foldlM.mpr rfl, Run.iff_foldlM.mpr rfl, by decide, by decide⟩
  refine ⟨b, c, hb, hc, ?_⟩
  exact (stopped_iff_canRelease [115] 1000 12345 true _ _ 7 b c hb hc (by decide) hidle).mpr
    (Or.inr (Or.inr hoperations))

/-- When the send and the receive have failed there is nothing that the stop could abort. -/
theorem never_stopped_after_errors : ∃ c : UdpDiscoveryClient ℕ ℕ,
    Run Step (new [115] 1000 12345 true) [.asyncStart true, .run .start,
      .handleSendComplete (.other 101), .handleResponse (.other 111) [] 0,
      .asyncStop (some 7) true, .run .stop] c ∧
    c.ioContext.Idle ∧ .posted (.stopped 7) ∉ c.ioContext.log :=
  ⟨_, Run.iff_foldlM.mpr rfl, by decide, by decide⟩

end Eestv.Net.UdpDiscoveryClient
