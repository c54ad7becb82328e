import Eestv.Net.UdpDiscoveryClientStop

/-! Whether a running client of the discovery goes on. Its two chains, of receives and of sends
and waits, each end where the handler of an operation starts no other. -/

namespace Eestv.Net.UdpDiscoveryClient
open Runs IoContext

variable {A K : Type} {c d : UdpDiscoveryClient A K}

/-- Responses are heard, and requests are retried. -/
structure Discovering (c : UdpDiscoveryClient A K) : Prop where
  one_receive : c.outstanding .receivingAsync = 1
  one_request : c.outstanding .sendingAsync + c.outstanding .timerRunning = 1

/-- Neither a stop, a reset nor an abort, and the timer expires. -/
def Event.Undisturbed : Event A K → Prop
  | .asyncStop _ _ => False
  | .reset => False
  | .handleSendComplete error => error ≠ .operationAborted
  | .handleResponse error _ _ => error ≠ .operationAborted
  | .handleTimeout error => error = .success
  | _ => True

/-- A send or a receive fails, or a datagram is empty. -/
def Event.EndsChain : Event A K → Prop
  | .handleSendComplete error => error.failed = true
  | .handleResponse error datagram _ => error.failed = true ∨ datagram = []
  | _ => False

def Event.ends : Event A K → Option UdpDiscoveryState
  | .handleSendComplete _ => some .sendingAsync
  | .handleResponse _ _ _ => some .receivingAsync
  | .handleTimeout _ => some .timerRunning
  | _ => none

def Event.next : Event A K → Option UdpDiscoveryState
  | .handleSendComplete error => if error.failed then none else some .timerRunning
  | .handleResponse error datagram _ =>
    if error.failed || datagram.isEmpty then none else some .receivingAsync
  | .handleTimeout error => if error.failed then none else some .sendingAsync
  | _ => none

structure Open (c : UdpDiscoveryClient A K) : Prop where
  stopping : c.flags.getFlag .stopping = false
  onResponse : c.onResponse = true
  posted : ∀ h ∈ c.ioContext.posted, h = .start

/-! ### One step -/

theorem outstanding_eq {f : UdpDiscoveryState} (h : d.ioContext.operations = c.ioContext.operations) :
    d.outstanding f = c.outstanding f := by
  rw [outstanding, outstanding, h]

theorem outstanding_start {o : Operation} {f : UdpDiscoveryState}
    (h : d.ioContext.operations = c.ioContext.operations ++ [o]) :
    d.outstanding f = c.outstanding f + if o.flag = some f then 1 else 0 := by
  rw [outstanding, outstanding, h, List.countP_append, List.countP_singleton]
  simp only [decide_eq_true_eq]

theorem outstanding_finish {o : Operation} {f : UdpDiscoveryState}
    {io : IoContext (Handler K) Operation (Call A K)} (hio : c.ioContext.finish o = some io) :
    outstanding { c with ioContext := io } f + (if o.flag = some f then 1 else 0) =
      c.outstanding f := by
  obtain ⟨hmem, hafter⟩ := finish_eq_some.mp hio
  have hcount := countP_erase_of_mem (fun o => decide (o.flag = some f)) hmem
  simpa only [outstanding, hafter, decide_eq_true_eq] using hcount

theorem handleSendComplete_outstanding {error : ErrorCode} {f : UdpDiscoveryState}
    (hstop : c.flags.getFlag .stopping = false) :
    (c.handleSendComplete error).outstanding f = c.outstanding f +
      if (if error.failed then none else some .timerRunning) = some f then 1 else 0 := by
  unfold handleSendComplete
  simp only [hstop, Bool.not_false, if_true]
  split
  · exact outstanding_eq resolveOnStopped_operations
  · apply outstanding_start (o := .wait c.retryTimeout)
    simp

theorem handleResponse_outstanding {error : ErrorCode} {n : ℕ} {f : UdpDiscoveryState}
    (hresponse : c.onResponse = true) :
    (c.handleResponse error n).outstanding f = c.outstanding f +
      if (if error.failed = true ∨ n = 0 then none else some .receivingAsync) = some f then 1
      else 0 := by
  unfold handleResponse
  split
  · rename_i herror
    rw [if_pos (c := _ ∨ _) (Or.inl herror)]
    exact outstanding_eq resolveOnStopped_operations
  · rename_i herror
    split
    · rename_i hn
      rw [if_neg (c := _ ∨ _) (not_or.mpr ⟨herror, Nat.ne_of_gt hn⟩)]
      apply outstanding_start (o := .receiveFrom)
      simp [hresponse]
    · rename_i hn
      rw [if_pos (c := _ ∨ _) (Or.inr (Nat.eq_zero_of_not_pos hn))]
      exact outstanding_eq resolveOnStopped_operations

theorem handleTimeout_outstanding {error : ErrorCode} {f : UdpDiscoveryState} :
    (c.handleTimeout error).outstanding f = c.outstanding f +
      if (if error.failed then none else some .sendingAsync) = some f then 1 else 0 := by
  unfold handleTimeout
  split
  · exact outstanding_eq resolveOnStopped_operations
  · apply outstanding_start (o := c.request)
    simp [sendDiscoveryRequest]

namespace Open

theorem resolveOnStopped (hc : c.Open) : c.resolveOnStopped.Open := by
  unfold UdpDiscoveryClient.resolveOnStopped
  rw [hc.stopping]
  exact hc

theorem clear {f : UdpDiscoveryState} (hc : c.Open) :
    Open { c with flags := c.flags.clearFlag f } :=
  ⟨by simp [hc.stopping], hc.onResponse, hc.posted⟩

theorem set {f : UdpDiscoveryState} (hc : c.Open) (hf : f ≠ .stopping) :
    Open { c with flags := c.flags.setFlag f } :=
  ⟨by simp [hf, hc.stopping], hc.onResponse, hc.posted⟩

theorem start {o : Operation} (hc : c.Open) :
    Open { c with ioContext := c.ioContext.start o } :=
  ⟨hc.stopping, hc.onResponse, hc.posted⟩

theorem call {x : Call A K} (hc : c.Open) : Open { c with ioContext := c.ioContext.call x } :=
  ⟨hc.stopping, hc.onResponse, hc.posted⟩

theorem received (hc : c.Open) (error : ErrorCode) (datagram : List UInt8) (a : A) :
    (c.received error datagram a).Open := by
  unfold UdpDiscoveryClient.received
  split
  · exact hc
  · exact ⟨hc.stopping, hc.onResponse, hc.posted⟩

theorem sendDiscoveryRequest (hc : c.Open) : c.sendDiscoveryRequest.Open := by
  have hset := hc.set (f := .sendingAsync) (by decide)
  exact hset.start

theorem onStart (hc : c.Open) : c.onStart.Open := by
  unfold UdpDiscoveryClient.onStart
  split
  · apply sendDiscoveryRequest
    have hset := hc.set (f := .receivingAsync) (by decide)
    exact hset.start
  · exact hc.resolveOnStopped

theorem handleSendComplete (hc : c.Open) (error : ErrorCode) :
    (c.handleSendComplete error).Open := by
  unfold UdpDiscoveryClient.handleSendComplete
  apply resolveOnStopped
  split
  · exact hc.clear
  · split
    · exact (hc.set (by decide)).start.clear
    · exact hc.clear

theorem handleResponse (hc : c.Open) (error : ErrorCode) (n : ℕ) :
    (c.handleResponse error n).Open := by
  unfold UdpDiscoveryClient.handleResponse
  apply resolveOnStopped
  split
  · exact hc.clear
  · split
    · dsimp only
      split
      · exact hc.call.start.clear
      · exact hc.clear
    · exact hc.clear

theorem handleTimeout (hc : c.Open) (error : ErrorCode) : (c.handleTimeout error).Open := by
  unfold UdpDiscoveryClient.handleTimeout
  apply resolveOnStopped
  split
  · exact hc.clear
  · exact hc.sendDiscoveryRequest.clear

end Open

section Steps

variable [DecidableEq K]

theorem Open.take {h : Handler K} {io : IoContext (Handler K) Operation (Call A K)}
    (hc : c.Open) (hio : c.ioContext.take h = some io) : Open { c with ioContext := io } := by
  refine ⟨hc.stopping, hc.onResponse, ?_⟩
  intro g hmem
  rw [(take_eq_some.mp hio).2] at hmem
  exact hc.posted g (List.mem_of_mem_erase hmem)

omit [DecidableEq K] in
theorem Open.finish {o : Operation} {io : IoContext (Handler K) Operation (Call A K)}
    (hc : c.Open) (hio : c.ioContext.finish o = some io) : Open { c with ioContext := io } := by
  refine ⟨hc.stopping, hc.onResponse, ?_⟩
  rw [(finish_eq_some.mp hio).2]
  exact hc.posted

theorem Open.step {e : Event A K} (he : e.Undisturbed) (hc : c.Open) (hstep : c.Step e d) :
    d.Open := by
  cases e with
  | asyncStart r =>
    obtain rfl | ⟨-, -, rfl⟩ := step_asyncStart hstep
    · exact hc
    · refine ⟨by simp [hc.stopping], hc.onResponse, ?_⟩
      simpa [or_imp, forall_and] using hc.posted
  | asyncStop k r => exact absurd he id
  | reset => exact absurd he id
  | run h =>
    obtain ⟨io, hio, rfl⟩ := step_run.mp hstep
    obtain rfl := hc.posted h (take_eq_some.mp hio).1
    exact (hc.take hio).onStart
  | handleSendComplete error =>
    obtain ⟨io, hio, rfl⟩ := step_handleSendComplete.mp hstep
    exact (hc.finish hio).handleSendComplete error
  | handleResponse error datagram a =>
    obtain ⟨-, io, hio, rfl⟩ := step_handleResponse.mp hstep
    exact ((hc.finish hio).received error datagram a).handleResponse error datagram.length
  | handleTimeout error =>
    obtain ⟨io, hio, rfl⟩ := step_handleTimeout.mp hstep
    exact (hc.finish hio).handleTimeout error

theorem step_outstanding {e : Event A K} (hc : c.Open) (he : e.ends ≠ none)
    (hstep : c.Step e d) (f : UdpDiscoveryState) :
    d.outstanding f + (if e.ends = some f then 1 else 0) =
      c.outstanding f + if e.next = some f then 1 else 0 := by
  cases e with
  | handleSendComplete error =>
    obtain ⟨io, hio, rfl⟩ := step_handleSendComplete.mp hstep
    rw [handleSendComplete_outstanding (c := { c with ioContext := io }) hc.stopping,
      ← outstanding_finish hio (f := f), Nat.add_right_comm]
    rfl
  | handleResponse error datagram a =>
    obtain ⟨-, io, hio, rfl⟩ := step_handleResponse.mp hstep
    have hsame : (received { c with ioContext := io } error datagram a).outstanding f =
        outstanding { c with ioContext := io } f :=
      outstanding_eq (congrArg IoContext.operations received_ioContext)
    rw [handleResponse_outstanding (c := received { c with ioContext := io } error datagram a)
      (received_onResponse.trans hc.onResponse), hsame, ← outstanding_finish hio (f := f),
      Nat.add_right_comm]
    simp [Event.next, Event.ends, Operation.flag]
  | handleTimeout error =>
    obtain ⟨io, hio, rfl⟩ := step_handleTimeout.mp hstep
    rw [handleTimeout_outstanding (c := { c with ioContext := io }),
      ← outstanding_finish hio (f := f), Nat.add_right_comm]
    rfl
  | _ => exact absurd rfl he

theorem step_of_discovering {e : Event A K} (he : e.Undisturbed) (hnone : e.ends = none)
    (ht : c.Tracked false none) (hc : c.Open) (hdiscover : c.Discovering) (hstep : c.Step e d) :
    d = c := by
  have hlive : c.Live := by
    by_contra hnot
    have hone := hdiscover.one_receive
    rw [outstanding, (ht.fresh hnot).1] at hone
    cases hone
  cases e with
  | asyncStart r =>
    exact (step_asyncStart hstep).resolve_right (by simp [hlive.1])
  | run h =>
    obtain ⟨io, hio, -⟩ := step_run.mp hstep
    have hmem := (take_eq_some.mp hio).1
    obtain rfl := hc.posted h hmem
    exact absurd hmem hlive.start
  | asyncStop k r => exact absurd he id
  | reset => exact absurd he id
  | _ => cases hnone

/-- The chains go on exactly if neither of them ends. -/
theorem Discovering.step_iff {e : Event A K} (he : e.Undisturbed) (ht : c.Tracked false none)
    (hc : c.Open) (hdiscover : c.Discovering) (hstep : c.Step e d) :
    d.Discovering ↔ ¬ e.EndsChain := by
  obtain ⟨hreceive, hrequest⟩ := hdiscover
  by_cases hends : e.ends = none
  · rw [step_of_discovering he hends ht hc ⟨hreceive, hrequest⟩ hstep]
    refine iff_of_true ⟨hreceive, hrequest⟩ ?_
    cases e <;> first | exact id | cases hends
  · have hcount := step_outstanding hc hends hstep
    have hr := hcount .receivingAsync
    have hs := hcount .sendingAsync
    have ht := hcount .timerRunning
    have hiff : d.Discovering ↔ d.outstanding .receivingAsync = 1 ∧
        d.outstanding .sendingAsync + d.outstanding .timerRunning = 1 :=
      ⟨fun hd => ⟨hd.one_receive, hd.one_request⟩, fun hd => ⟨hd.1, hd.2⟩⟩
    rw [hiff]
    cases e with
    | handleSendComplete error =>
      cases herror : error.failed <;>
        simp [Event.ends, Event.next, Event.EndsChain, herror] at hr hs ht ⊢ <;> omega
    | handleResponse error datagram a =>
      cases herror : error.failed <;> cases hdatagram : datagram.isEmpty <;>
        simp [Event.ends, Event.next, Event.EndsChain, herror, hdatagram, ← List.isEmpty_iff]
          at hr hs ht ⊢ <;> omega
    | handleTimeout error =>
      have herror : error = .success := he
      simp [Event.ends, Event.next, Event.EndsChain, herror, ErrorCode.failed] at hr hs ht ⊢
      omega
    | _ => exact absurd rfl hends

theorem discovering_of_start (ht : c.Tracked false none) (hc : c.Open)
    (hstep : c.Step (.run .start) d) : d.Discovering := by
  obtain ⟨io, hio, rfl⟩ := step_run.mp hstep
  obtain ⟨-, -, hnone⟩ := ht.takeStart hio
  have hoperations : (handle { c with ioContext := io } .start).ioContext.operations =
      [.receiveFrom, c.request] := by
    simp [handle, onStart, sendDiscoveryRequest, hc.stopping, hnone, request]
  constructor
  · rw [outstanding, hoperations]
    rfl
  · rw [outstanding, outstanding, hoperations]
    rfl

/-- After the start handler of a client with a handler of responses has run, and until it is
stopped or reset, a receive and either a send or a wait are outstanding in every state, exactly
if no send and no receive fails and no datagram is empty. -/
theorem discovering_iff [Inhabited A] (name : List UInt8) (timeout port : ℤ)
    (bs as : List (Event A K)) (b : UdpDiscoveryClient A K)
    (hb : Run Step (new name timeout port true) (bs ++ [.run .start]) b)
    (hbs : ∀ e ∈ bs, e.Undisturbed) (has : ∀ e ∈ as, e.Undisturbed) :
    Always Step Discovering b as ↔ Each Step (fun _ e => ¬ e.EndsChain) b as := by
  have hreset : .reset ∉ bs ++ [(.run .start : Event A K)] := by
    intro hmem
    rcases List.mem_append.mp hmem with hbefore | hlast
    · exact hbs _ hbefore
    · cases List.mem_singleton.mp hlast
  have hopen : ∀ (s : UdpDiscoveryClient A K) e t, e.Undisturbed → s.Open → Step s e t → t.Open :=
    fun _ _ _ he hs hstep => hs.step he hstep
  have hnew : (new name timeout port true : UdpDiscoveryClient A K).Open := by
    refine ⟨Flags.getFlag_empty _, rfl, ?_⟩
    intro h hmem
    cases hmem
  obtain ⟨s, hs, hlast⟩ := hb.of_append
  have hs_tracked := tracked_of_run hs fun hmem => hreset (List.mem_append_left _ hmem)
  have hs_open := hs.invariant_of_forall hopen hbs hnew
  have hdiscover : b.Open ∧ b.Discovering := by
    cases hlast with
    | cons hstep hnil =>
      cases hnil
      exact ⟨hs_open.step (e := Event.run .start) trivial hstep,
        discovering_of_start hs_tracked hs_open hstep⟩
  refine always_iff_each_of_forall (I := fun c => Tracked false c none ∧ Open c ∧ Discovering c)
    (fun _ hc => hc.2.2) ?_ ?_ has ⟨tracked_of_run hb hreset, hdiscover⟩
  · rintro c e d he ⟨ht, hc, hd⟩ hstep hnot
    have hno : e ≠ .reset := by
      rintro rfl
      exact he
    exact ⟨ht.step hno (by simp) hstep, hc.step he hstep, (hd.step_iff he ht hc hstep).mpr hnot⟩
  · rintro c e d he ⟨ht, hc, hd⟩ hstep hafter
    exact (hd.step_iff he ht hc hstep).mp hafter

end Steps

theorem discovering_answered : ∃ b : UdpDiscoveryClient ℕ ℕ,
    Run Step (new [115] 1000 12345 true) ([.asyncStart true] ++ [.run .start]) b ∧
    Always Step Discovering b [.handleSendComplete .success, .handleResponse .success [1] 0,
      .handleTimeout .success] := by
  obtain ⟨b, hb⟩ : ∃ b : UdpDiscoveryClient ℕ ℕ,
      Run Step (new [115] 1000 12345 true) ([.asyncStart true] ++ [.run .start]) b :=
    ⟨_, Run.iff_foldlM.mpr rfl⟩
  refine ⟨b, hb, (discovering_iff [115] 1000 12345 [.asyncStart true] _ b hb ?_ ?_).mpr ?_⟩
  · simp [Event.Undisturbed]
  · simp [Event.Undisturbed]
  · simp only [each_cons]
    exact fun _ _ => ⟨by simp [Event.EndsChain, ErrorCode.failed], fun _ _ =>
      ⟨by simp [Event.EndsChain, ErrorCode.failed], fun _ _ => ⟨id, each_nil⟩⟩⟩

/-- An empty datagram ends the receives. -/
theorem empty_datagram_ends_receives : ∃ c : UdpDiscoveryClient ℕ ℕ,
    Run Step (new [115] 1000 12345 true) ([.asyncStart true] ++ [.run .start] ++
      [.handleResponse .success [] 0]) c ∧ ¬ c.Discovering := by
  obtain ⟨c, hrun, hnone⟩ : ∃ c : UdpDiscoveryClient ℕ ℕ,
      Run Step (new [115] 1000 12345 true) ([.asyncStart true] ++ [.run .start] ++
        [.handleResponse .success [] 0]) c ∧ c.outstanding .receivingAsync = 0 :=
    ⟨_, Run.iff_foldlM.mpr rfl, rfl⟩
  refine ⟨c, hrun, fun hc => ?_⟩
  rw [hc.one_receive] at hnone
  cases hnone

end Eestv.Net.UdpDiscoveryClient
