import Eestv.Net.UdpDiscoveryServerWork

/-! Whether the callback of a stop means that the discovery's server has stopped, restarts
included. One flag stands for all sends, and the first that ends clears it. -/

namespace Eestv.Net.UdpDiscoveryServer
open Runs IoContext

variable {A K : Type} {c d : UdpDiscoveryServer A K}

def announce (released : Bool) : Entry (Handler K) (Operation A) (Call K) → Bool
  | .posted (.stopped _) => true
  | .posted .start => false
  | _ => released

def released (c : UdpDiscoveryServer A K) : Bool := c.ioContext.log.foldl announce false

def Quiet (c : UdpDiscoveryServer A K) : Prop :=
  c.ioContext.operations = [] ∧ .start ∉ c.ioContext.posted

instance [DecidableEq A] [DecidableEq K] (c : UdpDiscoveryServer A K) : Decidable c.Quiet :=
  inferInstanceAs (Decidable (_ ∧ _))

def Permits (c : UdpDiscoveryServer A K) : Event A K → Prop
  | .reset => c.released = true ∨ c.Quiet
  | _ => True

instance [DecidableEq A] [DecidableEq K] (c : UdpDiscoveryServer A K) :
    (e : Event A K) → Decidable (c.Permits e)
  | .addDiscoverable _ => isTrue trivial
  | .asyncStart _ => isTrue trivial
  | .asyncStop _ _ => isTrue trivial
  | .reset => inferInstanceAs (Decidable (_ ∨ _))
  | .run _ => isTrue trivial
  | .handleReceive _ _ _ => isTrue trivial
  | .handleSend _ _ _ => isTrue trivial

def ownedStep [DecidableEq A] [DecidableEq K] (c : UdpDiscoveryServer A K) (e : Event A K) :
    Option (UdpDiscoveryServer A K) :=
  if c.Permits e then c.step e else none

def OwnedStep [DecidableEq A] [DecidableEq K] (c : UdpDiscoveryServer A K) (e : Event A K)
    (d : UdpDiscoveryServer A K) : Prop :=
  c.ownedStep e = some d

/-- After the stop callback neither a receive nor a send is outstanding, until the server is
started again. -/
def MeansStopped (c : UdpDiscoveryServer A K) : Prop :=
  c.released = true → c.ioContext.operations = []

def sends (c : UdpDiscoveryServer A K) : ℕ :=
  c.ioContext.operations.countP (·.flag = some .sendingAsync)

def Answers (c : UdpDiscoveryServer A K) (error : ErrorCode) (datagram : List UInt8)
    (remoteEndpoint : A) : Prop :=
  error.failed = false ∧ datagram ≠ [] ∧
    ∃ discoverable, c.discoverables.lookup datagram = some discoverable ∧
      discoverable.getReply remoteEndpoint ≠ []

/-- While a stop waits, one of several sends ends behind the last receive, or a receive is not
answered and ends behind a send that has cleared the flag of another. -/
def Forgets (c : UdpDiscoveryServer A K) (e : Event A K) : Prop :=
  c.flags.getFlag .stopping = true ∧ c.onStopped ≠ none ∧
    match e with
    | .handleSend _ _ _ => c.flags.getFlag .receivingAsync = false ∧ 1 < c.sends
    | .handleReceive error datagram remoteEndpoint =>
      c.flags.getFlag .sendingAsync = false ∧ 0 < c.sends ∧ ¬ c.Answers error datagram remoteEndpoint
    | _ => False

def Calm (c : UdpDiscoveryServer A K) : Prop := c.released = true → c.Quiet

/-! ### What is outstanding -/

theorem operations_eq_nil : c.ioContext.operations = [] ↔ c.receives = 0 ∧ c.sends = 0 := by
  unfold receives sends
  constructor
  · intro hnone
    rw [hnone]
    exact ⟨rfl, rfl⟩
  · rintro ⟨hreceives, hsends⟩
    apply List.eq_nil_iff_forall_not_mem.mpr
    intro o hmem
    cases o with
    | receiveFrom => exact List.countP_eq_zero.mp hreceives _ hmem (by simp [Operation.flag])
    | sendTo buffer a => exact List.countP_eq_zero.mp hsends _ hmem (by simp [Operation.flag])

theorem finish_sends [DecidableEq A] {o : Operation A}
    {io : IoContext (Handler K) (Operation A) (Call K)} (hio : c.ioContext.finish o = some io) :
    sends { c with ioContext := io } + (if o.flag = some .sendingAsync then 1 else 0) =
      c.sends := by
  obtain ⟨hmem, rfl⟩ := finish_eq_some.mp hio
  have hcount := countP_erase_of_mem (fun o => decide (o.flag = some .sendingAsync)) hmem
  simpa only [sends, decide_eq_true_eq] using hcount

theorem finish_receive [DecidableEq A] {io : IoContext (Handler K) (Operation A) (Call K)}
    (hio : c.ioContext.finish .receiveFrom = some io) :
    sends { c with ioContext := io } = c.sends :=
  finish_sends hio

theorem finish_send [DecidableEq A] {buffer : List UInt8} {a : A}
    {io : IoContext (Handler K) (Operation A) (Call K)}
    (hio : c.ioContext.finish (.sendTo buffer a) = some io) :
    sends { c with ioContext := io } + 1 = c.sends :=
  finish_sends hio

theorem reply_eq_nil (error : ErrorCode) (datagram : List UInt8) (a : A) :
    (c.received error datagram a).reply error datagram.length = [] ↔
      ¬ c.Answers error datagram a := by
  unfold Answers
  by_cases herror : error.failed = true
  · simp [reply, herror]
  · by_cases hempty : datagram = []
    · simp [reply, hempty]
    · rw [received_of_success herror, receive_reply herror hempty]
      rcases c.discoverables.lookup datagram with _ | discoverable
      · simp
      · simp [herror, hempty]

/-! ### One step -/

structure Calmly (c d : UdpDiscoveryServer A K) : Prop where
  released : d.released = true → c.released = true ∨
    c.flags.getFlag .stopping = true ∧ c.onStopped ≠ none ∧
      d.flags.getFlag .receivingAsync = false ∧ d.flags.getFlag .sendingAsync = false
  start : .start ∈ d.ioContext.posted → .start ∈ c.ioContext.posted

theorem Calmly.congr {b : UdpDiscoveryServer A K} (h : Calmly b d)
    (hlog : b.released = c.released) (hposted : b.ioContext.posted = c.ioContext.posted)
    (hstop : b.flags.getFlag .stopping = c.flags.getFlag .stopping)
    (hheld : b.onStopped = c.onStopped) : Calmly c d := by
  constructor
  · rw [← hlog, ← hstop, ← hheld]
    exact h.released
  · rw [← hposted]
    exact h.start

theorem resolveOnStopped_calmly : Calmly c c.resolveOnStopped := by
  unfold resolveOnStopped
  split
  · rename_i hstop
    split
    · rename_i hidle
      split
      · rename_i k hk
        refine ⟨fun _ => Or.inr ⟨hstop, ?_, by simpa using hidle⟩, by simp⟩
        simp [hk]
      · exact ⟨Or.inl, id⟩
    · exact ⟨Or.inl, id⟩
  · exact ⟨Or.inl, id⟩

theorem released_start {o : Operation A} {flags : Flags UdpDiscoveryState} :
    released { c with flags := flags, ioContext := c.ioContext.start o } = c.released := by
  simp [released, announce]

theorem onStart_calmly : Calmly c c.onStart := by
  unfold onStart
  split
  · exact ⟨fun h => Or.inl (released_start.symm.trans h), id⟩
  · exact resolveOnStopped_calmly

theorem handleSend_calmly (error : ErrorCode) : Calmly c (c.handleSend error) :=
  resolveOnStopped_calmly.congr rfl rfl (by simp) rfl

theorem goOn_calmly : Calmly c c.goOn := by
  unfold goOn
  split
  · exact ⟨fun h => Or.inl (released_start.symm.trans h), id⟩
  · exact resolveOnStopped_calmly.congr rfl rfl (by simp) rfl

theorem handleReceive_calmly (error : ErrorCode) (n : ℕ) :
    Calmly c (c.handleReceive error n) := by
  rw [handleReceive_eq]
  generalize c.reply error n = text
  cases text with
  | nil => exact goOn_calmly
  | cons byte bytes => exact goOn_calmly.congr released_start rfl (by simp [sendReply]) rfl

theorem handleReceive_unanswered {error : ErrorCode} {n : ℕ}
    (hflag : (c.handleReceive error n).flags.getFlag .sendingAsync = false) :
    c.reply error n = [] ∧ c.flags.getFlag .sendingAsync = false := by
  rw [handleReceive_eq] at hflag
  have hsame : (c.sendReply (c.reply error n)).flags.getFlag .sendingAsync = false := by
    revert hflag
    unfold goOn
    split
    · exact id
    · simp
  revert hsame
  unfold sendReply
  split
  · simp
  · rename_i hreply
    exact fun hclear => ⟨by simpa using hreply, hclear⟩

theorem handleReceive_of_unanswered {error : ErrorCode} {n : ℕ} (hreply : c.reply error n = []) :
    c.handleReceive error n = c.goOn := by
  rw [handleReceive_eq, hreply]
  rfl

theorem onStart_sends : c.onStart.sends = c.sends := by
  unfold onStart startReceive sends
  split
  · simp [Operation.flag]
  · simp

theorem goOn_sends : c.goOn.sends = c.sends := by
  unfold goOn sends
  split
  · simp [Operation.flag]
  · simp

theorem handleSend_sends {error : ErrorCode} : (c.handleSend error).sends = c.sends := by
  simp [handleSend, sends]

theorem resolveOnStopped_released (hstop : c.flags.getFlag .stopping = true)
    (hreceiving : c.flags.getFlag .receivingAsync = false)
    (hsending : c.flags.getFlag .sendingAsync = false) (hheld : c.onStopped ≠ none) :
    c.resolveOnStopped.released = true := by
  obtain ⟨k, hk⟩ := Option.ne_none_iff_exists'.mp hheld
  simp [resolveOnStopped, hstop, hreceiving, hsending, hk, released, announce]

namespace Tracked

theorem operations_of_sends (hc : c.Tracked none)
    (hreceiving : c.flags.getFlag .receivingAsync = false) (hsends : c.sends = 0) :
    c.ioContext.operations = [] := by
  refine operations_eq_nil.mpr ⟨?_, hsends⟩
  rw [hc.receives_eq, hreceiving]
  rfl

theorem quiet (hc : c.Tracked none) (hrunning : c.flags.getFlag .running = false) : c.Quiet := by
  have hlive : ¬ c.Live := by
    intro h
    rw [h.1] at hrunning
    cases hrunning
  refine ⟨(hc.fresh hlive).1, ?_⟩
  exact not_posted_of_work_eq_zero (hc.mirrors.work_eq_zero (by decide) hrunning) rfl

end Tracked

theorem Live.start (hc : c.Live) : .start ∉ c.ioContext.posted :=
  not_posted_of_work_eq_zero hc.2 rfl

theorem Calmly.calm (h : Calmly c d) (hreleased : c.released = false) (hc : c.Live)
    (hd : d.Tracked none)
    (hsends : c.flags.getFlag .stopping = true → c.onStopped ≠ none →
      d.flags.getFlag .receivingAsync = false → d.flags.getFlag .sendingAsync = false →
      d.sends = 0) : d.Calm := by
  intro hafter
  rcases h.released hafter with hbefore | ⟨hstop, hheld, hreceiving, hsending⟩
  · rw [hreleased] at hbefore
    cases hbefore
  · refine ⟨?_, fun hmem => hc.start (h.start hmem)⟩
    exact hd.operations_of_sends hreceiving (hsends hstop hheld hreceiving hsending)

theorem handleReceive_calm {error : ErrorCode} {datagram : List UInt8} {a : A}
    (hreleased : c.released = false) (hlive : c.Live)
    (hd : ((c.received error datagram a).handleReceive error datagram.length).Tracked none)
    (hsends : c.flags.getFlag .stopping = true → c.onStopped ≠ none →
      c.flags.getFlag .sendingAsync = false → ¬ c.Answers error datagram a → c.sends = 0) :
    ((c.received error datagram a).handleReceive error datagram.length).Calm := by
  have hunanswered := reply_eq_nil (c := c) error datagram a
  obtain ⟨buffer, b, heq⟩ := received_eq c error datagram a
  rw [heq] at hd hunanswered ⊢
  refine (handleReceive_calmly error datagram.length).calm hreleased hlive hd ?_
  intro hstop hheld _ hsending
  obtain ⟨hreply, hclear⟩ := handleReceive_unanswered hsending
  rw [handleReceive_of_unanswered hreply, goOn_sends]
  exact hsends hstop hheld hclear (hunanswered.mp hreply)

theorem Calm.released_of_operation {o : Operation A} (hc : c.Calm)
    (hmem : o ∈ c.ioContext.operations) : c.released = false := by
  apply Bool.eq_false_iff.mpr
  intro hreleased
  rw [(hc hreleased).1] at hmem
  cases hmem

theorem Calm.released_of_start (hc : c.Calm) (hmem : .start ∈ c.ioContext.posted) :
    c.released = false :=
  Bool.eq_false_iff.mpr fun hreleased => (hc hreleased).2 hmem

theorem Quiet.reset (hc : c.Quiet) : c.reset.Tracked none := by
  obtain ⟨hoperations, hstart⟩ := hc
  have hposted : ∀ h ∈ c.ioContext.posted, h.flag = none := by
    intro h hmem
    cases h with
    | start => exact absurd hmem hstart
    | stop => rfl
    | stopped k => rfl
  refine ⟨?_, fun _ => ⟨hoperations, rfl⟩⟩
  exact FlagMirror.of_clear Flags.getFlag_empty fun _ => work_eq_zero hposted hoperations

section Steps

variable [DecidableEq A] [DecidableEq K]

omit [DecidableEq A] in
theorem take_released {h : Handler K} {io : IoContext (Handler K) (Operation A) (Call K)}
    (hio : c.ioContext.take h = some io) : released { c with ioContext := io } = c.released := by
  simp [released, announce, take_log hio]

omit [DecidableEq K] in
theorem finish_released {o : Operation A} {io : IoContext (Handler K) (Operation A) (Call K)}
    (hio : c.ioContext.finish o = some io) :
    released { c with ioContext := io } = c.released := by
  simp [released, announce, finish_log hio]

omit [DecidableEq K] in
theorem Calm.in_hand {o : Operation A} {io : IoContext (Handler K) (Operation A) (Call K)}
    (hc : c.Calm) (ht : c.Tracked none) (hio : c.ioContext.finish o = some io) :
    released { c with ioContext := io } = false ∧ Live { c with ioContext := io } := by
  constructor
  · rw [finish_released hio]
    exact hc.released_of_operation (finish_eq_some.mp hio).1
  · have hhand := ht.finish hio
    cases o with
    | receiveFrom => exact Tracked.live (f := .receivingAsync) hhand
    | sendTo buffer a => exact Tracked.live (f := .sendingAsync) hhand

theorem Calm.step {e : Event A K} (he : e ≠ .reset) (ht : c.Tracked none) (hc : c.Calm)
    (hnot : ¬ c.Forgets e) (hstep : c.Step e d) : d.Calm := by
  have hd := ht.step he hstep
  cases e with
  | addDiscoverable discoverable =>
    cases hstep
    obtain ⟨discoverables, heq⟩ := addDiscoverable_eq c discoverable
    rw [heq]
    exact hc
  | asyncStart r =>
    obtain rfl | ⟨-, -, rfl⟩ := step_asyncStart hstep
    · exact hc
    · intro hreleased
      simp [released, announce] at hreleased
  | asyncStop k r =>
    obtain ⟨-, rfl⟩ | ⟨-, -, rfl⟩ := step_asyncStop hstep
    · exact hc
    · simpa [Calm, Quiet, released, announce] using hc
  | reset => exact absurd rfl he
  | run h =>
    obtain ⟨io, hio, rfl⟩ := step_run.mp hstep
    obtain ⟨hmem, hafter⟩ := take_eq_some.mp hio
    have htaken : Calm { c with ioContext := io } := by
      intro hreleased
      rw [take_released hio] at hreleased
      obtain ⟨hoperations, hstart⟩ := hc hreleased
      rw [hafter]
      exact ⟨hoperations, fun h => hstart (List.mem_of_mem_erase h)⟩
    cases h with
    | start =>
      obtain ⟨-, hlive, hnone⟩ := ht.takeStart hio
      refine onStart_calmly.calm ?_ hlive hd fun _ _ _ _ => ?_
      · rw [take_released hio]
        exact hc.released_of_start hmem
      · exact onStart_sends.trans (operations_eq_nil.mp hnone).2
    | stop =>
      unfold handle onStop
      dsimp only
      split
      · exact htaken
      · rename_i hrunning
        split
        · intro _
          simpa [Quiet] using (ht.take rfl hio).quiet (by simpa using hrunning)
        · exact htaken
    | stopped k => simpa [Calm, Quiet, handle, released, announce] using htaken
  | handleReceive error datagram a =>
    obtain ⟨-, io, hio, rfl⟩ := step_handleReceive.mp hstep
    obtain ⟨hreleased, hlive⟩ := hc.in_hand ht hio
    refine handleReceive_calm hreleased hlive hd fun hstop hheld hsending hunanswered => ?_
    rw [finish_receive hio]
    by_contra hmore
    exact hnot ⟨hstop, hheld, hsending, Nat.pos_of_ne_zero hmore, hunanswered⟩
  | handleSend buffer a error =>
    obtain ⟨io, hio, rfl⟩ := step_handleSend.mp hstep
    obtain ⟨hreleased, hlive⟩ := hc.in_hand ht hio
    refine (handleSend_calmly error).calm hreleased hlive hd fun hstop hheld hreceiving _ => ?_
    rw [handleSend_sends]
    by_contra hmore
    refine hnot ⟨hstop, hheld, by simpa [handleSend] using hreceiving, ?_⟩
    rw [← finish_send hio]
    exact Nat.succ_lt_succ (Nat.pos_of_ne_zero hmore)

omit [DecidableEq A] [DecidableEq K] in
theorem not_meansStopped_of_sends (hreleased : c.released = true) (hsends : c.sends ≠ 0) :
    ¬ c.MeansStopped :=
  fun hc => hsends (operations_eq_nil.mp (hc hreleased)).2

theorem not_meansStopped_of_forgets {e : Event A K} (he : c.Forgets e) (hstep : c.Step e d) :
    ¬ d.MeansStopped := by
  obtain ⟨hstop, hheld, he⟩ := he
  cases e with
  | handleReceive error datagram a =>
    obtain ⟨hsending, hsends, hnot⟩ := he
    obtain ⟨-, io, hio, rfl⟩ := step_handleReceive.mp hstep
    have hfinish := finish_receive hio
    have hunanswered : ¬ Answers { c with ioContext := io } error datagram a := hnot
    rw [handleReceive_of_unanswered ((reply_eq_nil _ _ _).mpr hunanswered)]
    obtain ⟨buffer, b, heq⟩ := received_eq { c with ioContext := io } error datagram a
    rw [heq]
    apply not_meansStopped_of_sends
    · unfold goOn
      rw [if_neg (by simp [hstop])]
      exact resolveOnStopped_released (by simp [hstop]) (by simp) (by simp [hsending]) hheld
    · rw [goOn_sends]
      exact hfinish.trans_ne hsends.ne'
  | handleSend buffer a error =>
    obtain ⟨hreceiving, hsends⟩ := he
    obtain ⟨io, hio, rfl⟩ := step_handleSend.mp hstep
    have hfinish := finish_send hio
    apply not_meansStopped_of_sends
    · exact resolveOnStopped_released (by simp [hstop]) (by simp [hreceiving]) (by simp) hheld
    · rw [handleSend_sends]
      omega
  | _ => exact absurd he id

theorem ownedStep_iff {e : Event A K} : c.OwnedStep e d ↔ c.Permits e ∧ c.Step e d :=
  Option.ite_none_right_eq_some

/-- In every run in which the server is reset only after a successful stop, nothing is outstanding
after the stop callback, exactly if no send is forgotten. -/
theorem meansStopped_iff_forgets [Inhabited A] (as : List (Event A K)) :
    Always OwnedStep MeansStopped new as ↔ Each OwnedStep (fun c e => ¬ Forgets c e) new as := by
  refine always_iff_each (I := fun c => Tracked c none ∧ Calm c) ?_ ?_ ?_
    ⟨.new, fun h => by cases h⟩
  · rintro c ⟨-, hc⟩
    exact fun hreleased => (hc hreleased).1
  · rintro c e d ⟨ht, hc⟩ hstep hnot
    obtain ⟨hpermits, hd⟩ := ownedStep_iff.mp hstep
    by_cases he : e = .reset
    · subst he
      cases hd
      exact ⟨(Or.elim hpermits hc id).reset, hc⟩
    · exact ⟨ht.step he hd, hc.step he ht hnot hd⟩
  · rintro c e d - hstep hmeans hforgets
    exact not_meansStopped_of_forgets hforgets (ownedStep_iff.mp hstep).2 hmeans

end Steps

/-- Of two replies one is sent, and the stop callback is released while the other is
outstanding. -/
theorem stopped_during_send : ∃ c : UdpDiscoveryServer ℕ ℕ,
    Run OwnedStep new [.addDiscoverable ⟨[7], fun _ => [9]⟩, .asyncStart true, .run .start,
      .handleReceive .success [7] 1, .handleReceive .success [7] 2, .handleSend [9] 1 .success,
      .asyncStop (some 3) true, .run .stop, .handleReceive .operationAborted [] 0] c ∧
    .posted (.stopped 3) ∈ c.ioContext.log ∧ c.ioContext.operations = [.sendTo [9] 2] :=
  ⟨_, Run.iff_foldlM.mpr rfl, by decide, rfl⟩

end Eestv.Net.UdpDiscoveryServer
