import Eestv.Net.TcpConnectionEffect
import Eestv.Net.TcpConnectionWrites

/-! No request to send is forgotten. `start_sending` does nothing while a send is scheduled or
running; the running one looks at the buffer again before it clears its flag. -/

namespace Eestv.Net.TcpConnection
open Runs IoContext LinearBuffer

section Awake

variable {R S K : Type} {c d : TcpConnection R S K}

def Awake (c : TcpConnection R S K) : Prop :=
  c.flags.getFlag .startSending = true ∨ c.flags.getFlag .sending = true

/-- The handler of `start_sending` is posted, or a write is outstanding, and the flag says so. -/
def SendsOn (c : TcpConnection R S K) : Prop :=
  (c.flags.getFlag .startSending = true ∧ .startSending ∈ c.ioContext.posted) ∨
    (c.flags.getFlag .sending = true ∧ ∃ p bytes, .write p bytes ∈ c.ioContext.operations)

theorem Tracked.sendsOn (hc : c.Tracked) (h : c.Awake) : c.SendsOn := by
  rcases h with hstart | hsending
  · have hpos := hc.mirrors.work_pos (by decide) hstart
    refine Or.inl ⟨hstart, ?_⟩
    rcases exists_of_work_pos hpos with ⟨h, hmem, hflag⟩ | ⟨o, -, hflag⟩
    · cases h with
      | startSending => exact hmem
      | _ => cases hflag
    · cases o <;> cases hflag
  · have hpos := hc.mirrors.work_pos (by decide) hsending
    refine Or.inr ⟨hsending, ?_⟩
    rcases exists_of_work_pos hpos with ⟨h, -, hflag⟩ | ⟨o, hmem, hflag⟩
    · cases h <;> cases hflag
    · cases o with
      | readSome p n => cases hflag
      | write p bytes => exact ⟨p, bytes, hmem⟩

theorem Awake.frame (hc : c.Awake) (h : SendFrame c d) : d.Awake := by
  unfold Awake
  rw [h.startSending, h.sending]
  exact hc

theorem awake_startSending (hrun : c.flags.getFlag .stopSignaled = false) :
    c.startSending.Awake := by
  unfold startSending
  split
  · rename_i h
    simp only [hrun, Bool.or_false, Bool.or_eq_true] at h
    exact h
  · left
    simp

variable [IoBuffer S]

def Unsent (c : TcpConnection R S K) : Prop := usable (IoBuffer.getReadHead c.sendBuffer) ≠ none

instance (c : TcpConnection R S K) : Decidable c.Unsent :=
  inferInstanceAs (Decidable (_ ≠ none))

theorem Unsent.frame (hd : d.Unsent) (h : SendFrame c d) : c.Unsent := by
  unfold Unsent at *
  rwa [h.buffer] at hd

theorem awake_asyncSend (hsending : c.flags.getFlag .sending = true) (h : c.asyncSend.Unsent) :
    c.asyncSend.Awake := by
  rcases hw : usable (IoBuffer.getReadHead c.sendBuffer) with _ | ⟨p, n⟩
  · rw [asyncSend_of_none hw] at h
    exact absurd hw h
  · rw [asyncSend_of_some hw]
    exact Or.inr hsending

variable [IoBuffer R]

def Event.Undisturbed : Event R S K → Prop
  | .asyncStop _ _ => False
  | .onSend _ _ error _ => error.failed = false
  | _ => True

/-- A callback puts bytes into a send buffer that had none to send. -/
def Fills (c : TcpConnection R S K) : Event R S K → Prop
  | .callQueueSendFunction callback => ¬ c.Unsent ∧ (c.callQueueSendFunction callback).Unsent
  | _ => False

variable [DecidableEq K]

theorem step_undisturbed {e : Event R S K} (he : e.Undisturbed) (hstep : c.Step e d)
    (hrun : c.flags.getFlag .stopSignaled = false) : d.flags.getFlag .stopSignaled = false := by
  have haccepts : e.accepts = false := by
    cases e <;> first | rfl | cases he
  rw [(step_effect haccepts hstep).stopSignaled]
  exact hrun

theorem awake_of_sends {e : Event R S K} (he : e.Undisturbed) (hsends : e.sends = true)
    (hqueue : ∀ callback, e ≠ .callQueueSendFunction callback) (hc : c.Tracked)
    (hrun : c.flags.getFlag .stopSignaled = false) (hstep : c.Step e d) (hd : d.Unsent) :
    d.Awake := by
  cases e with
  | callQueueSendFunction callback => exact absurd rfl (hqueue callback)
  | startSending =>
    cases hstep
    exact awake_startSending hrun
  | run h =>
    obtain ⟨io, -, rfl⟩ := step_run.mp hstep
    cases h with
    | startSending =>
      have hstart := onStartSending_of_running (c := { c with ioContext := io }) hrun
      unfold handle at hd ⊢
      dsimp only at hd ⊢
      rw [hstart] at hd ⊢
      exact awake_asyncSend (by simp) hd
    | _ => cases hsends
  | onSend p bytes error n =>
    obtain ⟨-, io, hio, rfl⟩ := step_onSend.mp hstep
    have hflag : c.flags.getFlag .sending = true := hc.mirrors.flag_of_work_pos (by decide)
      (work_pos_of_operation (finish_eq_some.mp hio).1 rfl)
    have hframe := onSend_frame (c := { c with ioContext := io }) he n
    have hawake := awake_asyncSend (c := { c with
      sendBuffer := (IoBuffer.consume c.sendBuffer n).2
      ioContext := io }) hflag (hd.frame hframe)
    exact hawake.frame hframe
  | _ => cases hsends

/-! ### Bytes to send -/

/-- While there are bytes to send, a send is scheduled or running. -/
structure Wakeful (c : TcpConnection R S K) : Prop where
  tracked : c.Tracked
  running : c.flags.getFlag .stopSignaled = false
  awake : c.Unsent → c.Awake

theorem Wakeful.step {e : Event R S K} (he : e.Undisturbed) (hc : c.Wakeful)
    (hstep : c.Step e d) (hfills : ¬ c.Fills e) : d.Wakeful := by
  refine ⟨hc.tracked.step hstep, step_undisturbed he hstep hc.running, ?_⟩
  intro hd
  rcases hsends : e.sends with _ | _
  · have hframe := step_sendFrame hsends hstep
    exact (hc.awake (hd.frame hframe)).frame hframe
  · cases e with
    | callQueueSendFunction callback =>
      cases hstep
      have hbefore : c.Unsent := by
        by_contra hnone
        exact hfills ⟨hnone, hd⟩
      exact hc.awake hbefore
    | _ => exact awake_of_sends he hsends (by simp) hc.tracked hc.running hstep hd

theorem sendsOn_of_run {m n : ℕ} {as bs : List (Event R S K)}
    (hstart : Run Step (new m n) (as ++ [.startSending]) c) (hrun : Run Step c bs d)
    (hok : ∀ e ∈ as ++ bs, e.Undisturbed) (hfills : Each Step (fun c e => ¬ c.Fills e) c bs)
    (hd : d.Unsent) : d.SendsOn := by
  obtain ⟨b, hb, hstart⟩ := hstart.of_append
  have hkeep : ∀ (c : TcpConnection R S K) (e : Event R S K) (d : TcpConnection R S K),
      e.Undisturbed → c.Tracked ∧ c.flags.getFlag .stopSignaled = false → c.Step e d →
      d.Tracked ∧ d.flags.getFlag .stopSignaled = false :=
    fun _ _ _ he hc hstep => ⟨hc.1.step hstep, step_undisturbed he hstep hc.2⟩
  have hbefore := hb.invariant_of_forall hkeep (fun e he => hok e (List.mem_append_left _ he))
    ⟨new_tracked m n, Flags.getFlag_empty _⟩
  have hwakeful : c.Wakeful := by
    cases hstart with
    | cons hstep hnil =>
      cases hnil
      refine ⟨hbefore.1.step hstep, ?_, ?_⟩
      · exact step_undisturbed (e := .startSending) trivial hstep hbefore.2
      · cases hstep
        exact fun _ => awake_startSending hbefore.2
  have hlast := hrun.of_each (fun _ _ _ he hc hstep => hc.step he hstep)
    (fun e he => hok e (List.mem_append_right _ he)) hfills hwakeful
  exact hlast.tracked.sendsOn (hlast.awake hd)

end Awake

/-! ### Requested bytes -/

namespace Sender

variable {R K : Type} [IoBuffer R] [DecidableEq K] {s t : Sender R K}

/-- While bytes for which `start_sending` was called are not acknowledged, a send is scheduled
or running. -/
structure Requested (s : Sender R K) : Prop where
  sending : s.Sending
  running : s.connection.flags.getFlag .stopSignaled = false
  requested_le : s.requested ≤ s.committed.length
  awake : s.acknowledged.length < s.requested → s.connection.Awake

omit [IoBuffer R] [DecidableEq K] in
theorem Requested.unsent (hs : s.Sending) (hle : s.requested ≤ s.committed.length)
    (hlt : s.acknowledged.length < s.requested) : s.connection.Unsent := by
  have hlength := congrArg List.length hs.conserved
  rw [List.length_append, hs.consistent.unread_length] at hlength
  have husable := usable_getReadHead s.connection.sendBuffer
  rw [if_neg (by omega)] at husable
  intro hnone
  exact absurd (husable.symm.trans hnone) (by simp)

theorem Requested.step {e : Event R LinearBuffer K} (he : e.Undisturbed ∧ e.Orders)
    (hs : s.Requested) (hstep : s.Step e t) : t.Requested := by
  have hsending := hs.sending.step he.2 hstep
  obtain ⟨d, hd, rfl⟩ := step_iff.mp hstep
  have hrunning := step_undisturbed he.1 hd hs.running
  have hle : (s.record d e).requested ≤ (s.record d e).committed.length := by
    have hle := hs.requested_le
    cases e with
    | callQueueSendFunction callback =>
      simp only [record, List.length_append]
      omega
    | startSending => exact Nat.le_refl _
    | _ => exact hle
  have hconnection : (s.record d e).connection = d := by
    cases e <;> rfl
  refine ⟨hsending, by rwa [hconnection], hle, ?_⟩
  intro hlt
  -- what was requested and is not acknowledged is still in the buffer
  have hunsent := Requested.unsent hsending hle hlt
  rw [hconnection] at hunsent ⊢
  rcases hsends : e.sends with _ | _
  · have hrecord : s.record d e = { s with connection := d } := by
      cases e <;> first | rfl | cases hsends
    rw [hrecord] at hlt
    exact (hs.awake hlt).frame (step_sendFrame hsends hd)
  · cases e with
    | callQueueSendFunction callback =>
      cases hd
      exact hs.awake hlt
    | _ => exact awake_of_sends he.1 hsends (by simp) hs.sending.tracked hs.running hd hunsent

theorem acknowledged_of_run {m n : ℕ} {es : List (Event R LinearBuffer K)}
    (h : Run Step (start m n) es s) (hes : ∀ e ∈ es, e.Undisturbed ∧ e.Orders)
    (hposted : .startSending ∉ s.connection.ioContext.posted)
    (hwrite : ∀ p bytes, .write p bytes ∉ s.connection.ioContext.operations) :
    s.committed.take s.requested <+: s.acknowledged := by
  have hs : s.Requested := by
    refine h.invariant_of_forall (fun _ _ _ he hs hstep => hs.step he hstep) hes ?_
    refine ⟨start_sending m n, Flags.getFlag_empty _, Nat.zero_le _, ?_⟩
    intro hlt
    cases hlt
  have hle : s.requested ≤ s.acknowledged.length := by
    by_contra hlt
    rcases hs.sending.tracked.sendsOn (hs.awake (Nat.not_le.mp hlt)) with ⟨-, hmem⟩ | ⟨-, hmem⟩
    · exact hposted hmem
    · obtain ⟨p, bytes, hmem⟩ := hmem
      exact hwrite p bytes hmem
  rw [← hs.sending.conserved, List.take_append_of_le_length hle]
  exact List.take_prefix _ _

end Sender

/-- In every run without a stop and without a failed write: bytes to send after a call of
`start_sending`, and with nothing put into an empty buffer since, have their send scheduled or
running; and with callbacks that only queue bytes, once neither is pending, every byte committed
before the last call of `start_sending` is acknowledged. -/
theorem no_wakeup_lost {R S K : Type} [IoBuffer R] [IoBuffer S] [DecidableEq K] (m n : ℕ) :
    (∀ (as bs : List (Event R S K)) (c d : TcpConnection R S K),
      Run Step (new m n) (as ++ [.startSending]) c → Run Step c bs d →
      (∀ e ∈ as ++ bs, e.Undisturbed) → Each Step (fun c e => ¬ c.Fills e) c bs →
      d.Unsent → d.SendsOn) ∧
    ∀ (es : List (Event R LinearBuffer K)) (s : Sender R K),
      Run Sender.Step (Sender.start m n) es s → (∀ e ∈ es, e.Undisturbed ∧ e.Orders) →
      .startSending ∉ s.connection.ioContext.posted →
      (∀ p bytes, .write p bytes ∉ s.connection.ioContext.operations) →
      s.committed.take s.requested <+: s.acknowledged :=
  ⟨fun _ _ _ _ => sendsOn_of_run, fun _ _ => Sender.acknowledged_of_run⟩

theorem no_wakeup_lost_two_bytes :
    (∃ c d : TcpConnection LinearBuffer LinearBuffer ℕ,
      Run Step (new 4 4) ([.callQueueSendFunction (.write [1, 2])] ++ [.startSending]) c ∧
      Run Step c [.run .startSending] d ∧ d.SendsOn) ∧
    ∃ s : Sender LinearBuffer ℕ, s.committed = [1, 2] ∧ s.requested = 2 ∧
      s.committed.take s.requested <+: s.acknowledged := by
  obtain ⟨c, d, hstart, hrun, hunsent⟩ : ∃ c d : TcpConnection LinearBuffer LinearBuffer ℕ,
      Run Step (new 4 4) ([.callQueueSendFunction (.write [1, 2])] ++ [.startSending]) c ∧
      Run Step c [.run .startSending] d ∧ d.Unsent :=
    ⟨_, _, Run.iff_foldlM.mpr rfl, Run.iff_foldlM.mpr rfl, by decide⟩
  obtain ⟨s, hs, hcommitted, hrequested, hidle⟩ : ∃ s : Sender LinearBuffer ℕ,
      Run Sender.Step (Sender.start 4 4) [.callQueueSendFunction (.write [1, 2]), .startSending,
        .run .startSending, .onSend 0 [1, 2] .success 2] s ∧
      s.committed = [1, 2] ∧ s.requested = 2 ∧ s.connection.ioContext.Idle :=
    ⟨_, Run.iff_foldlM.mpr rfl, rfl, rfl, rfl, rfl⟩
  obtain ⟨hunder, hsent⟩ := no_wakeup_lost (R := LinearBuffer) (S := LinearBuffer) (K := ℕ) 4 4
  refine ⟨⟨c, d, hstart, hrun, hunder _ _ c d hstart hrun ?_ ?_ hunsent⟩,
    s, hcommitted, hrequested, hsent _ s hs ?_ ?_ ?_⟩
  · simp [Event.Undisturbed]
  · rw [each_cons]
    exact fun _ _ => ⟨id, each_nil⟩
  · simp [Event.Undisturbed, Event.Orders, BufferCallback.write_queuesOnly, ErrorCode.failed]
  · rw [hidle.1]
    exact List.not_mem_nil
  · rw [hidle.2]
    exact fun _ _ => List.not_mem_nil

end Eestv.Net.TcpConnection
