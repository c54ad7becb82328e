import Eestv.Net.TcpConnectionEffect
import Eestv.Net.TcpConnectionReads

/-! Whether reception goes on. A read is armed only where the storage has room behind the
bytes that were delivered last, not wherever bytes are free. -/

namespace Eestv.Net.TcpConnection
open Runs IoContext LinearBuffer

variable {S K : Type} [IoBuffer S] {N : ℕ} {c d : TcpConnection LinearBuffer S K}

/-- Neither a stop nor a failed read nor another start, and a callback that only takes bytes
out of the receive buffer. -/
def Event.Delivers : Event LinearBuffer S K → Prop
  | .startReceiving => False
  | .asyncStop _ _ => False
  | .onReceive _ _ error _ callback => error.failed = false ∧ callback.ConsumesOnly
  | _ => True

def delivered (c : TcpConnection LinearBuffer S K) (p : ℕ) (bytes : List UInt8)
    (callback : BufferCallback LinearBuffer) : LinearBuffer :=
  let buffer := ((c.receiveBuffer.store p bytes).commit bytes.length).2
  if c.dataReceivedCallback then callback.apply buffer else buffer

/-- The delivery fills its region, and the callback leaves some bytes behind, but fewer than
the buffer can hold. -/
def LeavesRest (N : ℕ) (c : TcpConnection LinearBuffer S K) : Event LinearBuffer S K → Prop
  | .onReceive p n _ bytes callback =>
    bytes.length = n ∧ 0 < (c.delivered p bytes callback).unread.length ∧
      (c.delivered p bytes callback).unread.length < N
  | _ => False

/-- While fewer than `N` bytes are unread, a read is outstanding or its start handler posted. -/
def Flows (N : ℕ) (c : TcpConnection LinearBuffer S K) : Prop :=
  c.receiveBuffer.unread.length < N →
    (∃ p n, .readSome p n ∈ c.ioContext.operations) ∨ .startReceiving ∈ c.ioContext.posted

structure Flowing (N : ℕ) (c : TcpConnection LinearBuffer S K) : Prop where
  tracked : c.Tracked
  running : c.flags.getFlag .stopSignaled = false
  consistent : c.receiveBuffer.Consistent
  capacity : c.receiveBuffer.capacity = N
  window : ∀ p n, .readSome p n ∈ c.ioContext.operations →
    c.receiveBuffer.getWriteHead = (some p, n)
  alive : (c.work .receiving + c.work .startReceiving = 1 ∧ 0 < c.receiveBuffer.room) ∨
    (c.work .receiving + c.work .startReceiving = 0 ∧ c.receiveBuffer.unread.length = N)

omit [IoBuffer S] in
theorem Flowing.flows (hc : c.Flowing N) : c.Flows N := by
  intro hroom
  rcases hc.alive with ⟨hone, -⟩ | ⟨-, hfull⟩
  · rcases Nat.eq_zero_or_pos (c.work .receiving) with hzero | hpos
    · have hs : 0 < c.work .startReceiving := by omega
      right
      rcases exists_of_work_pos hs with ⟨h, hh, hflag⟩ | ⟨o, -, hflag⟩
      · cases h with
        | startReceiving => exact hh
        | _ => cases hflag
      · cases o <;> cases hflag
    · exact Or.inl (exists_read_of_work hpos)
  · omega

section Delivery

omit [IoBuffer S]

theorem window_eq {b : LinearBuffer} {p n : ℕ} (h : b.getWriteHead = (some p, n)) :
    p = b.head ∧ n = b.room ∧ 0 < b.room := by
  rw [getWriteHead_eq] at h
  split at h
  · cases h
    exact ⟨rfl, rfl, ‹_›⟩
  · cases h

theorem usable_getWriteHead (b : LinearBuffer) :
    usable b.getWriteHead = if 0 < b.room then some (b.head, b.room) else none := by
  rw [getWriteHead_eq]
  rcases Nat.eq_zero_or_pos b.room with hzero | hpos
  · simp [hzero, usable]
  · simp [hpos, usable, Nat.ne_of_gt hpos]

theorem delivered_spec (hc : c.receiveBuffer.Consistent) {p n : ℕ} {bytes : List UInt8}
    {callback : BufferCallback LinearBuffer} (hcallback : callback.ConsumesOnly)
    (hwindow : c.receiveBuffer.getWriteHead = (some p, n)) (hlen : bytes.length ≤ n) :
    (c.delivered p bytes callback).Consistent ∧
      (c.delivered p bytes callback).capacity = c.receiveBuffer.capacity ∧
      ((c.delivered p bytes callback).room = 0 ↔
        bytes.length = n ∧ 0 < (c.delivered p bytes callback).unread.length) := by
  obtain ⟨rfl, rfl, hpos⟩ := window_eq hwindow
  obtain ⟨-, happ⟩ := store_commit_appends hc hlen
  have hconsumes : ∃ k, Consumes ((c.receiveBuffer.store c.receiveBuffer.head bytes).commit
      bytes.length).2 k (c.delivered c.receiveBuffer.head bytes callback) := by
    unfold delivered
    dsimp only
    split
    · exact hcallback.consumes happ.consistent
    · exact ⟨0, Consumes.refl happ.consistent⟩
  obtain ⟨k, hk⟩ := hconsumes
  have hcapacity := hk.capacity_eq.trans happ.capacity_eq
  have hhead := hk.head_eq
  have hroom := hc.head_add_room
  rw [happ.head_eq hc] at hhead
  refine ⟨hk.consistent, hcapacity, ?_⟩
  rw [hk.consistent.room_eq, hcapacity, hk.consistent.unread_length, hhead]
  -- the head goes back to the start only when nothing is left
  split <;> omega

theorem flowing_asyncReceive (hd : c.asyncReceive.Tracked)
    (hrun : c.flags.getFlag .stopSignaled = false)
    (hwork : c.work .receiving = 0 ∧ c.work .startReceiving = 0)
    (hconsistent : c.receiveBuffer.Consistent)
    (hcapacity : c.receiveBuffer.capacity = N)
    (hroom : 0 < c.receiveBuffer.room ∨ c.receiveBuffer.unread.length = N) :
    c.asyncReceive.Flowing N := by
  have hstop : c.asyncReceive.flags.getFlag .stopSignaled = false := by
    simpa using hrun
  have husable := usable_getWriteHead c.receiveBuffer
  split at husable
  · rename_i hpos
    have hstart := asyncReceive_start hrun husable
    rw [hstart] at hd hstop ⊢
    refine ⟨hd, hstop, hconsistent, hcapacity, ?_, Or.inl ⟨?_, hpos⟩⟩
    · intro q m hmem
      rcases List.mem_append.mp hmem with hold | hnew
      · exact absurd hold (no_operation_of_work hwork.1 rfl)
      · cases List.mem_singleton.mp hnew
        exact usable_eq_some husable
    · simp [work, Operation.flag] at hwork ⊢
      omega
  · rename_i hzero
    have hframe := asyncReceive_frame (c := c) (Or.inr husable)
    have hr := hframe.receiving.trans hwork.1
    have hs := hframe.startReceiving.trans hwork.2
    refine ⟨hd, hstop, ?_, ?_, ?_, Or.inr ⟨by omega, ?_⟩⟩
    · rw [hframe.buffer]
      exact hconsistent
    · rw [hframe.buffer]
      exact hcapacity
    · intro q m hmem
      exact absurd hmem (no_operation_of_work hr rfl)
    · rw [hframe.buffer]
      exact hroom.resolve_left hzero

end Delivery

omit [IoBuffer S] in
theorem onReceive_delivered {p : ℕ} {error : ErrorCode} {bytes : List UInt8}
    {callback : BufferCallback LinearBuffer}
    {io : IoContext (Handler K) Operation (Call K)} (herror : error.failed = false) :
    ({ c with
      receiveBuffer := IoBuffer.store c.receiveBuffer p bytes
      ioContext := io } : TcpConnection LinearBuffer S K).onReceive error bytes.length callback =
      ({ c with
        receiveBuffer := c.delivered p bytes callback
        ioContext := io } : TcpConnection LinearBuffer S K).asyncReceive := by
  unfold onReceive
  rw [if_neg (by rw [herror]; exact Bool.false_ne_true)]
  rfl

variable [DecidableEq K]

theorem step_running {e : Event LinearBuffer S K} (he : e.Delivers) (hstep : c.Step e d)
    (hrun : c.flags.getFlag .stopSignaled = false) : d.flags.getFlag .stopSignaled = false := by
  have haccepts : e.accepts = false := by
    cases e <;> first | rfl | cases he
  rw [(step_effect haccepts hstep).stopSignaled]
  exact hrun

theorem Flowing.step {e : Event LinearBuffer S K} (he : e.Delivers) (hc : c.Flowing N)
    (hstep : c.Step e d) (hrest : ¬ c.LeavesRest N e) : d.Flowing N := by
  have htracked := hc.tracked.step hstep
  have hrunning := step_running he hstep hc.running
  rcases hreceives : e.receives with _ | _
  · have hframe := step_receiveFrame hreceives hstep
    refine ⟨htracked, hrunning, ?_, ?_, ?_, ?_⟩
    · rw [hframe.buffer]
      exact hc.consistent
    · rw [hframe.buffer]
      exact hc.capacity
    · intro p n hmem
      rw [hframe.buffer]
      exact hc.window p n ((hframe.reads p n).mp hmem)
    · rw [hframe.receiving, hframe.startReceiving, hframe.buffer]
      exact hc.alive
  · have halive := hc.alive
    cases e with
    | startReceiving => cases he
    | run h =>
      obtain ⟨io, hio, rfl⟩ := step_run.mp hstep
      cases h with
      | startReceiving =>
        have hr := c.work_of_take hio .receiving
        have hs := c.work_of_take hio .startReceiving
        rw [if_neg (by simp [Handler.flag])] at hr
        rw [if_pos (by simp [Handler.flag])] at hs
        -- the start handler is pending, so it is not for a full buffer that reception rests
        have hroom : 0 < c.receiveBuffer.room := by omega
        apply flowing_asyncReceive (c := { c with ioContext := io }) htracked hc.running
        · omega
        · exact hc.consistent
        · exact hc.capacity
        · exact Or.inl hroom
      | _ => cases hreceives
    | onReceive p n error bytes callback =>
      obtain ⟨hlen, io, hio, rfl⟩ := step_onReceive.mp hstep
      obtain ⟨herror, hcallback⟩ := he
      have hr := c.work_of_finish hio .receiving
      have hs := c.work_of_finish hio .startReceiving
      rw [if_pos (by simp [Operation.flag])] at hr
      rw [if_neg (by simp [Operation.flag])] at hs
      obtain ⟨hconsistent, hcapacity, hfull⟩ := delivered_spec hc.consistent hcallback
        (hc.window p n (finish_eq_some.mp hio).1) hlen
      have hcapacity := hcapacity.trans hc.capacity
      rw [onReceive_delivered herror] at htracked ⊢
      have hzero : ({ c with ioContext := io } : TcpConnection LinearBuffer S K).work
            .receiving = 0 ∧
          ({ c with ioContext := io } : TcpConnection LinearBuffer S K).work
            .startReceiving = 0 := by
        omega
      have hroom : 0 < (c.delivered p bytes callback).room ∨
          (c.delivered p bytes callback).unread.length = N := by
        rcases Nat.eq_zero_or_pos (c.delivered p bytes callback).room with hnone | hpos
        · obtain ⟨hfilled, hsome⟩ := hfull.mp hnone
          have hle := hconsistent.unread_le
          have hnot : ¬ (c.delivered p bytes callback).unread.length < N :=
            fun hlt => hrest ⟨hfilled, hsome, hlt⟩
          omega
        · exact Or.inl hpos
      exact flowing_asyncReceive htracked hc.running hzero hconsistent hcapacity hroom
    | _ => cases hreceives

omit [IoBuffer S] [DecidableEq K] in
theorem not_flows (hr : c.work .receiving = 0) (hs : c.work .startReceiving = 0)
    (hlt : c.receiveBuffer.unread.length < N) : ¬ c.Flows N := by
  intro hc
  rcases hc hlt with ⟨p, n, hmem⟩ | hmem
  · exact no_operation_of_work hr rfl hmem
  · have hpos := work_pos_of_posted (p := Handler.flag) (q := Operation.flag)
      (f := .startReceiving) hmem rfl
    unfold work at hs
    omega

theorem Flowing.not_leavesRest {e : Event LinearBuffer S K} (he : e.Delivers)
    (hc : c.Flowing N) (hstep : c.Step e d) (hd : d.Flows N) : ¬ c.LeavesRest N e := by
  intro hrest
  cases e with
  | onReceive p n error bytes callback =>
    obtain ⟨hlen, io, hio, rfl⟩ := step_onReceive.mp hstep
    obtain ⟨herror, hcallback⟩ := he
    obtain ⟨hfilled, hsome, hlt⟩ := hrest
    have halive := hc.alive
    have hr := c.work_of_finish hio .receiving
    have hs := c.work_of_finish hio .startReceiving
    rw [if_pos (by simp [Operation.flag])] at hr
    rw [if_neg (by simp [Operation.flag])] at hs
    obtain ⟨-, -, hfull⟩ := delivered_spec hc.consistent hcallback
      (hc.window p n (finish_eq_some.mp hio).1) hlen
    have hnone : usable (c.delivered p bytes callback).getWriteHead = none := by
      rw [usable_getWriteHead, hfull.mpr ⟨hfilled, hsome⟩]
      rfl
    rw [onReceive_delivered herror] at hd
    have hframe := asyncReceive_frame (c := ({ c with
      receiveBuffer := c.delivered p bytes callback
      ioContext := io } : TcpConnection LinearBuffer S K)) (Or.inr hnone)
    have hzero : ({ c with ioContext := io } : TcpConnection LinearBuffer S K).work
          .receiving = 0 ∧
        ({ c with ioContext := io } : TcpConnection LinearBuffer S K).work
          .startReceiving = 0 := by
      omega
    refine not_flows ?_ ?_ ?_ hd
    · exact hframe.receiving.trans hzero.1
    · exact hframe.startReceiving.trans hzero.2
    · rw [hframe.buffer]
      exact hlt
  | _ => exact hrest

/-! ### Runs with one start -/

structure Resting (N : ℕ) (c : TcpConnection LinearBuffer S K) : Prop where
  tracked : c.Tracked
  running : c.flags.getFlag .stopSignaled = false
  buffer : c.receiveBuffer = LinearBuffer.new N
  receiving : c.work .receiving = 0
  startReceiving : c.work .startReceiving = 0

theorem Resting.step {e : Event LinearBuffer S K} (he : e.Delivers) (hc : c.Resting N)
    (hstep : c.Step e d) : d.Resting N := by
  have htracked := hc.tracked.step hstep
  have hrunning := step_running he hstep hc.running
  rcases hreceives : e.receives with _ | _
  · have hframe := step_receiveFrame hreceives hstep
    exact ⟨htracked, hrunning, hframe.buffer.trans hc.buffer,
      hframe.receiving.trans hc.receiving, hframe.startReceiving.trans hc.startReceiving⟩
  · cases e with
    | startReceiving => cases he
    | run h =>
      obtain ⟨io, hio, -⟩ := step_run.mp hstep
      cases h with
      | startReceiving =>
        have hs := c.work_of_take hio .startReceiving
        rw [if_pos (by simp [Handler.flag]), hc.startReceiving] at hs
        omega
      | _ => cases hreceives
    | onReceive p n error bytes callback =>
      obtain ⟨-, io, hio, -⟩ := step_onReceive.mp hstep
      have hr := c.work_of_finish hio .receiving
      rw [if_pos (by simp [Operation.flag]), hc.receiving] at hr
      omega
    | _ => cases hreceives

theorem Resting.start (hN : 0 < N) (hc : c.Resting N) (hstep : c.Step .startReceiving d) :
    d.Flowing N := by
  have htracked := hc.tracked.step hstep
  have hflag : c.flags.getFlag .startReceiving = false :=
    hc.tracked.mirrors.flag_of_work_eq_zero (by decide) hc.startReceiving
  have hr := hc.receiving
  have hs := hc.startReceiving
  cases hstep
  have hset : ¬ (c.flags.getFlag .startReceiving || c.flags.getFlag .receiving ||
      c.flags.getFlag .stopSignaled) = true := by
    simp [hflag, hc.tracked.receiving, hc.running]
  unfold TcpConnection.startReceiving at htracked ⊢
  rw [if_neg hset] at htracked ⊢
  refine ⟨htracked, ?_, ?_, ?_, ?_, Or.inl ⟨?_, ?_⟩⟩
  · simpa using hc.running
  · rw [hc.buffer]
    exact new_consistent N
  · rw [hc.buffer]
    exact new_capacity N
  · intro p n hmem
    exact absurd hmem (no_operation_of_work (c := c) hr rfl)
  · simp [work, Handler.flag] at hr hs ⊢
    omega
  · rw [hc.buffer, new_room]
    exact hN

/-- In a run with one `start_receiving`, no stop, no failed read and a callback that only
takes bytes out, reception goes on wherever there is room exactly if no delivery that fills
its region leaves a rest that does not fill the buffer. -/
theorem reception_flows_iff (N m : ℕ) (hN : 0 < N) (bs cs : List (Event LinearBuffer S K))
    (c : TcpConnection LinearBuffer S K) (hbs : ∀ e ∈ bs, e.Delivers)
    (hcs : ∀ e ∈ cs, e.Delivers) (h : Run Step (new N m) (bs ++ [.startReceiving]) c) :
    Always Step (Flows N) c cs ↔ Each Step (fun c e => ¬ c.LeavesRest N e) c cs := by
  obtain ⟨b, hb, hstart⟩ := h.of_append
  have hresting : b.Resting N := by
    refine hb.invariant_of_forall (fun _ _ _ he hc hstep => hc.step he hstep) hbs ?_
    exact ⟨new_tracked N m, Flags.getFlag_empty _, rfl, rfl, rfl⟩
  have hflowing : c.Flowing N := by
    cases hstart with
    | cons hstep hnil =>
      cases hnil
      exact hresting.start hN hstep
  exact always_iff_each_of_forall (fun _ hc => hc.flows)
    (fun _ _ _ he hc hstep => hc.step he hstep)
    (fun _ _ _ he hc hstep => hc.not_leavesRest he hstep) hcs hflowing

theorem reception_flows_short : ∃ c : TcpConnection LinearBuffer LinearBuffer ℕ,
    Run Step (new 4 4) ([.setDataReceivedCallback true] ++ [.startReceiving]) c ∧
    Always Step (Flows 4) c [.run .startReceiving,
      .onReceive 0 4 .success [1, 2, 3] (.consume 1)] := by
  obtain ⟨c, hrun⟩ : ∃ c : TcpConnection LinearBuffer LinearBuffer ℕ,
      Run Step (new 4 4) ([.setDataReceivedCallback true] ++ [.startReceiving]) c :=
    ⟨_, Run.iff_foldlM.mpr rfl⟩
  refine ⟨c, hrun, (reception_flows_iff 4 4 (by decide) _ _ _ ?_ ?_ hrun).mpr ?_⟩
  · simp [Event.Delivers]
  · simp only [List.forall_mem_cons, Event.Delivers, ErrorCode.failed, true_and]
    refine ⟨?_, fun _ hmem => absurd hmem List.not_mem_nil⟩
    intro b
    exact Relation.ReflTransGen.single ⟨1, rfl⟩
  · rw [each_cons]
    intro d _
    refine ⟨id, ?_⟩
    rw [each_cons]
    intro d _
    refine ⟨?_, each_nil⟩
    rintro ⟨hlen, -⟩
    cases hlen

/-- Four bytes fill the buffer, the callback takes one: three are left and no read is armed. -/
theorem rest_stops_reception : ∃ c : TcpConnection LinearBuffer LinearBuffer ℕ,
    Run Step (new 4 4) [.setDataReceivedCallback true, .startReceiving, .run .startReceiving,
      .onReceive 0 4 .success [1, 2, 3, 4] (.consume 1)] c ∧
    c.receiveBuffer.unread = [2, 3, 4] ∧ c.ioContext.Idle ∧ ¬ c.Flows 4 := by
  refine ⟨_, Run.iff_foldlM.mpr rfl, by decide, by decide, ?_⟩
  intro h
  rcases h (by decide) with ⟨p, n, hmem⟩ | hmem
  · cases hmem
  · cases hmem

end Eestv.Net.TcpConnection
