import Eestv.Net.TcpConnectionReceive

/-! One read at a time. The flag `receiving`, which should keep a second `start_receiving`
from arming another read, is never set. -/

namespace Eestv.Net.TcpConnection
open Runs IoContext LinearBuffer

variable {R S K : Type} [IoBuffer R] [IoBuffer S] {c d : TcpConnection R S K}

/-- At most one read is outstanding or about to be started, and the region that it fills
holds no byte that is readable. -/
structure OneRead (c : TcpConnection R S K) : Prop where
  one : c.work .receiving + c.work .startReceiving ≤ 1
  disjoint : ∀ p n, .readSome p n ∈ c.ioContext.operations →
    Disjoint (region (IoBuffer.getReadHead c.receiveBuffer)) (region (some p, n))

structure Reading (c : TcpConnection R S K) : Prop where
  tracked : c.Tracked
  one : c.work .receiving + c.work .startReceiving ≤ 1
  flagged : c.work .startReceiving ≤ (c.flags.getFlag .startReceiving).toNat
  reachable : IoBuffer.Reachable c.receiveBuffer
  window : ∀ p n, .readSome p n ∈ c.ioContext.operations →
    IoBuffer.getWriteHead c.receiveBuffer = (some p, n)

/-- A call of `start_receiving` while a read is outstanding. -/
def StartsSecondRead (c : TcpConnection R S K) : Event R S K → Prop
  | .startReceiving =>
    c.flags.getFlag .stopSignaled = false ∧ ∃ p n, .readSome p n ∈ c.ioContext.operations
  | _ => False

omit [IoBuffer S] in
theorem Reading.oneRead (hc : c.Reading) : c.OneRead := by
  refine ⟨hc.one, ?_⟩
  intro p n hmem
  rw [← hc.window p n hmem]
  exact IoBuffer.windows_disjoint hc.reachable

omit [IoBuffer R] [IoBuffer S] in
theorem exists_read_of_work (h : 0 < c.work .receiving) :
    ∃ p n, .readSome p n ∈ c.ioContext.operations := by
  rcases exists_of_work_pos h with ⟨a, -, ha⟩ | ⟨o, ho, hflag⟩
  · cases a <;> cases ha
  · cases o with
    | readSome p n => exact ⟨p, n, ho⟩
    | write p bytes => cases hflag

omit [IoBuffer S] in
theorem reading_of_frame (hd : d.Tracked) (h : ReceiveFrame c d)
    (hwork : c.work .receiving = 0 ∧ c.work .startReceiving = 0)
    (hreachable : IoBuffer.Reachable c.receiveBuffer) : d.Reading := by
  have hr := h.receiving.trans hwork.1
  have hs := h.startReceiving.trans hwork.2
  refine ⟨hd, by omega, by omega, ?_, ?_⟩
  · rw [h.buffer]
    exact hreachable
  · intro p n hmem
    exact absurd hmem (no_operation_of_work hr rfl)

omit [IoBuffer S] in
theorem reading_asyncReceive (hd : c.asyncReceive.Tracked)
    (hwork : c.work .receiving = 0 ∧ c.work .startReceiving = 0)
    (hreachable : IoBuffer.Reachable c.receiveBuffer) : c.asyncReceive.Reading := by
  rcases hstop : c.flags.getFlag .stopSignaled with _ | _
  · rcases hw : usable (IoBuffer.getWriteHead c.receiveBuffer) with _ | ⟨p, n⟩
    · exact reading_of_frame hd (asyncReceive_frame (Or.inr hw)) hwork hreachable
    · have hstart := asyncReceive_start hstop hw
      rw [hstart] at hd ⊢
      have hr : (c.ioContext.start (.readSome p n)).work Handler.flag Operation.flag .receiving =
          c.work .receiving + 1 := work_start
      have hs : (c.ioContext.start (.readSome p n)).work Handler.flag Operation.flag
          .startReceiving = c.work .startReceiving := work_start
      refine ⟨hd, ?_, ?_, hreachable, ?_⟩
      · change (c.ioContext.start (.readSome p n)).work _ _ _ +
          (c.ioContext.start (.readSome p n)).work _ _ _ ≤ 1
        rw [hr, hs, hwork.1, hwork.2]
      · change (c.ioContext.start (.readSome p n)).work _ _ _ ≤ _
        rw [hs, hwork.2]
        exact Nat.zero_le _
      · intro q m hmem
        rcases List.mem_append.mp hmem with hold | hnew
        · exact absurd hold (no_operation_of_work hwork.1 rfl)
        · cases List.mem_singleton.mp hnew
          exact usable_eq_some hw
  · exact reading_of_frame hd (asyncReceive_frame (Or.inl hstop)) hwork hreachable

variable [DecidableEq K]

theorem Reading.step (hc : c.Reading) {e : Event R S K} (hstep : c.Step e d)
    (he : ¬ c.StartsSecondRead e) : d.Reading := by
  have htracked := hc.tracked.step hstep
  rcases hreceives : e.receives with _ | _
  · have hframe := step_receiveFrame hreceives hstep
    refine ⟨htracked, ?_, ?_, ?_, ?_⟩
    · rw [hframe.receiving, hframe.startReceiving]
      exact hc.one
    · rw [hframe.startReceiving, hframe.flag]
      exact hc.flagged
    · rw [hframe.buffer]
      exact hc.reachable
    · intro p n hmem
      rw [hframe.buffer]
      exact hc.window p n ((hframe.reads p n).mp hmem)
  · cases e with
    | startReceiving =>
      cases hstep
      unfold startReceiving at htracked ⊢
      split at htracked
      · rename_i hset
        rw [if_pos hset]
        exact hc
      · rename_i hset
        rw [if_neg hset]
        simp only [Bool.or_eq_true, not_or, Bool.not_eq_true] at hset
        -- the flag tells of a start handler, but only the condition of a read
        have hr : c.work .receiving = 0 := by
          apply Nat.eq_zero_of_not_pos
          intro hpos
          exact he ⟨hset.2, exists_read_of_work hpos⟩
        have hs := hc.flagged
        rw [hset.1.1, Bool.toNat_false] at hs
        refine ⟨htracked, ?_, ?_, hc.reachable, hc.window⟩
        · simp [work, Handler.flag] at hr hs ⊢
          omega
        · simp [work, Handler.flag] at hs ⊢
          omega
    | run h =>
      obtain ⟨io, hio, rfl⟩ := step_run.mp hstep
      cases h with
      | startReceiving =>
        have hone := hc.one
        have hr := c.work_of_take hio .receiving
        have hs := c.work_of_take hio .startReceiving
        rw [if_neg (by simp [Handler.flag])] at hr
        rw [if_pos (by simp [Handler.flag])] at hs
        refine reading_asyncReceive (c := { c with ioContext := io }) htracked ?_ hc.reachable
        omega
      | _ => cases hreceives
    | onReceive p n error bytes callback =>
      obtain ⟨hlen, io, hio, rfl⟩ := step_onReceive.mp hstep
      have hone := hc.one
      have hr := c.work_of_finish hio .receiving
      have hs := c.work_of_finish hio .startReceiving
      rw [if_pos (by simp [Operation.flag])] at hr
      rw [if_neg (by simp [Operation.flag])] at hs
      have hreachable := IoBuffer.reachable_store hc.reachable
        (hc.window p n (finish_eq_some.mp hio).1) hlen
      -- the read that has ended was all there was
      have hzero : ({ c with ioContext := io } : TcpConnection R S K).work .receiving = 0 ∧
          ({ c with ioContext := io } : TcpConnection R S K).work .startReceiving = 0 := by
        omega
      unfold onReceive at htracked ⊢
      split
      · rename_i herror
        rw [if_pos herror] at htracked
        exact reading_of_frame htracked (ReceiveFrame.onFailure (by decide)) hzero hreachable
      · rename_i herror
        rw [if_neg herror] at htracked
        apply reading_asyncReceive htracked hzero
        dsimp only
        split
        · exact callback.reachable (IoBuffer.reachable_commit _ hreachable)
        · exact IoBuffer.reachable_commit _ hreachable
    | _ => cases hreceives

omit [DecidableEq K] in
theorem new_reading (m n : ℕ) : (new m n : TcpConnection R S K).Reading := by
  refine ⟨new_tracked m n, Nat.zero_le 1, Nat.zero_le _, IoBuffer.reachable_new m, ?_⟩
  intro p k hmem
  cases hmem

theorem Reading.not_startsSecondRead (hc : c.Reading) {e : Event R S K} (hstep : c.Step e d)
    (hd : d.OneRead) : ¬ c.StartsSecondRead e := by
  intro he
  cases e with
  | startReceiving =>
    obtain ⟨hstop, p, n, hmem⟩ := he
    have hone := hc.one
    have hr : 0 < c.work .receiving := work_pos_of_operation hmem rfl
    have hflag : c.flags.getFlag .startReceiving = false :=
      hc.tracked.mirrors.flag_of_work_eq_zero (by decide) (show c.work .startReceiving = 0 by omega)
    cases hstep
    have htwo := hd.one
    simp [startReceiving, hstop, hflag, hc.tracked.receiving, work, Handler.flag] at hr htwo
    omega
  | _ => exact he

/-- There is one read at a time, in a region of its own, in exactly the runs in which
`start_receiving` is not called while a read is outstanding. -/
theorem one_read_iff (m n : ℕ) (as : List (Event R S K)) :
    Always Step OneRead (new m n) as ↔
      Each Step (fun c e => ¬ c.StartsSecondRead e) (new m n) as :=
  always_iff_each (fun _ hc => hc.oneRead) (fun _ _ _ hc hstep => hc.step hstep)
    (fun _ _ _ hc hstep => hc.not_startsSecondRead hstep) (new_reading m n)

/-- Both reads are given the four bytes from the start of the buffer on. -/
theorem two_reads : ∃ c : TcpConnection LinearBuffer LinearBuffer ℕ,
    Run Step (new 4 4) [.startReceiving, .run .startReceiving, .startReceiving,
      .run .startReceiving] c ∧
    c.ioContext.operations = [.readSome 0 4, .readSome 0 4] ∧ ¬ c.OneRead := by
  refine ⟨_, Run.iff_foldlM.mpr rfl, by decide, ?_⟩
  intro h
  exact absurd h.one (by decide)

end Eestv.Net.TcpConnection
