import Eestv.Net.TcpConnectionCancel
import Eestv.Net.TcpConnectionStop

/-! What is still under way when the callback of `async_stop` is posted: the reads, the start
of a read whose flag another read has cleared, and the connection-lost handlers, of which no
flag tells. -/

namespace Eestv.Net.TcpConnection
open Runs IoContext

variable {R S K : Type} {c d : TcpConnection R S K}

/-- No operation is outstanding, and the handlers that are pending do not refer to the
connection, from when a callback of `async_stop` is posted. -/
def StoppedMeansStopped (c : TcpConnection R S K) : Prop :=
  ∀ k, .posted (.disconnected k) ∈ c.ioContext.log →
    c.ioContext.operations = [] ∧ ∀ h ∈ c.ioContext.posted, ∃ k', h = .disconnected k'

theorem no_work_iff : (∀ f, c.work f = 0) ↔
    c.ioContext.operations = [] ∧ ∀ h ∈ c.ioContext.posted, ∃ k, h = .disconnected k := by
  constructor
  · intro hwork
    constructor
    · apply List.eq_nil_iff_forall_not_mem.mpr
      intro o ho
      obtain ⟨f, hf⟩ : ∃ f, o.flag = some f := by cases o <;> exact ⟨_, rfl⟩
      have hpos := work_pos_of_operation (c := c.ioContext) (p := Handler.flag) ho hf
      have hzero := hwork f
      unfold work at hzero
      omega
    · intro h hh
      have hzero : ∀ f, h.flag = some f → False := by
        intro f hf
        have hpos := work_pos_of_posted (c := c.ioContext) (q := Operation.flag) hh hf
        have hzero := hwork f
        unfold work at hzero
        omega
      cases h with
      | disconnected k => exact ⟨k, rfl⟩
      | _ => exact absurd rfl (hzero _)
  · rintro ⟨hops, hposted⟩ f
    apply Nat.eq_zero_of_not_pos
    intro hpos
    rcases exists_of_work_pos hpos with ⟨h, hh, hf⟩ | ⟨o, ho, -⟩
    · obtain ⟨k, rfl⟩ := hposted h hh
      cases hf
    · rw [hops] at ho
      cases ho

/-! ### Work after a stop -/

theorem asyncReceive_work [IoBuffer R] (hstop : c.flags.getFlag .stopSignaled = true)
    (f : TcpConnectionState) : c.asyncReceive.work f = c.work f := by
  unfold asyncReceive
  dsimp only
  split
  · simp [hstop] at *
  · rw [resolveOnStopped_work]
    rfl

theorem onFailure_work {flag : TcpConnectionState} (f : TcpConnectionState) :
    (c.onFailure flag).work f =
      c.work f + if c.connectionLostCallback = true ∧ f = .lost then 1 else 0 := by
  have hlost : ∀ d : TcpConnection R S K, d.connectionLostCallback = c.connectionLostCallback →
      d.work f = c.work f →
      (if d.connectionLostCallback then { d with ioContext := d.ioContext.post .connectionLost }
        else d).work f =
        c.work f + if c.connectionLostCallback = true ∧ f = .lost then 1 else 0 := by
    intro d hcallback hwork
    rcases hset : c.connectionLostCallback with _ | _
    · simp [hcallback.trans hset, hwork]
    · have hpost : ({ d with ioContext := d.ioContext.post .connectionLost } :
          TcpConnection R S K).work f = d.work f + if some .lost = some f then 1 else 0 := work_post
      rw [if_pos (hcallback.trans hset), hpost, hwork]
      simp [eq_comm]
  unfold onFailure
  dsimp only
  split
  · apply hlost
    · refine resolveOnStopped_induction
        (P := fun d => d.connectionLostCallback = c.connectionLostCallback) rfl ?_
      intro _ _ _
      rfl
    · exact resolveOnStopped_work f
  · exact hlost _ rfl rfl

theorem onReceive_work [IoBuffer R] (hstop : c.flags.getFlag .stopSignaled = true)
    (error : ErrorCode) (n : ℕ) (callback : BufferCallback R) (f : TcpConnectionState) :
    (c.onReceive error n callback).work f =
      c.work f +
        if error.failed = true ∧ c.connectionLostCallback = true ∧ f = .lost then 1 else 0 := by
  unfold onReceive
  split
  · rename_i herror
    simp only [herror, true_and]
    exact onFailure_work f
  · rename_i herror
    simp only [herror, Bool.false_eq_true, false_and, if_false, Nat.add_zero]
    have hreceive : ∀ buffer, ({ c with receiveBuffer := buffer } :
        TcpConnection R S K).asyncReceive.work f = c.work f := by
      intro buffer
      exact asyncReceive_work (c := { c with receiveBuffer := buffer }) hstop f
    exact hreceive _

theorem onSend_work [IoBuffer S] {error : ErrorCode} {n : ℕ} (f : TcpConnectionState)
    (h : error.failed = true ∨ c.queuedBehind n = false) :
    (c.onSend error n).work f =
      c.work f +
        if error.failed = true ∧ c.connectionLostCallback = true ∧ f = .lost then 1 else 0 := by
  unfold onSend
  split
  · rename_i herror
    simp only [herror, true_and]
    exact onFailure_work f
  · rename_i herror
    have hnone : usable (IoBuffer.getReadHead (IoBuffer.consume c.sendBuffer n).2) = none := by
      have hqueued := h.resolve_left herror
      unfold queuedBehind at hqueued
      simpa using hqueued
    have hsend : ({ c with sendBuffer := (IoBuffer.consume c.sendBuffer n).2 } :
        TcpConnection R S K).asyncSend.work f = c.work f := by
      unfold asyncSend
      rw [hnone]
      rfl
    simp only [herror, Bool.false_eq_true, false_and, if_false, Nat.add_zero]
    split
    · rw [resolveOnStopped_work, hsend]
    · exact hsend

theorem handle_work [IoBuffer R] [IoBuffer S] (hstop : c.flags.getFlag .stopSignaled = true)
    (h : Handler K) (f : TcpConnectionState) : (c.handle h).work f = c.work f := by
  cases h with
  | cancelAsyncOperations =>
    unfold handle cancelAsyncOperations
    rw [resolveOnStopped_work]
    rfl
  | startReceiving => exact asyncReceive_work hstop f
  | startSending =>
    unfold handle onStartSending
    dsimp only
    split
    · simp [hstop] at *
    · rw [resolveOnStopped_work]
      rfl
  | connectionLost =>
    unfold handle
    dsimp only
    split <;> rfl
  | disconnected k => rfl

/-! ### The step that releases the callback -/

theorem busy_of_flags (h : d.flags = c.flags) : d.busy = c.busy := by
  unfold busy
  rw [h]

theorem Effect.released (h : Effect c d) {k : K}
    (hnot : .posted (.disconnected k) ∉ c.ioContext.log)
    (hposted : .posted (.disconnected k) ∈ d.ioContext.log) :
    c.disconnectedCallback = some k ∧ d.busy = false := by
  have hframe : ∀ d', Frame c d' → .posted (.disconnected k) ∉ d'.ioContext.log := by
    intro d' hframe hmem
    obtain ⟨l, hl, hfree⟩ := hframe.log
    rw [hl, List.mem_append] at hmem
    exact hmem.elim hnot (hfree k)
  cases h with
  | quiet frame _ => exact absurd hposted (hframe d frame)
  | resolve b before after flags =>
    have hresolved : .posted (.disconnected k) ∈ b.resolveOnStopped.ioContext.log := by
      obtain ⟨l, hl, hfree⟩ := after.log
      rw [hl, List.mem_append] at hposted
      exact hposted.resolve_right (hfree k)
    rcases hbusy : b.busy with _ | _
    · refine ⟨?_, ?_⟩
      · rcases hk : b.disconnectedCallback with _ | k'
        · rw [resolveOnStopped_of_none hk] at hresolved
          exact absurd hresolved (hframe b before)
        · rw [resolveOnStopped_of_some hbusy hk] at hresolved
          rcases List.mem_append.mp hresolved with hold | hnew
          · exact absurd hold (hframe b before)
          · cases List.mem_singleton.mp hnew
            rw [← before.callback, hk]
      · unfold busy at *
        rwa [flags]
    · rw [resolveOnStopped_of_busy hbusy] at hresolved
      exact absurd hresolved (hframe b before)

variable [IoBuffer R] [IoBuffer S]

def Event.own : Event R S K → Option TcpConnectionState
  | .run h => h.flag
  | .onReceive _ _ _ _ _ => some .receiving
  | .onSend _ _ _ _ => some .sending
  | _ => none

def Event.failed : Event R S K → Bool
  | .onReceive _ _ error _ _ => error.failed
  | .onSend _ _ error _ => error.failed
  | _ => false

def clears (c : TcpConnection R S K) : Event R S K → Option TcpConnectionState
  | .run .cancelAsyncOperations => some .closing
  | .run .startReceiving => some .startReceiving
  | .run .startSending => some .startSending
  | .onReceive _ _ error _ _ => some (if error.failed then .receiving else .startReceiving)
  | .onSend _ _ error n => if error.failed || !c.queuedBehind n then some .sending else none
  | _ => none

/-- The callback is held, and no flag but the one that the step clears is set. -/
def Releases (c : TcpConnection R S K) (e : Event R S K) : Prop :=
  c.disconnectedCallback.isSome = true ∧
    ∃ f, c.clears e = some f ∧ { c with flags := c.flags.clearFlag f }.busy = false

/-- What the step ends is all that is under way. -/
def Alone (c : TcpConnection R S K) (e : Event R S K) : Prop :=
  ∀ f, c.work f = if e.own = some f then 1 else 0

/-- Work that no flag tells of, beside what the step ends: a read, the start of a read whose flag
another read has cleared, or a connection-lost handler, which a failure may only now bring about. -/
def Unseen (c : TcpConnection R S K) (e : Event R S K) : Prop :=
  (∃ f ∈ [TcpConnectionState.receiving, .startReceiving, .lost],
    (if e.own = some f then 1 else 0) < c.work f) ∨
  e.failed = true ∧ c.connectionLostCallback = true

variable [DecidableEq K]

theorem step_flags {e : Event R S K} (hstop : c.flags.getFlag .stopSignaled = true)
    (hstep : c.Step e d) :
    d.flags = match c.clears e with
      | some f => c.flags.clearFlag f
      | none => c.flags := by
  cases e with
  | setConnectionLostCallback b =>
    cases hstep
    rfl
  | setDataReceivedCallback b =>
    cases hstep
    rfl
  | callQueueSendFunction b =>
    cases hstep
    rfl
  | startSending =>
    cases hstep
    simp [startSending, hstop, clears]
  | startReceiving =>
    cases hstep
    simp [startReceiving, hstop, clears]
  | asyncStop k r =>
    obtain ⟨-, rfl⟩ := (step_asyncStop hstep).resolve_right (by simp [hstop])
    rfl
  | run h =>
    obtain ⟨io, -, rfl⟩ := step_run.mp hstep
    cases h with
    | cancelAsyncOperations => exact resolveOnStopped_flags
    | startReceiving => exact asyncReceive_flags
    | startSending =>
      simp [handle, onStartSending, hstop, clears]
    | connectionLost =>
      unfold handle
      dsimp only
      split <;> rfl
    | disconnected k => rfl
  | onReceive p n error bytes callback =>
    obtain ⟨-, io, -, rfl⟩ := step_onReceive.mp hstep
    exact onReceive_flags
  | onSend p bytes error n =>
    obtain ⟨-, io, -, rfl⟩ := step_onSend.mp hstep
    rw [onSend_flags]
    unfold clears queuedBehind
    dsimp only
    rcases error.failed with _ | _
    · rcases usable (IoBuffer.getReadHead (IoBuffer.consume c.sendBuffer n).2) with _ | w <;> simp
    · simp

omit [DecidableEq K] in
theorem own_ne_lost {e : Event R S K} {f : TcpConnectionState} (h : c.clears e = some f) :
    e.own ≠ some .lost := by
  cases e with
  | run a => cases a <;> cases h <;> simp [Event.own, Handler.flag]
  | _ => simp [Event.own]

/-- After a stop a step that clears a flag leaves the work that it found, but for its own
and a notification of a failure. -/
theorem step_work {e : Event R S K} {f : TcpConnectionState}
    (hstop : c.flags.getFlag .stopSignaled = true) (hclears : c.clears e = some f)
    (hstep : c.Step e d) (g : TcpConnectionState) :
    d.work g + (if e.own = some g then 1 else 0) = c.work g +
      if e.failed = true ∧ c.connectionLostCallback = true ∧ g = .lost then 1 else 0 := by
  cases e with
  | run h =>
    obtain ⟨io, hio, rfl⟩ := step_run.mp hstep
    have hwork := handle_work (c := { c with ioContext := io }) hstop h g
    have htake : io.work Handler.flag Operation.flag g + (if h.flag = some g then 1 else 0) =
        c.work g := work_take hio
    rw [hwork, if_neg (c := _ ∧ _) (by simp [Event.failed])]
    exact htake
  | onReceive p n error bytes callback =>
    obtain ⟨-, io, hio, rfl⟩ := step_onReceive.mp hstep
    have hwork := onReceive_work (c := { c with
      receiveBuffer := IoBuffer.store c.receiveBuffer p bytes
      ioContext := io }) hstop error bytes.length callback g
    have hfinish : io.work Handler.flag Operation.flag g +
        (if some .receiving = some g then 1 else 0) = c.work g := work_finish hio
    rw [hwork]
    change io.work Handler.flag Operation.flag g + _ + _ = c.work g + _
    rw [← hfinish]
    exact Nat.add_right_comm _ _ _
  | onSend p bytes error n =>
    obtain ⟨-, io, hio, rfl⟩ := step_onSend.mp hstep
    have hempty : error.failed = true ∨ c.queuedBehind n = false := by
      simp only [clears] at hclears
      split at hclears
      · rename_i h
        simpa using h
      · cases hclears
    have hwork := onSend_work (c := { c with ioContext := io }) g hempty
    have hfinish : io.work Handler.flag Operation.flag g +
        (if some .sending = some g then 1 else 0) = c.work g := work_finish hio
    rw [hwork]
    change io.work Handler.flag Operation.flag g + _ + _ = c.work g + _
    rw [← hfinish]
    exact Nat.add_right_comm _ _ _
  | _ => cases hclears

theorem Settled.posted_iff (hc : c.Settled) {e : Event R S K} (hstep : c.Step e d)
    (hnot : ∀ k, .posted (.disconnected k) ∉ c.ioContext.log) :
    (∃ k, .posted (.disconnected k) ∈ d.ioContext.log) ↔ c.Releases e := by
  constructor
  · rintro ⟨k, hk⟩
    rcases he : e.accepts with _ | _
    · obtain ⟨hheld, hidle⟩ := (step_effect he hstep).released (hnot k) hk
      have hsome : c.disconnectedCallback.isSome = true := by rw [hheld]; rfl
      have hflags := step_flags (hc.promised.held hsome) hstep
      rcases hclears : c.clears e with _ | f
      · rw [hclears] at hflags
        rw [busy_of_flags hflags, hc.waits hsome] at hidle
        cases hidle
      · rw [hclears] at hflags
        refine ⟨hsome, f, hclears, ?_⟩
        rw [← hidle]
        exact (busy_of_flags hflags).symm
    · cases e with
      | asyncStop k' r =>
        obtain rfl : r = true := he
        obtain ⟨-, -, -, rfl⟩ := hc.of_accept hstep
        simp [hnot k] at hk
      | _ => cases he
  · rintro ⟨hsome, f, hclears, hidle⟩
    have hflags := step_flags (hc.promised.held hsome) hstep
    rw [hclears] at hflags
    obtain ⟨k, hk⟩ := Option.isSome_iff_exists.mp hsome
    have he : e.accepts = false := by
      cases e <;> first | rfl | cases hclears
    have hcount := (step_effect he hstep).disconnects k
    have hnone : d.disconnectedCallback = none := by
      rcases hheld : d.disconnectedCallback with _ | k'
      · rfl
      · have hbusy := (hc.step hstep).waits (by rw [hheld]; rfl)
        have hdone := busy_of_flags (c := { c with flags := c.flags.clearFlag f }) hflags
        rw [hbusy, hidle] at hdone
        cases hdone
    refine ⟨k, List.count_pos_iff.mp ?_⟩
    simp only [disconnects, hk, hnone, reduceCtorEq, if_true, if_false] at hcount
    omega

/-- The invariant: once the callback is posted, nothing is under way. -/
structure Quiet (c : TcpConnection R S K) : Prop where
  settled : c.Settled
  stopped : c.StoppedMeansStopped

omit [DecidableEq K] [IoBuffer R] [IoBuffer S] in
theorem work_stopSignaled : c.work .stopSignaled = 0 := by
  apply Nat.eq_zero_of_not_pos
  intro hpos
  rcases exists_of_work_pos hpos with ⟨h, -, hf⟩ | ⟨o, -, hf⟩
  · cases h <;> cases hf
  · cases o <;> cases hf

omit [DecidableEq K] in
theorem own_of_clears {e : Event R S K} {f : TcpConnectionState}
    (hf : f ∈ [TcpConnectionState.closing, .startSending, .sending])
    (h : c.clears e = some f) : e.own = some f := by
  cases e with
  | run a => cases a <;> cases h <;> rfl
  | onReceive p n error bytes callback =>
    cases h
    split at hf <;> simp at hf
  | onSend p bytes error n =>
    simp only [clears] at h
    split at h
    · exact h
    · cases h
  | _ => cases h

omit [DecidableEq K] [IoBuffer R] [IoBuffer S] in
theorem flag_of_not_busy {f g : TcpConnectionState}
    (hg : g ∈ [TcpConnectionState.closing, .startSending, .sending])
    (h : ({ c with flags := c.flags.clearFlag f } : TcpConnection R S K).busy = false)
    (hne : g ≠ f) : c.flags.getFlag g = false := by
  have hcleared : (c.flags.clearFlag f).getFlag g = false := by
    simp only [busy, Bool.or_eq_false_iff] at h
    simp only [List.mem_cons, List.not_mem_nil, or_false] at hg
    rcases hg with rfl | rfl | rfl
    · exact h.1.1.1.1
    · exact h.1.1.1.2
    · exact h.1.1.2
  simpa [hne.symm] using hcleared

/-- The flags account for the cancellation, the start of a send and the write: when the callback
is released, none of them but the step's own is under way. -/
theorem Settled.alone (hc : c.Settled) {e : Event R S K} (hstep : c.Step e d)
    (hreleases : c.Releases e) (hseen : ¬ c.Unseen e) : c.Alone e := by
  obtain ⟨hsome, f, hclears, hidle⟩ := hreleases
  obtain ⟨hseen, hlost⟩ := not_or.mp hseen
  intro g
  have hown : (if e.own = some g then 1 else 0) ≤ c.work g := by
    have hwork := step_work (hc.promised.held hsome) hclears hstep g
    rw [if_neg (c := _ ∧ _ ∧ _) fun h => hlost ⟨h.1, h.2.1⟩] at hwork
    omega
  refine Nat.le_antisymm ?_ hown
  by_cases huncounted : g ∈ [TcpConnectionState.receiving, .startReceiving, .lost]
  · exact Nat.not_lt.mp fun hlt => hseen ⟨g, huncounted, hlt⟩
  · rcases eq_or_ne g .stopSignaled with rfl | hstop
    · rw [work_stopSignaled]
      exact Nat.zero_le _
    · have hcounted : g ∈ [TcpConnectionState.closing, .startSending, .sending] := by
        cases g <;> simp_all
      rcases eq_or_ne g f with rfl | hne
      · rw [if_pos (own_of_clears hcounted hclears)]
        exact hc.tracked.mirrors.work_le_one hcounted
      · have hzero : c.work g = 0 :=
          hc.tracked.mirrors.work_eq_zero hcounted (flag_of_not_busy hcounted hidle hne)
        rw [hzero]
        exact Nat.zero_le _

/-- Nothing happens any more once the callback is posted, but for the posted callback. -/
theorem Quiet.step_of_posted (hc : c.Quiet) {e : Event R S K} (hstep : c.Step e d) {k : K}
    (hk : .posted (.disconnected k) ∈ c.ioContext.log) :
    d.ioContext.operations = [] ∧ ∀ h ∈ d.ioContext.posted, ∃ k', h = .disconnected k' := by
  obtain ⟨hops, hposted⟩ := hc.stopped k hk
  have hstop := (hc.settled.promised.released k hk).2
  cases e with
  | setConnectionLostCallback b =>
    cases hstep
    exact ⟨hops, hposted⟩
  | setDataReceivedCallback b =>
    cases hstep
    exact ⟨hops, hposted⟩
  | callQueueSendFunction b =>
    cases hstep
    exact ⟨hops, hposted⟩
  | startSending =>
    cases hstep
    simpa [startSending, hstop] using ⟨hops, hposted⟩
  | startReceiving =>
    cases hstep
    simpa [startReceiving, hstop] using ⟨hops, hposted⟩
  | asyncStop k' r =>
    obtain ⟨-, rfl⟩ := (step_asyncStop hstep).resolve_right (by simp [hstop])
    exact ⟨hops, hposted⟩
  | run h =>
    obtain ⟨io, hio, rfl⟩ := step_run.mp hstep
    obtain ⟨hmem, rfl⟩ := take_eq_some.mp hio
    obtain ⟨k', rfl⟩ := hposted h hmem
    refine ⟨hops, ?_⟩
    intro h hh
    exact hposted h (List.mem_of_mem_erase hh)
  | onReceive p n error bytes callback =>
    obtain ⟨-, io, hio, -⟩ := step_onReceive.mp hstep
    have hmem := (finish_eq_some.mp hio).1
    rw [hops] at hmem
    cases hmem
  | onSend p bytes error n =>
    obtain ⟨-, io, hio, -⟩ := step_onSend.mp hstep
    have hmem := (finish_eq_some.mp hio).1
    rw [hops] at hmem
    cases hmem

theorem Quiet.step (hc : c.Quiet) {e : Event R S K} (hstep : c.Step e d)
    (he : c.Releases e → ¬ c.Unseen e) : d.Quiet := by
  refine ⟨hc.settled.step hstep, ?_⟩
  intro k hk
  by_cases hold : ∃ k', .posted (.disconnected k') ∈ c.ioContext.log
  · obtain ⟨k', hk'⟩ := hold
    exact hc.step_of_posted hstep hk'
  · have hnot : ∀ k', .posted (.disconnected k') ∉ c.ioContext.log := not_exists.mp hold
    have hreleases := (hc.settled.posted_iff hstep hnot).mp ⟨k, hk⟩
    have halone := hc.settled.alone hstep hreleases (he hreleases)
    have hlost := (not_or.mp (he hreleases)).2
    obtain ⟨hsome, f, hclears, -⟩ := hreleases
    apply no_work_iff.mp
    intro g
    have hwork := step_work (hc.settled.promised.held hsome) hclears hstep g
    rw [halone g, if_neg (c := _ ∧ _ ∧ _) fun h => hlost ⟨h.1, h.2.1⟩] at hwork
    omega

theorem Quiet.not_unseen (hc : c.Quiet) {e : Event R S K} (hstep : c.Step e d)
    (hd : d.StoppedMeansStopped) (hreleases : c.Releases e) : ¬ c.Unseen e := by
  have hnot : ∀ k, .posted (.disconnected k) ∉ c.ioContext.log := by
    intro k hk
    have hidle := hc.settled.tracked.busy_of_no_work (no_work_iff.mpr (hc.stopped k hk))
    rw [hc.settled.waits hreleases.1] at hidle
    cases hidle
  obtain ⟨k, hk⟩ := (hc.settled.posted_iff hstep hnot).mpr hreleases
  have hzero := no_work_iff.mpr (hd k hk)
  obtain ⟨hsome, f, hclears, -⟩ := hreleases
  have hwork := step_work (hc.settled.promised.held hsome) hclears hstep
  rintro (⟨g, -, hlt⟩ | ⟨hfailed, hcallback⟩)
  · have h := hwork g
    rw [hzero] at h
    omega
  · have h := hwork .lost
    rw [hzero, if_neg (own_ne_lost hclears), if_pos ⟨hfailed, hcallback, rfl⟩] at h
    omega

omit [DecidableEq K] in
theorem new_quiet (m n : ℕ) : (new m n : TcpConnection R S K).Quiet :=
  ⟨new_settled m n, nofun⟩

/-- The callback of a stop means that nothing is under way in exactly the runs in which no step
that releases it leaves work of which the flags do not tell. -/
theorem stopped_means_stopped_iff (m n : ℕ) (as : List (Event R S K)) :
    Always Step StoppedMeansStopped (new m n) as ↔
      Each Step (fun c e => c.Releases e → ¬ c.Unseen e) (new m n) as :=
  always_iff_each (fun _ hc => hc.stopped) (fun _ _ _ hc hstep => hc.step hstep)
    (fun _ _ _ hc hstep => hc.not_unseen hstep) (new_quiet m n)

/-- The cancellation finds no flag set, though a read is outstanding. -/
theorem stopped_during_read : ∃ c : TcpConnection LinearBuffer LinearBuffer ℕ,
    Run Step (new 4 4) [.startReceiving, .run .startReceiving, .asyncStop (some 7) true,
      .run .cancelAsyncOperations] c ∧ ¬ c.StoppedMeansStopped := by
  refine ⟨_, Run.iff_foldlM.mpr rfl, ?_⟩
  intro h
  have hnone := (h 7 (by decide)).1
  exact absurd hnone (by decide)

end Eestv.Net.TcpConnection
