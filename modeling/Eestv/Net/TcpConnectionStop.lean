import Eestv.Net.TcpConnectionEffect

/-! The callback of `async_stop` is posted once, when the work that the flags record has
ended. -/

namespace Eestv.Net.TcpConnection
open Runs

variable {R S K : Type} {b c d : TcpConnection R S K}

structure Promised (c : TcpConnection R S K) : Prop where
  held : c.disconnectedCallback.isSome = true → c.flags.getFlag .stopSignaled = true
  cancelled : c.flags.getFlag .stopSignaled = true →
    c.flags.getFlag .closing = true ∨ .ran .cancelAsyncOperations ∈ c.ioContext.log
  released : ∀ k, .posted (.disconnected k) ∈ c.ioContext.log →
    .ran .cancelAsyncOperations ∈ c.ioContext.log ∧ c.flags.getFlag .stopSignaled = true

/-- The callback is held back only while a flag says that there is work. -/
def Waits (c : TcpConnection R S K) : Prop :=
  c.disconnectedCallback.isSome = true → c.busy = true

theorem not_closing_of_not_busy (h : c.busy = false) : c.flags.getFlag .closing = false := by
  simp only [busy, Bool.or_eq_false_iff] at h
  exact h.1.1.1.1

theorem resolveOnStopped_waits : c.resolveOnStopped.Waits := by
  rcases hbusy : c.busy with _ | _
  · rcases hk : c.disconnectedCallback with _ | k
    · rw [resolveOnStopped_of_none hk]
      simp [Waits, hk]
    · rw [resolveOnStopped_of_some hbusy hk]
      simp [Waits]
  · rw [resolveOnStopped_of_busy hbusy]
    exact fun _ => hbusy

namespace Promised

theorem frame (hc : c.Promised) (h : Frame c d) : d.Promised := by
  obtain ⟨l, hl, hnot⟩ := h.log
  have hran : .ran .cancelAsyncOperations ∈ c.ioContext.log →
      .ran .cancelAsyncOperations ∈ d.ioContext.log := by
    intro hmem
    rw [hl]
    exact List.mem_append_left _ hmem
  constructor
  · rw [h.callback, h.stopSignaled]
    exact hc.held
  · intro hstop
    rw [h.stopSignaled] at hstop
    rcases hc.cancelled hstop with hclosing | hmem
    · exact h.cancelled hclosing
    · exact Or.inr (hran hmem)
  · intro k hk
    rw [hl, List.mem_append] at hk
    rcases hk with hk | hk
    · obtain ⟨hmem, hstop⟩ := hc.released k hk
      exact ⟨hran hmem, h.stopSignaled.trans hstop⟩
    · exact absurd hk (hnot k)

theorem resolveOnStopped (hc : c.Promised) : c.resolveOnStopped.Promised := by
  refine resolveOnStopped_induction (P := Promised) hc ?_
  intro k hbusy hk
  have hstop := hc.held (by rw [hk]; rfl)
  have hran : .ran .cancelAsyncOperations ∈ c.ioContext.log := by
    rcases hc.cancelled hstop with hclosing | hran
    · rw [not_closing_of_not_busy hbusy] at hclosing
      cases hclosing
    · exact hran
  have hlog : .ran .cancelAsyncOperations ∈
      (c.ioContext.post (.disconnected k)).log := List.mem_append_left _ hran
  exact ⟨nofun, fun _ => Or.inr hlog, fun _ _ => ⟨hlog, hstop⟩⟩

theorem effect (hc : c.Promised) (h : Effect c d) : d.Promised := by
  cases h with
  | quiet frame _ => exact hc.frame frame
  | resolve b before after _ => exact (hc.frame before).resolveOnStopped.frame after

end Promised

theorem Waits.effect (hc : c.Promised) (hw : c.Waits) (h : Effect c d) : d.Waits := by
  intro hheld
  cases h with
  | quiet frame busy =>
    rw [frame.callback] at hheld
    exact busy (hc.held hheld) (hw hheld)
  | resolve b before after flags =>
    rw [after.callback] at hheld
    have hbusy := resolveOnStopped_waits hheld
    unfold TcpConnection.busy at *
    rwa [flags, ← resolveOnStopped_flags]

section Ledger

variable [DecidableEq K]

def disconnects (c : TcpConnection R S K) (k : K) : ℕ :=
  c.ioContext.log.count (.posted (.disconnected k)) +
    if c.disconnectedCallback = some k then 1 else 0

theorem Frame.disconnects (h : Frame c d) (k : K) : d.disconnects k = c.disconnects k := by
  obtain ⟨l, hl, hnot⟩ := h.log
  unfold TcpConnection.disconnects
  rw [hl, List.count_append, List.count_eq_zero.mpr (hnot k), h.callback]
  rfl

theorem resolveOnStopped_disconnects (k : K) :
    c.resolveOnStopped.disconnects k = c.disconnects k := by
  refine resolveOnStopped_induction (P := fun d => d.disconnects k = c.disconnects k) rfl ?_
  intro k' _ hk'
  simp only [disconnects, hk', IoContext.post_log, List.count_append, List.count_singleton,
    beq_iff_eq, Entry.posted.injEq, Handler.disconnected.injEq, Option.some.injEq]
  simp

theorem Effect.disconnects (h : Effect c d) (k : K) : d.disconnects k = c.disconnects k := by
  cases h with
  | quiet frame _ => exact frame.disconnects k
  | resolve b before after _ =>
    rw [after.disconnects, resolveOnStopped_disconnects, before.disconnects]

end Ledger

/-! ### Runs -/

variable [IoBuffer R] [IoBuffer S] [DecidableEq K]

def Event.acceptsFor (k : K) : Event R S K → Bool
  | .asyncStop (some onDisconnected) returned => returned && onDisconnected = k
  | _ => false

structure Settled (c : TcpConnection R S K) : Prop where
  tracked : c.Tracked
  promised : c.Promised
  waits : c.Waits

structure Stopping (as : List (Event R S K)) (c : TcpConnection R S K) : Prop where
  settled : c.Settled
  accepted : as.countP Event.accepts = (c.flags.getFlag .stopSignaled).toNat
  disconnects : ∀ k, c.disconnects k = as.countP (Event.acceptsFor k)

omit [DecidableEq K] in
theorem new_settled (m n : ℕ) : (new m n : TcpConnection R S K).Settled := by
  refine ⟨new_tracked m n, ⟨nofun, ?_, nofun⟩, nofun⟩
  intro h
  simp [new] at h

theorem new_stopping (m n : ℕ) : Stopping [] (new m n : TcpConnection R S K) := by
  refine ⟨new_settled m n, ?_, fun _ => rfl⟩
  simp [new]

theorem Settled.of_accept (hc : c.Settled) {k : Option K}
    (hstep : c.Step (.asyncStop k true) d) :
    c.flags.getFlag .stopSignaled = false ∧ c.disconnectedCallback = none ∧
      (∀ k', .posted (.disconnected k') ∉ c.ioContext.log) ∧
      d = { c with
        flags := (c.flags.setFlag .stopSignaled).setFlag .closing
        disconnectedCallback := k
        ioContext := c.ioContext.post .cancelAsyncOperations } := by
  obtain ⟨hrefused, -⟩ | ⟨-, hstop, rfl⟩ := step_asyncStop hstep
  · cases hrefused
  · refine ⟨hstop, ?_, ?_, rfl⟩
    · rcases hk : c.disconnectedCallback with _ | k'
      · rfl
      · have hheld := hc.promised.held (by rw [hk]; rfl)
        rw [hstop] at hheld
        cases hheld
    · intro k' hk'
      have hold := (hc.promised.released k' hk').2
      rw [hstop] at hold
      cases hold

theorem Settled.step (hc : c.Settled) {e : Event R S K} (hstep : c.Step e d) : d.Settled := by
  rcases he : e.accepts with _ | _
  · have h := step_effect he hstep
    exact ⟨hc.tracked.step hstep, hc.promised.effect h, hc.waits.effect hc.promised h⟩
  · cases e with
    | asyncStop k r =>
      obtain rfl : r = true := he
      have htracked := hc.tracked.step hstep
      obtain ⟨_, _, hlog, rfl⟩ := hc.of_accept hstep
      refine ⟨htracked, ⟨?_, ?_, ?_⟩, ?_⟩
      · simp
      · simp
      · intro k' hk'
        simp [hlog k'] at hk'
      · simp [Waits, busy]
    | _ => cases he

theorem Event.acceptsFor_eq_false {e : Event R S K} (he : e.accepts = false) (k : K) :
    e.acceptsFor k = false := by
  cases e with
  | asyncStop onDisconnected returned =>
    obtain rfl : returned = false := he
    cases onDisconnected <;> rfl
  | _ => rfl

theorem Stopping.step {as : List (Event R S K)} (hc : Stopping as c) {e : Event R S K}
    (hstep : c.Step e d) : Stopping (as ++ [e]) d := by
  have hsettled := hc.settled.step hstep
  rcases he : e.accepts with _ | _
  · have h := step_effect he hstep
    refine ⟨hsettled, ?_, ?_⟩
    · rw [List.countP_append, List.countP_singleton, he, hc.accepted, h.stopSignaled]
      rfl
    · intro k
      rw [List.countP_append, List.countP_singleton, Event.acceptsFor_eq_false he, h.disconnects,
        hc.disconnects]
      rfl
  · cases e with
    | asyncStop k r =>
      obtain rfl : r = true := he
      obtain ⟨hstop, hnone, hlog, rfl⟩ := hc.settled.of_accept hstep
      refine ⟨hsettled, ?_, ?_⟩
      · simp [List.countP_append, hc.accepted, hstop, Event.accepts]
      · intro k'
        have hcount := hc.disconnects k'
        simp only [TcpConnection.disconnects, hnone, reduceCtorEq, if_false] at hcount
        simp only [TcpConnection.disconnects, List.countP_append, ← hcount, IoContext.post_log,
          List.count_append, List.count_singleton]
        rcases k with _ | k
        · simp [Event.acceptsFor]
        · simp [Event.acceptsFor]
    | _ => cases he

theorem Stopping.of_run {m n : ℕ} {as : List (Event R S K)}
    (h : Run Step (new m n) as c) : Stopping as c :=
  h.history (new_stopping m n) fun _ _ _ _ _ hc hstep => hc.step hstep

/-- Once nothing is pending any more, the callback of a stop that was accepted has been
posted once. -/
theorem stop_completes_once (m n : ℕ) (as : List (Event R S K)) (c : TcpConnection R S K)
    (h : Run Step (new m n) as c) :
    as.countP Event.accepts ≤ 1 ∧
      (∀ k, .posted (.disconnected k) ∈ c.ioContext.log →
        .ran .cancelAsyncOperations ∈ c.ioContext.log) ∧
      (c.ioContext.Idle → ∀ k, .asyncStop (some k) true ∈ as →
        c.ioContext.log.count (.posted (.disconnected k)) = 1) := by
  have hc := Stopping.of_run h
  have hone : as.countP Event.accepts ≤ 1 := by
    rw [hc.accepted]
    exact Bool.toNat_le _
  refine ⟨hone, fun k hk => (hc.settled.promised.released k hk).1, ?_⟩
  intro hidle k hk
  have hbusy := hc.settled.tracked.busy_of_no_work fun _ => hidle.work_eq_zero
  have hnone : c.disconnectedCallback = none := by
    rcases hheld : c.disconnectedCallback with _ | k'
    · rfl
    · have hwait := hc.settled.waits (by rw [hheld]; rfl)
      rw [hbusy] at hwait
      cases hwait
  have hcount := hc.disconnects k
  simp only [TcpConnection.disconnects, hnone, reduceCtorEq, if_false] at hcount
  have hpos : 0 < as.countP (Event.acceptsFor k) := by
    apply List.countP_pos_iff.mpr
    exact ⟨_, hk, by simp [Event.acceptsFor]⟩
  have hle : as.countP (Event.acceptsFor k) ≤ as.countP Event.accepts := by
    apply List.countP_mono_left
    intro e _ he
    rcases hacc : e.accepts with _ | _
    · rw [Event.acceptsFor_eq_false hacc] at he
      cases he
    · rfl
  omega

theorem stop_completes_once_cancelled : ∃ c : TcpConnection LinearBuffer LinearBuffer ℕ,
    Run Step (new 4 4) [.startReceiving, .asyncStop (some 7) true, .run .startReceiving,
      .run .cancelAsyncOperations, .run (.disconnected 7)] c ∧
    c.ioContext.log.count (.posted (.disconnected 7)) = 1 := by
  have h : Run Step (new 4 4 : TcpConnection LinearBuffer LinearBuffer ℕ)
      [.startReceiving, .asyncStop (some 7) true, .run .startReceiving,
        .run .cancelAsyncOperations, .run (.disconnected 7)] _ := Run.iff_foldlM.mpr rfl
  refine ⟨_, h, (stop_completes_once 4 4 _ _ h).2.2 ?_ 7 ?_⟩
  · exact ⟨rfl, rfl⟩
  · simp

end Eestv.Net.TcpConnection
