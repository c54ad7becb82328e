import Eestv.Net.TcpClientStop

/-! What a client starts after the handler of a stop has cancelled. A resolve that succeeded
before it was cancelled still starts a connect, which nobody cancels; `async_resolve` asks
whether a stop was signaled. -/

namespace Eestv.Net.TcpClient
open Runs IoContext

variable {E K : Type} {c d : TcpClient E K}

def started (c : TcpClient E K) : ℕ := c.ioContext.log.countP Entry.starts

/-- Whether the handler of a stop has cancelled, without a reset since. -/
def Event.cancels (cancelled : Bool) : Event E K → Bool
  | .run .stop => true
  | .reset => false
  | _ => cancelled

/-- A client beside what an observer notes: whether it has cancelled, and how many operations
it started since. -/
structure Watched (E K : Type) where
  client : TcpClient E K := .new
  cancelled : Bool := false
  late : ℕ := 0

/-- A client is to be reset after a successful stop, so not before its handler. -/
def Permits (c : TcpClient E K) (e : Event E K) : Prop :=
  e = .reset → .stop ∉ c.ioContext.posted

instance [DecidableEq E] [DecidableEq K] (c : TcpClient E K) (e : Event E K) :
    Decidable (c.Permits e) :=
  inferInstanceAs (Decidable (_ → _))

def Watched.step [DecidableEq E] [DecidableEq K] (w : Watched E K) (e : Event E K) :
    Option (Watched E K) :=
  if w.client.Permits e then
    (w.client.step e).map fun d =>
      ⟨d, e.cancels w.cancelled, w.late + if w.cancelled then d.started - w.client.started else 0⟩
  else none

def Watched.Step [DecidableEq E] [DecidableEq K] (w : Watched E K) (e : Event E K)
    (v : Watched E K) : Prop :=
  w.step e = some v

def Event.resolves : Event E K → Bool
  | .handleResolve _ _ error _ => !error.failed
  | _ => false

/-- A resolve succeeds although the handler of a stop has cancelled. -/
def Watched.Restarts (w : Watched E K) (e : Event E K) : Prop :=
  w.cancelled = true ∧ e.resolves = true

/-! ### The client -/

def Signaled (c : TcpClient E K) : Prop :=
  .stop ∈ c.ioContext.posted → c.flags.getFlag .stopSingaled = true

@[simp] theorem resolveOnStopped_started : c.resolveOnStopped.started = c.started := by
  refine resolveOnStopped_induction (P := fun d => d.started = c.started) rfl ?_
  intro k
  simp [started, Entry.starts]

@[simp] theorem postCompletion_started {error : ErrorCode} :
    (c.postCompletion error).started = c.started := by
  refine postCompletion_induction (P := fun d => d.started = c.started) rfl ?_
  intro k _
  simp [started, Entry.starts]

@[simp] theorem callCompletion_started {error : ErrorCode} :
    (c.callCompletion error).started = c.started := by
  unfold callCompletion
  split <;> simp [started, Entry.starts]

theorem started_start {o : Operation E} {flags : Flags TcpClientState} :
    started { c with flags := flags, ioContext := c.ioContext.start o } = c.started + 1 := by
  simp [started, Entry.starts]

theorem handleResolve_started {error : ErrorCode} (results : E) :
    (c.handleResolve error results).started =
      c.started + if error.failed then 0 else 1 := by
  rcases herror : error.failed with _ | _
  · rw [handleResolve_of_success herror]
    split
    · rw [resolveOnStopped_started]
      exact started_start
    · exact started_start
  · rw [handleResolve_of_failed herror]
    split
    · rw [resolveOnStopped_started, postCompletion_started]
      rfl
    · rw [postCompletion_started]
      rfl

theorem handleConnect_started (error : ErrorCode) :
    (c.handleConnect error).started = c.started := by
  rcases herror : error.failed with _ | _
  · rw [handleConnect_of_success herror]
    split
    · exact resolveOnStopped_started
    · exact callCompletion_started
  · rw [handleConnect_of_failed herror]
    split
    · exact postCompletion_started.trans resolveOnStopped_started
    · exact postCompletion_started

theorem handle_started {h : Handler K} (hstop : c.flags.getFlag .stopSingaled = true) :
    (c.handle h).started = c.started := by
  cases h with
  | asyncResolve host port =>
    unfold handle asyncResolve
    dsimp only
    rw [if_pos (by simpa using hstop)]
    exact resolveOnStopped_started
  | stop => exact resolveOnStopped_started
  | complete k error => simp [handle, started, Entry.starts]
  | stopped k => simp [handle, started, Entry.starts]

namespace Signaled

theorem resolveOnStopped (hc : c.Signaled) : c.resolveOnStopped.Signaled := by
  refine resolveOnStopped_induction (P := Signaled) hc ?_
  intro k
  simpa [Signaled] using hc

theorem postCompletion (hc : c.Signaled) (error : ErrorCode) :
    (c.postCompletion error).Signaled := by
  refine postCompletion_induction (P := Signaled) hc ?_
  intro k _
  simpa [Signaled] using hc

theorem clear {f : TcpClientState} (hc : c.Signaled) (hf : f ≠ .stopSingaled) :
    Signaled { c with flags := c.flags.clearFlag f } := by
  simpa [Signaled, hf] using hc

theorem handle {h : Handler K} (hc : c.Signaled) : (c.handle h).Signaled := by
  cases h with
  | asyncResolve host port =>
    have hclear := hc.clear (f := .scheduleResolving) (by decide)
    unfold TcpClient.handle TcpClient.asyncResolve
    dsimp only
    split
    · exact hclear.resolveOnStopped
    · simpa [Signaled] using hc
  | stop => exact (hc.clear (by decide)).resolveOnStopped
  | complete k error => exact hc
  | stopped k => exact hc

theorem handleResolve (hc : c.Signaled) (error : ErrorCode) (results : E) :
    (c.handleResolve error results).Signaled := by
  rcases herror : error.failed with _ | _
  · have hstart : Signaled { c with
        flags := (c.flags.setFlag .connecting).clearFlag .resolving
        ioContext := c.ioContext.start (.connect results) } := by
      simpa [Signaled] using hc
    rw [handleResolve_of_success herror]
    split
    · exact hstart.resolveOnStopped
    · exact hstart
  · have hpost := (hc.clear (f := .resolving) (by decide)).postCompletion error
    rw [handleResolve_of_failed herror]
    split
    · exact hpost.resolveOnStopped
    · exact hpost

theorem handleConnect (hc : c.Signaled) (error : ErrorCode) :
    (c.handleConnect error).Signaled := by
  have hclear := hc.clear (f := .connecting) (by decide)
  rcases herror : error.failed with _ | _
  · rw [handleConnect_of_success herror]
    split
    · exact hclear.resolveOnStopped
    · unfold callCompletion
      split <;> exact hclear
  · rw [handleConnect_of_failed herror]
    split
    · exact hclear.resolveOnStopped.postCompletion error
    · exact hclear.postCompletion error

end Signaled

section Steps

variable [DecidableEq E] [DecidableEq K]

theorem Signaled.step {e : Event E K} (hc : c.Signaled) (hpermits : c.Permits e)
    (hstep : c.Step e d) : d.Signaled := by
  cases e with
  | asyncConnect host port k r =>
    obtain ⟨-, rfl⟩ | ⟨-, -, rfl⟩ := step_asyncConnect hstep
    · exact hc
    · simpa [Signaled] using hc
  | asyncStop k r =>
    obtain ⟨-, rfl⟩ | ⟨-, -, rfl⟩ := step_asyncStop hstep
    · exact hc
    · simp [Signaled]
  | reset =>
    cases hstep
    exact fun hmem => absurd hmem (hpermits rfl)
  | run h =>
    obtain ⟨io, hio, rfl⟩ := step_run.mp hstep
    apply Signaled.handle
    intro hmem
    rw [(take_eq_some.mp hio).2] at hmem
    exact hc (List.mem_of_mem_erase hmem)
  | handleResolve host service error results =>
    obtain ⟨io, hio, rfl⟩ := step_handleResolve.mp hstep
    apply Signaled.handleResolve
    rw [(finish_eq_some.mp hio).2]
    exact hc
  | handleConnect results error =>
    obtain ⟨io, hio, rfl⟩ := step_handleConnect.mp hstep
    apply Signaled.handleConnect
    rw [(finish_eq_some.mp hio).2]
    exact hc

theorem step_started {e : Event E K} (hstop : c.flags.getFlag .stopSingaled = true)
    (hstep : c.Step e d) : d.started = c.started + if e.resolves then 1 else 0 := by
  have hran : ∀ {h io}, c.ioContext.take h = some io →
      started { c with ioContext := io } = c.started := by
    intro h io hio
    simp [started, take_log hio, Entry.starts]
  have hfinished : ∀ {o io}, c.ioContext.finish o = some io →
      started { c with ioContext := io } = c.started := by
    intro o io hio
    simp [started, finish_log hio, Entry.starts]
  cases e with
  | asyncConnect host port k r =>
    obtain ⟨-, rfl⟩ | ⟨-, -, rfl⟩ := step_asyncConnect hstep
    · rfl
    · simp [started, Event.resolves, Entry.starts]
  | asyncStop k r =>
    obtain ⟨-, rfl⟩ := (step_asyncStop hstep).resolve_right (by simp [hstop])
    rfl
  | reset =>
    cases hstep
    rfl
  | run h =>
    obtain ⟨io, hio, rfl⟩ := step_run.mp hstep
    exact (handle_started (c := { c with ioContext := io }) hstop).trans (hran hio)
  | handleResolve host service error results =>
    obtain ⟨io, hio, rfl⟩ := step_handleResolve.mp hstep
    rw [handleResolve_started, hfinished hio]
    cases herror : error.failed <;> simp [Event.resolves, herror]
  | handleConnect results error =>
    obtain ⟨io, hio, rfl⟩ := step_handleConnect.mp hstep
    exact (handleConnect_started (c := { c with ioContext := io }) error).trans (hfinished hio)

/-! ### The observer -/

theorem watched_step {w v : Watched E K} {e : Event E K} : w.Step e v ↔
    w.client.Permits e ∧ ∃ d, w.client.Step e d ∧
      ⟨d, e.cancels w.cancelled,
        w.late + if w.cancelled then d.started - w.client.started else 0⟩ = v :=
  Option.ite_none_right_eq_some.trans (and_congr_right fun _ => Option.map_eq_some_iff)

structure Watched.Cancelled (w : Watched E K) : Prop where
  signaled : w.client.Signaled
  stopSingaled : w.cancelled = true → w.client.flags.getFlag .stopSingaled = true
  late : w.late = 0

omit [DecidableEq E] [DecidableEq K] in
theorem Watched.Cancelled.new : ({} : Watched E K).Cancelled := by
  refine ⟨?_, ?_, rfl⟩
  · intro hmem
    cases hmem
  · intro hcancelled
    cases hcancelled

theorem Watched.Cancelled.stopSingaled_step {w : Watched E K} {e : Event E K}
    (hw : w.Cancelled) (hstep : w.client.Step e d) (hcancels : e.cancels w.cancelled = true) :
    d.flags.getFlag .stopSingaled = true := by
  have hreset : e ≠ .reset := by
    rintro rfl
    cases hcancels
  have hbefore : w.client.flags.getFlag .stopSingaled = true := by
    by_cases hrun : e = .run .stop
    · subst hrun
      obtain ⟨io, hio, -⟩ := step_run.mp hstep
      exact hw.signaled (take_eq_some.mp hio).1
    · apply hw.stopSingaled
      unfold Event.cancels at hcancels
      split at hcancels
      · exact absurd rfl hrun
      · cases hcancels
      · exact hcancels
  exact (step_handover hreset hstep).signaled hbefore

/-- In every run in which a reset comes behind the handler of the stop, no operation is started
after this handler and before the reset, exactly if no resolve succeeds in between. -/
theorem late_eq_zero_iff (as : List (Event E K)) :
    Always Watched.Step (fun w => w.late = 0) {} as ↔
      Each Watched.Step (fun w e => ¬ Watched.Restarts w e) {} as := by
  refine always_iff_each (I := Watched.Cancelled) (fun w hw => hw.late) ?_ ?_ .new
  · intro w e v hw hstep hnot
    obtain ⟨hpermits, d, hd, rfl⟩ := watched_step.mp hstep
    refine ⟨hw.signaled.step hpermits hd, hw.stopSingaled_step hd, ?_⟩
    rcases hcancelled : w.cancelled with _ | _
    · simp [hw.late]
    · have hstarted := step_started (hw.stopSingaled hcancelled) hd
      have hresolves : e.resolves = false := by
        simpa [Watched.Restarts, hcancelled] using hnot
      simp [hw.late, hstarted, hresolves]
  · rintro w e v hw hstep hlate ⟨hcancelled, hresolves⟩
    obtain ⟨-, d, hd, rfl⟩ := watched_step.mp hstep
    have hstarted := step_started (hw.stopSingaled hcancelled) hd
    simp [hw.late, hcancelled, hstarted, hresolves] at hlate

end Steps

/-- The resolve has succeeded, and its handler comes behind that of the stop. -/
theorem connect_starts_late : ∃ w : Watched ℕ ℕ,
    Run Watched.Step {} [.asyncConnect ['h'] 80 (some 1) true, .run (.asyncResolve ['h'] 80),
      .asyncStop (some 2) true, .run .stop, .handleResolve ['h'] ['8', '0'] .success 5] w ∧
    w.client.ioContext.operations = [.connect 5] ∧ w.late = 1 :=
  ⟨_, Run.iff_foldlM.mpr rfl, rfl, rfl⟩

end Eestv.Net.TcpClient
