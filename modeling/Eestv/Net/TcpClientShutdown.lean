import Eestv.Library.Shutdown
import Eestv.Net.TcpClientStop

/-! `stop()` of the client. An attempt that another thread starts behind it ends in the handler that
was to resolve, unless the client is reset. -/

namespace Eestv.Net.TcpClient
open Runs IoContext

variable {E K : Type} {c d : TcpClient E K}

def stop (c : TcpClient E K) (isOnIoThread : Bool) (stopped : K) : Option K × TcpClient E K :=
  Shutdown.stop asyncStop c isOnIoThread stopped

def Event.ofLoop : Event E K → Bool
  | .run _ => true
  | .handleResolve _ _ _ _ => true
  | .handleConnect _ _ => true
  | _ => false

def Event.attempts : Event E K → Bool
  | .asyncConnect _ _ _ returned => returned
  | _ => false

/-! ### No handler is lost -/

theorem resolveOnStopped_grows : c.ioContext.Grows c.resolveOnStopped.ioContext :=
  resolveOnStopped_induction (P := fun b => c.ioContext.Grows b.ioContext) .refl
    fun _ => .post _ .refl

theorem postCompletion_grows (error : ErrorCode) :
    c.ioContext.Grows (c.postCompletion error).ioContext :=
  postCompletion_induction (P := fun b => c.ioContext.Grows b.ioContext) .refl
    fun _ _ => .post _ .refl

theorem callCompletion_grows (error : ErrorCode) :
    c.ioContext.Grows (c.callCompletion error).ioContext := by
  unfold callCompletion
  split
  · exact .call _ .refl
  · exact .refl

theorem handle_grows (h : Handler K) : c.ioContext.Grows (c.handle h).ioContext := by
  cases h with
  | asyncResolve host port =>
    unfold handle asyncResolve
    dsimp only
    split
    · exact resolveOnStopped_grows (c := { c with flags := c.flags.clearFlag .scheduleResolving })
    · exact .start _ .refl
  | stop => exact resolveOnStopped_grows (c := { c with flags := c.flags.clearFlag .stopping })
  | complete k error => exact .call _ .refl
  | stopped k => exact .call _ .refl

theorem handleResolve_grows (error : ErrorCode) (results : E) :
    c.ioContext.Grows (c.handleResolve error results).ioContext := by
  rcases herror : error.failed with _ | _
  · rw [handleResolve_of_success herror]
    split
    · exact (Grows.start _ .refl).trans (resolveOnStopped_grows (c := { c with
        flags := (c.flags.setFlag .connecting).clearFlag .resolving
        ioContext := c.ioContext.start (.connect results) }))
    · exact .start _ .refl
  · rw [handleResolve_of_failed herror]
    have hposts := postCompletion_grows (c := { c with flags := c.flags.clearFlag .resolving })
      error
    split
    · exact hposts.trans resolveOnStopped_grows
    · exact hposts

theorem handleConnect_grows (error : ErrorCode) :
    c.ioContext.Grows (c.handleConnect error).ioContext := by
  have hresolves := resolveOnStopped_grows (c := { c with flags := c.flags.clearFlag .connecting })
  rcases herror : error.failed with _ | _
  · rw [handleConnect_of_success herror]
    split
    · exact hresolves
    · exact callCompletion_grows (c := { c with flags := c.flags.clearFlag .connecting }) error
  · rw [handleConnect_of_failed herror]
    split
    · exact hresolves.trans (postCompletion_grows error)
    · exact postCompletion_grows (c := { c with flags := c.flags.clearFlag .connecting }) error

/-! ### What is left to do -/

/-- A resolve may start one connect. -/
def Operation.weight : Operation E → ℕ
  | .resolve _ _ => 2
  | .connect _ => 1

theorem Operation.weight_le (o : Operation E) : o.weight ≤ 2 := by
  cases o with
  | resolve host service => exact Nat.le_refl 2
  | connect results => exact Nat.le_succ 1

def remaining (c : TcpClient E K) : ℕ :=
  c.ioContext.workload (fun _ => 1) Operation.weight + c.onStopped.isSome.toNat +
    c.onConnectionComplete.isSome.toNat

theorem resolveOnStopped_remaining : c.resolveOnStopped.remaining = c.remaining := by
  unfold resolveOnStopped
  split
  · split
    · rename_i k hk
      simp [remaining, hk]
    · rfl
  · rfl

theorem postCompletion_remaining (error : ErrorCode) :
    (c.postCompletion error).remaining = c.remaining :=
  postCompletion_induction (P := fun b => b.remaining = c.remaining) rfl fun k hk => by
    simp only [remaining, workload_post, hk, Option.isSome_some, Option.isSome_none,
      Bool.toNat_true, Bool.toNat_false]
    omega

theorem handle_remaining (hstop : c.flags.getFlag .stopSingaled = true) (h : Handler K) :
    (c.handle h).remaining = c.remaining := by
  cases h with
  | asyncResolve host port =>
    unfold handle asyncResolve
    simp only [Flags.getFlag_clearFlag, hstop, reduceCtorEq, decide_false, Bool.not_false,
      Bool.true_and, if_true]
    exact resolveOnStopped_remaining
  | stop => exact resolveOnStopped_remaining (c := { c with flags := c.flags.clearFlag .stopping })
  | complete k error => rfl
  | stopped k => rfl

theorem handleResolve_remaining (hstop : c.flags.getFlag .stopSingaled = true) (error : ErrorCode)
    (results : E) : (c.handleResolve error results).remaining ≤ c.remaining + 1 := by
  rcases herror : error.failed with _ | _
  · rw [handleResolve_of_success herror, if_pos hstop, resolveOnStopped_remaining]
    simp only [remaining, workload_start, Operation.weight]
    omega
  · rw [handleResolve_of_failed herror, if_pos hstop, resolveOnStopped_remaining,
      postCompletion_remaining]
    exact Nat.le_succ _

theorem handleConnect_remaining (hstop : c.flags.getFlag .stopSingaled = true)
    (error : ErrorCode) : (c.handleConnect error).remaining = c.remaining := by
  rcases herror : error.failed with _ | _
  · rw [handleConnect_of_success herror, if_pos hstop, resolveOnStopped_remaining]
    rfl
  · rw [handleConnect_of_failed herror, if_pos hstop, postCompletion_remaining,
      resolveOnStopped_remaining]
    rfl

section Steps

variable [DecidableEq E] [DecidableEq K]

theorem step_moves {e : Event E K} (hstep : c.Step e d) : c.ioContext.Moves d.ioContext := by
  cases e with
  | asyncConnect host port k r =>
    obtain ⟨-, rfl⟩ | ⟨-, -, rfl⟩ := step_asyncConnect hstep
    · exact .call .refl
    · exact .call (.post _ .refl)
  | asyncStop k r =>
    obtain ⟨-, rfl⟩ | ⟨-, -, rfl⟩ := step_asyncStop hstep
    · exact .call .refl
    · exact .call (.post _ .refl)
  | reset =>
    cases hstep
    exact .call .refl
  | run h =>
    obtain ⟨io, hio, rfl⟩ := step_run.mp hstep
    exact .run hio (handle_grows (c := { c with ioContext := io }) h)
  | handleResolve host service error results =>
    obtain ⟨io, hio, rfl⟩ := step_handleResolve.mp hstep
    exact .finish hio (handleResolve_grows (c := { c with ioContext := io }) error results)
  | handleConnect results error =>
    obtain ⟨io, hio, rfl⟩ := step_handleConnect.mp hstep
    exact .finish hio (handleConnect_grows (c := { c with ioContext := io }) error)

theorem conserves_of_run {as : List (Event E K)} (h : Run Step new as c) :
    c.ioContext.Conserves :=
  .of_run (fun _ _ _ hstep => step_moves hstep) rfl h

/-- Once a stop is signaled, what the loop does is taken off what is left. A further attempt adds
its handler and its callback. -/
theorem step_remaining {e : Event E K} (he : e ≠ .reset)
    (hstop : c.flags.getFlag .stopSingaled = true) (hstep : c.Step e d) :
    d.remaining + e.ofLoop.toNat ≤ c.remaining + 2 * e.attempts.toNat := by
  cases e with
  | asyncConnect host port k r =>
    obtain ⟨-, rfl⟩ | ⟨rfl, -, rfl⟩ := step_asyncConnect hstep
    · exact Nat.le_add_right _ _
    · have hle := Bool.toNat_le k.isSome
      simp only [remaining, workload_post, Event.ofLoop, Event.attempts, Bool.toNat_true,
        Bool.toNat_false]
      omega
  | asyncStop k r =>
    obtain ⟨-, rfl⟩ | ⟨-, hnot, -⟩ := step_asyncStop hstep
    · exact Nat.le_refl _
    · rw [hstop] at hnot
      cases hnot
  | reset => exact absurd rfl he
  | run h =>
    obtain ⟨io, hio, rfl⟩ := step_run.mp hstep
    have hload := workload_take (p := fun _ => 1) (q := Operation.weight) hio
    have hsame := handle_remaining (c := { c with ioContext := io }) hstop h
    simp only [remaining, Event.ofLoop, Event.attempts, Bool.toNat_true, Bool.toNat_false]
      at hsame ⊢
    omega
  | handleResolve host service error results =>
    obtain ⟨io, hio, rfl⟩ := step_handleResolve.mp hstep
    have hload := workload_finish (p := fun _ => 1) (q := Operation.weight) hio
    have hle := handleResolve_remaining (c := { c with ioContext := io }) hstop error results
    simp only [remaining, Event.ofLoop, Event.attempts, Bool.toNat_true, Bool.toNat_false,
      Operation.weight] at hle hload ⊢
    omega
  | handleConnect results error =>
    obtain ⟨io, hio, rfl⟩ := step_handleConnect.mp hstep
    have hload := workload_finish (p := fun _ => 1) (q := Operation.weight) hio
    have hsame := handleConnect_remaining (c := { c with ioContext := io }) hstop error
    simp only [remaining, Event.ofLoop, Event.attempts, Bool.toNat_true, Bool.toNat_false,
      Operation.weight] at hsame hload ⊢
    omega

theorem ofLoop_le {as : List (Event E K)} (h : Run Step c as d) (hreset : .reset ∉ as)
    (hstop : c.flags.getFlag .stopSingaled = true) :
    as.countP Event.ofLoop ≤ c.remaining + 2 * as.countP Event.attempts := by
  have hcount := h.countP_add_le (I := fun s => s.flags.getFlag .stopSingaled = true)
    (p := (· ≠ .reset)) Event.ofLoop Event.attempts 2 remaining (fun _ => 0)
    (fun _ _ _ he hs hstep => ⟨(step_handover he hstep).signaled hs, step_remaining he hs hstep⟩)
    (fun _ he => ne_of_mem_of_not_mem he hreset) hstop
  omega

theorem ran_of_idle {as : List (Event E K)} {k : K} (h : Run Step new as c)
    (hreset : .reset ∉ as) (hmem : .asyncStop (some k) true ∈ as) (hidle : c.ioContext.Idle) :
    .ran (.stopped k) ∈ c.ioContext.log := by
  have hquiet : c.Quiet := ⟨by rw [hidle.1]; exact nofun, hidle.2⟩
  have hnone := (waits_of_run h hreset).onStopped_of_quiet (Tracked.of_run h hreset) hquiet
  have hhas := Handover.has_of_run (run_handover h hreset) hmem rfl
  exact (conserves_of_run h).ran_of_has hidle Handler.stopCallback_iff hhas hnone

theorem exists_step_of_not_idle [Inhabited E] (h : ¬ c.ioContext.Idle) :
    ∃ e d, e.ofLoop = true ∧ c.Step e d := by
  rcases exists_take_or_finish h with ⟨x, io, hio⟩ | ⟨o, io, hio⟩
  · exact ⟨.run x, _, rfl, step_run.mpr ⟨io, hio, rfl⟩⟩
  · cases o with
    | resolve host service =>
      exact ⟨.handleResolve host service .operationAborted default, _, rfl,
        step_handleResolve.mpr ⟨io, hio, rfl⟩⟩
    | connect results =>
      exact ⟨.handleConnect results .operationAborted, _, rfl,
        step_handleConnect.mpr ⟨io, hio, rfl⟩⟩

/-- `stop()` from a state that is reached without a reset, and not followed by one. Behind it the
loop makes only so many steps, and two more for every attempt that another thread starts; and until
the callback that it waits for has been called, there is a step that it can make. -/
theorem client_stop_returns [Inhabited E] (as : List (Event E K)) (c : TcpClient E K)
    (h : Run Step new as c) (hreset : .reset ∉ as) (onIoThread : Bool) (j k : K)
    (d : TcpClient E K) (hstop : c.stop onIoThread k = (some j, d)) (bs : List (Event E K))
    (e : TcpClient E K) (h' : Run Step d bs e) (hreset' : .reset ∉ bs) :
    bs.countP Event.ofLoop ≤ c.ioContext.posted.length + 2 * c.ioContext.operations.length + 3 +
        2 * bs.countP Event.attempts ∧
      (.ran (.stopped j) ∈ e.ioContext.log ∨ ∃ a f, a.ofLoop = true ∧ e.Step a f) := by
  obtain ⟨rfl, haccepted⟩ := Shutdown.stop_eq_some hstop
  have hstep : c.Step (.asyncStop (some j) true) d := returned_iff.mpr haccepted
  have hwhole := (h.append (.single hstep)).append h'
  constructor
  · obtain ⟨hfalse, -⟩ | ⟨-, -, rfl⟩ := step_asyncStop hstep
    · cases hfalse
    have hle := ofLoop_le h' hreset' (by simp)
    have hload := workload_le (p := fun _ => 1) (m := 1) (fun _ => Nat.le_refl 1)
      Operation.weight_le c.ioContext
    have hheld := Bool.toNat_le c.onConnectionComplete.isSome
    simp only [remaining, workload_post, Option.isSome_some, Bool.toNat_true] at hle
    omega
  · by_cases hidle : e.ioContext.Idle
    · left
      apply ran_of_idle hwhole _ _ hidle
      · simp [hreset, hreset']
      · simp
    · exact Or.inr (exists_step_of_not_idle hidle)

end Steps

theorem client_stop_returns_connecting : ∃ c e : TcpClient ℕ ℕ,
    Run Step (c.stop false 2).2 [.handleConnect 5 .operationAborted, .run .stop,
      .asyncConnect ['h'] 80 (some 3) true] e ∧
    (.ran (.stopped 2) ∈ e.ioContext.log ∨ ∃ a f, a.ofLoop = true ∧ e.Step a f) := by
  obtain ⟨c, e, hrun, hstop, hrest⟩ : ∃ c e : TcpClient ℕ ℕ,
      Run Step new [.asyncConnect ['h'] 80 (some 1) true, .run (.asyncResolve ['h'] 80),
        .handleResolve ['h'] ['8', '0'] .success 5] c ∧
      (c.stop false 2).1 = some 2 ∧
      Run Step (c.stop false 2).2 [.handleConnect 5 .operationAborted, .run .stop,
        .asyncConnect ['h'] 80 (some 3) true] e :=
    ⟨_, _, Run.iff_foldlM.mpr rfl, rfl, Run.iff_foldlM.mpr rfl⟩
  have hreturns := client_stop_returns _ c hrun (by decide) false 2 2 _ (Prod.ext hstop rfl) _ e
    hrest (by decide)
  exact ⟨c, e, hrest, hreturns.2⟩

end Eestv.Net.TcpClient
