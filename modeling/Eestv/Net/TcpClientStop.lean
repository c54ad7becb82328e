import Eestv.Library.Handover
import Eestv.Net.TcpClientWork

/-! The client's stop. Its callback is released by the handler of the stop or by the last stage
of an attempt, whichever comes last. -/

namespace Eestv.Net.TcpClient
open Runs IoContext

variable {E K : Type} {c d : TcpClient E K}

def Handler.stopCallback : Handler K → Option K
  | .stopped callback => some callback
  | _ => none

theorem Handler.stopCallback_iff {k : K} (h : Handler K) :
    h.stopCallback = some k ↔ h = .stopped k := by
  cases h <;> simp [stopCallback]

def Event.stops : Event E K → Option (Option K)
  | .asyncStop onStopped true => some onStopped
  | _ => none

def handover (c : TcpClient E K) : Handover K :=
  .ofLoop Handler.stopCallback (c.flags.getFlag .stopSingaled) c.onStopped c.ioContext

theorem resolveOnStopped_handover : c.handover.Passes c.resolveOnStopped.handover := by
  unfold resolveOnStopped
  split
  · split
    · rename_i k hk
      exact Or.inr (Handover.ofLoop_release hk.symm)
    · exact Or.inl rfl
  · exact Or.inl rfl

@[simp] theorem postCompletion_handover {error : ErrorCode} :
    (c.postCompletion error).handover = c.handover := by
  exact postCompletion_induction (P := fun d => d.handover = c.handover) rfl
    fun _ _ => Handover.ofLoop_post rfl

@[simp] theorem callCompletion_handover {error : ErrorCode} :
    (c.callCompletion error).handover = c.handover := by
  unfold callCompletion
  split
  · simp [handover]
  · rfl

theorem passes_resolveOnStopped (h : d.handover = c.handover) :
    c.handover.Passes d.resolveOnStopped.handover := by
  rw [← h]
  exact resolveOnStopped_handover

theorem asyncResolve_passes (host : List Char) (port : ℤ) :
    c.handover.Passes (c.asyncResolve host port).handover := by
  unfold asyncResolve
  dsimp only
  split
  · apply passes_resolveOnStopped
    simp [handover]
  · left
    simp [handover]

theorem handleResolve_passes (error : ErrorCode) (results : E) :
    c.handover.Passes (c.handleResolve error results).handover := by
  have hfailed : (({ c with flags := c.flags.clearFlag .resolving } :
      TcpClient E K).postCompletion error).handover = c.handover := by
    rw [postCompletion_handover]
    simp [handover]
  have hstart : handover { c with
      flags := (c.flags.setFlag .connecting).clearFlag .resolving
      ioContext := c.ioContext.start (.connect results) } = c.handover := by
    simp [handover]
  rcases herror : error.failed with _ | _
  · rw [handleResolve_of_success herror]
    split
    · exact passes_resolveOnStopped hstart
    · exact Or.inl hstart
  · rw [handleResolve_of_failed herror]
    split
    · exact passes_resolveOnStopped hfailed
    · exact Or.inl hfailed

theorem handleConnect_passes (error : ErrorCode) :
    c.handover.Passes (c.handleConnect error).handover := by
  have hclear : handover { c with flags := c.flags.clearFlag .connecting } = c.handover := by
    simp [handover]
  rcases herror : error.failed with _ | _
  · rw [handleConnect_of_success herror]
    split
    · exact passes_resolveOnStopped hclear
    · left
      rw [callCompletion_handover]
      exact hclear
  · rw [handleConnect_of_failed herror]
    split
    · rw [postCompletion_handover]
      exact passes_resolveOnStopped hclear
    · left
      rw [postCompletion_handover]
      exact hclear

theorem handle_passes (h : Handler K) : c.handover.Passes (c.handle h).handover := by
  cases h with
  | asyncResolve host port => exact asyncResolve_passes host port
  | stop =>
    apply passes_resolveOnStopped
    simp [handover]
  | complete k error =>
    left
    simp [handle, handover]
  | stopped k =>
    left
    simp [handle, handover]

section Steps

variable [DecidableEq E] [DecidableEq K]

omit [DecidableEq E] in
theorem take_handover {h : Handler K} {io : IoContext (Handler K) (Operation E) (Call K)}
    (hio : c.ioContext.take h = some io) :
    handover { c with ioContext := io } = c.handover :=
  Handover.ofLoop_take hio

omit [DecidableEq K] in
theorem finish_handover {o : Operation E} {io : IoContext (Handler K) (Operation E) (Call K)}
    (hio : c.ioContext.finish o = some io) :
    handover { c with ioContext := io } = c.handover :=
  Handover.ofLoop_finish hio

theorem step_handover {e : Event E K} (he : e ≠ .reset) (hstep : c.Step e d) :
    Handover.Step Event.stops c.handover e d.handover := by
  cases e with
  | asyncConnect host port k r =>
    refine Handover.Passes.step (Or.inl ?_) rfl
    obtain ⟨-, rfl⟩ | ⟨-, -, rfl⟩ := step_asyncConnect hstep
    · rfl
    · simp only [handover, Flags.getFlag_setFlag, reduceCtorEq, decide_false, Bool.false_or]
      exact Handover.ofLoop_post rfl
  | asyncStop k r =>
    obtain ⟨rfl, rfl⟩ | ⟨rfl, hstop, rfl⟩ := step_asyncStop hstep
    · exact .keep rfl
    · simp only [handover, Flags.getFlag_setFlag, decide_true, Bool.true_or, Bool.or_true]
      exact .of_accept rfl hstop rfl
  | reset => exact absurd rfl he
  | run h =>
    obtain ⟨io, hio, rfl⟩ := step_run.mp hstep
    rw [← take_handover hio]
    exact (handle_passes h).step rfl
  | handleResolve host service error results =>
    obtain ⟨io, hio, rfl⟩ := step_handleResolve.mp hstep
    rw [← finish_handover hio]
    exact (handleResolve_passes error results).step rfl
  | handleConnect results error =>
    obtain ⟨io, hio, rfl⟩ := step_handleConnect.mp hstep
    rw [← finish_handover hio]
    exact (handleConnect_passes error).step rfl

theorem run_handover {as : List (Event E K)} (h : Run Step new as c) (hreset : .reset ∉ as) :
    Run (Handover.Step Event.stops) {} as c.handover :=
  Handover.run_of_steps (fun _ _ _ he hstep => step_handover he hstep)
    (by simp [handover, Handover.ofLoop, new]) h hreset

end Steps

/-! ### What a held callback waits for -/

/-- A held callback waits for the handler of the stop or for a stage of an attempt. -/
def Waits (c : TcpClient E K) : Prop :=
  c.onStopped ≠ none → c.flags.getFlag .stopping = true ∨ stages c.flags ≠ 0

theorem waits_of_stopping (h : c.flags.getFlag .stopping = true) : c.Waits :=
  fun _ => Or.inl h

theorem waits_of_stage {f : TcpClientState}
    (hf : f = .scheduleResolving ∨ f = .resolving ∨ f = .connecting)
    (h : c.flags.getFlag f = true) : c.Waits := by
  refine fun _ => Or.inr ?_
  unfold stages
  rcases hf with rfl | rfl | rfl <;> simp [h]

theorem resolveOnStopped_waits : c.resolveOnStopped.Waits := by
  unfold resolveOnStopped
  split
  · split
    · exact fun h => absurd rfl h
    · rename_i hk
      exact fun h => absurd hk h
  · rename_i hwork
    intro _
    unfold stages
    generalize c.flags.getFlag .stopping = stopping, c.flags.getFlag .scheduleResolving = schedule,
      c.flags.getFlag .resolving = resolving, c.flags.getFlag .connecting = connecting at hwork ⊢
    revert stopping schedule resolving connecting
    decide

theorem Waits.postCompletion {error : ErrorCode} (hc : c.Waits) :
    (c.postCompletion error).Waits :=
  postCompletion_induction (P := Waits) hc fun _ _ => hc

theorem asyncResolve_waits (host : List Char) (port : ℤ) : (c.asyncResolve host port).Waits := by
  unfold asyncResolve
  dsimp only
  split
  · exact resolveOnStopped_waits
  · apply waits_of_stage (f := .resolving) (by decide)
    simp

theorem handleResolve_waits (hc : c.handover.Coherent) (error : ErrorCode) (results : E) :
    (c.handleResolve error results).Waits := by
  rcases herror : error.failed with _ | _
  · rw [handleResolve_of_success herror]
    split
    · exact resolveOnStopped_waits
    · apply waits_of_stage (f := .connecting) (by decide)
      simp
  · rw [handleResolve_of_failed herror]
    split
    · exact resolveOnStopped_waits
    · rename_i hstop
      apply Waits.postCompletion
      exact fun hheld => absurd (hc.signaled_of_held hheld) hstop

theorem handleConnect_waits (hc : c.handover.Coherent) (error : ErrorCode) :
    (c.handleConnect error).Waits := by
  rcases herror : error.failed with _ | _
  · rw [handleConnect_of_success herror]
    split
    · exact resolveOnStopped_waits
    · rename_i hstop
      have hnone : c.onStopped = none := (hc (by simpa [handover, Handover.ofLoop] using hstop)).1
      have hsame : (callCompletion { c with flags := c.flags.clearFlag .connecting }
          error).onStopped = c.onStopped := by
        unfold callCompletion
        split <;> rfl
      exact fun hheld => absurd (hsame.trans hnone) hheld
  · rw [handleConnect_of_failed herror]
    split
    · exact resolveOnStopped_waits.postCompletion
    · rename_i hstop
      apply Waits.postCompletion
      exact fun hheld => absurd (hc.signaled_of_held hheld) hstop

section Steps

variable [DecidableEq E] [DecidableEq K]

theorem step_waits {e : Event E K} (he : e ≠ .reset) (hc : c.handover.Coherent) (hw : c.Waits)
    (hstep : c.Step e d) : d.Waits := by
  cases e with
  | asyncConnect host port k r =>
    obtain ⟨-, rfl⟩ | ⟨-, -, rfl⟩ := step_asyncConnect hstep
    · exact hw
    · apply waits_of_stage (f := .scheduleResolving) (by decide)
      simp
  | asyncStop k r =>
    obtain ⟨-, rfl⟩ | ⟨-, -, rfl⟩ := step_asyncStop hstep
    · exact hw
    · apply waits_of_stopping
      simp
  | reset => exact absurd rfl he
  | run h =>
    obtain ⟨io, hio, rfl⟩ := step_run.mp hstep
    cases h with
    | asyncResolve host port => exact asyncResolve_waits host port
    | stop => exact resolveOnStopped_waits
    | complete k error => exact hw
    | stopped k => exact hw
  | handleResolve host service error results =>
    obtain ⟨io, hio, rfl⟩ := step_handleResolve.mp hstep
    apply handleResolve_waits
    rwa [finish_handover hio]
  | handleConnect results error =>
    obtain ⟨io, hio, rfl⟩ := step_handleConnect.mp hstep
    apply handleConnect_waits
    rwa [finish_handover hio]

theorem waits_of_run {as : List (Event E K)} (h : Run Step new as c) (hreset : .reset ∉ as) :
    c.Waits := by
  have hkeep : ∀ (s : TcpClient E K) e t, e ≠ .reset → s.handover.Coherent ∧ s.Waits →
      Step s e t → t.handover.Coherent ∧ t.Waits := by
    rintro s e t he ⟨hs, hw⟩ hstep
    exact ⟨(step_handover he hstep).coherent hs, step_waits he hs hw hstep⟩
  have hnew : (new : TcpClient E K).handover.Coherent ∧ (new : TcpClient E K).Waits :=
    ⟨fun _ => ⟨rfl, rfl⟩, fun h => absurd rfl h⟩
  exact (h.invariant_of_not_mem hkeep hreset hnew).2

end Steps

/-! ### The work that the flags stand for -/

/-- Each flag is set exactly while its work is there, and one attempt at most is under way. -/
structure Mirrored (c : TcpClient E K) : Prop where
  scheduleResolving : c.flags.getFlag .scheduleResolving = true ↔
    ∃ host port, .asyncResolve host port ∈ c.ioContext.posted
  resolving : c.flags.getFlag .resolving = true ↔
    ∃ host service, .resolve host service ∈ c.ioContext.operations
  connecting : c.flags.getFlag .connecting = true ↔
    ∃ results, .connect results ∈ c.ioContext.operations
  stopping : c.flags.getFlag .stopping = true ↔ .stop ∈ c.ioContext.posted
  one_stage : stages c.flags ≤ 1
  one_attempt : c.ioContext.posted.countP (·.flag = some .scheduleResolving) +
    c.ioContext.operations.length ≤ 1

/-- Nothing is pending but callbacks. -/
def Quiet (c : TcpClient E K) : Prop :=
  (∀ h ∈ c.ioContext.posted, h.flag = none) ∧ c.ioContext.operations = []

namespace Tracked

theorem flag_iff (hc : c.Tracked none) {f : TcpClientState} (hf : f ≠ .stopSingaled) :
    c.flags.getFlag f = true ↔ (∃ h ∈ c.ioContext.posted, h.flag = some f) ∨
      ∃ o ∈ c.ioContext.operations, o.flag = some f := by
  have hmem : f ∈ [TcpClientState.scheduleResolving, .resolving, .connecting, .stopping] := by
    cases f <;> first | decide | contradiction
  constructor
  · exact fun hflag => exists_of_work_pos (hc.mirrors.work_pos hmem hflag)
  · rintro (⟨h, hposted, hp⟩ | ⟨o, hoperation, hq⟩)
    · exact hc.mirrors.flag_of_work_pos hmem (work_pos_of_posted hposted hp)
    · exact hc.mirrors.flag_of_work_pos hmem (work_pos_of_operation hoperation hq)

theorem attempts_eq (hc : c.Tracked none) :
    c.ioContext.posted.countP (·.flag = some .scheduleResolving) +
      c.ioContext.operations.length = stages c.flags := by
  have hposted : ∀ f, f = .resolving ∨ f = .connecting →
      c.ioContext.posted.countP (·.flag = some f) = 0 := by
    intro f hf
    apply List.countP_eq_zero.mpr
    intro h _
    cases h <;> rcases hf with rfl | rfl <;> simp [Handler.flag]
  have hoperation : ∀ os : List (Operation E), os.countP (·.flag = some .scheduleResolving) = 0 ∧
      os.length = os.countP (·.flag = some .resolving) +
        os.countP (·.flag = some .connecting) := by
    intro os
    induction os with
    | nil => exact ⟨rfl, rfl⟩
    | cons o os ih =>
      rw [List.countP_cons, List.countP_cons, List.countP_cons, List.length_cons, ih.1, ih.2]
      generalize os.countP (·.flag = some .resolving) = m, os.countP (·.flag = some .connecting) = n
      cases o <;> simp [Operation.flag, Nat.add_right_comm, Nat.add_assoc]
  obtain ⟨hnone, hlength⟩ := hoperation c.ioContext.operations
  have hschedule := hc.mirrors.work_eq (f := .scheduleResolving) (by decide) (by decide)
  have hresolving := hc.mirrors.work_eq (f := .resolving) (by decide) (by decide)
  have hconnecting := hc.mirrors.work_eq (f := .connecting) (by decide) (by decide)
  unfold IoContext.work at hschedule hresolving hconnecting
  rw [hposted _ (Or.inl rfl)] at hresolving
  rw [hposted _ (Or.inr rfl)] at hconnecting
  unfold stages
  omega

theorem mirrored (hc : c.Tracked none) : c.Mirrored := by
  constructor
  · rw [hc.flag_iff (by decide)]
    constructor
    · rintro (⟨h, hmem, hp⟩ | ⟨o, -, hq⟩)
      · cases h <;> first | exact ⟨_, _, hmem⟩ | cases hp
      · cases o <;> cases hq
    · rintro ⟨host, port, hmem⟩
      exact Or.inl ⟨_, hmem, rfl⟩
  · rw [hc.flag_iff (by decide)]
    constructor
    · rintro (⟨h, -, hp⟩ | ⟨o, hmem, hq⟩)
      · cases h <;> cases hp
      · cases o <;> first | exact ⟨_, _, hmem⟩ | cases hq
    · rintro ⟨host, service, hmem⟩
      exact Or.inr ⟨_, hmem, rfl⟩
  · rw [hc.flag_iff (by decide)]
    constructor
    · rintro (⟨h, -, hp⟩ | ⟨o, hmem, hq⟩)
      · cases h <;> cases hp
      · cases o <;> first | exact ⟨_, hmem⟩ | cases hq
    · rintro ⟨results, hmem⟩
      exact Or.inr ⟨_, hmem, rfl⟩
  · rw [hc.flag_iff (by decide)]
    constructor
    · rintro (⟨h, hmem, hp⟩ | ⟨o, -, hq⟩)
      · cases h <;> first | exact hmem | cases hp
      · cases o <;> cases hq
    · exact fun hmem => Or.inl ⟨_, hmem, rfl⟩
  · exact hc.one_stage
  · rw [hc.attempts_eq]
    exact hc.one_stage

theorem flag_of_quiet (hc : c.Tracked none) (hquiet : c.Quiet) {f : TcpClientState}
    (hf : f ≠ .stopSingaled) : c.flags.getFlag f = false := by
  apply Bool.eq_false_iff.mpr
  rw [Ne, hc.flag_iff hf]
  rintro (⟨h, hmem, hp⟩ | ⟨o, hmem, -⟩)
  · rw [hquiet.1 h hmem] at hp
    cases hp
  · rw [hquiet.2] at hmem
    cases hmem

end Tracked

theorem Waits.onStopped_of_quiet (hw : c.Waits) (hc : c.Tracked none) (hquiet : c.Quiet) :
    c.onStopped = none := by
  by_contra hheld
  have hflag : ∀ f, f ≠ .stopSingaled → c.flags.getFlag f = false :=
    fun f hf => hc.flag_of_quiet hquiet hf
  rcases hw hheld with hstopping | hstages
  · rw [hflag .stopping (by decide)] at hstopping
    cases hstopping
  · apply hstages
    simp [stages, hflag]

/-- In every state that is reached without a reset the flags stand for the work, and if the
callback of a stop was accepted and nothing is pending, it has been posted once. -/
theorem mirrored_and_stops [DecidableEq E] [DecidableEq K] (as : List (Event E K))
    (c : TcpClient E K) (h : Run Step new as c) (hreset : .reset ∉ as) :
    c.Mirrored ∧ ∀ k, .asyncStop (some k) true ∈ as → c.Quiet →
      posts Handler.stopCallback c.ioContext.log = [k] := by
  have hc := Tracked.of_run h hreset
  refine ⟨hc.mirrored, ?_⟩
  intro k hmem hquiet
  have hhas := Handover.has_of_run (run_handover h hreset) hmem rfl
  exact hhas.released_eq ((waits_of_run h hreset).onStopped_of_quiet hc hquiet)

theorem mirrored_and_stops_resolving : ∃ c : TcpClient ℕ ℕ,
    Run Step new [.asyncConnect ['h'] 80 (some 1) true, .run (.asyncResolve ['h'] 80),
      .asyncStop (some 2) true, .run .stop,
      .handleResolve ['h'] ['8', '0'] .operationAborted 5] c ∧
    posts Handler.stopCallback c.ioContext.log = [2] := by
  obtain ⟨c, hrun, hposted, hoperations⟩ : ∃ c : TcpClient ℕ ℕ,
      Run Step new [.asyncConnect ['h'] 80 (some 1) true, .run (.asyncResolve ['h'] 80),
        .asyncStop (some 2) true, .run .stop,
        .handleResolve ['h'] ['8', '0'] .operationAborted 5] c ∧
      c.ioContext.posted = [.complete 1 .operationAborted, .stopped 2] ∧
      c.ioContext.operations = [] :=
    ⟨_, Run.iff_foldlM.mpr rfl, rfl, rfl⟩
  refine ⟨c, hrun, (mirrored_and_stops _ c hrun (by decide)).2 2 (by decide) ⟨?_, hoperations⟩⟩
  rw [hposted]
  simp [Handler.flag]

end Eestv.Net.TcpClient
