import Eestv.Net.TcpServerStop

/-! The accept loop: one accept at a time, one connection for each accepted socket, and
nothing more once the callback of a stop is released. -/

namespace Eestv.Net.TcpServer
open Runs IoContext

variable {T K : Type} {c d : TcpServer T K}

/-! ### What was accepted -/

def made (l : List (Entry (Handler K) Operation (Call T K))) : List T :=
  l.filterMap fun
    | .called (.makeConnection socket _ _) => some socket
    | _ => none

def passed (l : List (Entry (Handler K) Operation (Call T K))) : List T :=
  l.filterMap fun
    | .called (.connection socket) => some socket
    | _ => none

def Event.accepted : Event T K → List T
  | .handleAccept error socket => if error.failed then [] else [socket]
  | _ => []

def Event.callbackAfter (callback : Bool) : Event T K → Bool
  | .setConnectionCallback callback => callback
  | _ => callback

def acceptedWith : Bool → List (Event T K) → List T
  | _, [] => []
  | callback, e :: es =>
    (if callback then e.accepted else []) ++ acceptedWith (e.callbackAfter callback) es

theorem release_projections : made c.release = [] ∧ passed c.release = [] := by
  unfold release
  split <;> exact ⟨rfl, rfl⟩

theorem goOn_projections : made c.goOn = [] ∧ passed c.goOn = [] := by
  unfold goOn
  split
  · exact release_projections
  · exact ⟨rfl, rfl⟩

theorem written_projections (e : Event T K) : made (c.written e) = e.accepted ∧
    passed (c.written e) = if c.connectionCallback then e.accepted else [] := by
  have hgo := goOn_projections (c := c)
  cases e with
  | setConnectionCallback callback => simp [written, made, passed, Event.accepted]
  | asyncStart r => cases r <;> simp [written, made, passed, Event.accepted]
  | asyncStop k r => cases r <;> simp [written, made, passed, Event.accepted]
  | run h =>
    cases h with
    | startAccepting => simpa [written, made, passed, Event.accepted] using hgo
    | _ => simp [written, made, passed, Event.accepted]
  | handleAccept error socket =>
    have hrelease := release_projections (c := c)
    rcases herror : error.failed with _ | _
    · rcases hcallback : c.connectionCallback with _ | _
      · simpa [written, made, passed, Event.accepted, herror, hcallback] using hgo
      · simpa [written, made, passed, Event.accepted, herror, hcallback] using hgo
    · simpa [written, made, passed, Event.accepted, herror] using hrelease

@[simp] theorem resolveOnStopped_connectionCallback :
    c.resolveOnStopped.connectionCallback = c.connectionCallback :=
  resolveOnStopped_induction (P := fun d => d.connectionCallback = c.connectionCallback) rfl
    fun _ _ _ => rfl

@[simp] theorem asyncAccept_connectionCallback :
    c.asyncAccept.connectionCallback = c.connectionCallback := by
  unfold asyncAccept
  dsimp only
  split
  · rfl
  · exact resolveOnStopped_connectionCallback

section Steps

variable [DecidableEq K]

theorem step_connectionCallback {e : Event T K} (hstep : c.Step e d) :
    d.connectionCallback = e.callbackAfter c.connectionCallback := by
  cases e with
  | setConnectionCallback callback =>
    cases hstep
    rfl
  | asyncStart r =>
    obtain ⟨-, rfl⟩ | ⟨-, -, -, rfl⟩ := step_asyncStart hstep
    · rfl
    · rfl
  | asyncStop k r =>
    obtain ⟨-, rfl⟩ | ⟨-, -, -, rfl⟩ := step_asyncStop hstep
    · rfl
    · rfl
  | run h =>
    obtain ⟨io, -, rfl⟩ := step_run.mp hstep
    cases h with
    | startAccepting => exact asyncAccept_connectionCallback
    | stop =>
      unfold handle onStop
      dsimp only
      split
      · rfl
      · exact resolveOnStopped_connectionCallback
    | stopped k => rfl
  | handleAccept error socket =>
    obtain ⟨io, -, rfl⟩ := step_handleAccept.mp hstep
    unfold handleAccept
    dsimp only
    split
    · exact resolveOnStopped_connectionCallback
    · split
      · exact asyncAccept_connectionCallback
      · exact resolveOnStopped_connectionCallback

theorem accepted_of_run {as : List (Event T K)} (h : Run Step c as d) (hc : c.Tracked none) :
    made d.ioContext.log = made c.ioContext.log ++ as.flatMap Event.accepted ∧
      passed d.ioContext.log =
        passed c.ioContext.log ++ acceptedWith c.connectionCallback as := by
  induction h with
  | nil c => simp [acceptedWith]
  | @cons c d _ e es hstep _ ih =>
    obtain ⟨hmade, hpassed⟩ := ih (hc.step hstep)
    obtain ⟨hmade', hpassed'⟩ := written_projections (c := c) e
    have hlog := step_log hc hstep
    rw [hmade, hpassed, hlog, step_connectionCallback hstep]
    unfold made passed at *
    rw [List.filterMap_append, List.filterMap_append, hmade', hpassed']
    simp only [List.append_assoc, List.flatMap_cons, acceptedWith, and_self]

end Steps

/-! ### After the callback of a stop -/

def Releases (x : Entry (Handler K) Operation (Call T K)) : Prop := ∃ k, x = .posted (.stopped k)

/-- Neither the start of an accept nor a call of the connection callback. -/
def Quiet (x : Entry (Handler K) Operation (Call T K)) : Prop :=
  x.starts = false ∧ ∀ socket, x ≠ .called (.connection socket)

theorem after_written (e : Event T K) : After Releases Quiet (c.written e) := by
  have hrelease : After Releases Quiet c.release := by
    unfold release
    split
    · exact List.pairwise_singleton _ _
    · exact List.Pairwise.nil
  have hgo : After Releases Quiet c.goOn := by
    unfold goOn
    split
    · exact hrelease
    · exact List.pairwise_singleton _ _
  have hprepend : ∀ l l', (∀ y ∈ l, ¬ Releases y) → After Releases Quiet l' →
      After Releases Quiet (l ++ l' : List (Entry (Handler K) Operation (Call T K))) := by
    intro l l' hl hl'
    refine after_append.mpr ⟨after_of_not_mem hl, hl', ?_⟩
    rintro ⟨y, hy, hrel⟩
    exact absurd hrel (hl y hy)
  cases e with
  | setConnectionCallback callback => exact List.Pairwise.nil
  | asyncStart r => cases r <;> simp [written, After]
  | asyncStop k r => cases r <;> simp [written, After]
  | run h =>
    cases h with
    | startAccepting =>
      refine hprepend [_] _ ?_ hgo
      simp [Releases]
    | stop => simp [written, After]
    | stopped k => simp [written, After, Releases]
  | handleAccept error socket =>
    rcases herror : error.failed with _ | _
    · rcases hcallback : c.connectionCallback with _ | _
      · simp only [written, herror, hcallback]
        refine hprepend [_, _] _ ?_ hgo
        simp [Releases]
      · simp only [written, herror, hcallback]
        refine hprepend [_, _, _] _ ?_ hgo
        simp [Releases]
    · simp only [written, herror]
      refine hprepend [_] _ ?_ hrelease
      simp [Releases]

theorem quiet_written {e : Event T K} (he : e.endsLoop = false) : ∀ x ∈ c.written e, Quiet x := by
  cases e with
  | setConnectionCallback callback => simp [written]
  | asyncStart r => cases r <;> simp [written, Quiet, Entry.starts]
  | asyncStop k r => cases r <;> simp [written, Quiet, Entry.starts]
  | run h =>
    cases h with
    | startAccepting => cases he
    | stop => simp [written, Quiet, Entry.starts]
    | stopped k => simp [written, Quiet, Entry.starts]
  | handleAccept error socket => cases he

/-! ### The callbacks of stops -/

def Phase.Settled (as : List (Event T K)) : Phase K → List K → Prop
  | .stopping callback, rs => rs = [] ∧ .asyncStop callback true ∈ as
  | .stopped, rs => rs.length ≤ 1 ∧ ∀ k ∈ rs, .asyncStop (some k) true ∈ as
  | _, rs => rs = []

theorem Phase.Settled.step {as : List (Event T K)} {e : Event T K} {p q : Phase K} {rs : List K}
    (h : Phase.Step p e q) (hp : p.Settled as rs) :
    q.Settled (as ++ [e]) (rs ++ p.releases e) := by
  cases h with
  | finish callback he =>
    obtain ⟨rfl, hmem⟩ := hp
    cases callback with
    | none => exact ⟨Nat.zero_le _, fun k hk => absurd hk List.not_mem_nil⟩
    | some k =>
      simp only [Phase.releases, he, if_true]
      refine ⟨Nat.le_refl 1, ?_⟩
      intro j hj
      cases List.mem_singleton.mp hj
      exact List.mem_append_left _ hmem
  | pass p he =>
    rw [Phase.releases_of_passes he, List.append_nil]
    cases p with
    | stopping callback => exact ⟨hp.1, List.mem_append_left _ hp.2⟩
    | stopped => exact ⟨hp.1, fun k hk => List.mem_append_left _ (hp.2 k hk)⟩
    | _ => exact hp
  | stop callback =>
    obtain rfl : rs = [] := hp
    exact ⟨rfl, List.mem_append_right _ (List.mem_singleton.mpr rfl)⟩
  | stopEndedEmpty =>
    obtain rfl : rs = [] := hp
    exact ⟨Nat.zero_le _, fun k hk => absurd hk List.not_mem_nil⟩
  | _ =>
    obtain rfl : rs = [] := hp
    rfl

theorem Phase.Settled.stopped {as : List (Event T K)} {p : Phase K} {rs : List K}
    (hp : p.Settled as rs) (hrs : rs ≠ []) : p = .stopped := by
  cases p with
  | stopping callback => exact absurd hp.1 hrs
  | stopped => rfl
  | _ => exact absurd hp hrs

theorem looping_of_stopped (h : c.phase = .stopped) : c.looping = false := by
  rcases hloop : c.looping with _ | _
  · rfl
  · rw [phase_of_looping hloop] at h
    split at h <;> cases h

/-! ### The accept loop -/

structure Safe (as : List (Event T K)) (c : TcpServer T K) : Prop where
  one_accept : c.ioContext.operations.length = (c.flags.getFlag .accepting).toNat
  made : made c.ioContext.log = as.flatMap Event.accepted
  passed : passed c.ioContext.log = acceptedWith false as
  released_once : (released c.ioContext.log).length ≤ 1
  requested : ∀ k ∈ released c.ioContext.log, .asyncStop (some k) true ∈ as
  alone : released c.ioContext.log ≠ [] →
    c.ioContext.operations = [] ∧ .startAccepting ∉ c.ioContext.posted
  last : After Releases Quiet c.ioContext.log

theorem Tracked.operations_length (hc : c.Tracked none) :
    c.ioContext.operations.length = (c.flags.getFlag .accepting).toNat := by
  have hposted : c.ioContext.posted.countP (Handler.flag · = some .accepting) = 0 := by
    apply List.countP_eq_zero.mpr
    intro h _
    cases h <;> simp [Handler.flag]
  have hoperations : c.ioContext.operations.countP (Operation.flag · = some .accepting) =
      c.ioContext.operations.length := by
    apply List.countP_eq_length.mpr
    intro o _
    cases o
    rfl
  rw [← hc.mirrors.work_eq (by decide) (by decide), work, hposted, hoperations, Nat.zero_add]

variable [DecidableEq K]

theorem last_of_run {m n : ℕ} {as : List (Event T K)} (h : Run Step (new m n) as c) :
    (c.Tracked none ∧ c.phase.Settled as (released c.ioContext.log)) ∧
      After Releases Quiet c.ioContext.log := by
  have hnew : phase (new m n : TcpServer T K) = .created := by
    simp [phase, phaseOf, new]
  have hsettled : ∀ {as : List (Event T K)} {c : TcpServer T K}, Run Step (new m n) as c →
      c.Tracked none ∧ c.phase.Settled as (released c.ioContext.log) := by
    intro as c h
    refine history_of_phases (P := Phase.Settled) (fun _ _ _ _ _ h hp => hp.step h) h
      (Tracked.new m n) ?_
    rw [hnew]
    rfl
  refine ⟨hsettled h, ?_⟩
  have hnil : After Releases Quiet (new m n : TcpServer T K).ioContext.log := List.Pairwise.nil
  refine h.history (P := fun _ c => After Releases Quiet c.ioContext.log) hnil ?_
  intro as c e d hrun hc hstep
  obtain ⟨htracked, hphase⟩ := hsettled hrun
  rw [step_log htracked hstep]
  refine after_append.mpr ⟨hc, after_written e, ?_⟩
  rintro ⟨y, hmem, k, rfl⟩
  -- the loop is over, so this step is not one of the loop
  have hstopped := hphase.stopped (List.ne_nil_of_mem (mem_released.mpr hmem))
  apply quiet_written
  rcases he : e.endsLoop with _ | _
  · rfl
  · have hloop := step_looping htracked hstep he
    rw [looping_of_stopped hstopped] at hloop
    cases hloop

/-- In every run: the flag `accepting` counts the outstanding accepts; a connection is made from
each accepted socket, and passed on if a callback is set; the callback of a stop is released
once at most, after an `async_stop` that took it, with no accept or start handler pending, and
with no accept and no call of the connection callback to follow. -/
theorem accept_loop_safe (m n : ℕ) (as : List (Event T K)) (c : TcpServer T K)
    (h : Run Step (new m n) as c) : c.Safe as := by
  obtain ⟨⟨htracked, hsettled⟩, hlast⟩ := last_of_run h
  obtain ⟨hmade, hpassed⟩ := accepted_of_run h (Tracked.new m n)
  refine ⟨htracked.operations_length, hmade, hpassed, ?_, ?_, ?_, hlast⟩
  · by_cases hnone : released c.ioContext.log = []
    · rw [hnone]
      exact Nat.zero_le 1
    · rw [hsettled.stopped hnone] at hsettled
      exact hsettled.1
  · intro k hk
    rw [hsettled.stopped (List.ne_nil_of_mem hk)] at hsettled
    exact hsettled.2 k hk
  · intro hsome
    have hloop := looping_of_stopped (hsettled.stopped hsome)
    unfold looping at hloop
    simp only [Bool.or_eq_false_iff] at hloop
    constructor
    · apply List.length_eq_zero_iff.mp
      rw [htracked.operations_length, hloop.2]
      rfl
    · intro hmem
      rw [(htracked.flags_of_posted hmem).1] at hloop
      cases hloop.1

theorem accept_loop_safe_two_sockets : ∃ c : TcpServer ℕ ℕ,
    Run Step (new 16 16) [.asyncStart true, .run .startAccepting, .handleAccept .success 5,
      .setConnectionCallback true, .asyncStop (some 7) true, .handleAccept .success 6] c ∧
    made c.ioContext.log = [5, 6] ∧ passed c.ioContext.log = [6] ∧
    released c.ioContext.log = [7] ∧ c.Safe [.asyncStart true, .run .startAccepting,
      .handleAccept .success 5, .setConnectionCallback true, .asyncStop (some 7) true,
      .handleAccept .success 6] := by
  obtain ⟨c, hrun, hmade, hpassed, hreleased⟩ : ∃ c : TcpServer ℕ ℕ,
      Run Step (new 16 16) [.asyncStart true, .run .startAccepting, .handleAccept .success 5,
        .setConnectionCallback true, .asyncStop (some 7) true, .handleAccept .success 6] c ∧
      made c.ioContext.log = [5, 6] ∧ passed c.ioContext.log = [6] ∧
      released c.ioContext.log = [7] :=
    ⟨_, Run.iff_foldlM.mpr rfl, rfl, rfl, rfl⟩
  exact ⟨c, hrun, hmade, hpassed, hreleased, accept_loop_safe 16 16 _ c hrun⟩

end Eestv.Net.TcpServer
