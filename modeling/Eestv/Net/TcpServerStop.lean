import Eestv.Library.Handover
import Eestv.Net.TcpServerPhase

/-! Whether a stop completes. The handler that `async_stop` posts only cancels, and leaves the
callback to the accept that is cancelled; when an accept has failed before, there is none. -/

namespace Eestv.Net.TcpServer
open Runs IoContext

variable {T K : Type} {c d : TcpServer T K}

def Handler.stopCallback : Handler K → Option K
  | .stopped callback => some callback
  | _ => none

theorem Handler.stopCallback_iff {k : K} (h : Handler K) :
    h.stopCallback = some k ↔ h = .stopped k := by
  cases h <;> simp [stopCallback]

def released (l : List (Entry (Handler K) Operation (Call T K))) : List K :=
  posts Handler.stopCallback l

theorem mem_released {l : List (Entry (Handler K) Operation (Call T K))} {k : K} :
    k ∈ released l ↔ .posted (.stopped k) ∈ l := mem_posts_iff Handler.stopCallback_iff

def Phase.releases : Phase K → Event T K → List K
  | .stopping (some callback), e => if e.endsLoop then [callback] else []
  | _, _ => []

theorem released_release : released c.release = c.stoppedCallback.toList := by
  unfold release
  cases c.stoppedCallback <;> rfl

theorem releases_of_looping {e : Event T K} (hc : c.Tracked none) (hloop : c.looping = true)
    (he : e.endsLoop = true) : c.phase.releases e = c.stoppedCallback.toList := by
  rw [phase_of_looping hloop]
  rcases hk : c.stoppedCallback with _ | k
  · split <;> rfl
  · rw [hc.waiting k hk]
    simp only [if_true, Phase.releases, he]
    rfl

theorem released_goOn (hc : c.Tracked none) : released c.goOn = c.stoppedCallback.toList := by
  unfold goOn
  split
  · exact released_release
  · rename_i hrun
    rcases hk : c.stoppedCallback with _ | k
    · rfl
    · rw [hc.coherent.stopping, hc.waiting k hk] at hrun
      contradiction

section Steps

variable [DecidableEq K]

theorem step_looping {e : Event T K} (hc : c.Tracked none) (hstep : c.Step e d)
    (he : e.endsLoop = true) : c.looping = true := by
  unfold looping
  cases e with
  | run h =>
    obtain ⟨io, hio, -⟩ := step_run.mp hstep
    cases h with
    | startAccepting =>
      obtain ⟨hstart, -⟩ := hc.flags_of_posted (take_eq_some.mp hio).1
      rw [hstart]
      rfl
    | _ => cases he
  | handleAccept error socket =>
    obtain ⟨io, hio, -⟩ := step_handleAccept.mp hstep
    obtain ⟨haccepting, -⟩ := hc.flags_of_operation (finish_eq_some.mp hio).1
    rw [haccepting, Bool.or_true]
  | _ => cases he

theorem step_released {e : Event T K} (hc : c.Tracked none) (hstep : c.Step e d) :
    released d.ioContext.log = released c.ioContext.log ++ c.phase.releases e := by
  rw [step_log hc hstep, released, posts_append]
  congr 1
  rcases he : e.endsLoop with _ | _
  · have hnone : c.phase.releases e = [] := by
      unfold Phase.releases
      split
      · rw [he]
        rfl
      · rfl
    rw [hnone]
    cases e with
    | setConnectionCallback callback => rfl
    | asyncStart r => cases r <;> rfl
    | asyncStop k r => cases r <;> rfl
    | run h =>
      cases h with
      | startAccepting => cases he
      | stop => rfl
      | stopped k => rfl
    | handleAccept error socket => cases he
  · rw [releases_of_looping hc (step_looping hc hstep he) he]
    cases e with
    | run h =>
      cases h with
      | startAccepting => exact released_goOn hc
      | _ => cases he
    | handleAccept error socket =>
      rcases herror : error.failed with _ | _
      · have hgo := released_goOn hc
        rcases hcallback : c.connectionCallback with _ | _
        · simpa [written, herror, hcallback, released] using hgo
        · simpa [written, herror, hcallback, released] using hgo
      · have hrelease := released_release (c := c)
        simpa [written, herror, released] using hrelease
    | _ => cases he

end Steps

/-! ### Before and after the stop -/

def Event.fails : Event T K → Bool
  | .handleAccept error _ => error.failed
  | _ => false

theorem Phase.releases_of_passes {p : Phase K} {e : Event T K} (he : e.passes = true) :
    p.releases e = [] := by
  have hends : e.endsLoop = false := by
    cases e with
    | run h => cases h <;> first | rfl | cases he
    | handleAccept error socket => cases he
    | _ => rfl
  unfold Phase.releases
  split
  · rw [hends]
    rfl
  · rfl

theorem history_of_phases [DecidableEq K] {b : TcpServer T K} {as : List (Event T K)}
    {P : List (Event T K) → Phase K → List K → Prop}
    (hP : ∀ as p e q rs, Phase.Step p e q → P as p rs → P (as ++ [e]) q (rs ++ p.releases e))
    (h : Run Step b as c) (hb : b.Tracked none) (hstart : P [] b.phase (released b.ioContext.log)) :
    c.Tracked none ∧ P as c.phase (released c.ioContext.log) := by
  refine h.history (P := fun as c => c.Tracked none ∧ P as c.phase (released c.ioContext.log))
    ⟨hb, hstart⟩ ?_
  intro as c e d _ hc hstep
  refine ⟨hc.1.step hstep, ?_⟩
  rw [step_released hc.1 hstep]
  exact hP _ _ _ _ _ (step_phase hc.1 hstep) hc.2

def Phase.Accounts (as : List (Event T K)) : Phase K → List K → Prop
  | .created, rs => rs = [] ∧ ∀ e ∈ as, e.fails = false
  | .looping, rs => rs = [] ∧ ∀ e ∈ as, e.fails = false
  | .ended, rs => rs = [] ∧ ∃ e ∈ as, e.fails = true
  | _, _ => True

theorem forall_snoc {as : List (Event T K)} {e : Event T K} {p : Event T K → Prop}
    (has : ∀ e ∈ as, p e) (he : p e) : ∀ e' ∈ as ++ [e], p e' := by
  intro e' hmem
  rcases List.mem_append.mp hmem with hold | hnew
  · exact has e' hold
  · cases List.mem_singleton.mp hnew
    exact he

theorem Phase.Accounts.step {as : List (Event T K)} {e : Event T K} {p q : Phase K} {rs : List K}
    (h : Phase.Step p e q) (hp : p.Accounts as rs) :
    q.Accounts (as ++ [e]) (rs ++ p.releases e) := by
  cases h with
  | start => exact ⟨by rw [hp.1]; rfl, forall_snoc hp.2 rfl⟩
  | arm => exact ⟨by rw [hp.1]; rfl, forall_snoc hp.2 rfl⟩
  | accept herror => exact ⟨by rw [hp.1]; rfl, forall_snoc hp.2 herror⟩
  | fail herror =>
    exact ⟨by rw [hp.1]; rfl, _, List.mem_append_right _ (List.mem_singleton.mpr rfl), herror⟩
  | pass p he =>
    have hfails : e.fails = false := by
      cases e <;> first | rfl | cases he
    rw [Phase.releases_of_passes he, List.append_nil]
    cases p with
    | created => exact ⟨hp.1, forall_snoc hp.2 hfails⟩
    | looping => exact ⟨hp.1, forall_snoc hp.2 hfails⟩
    | ended =>
      obtain ⟨hrs, e', hmem, he'⟩ := hp
      exact ⟨hrs, e', List.mem_append_left _ hmem, he'⟩
    | _ => trivial
  | _ => trivial

/-- A stop with the callback `k`, on its way or over. -/
def Phase.Stops (k : K) (p : Phase K) (rs : List K) : Prop :=
  (p = .stopping (some k) ∧ rs = []) ∨ (p = .stopped ∧ rs = [k])

theorem Phase.Stops.step {k : K} {e : Event T K} {p q : Phase K} {rs : List K}
    (h : Phase.Step p e q) (hp : p.Stops k rs) : q.Stops k (rs ++ p.releases e) := by
  rcases hp with ⟨rfl, rfl⟩ | ⟨rfl, rfl⟩
  · cases h with
    | finish callback he => exact Or.inr ⟨rfl, if_pos he⟩
    | pass p he =>
      rw [Phase.releases_of_passes he]
      exact Or.inl ⟨rfl, rfl⟩
  · cases h with
    | pass p he =>
      rw [Phase.releases_of_passes he]
      exact Or.inr ⟨rfl, rfl⟩

theorem Phase.stuck_step {k : K} {e : Event T K} {p q : Phase K} {rs : List K}
    (h : Phase.Step p e q) (hp : p = .stuck k ∧ rs = []) :
    q = .stuck k ∧ rs ++ p.releases e = [] := by
  obtain ⟨rfl, rfl⟩ := hp
  cases h with
  | pass p he =>
    rw [Phase.releases_of_passes he]
    exact ⟨rfl, rfl⟩

theorem phase_of_idle (hc : c.Tracked none) (hidle : c.ioContext.Idle) (callback : Option K) :
    c.phase ≠ .stopping callback := by
  have hstart := hc.mirrors.flag_of_work_eq_zero (f := .startAccepting) (by decide)
    hidle.work_eq_zero
  have haccepting := hc.mirrors.flag_of_work_eq_zero (f := .accepting) (by decide)
    hidle.work_eq_zero
  unfold phase phaseOf
  simp only [hstart, haccepting, Bool.or_false, Bool.false_eq_true, if_false]
  split
  · split <;> simp only [ne_eq, reduceCtorEq, not_false_eq_true]
  · split <;> simp only [ne_eq, reduceCtorEq, not_false_eq_true]

/-- In every run in which an `async_stop` returned true and nothing is pending any more, its
callback was posted exactly if no accept had failed before that call. -/
theorem stop_completes_iff [DecidableEq K] (m n : ℕ) (bs cs : List (Event T K)) (k : K)
    (c : TcpServer T K) (h : Run Step (new m n) (bs ++ .asyncStop (some k) true :: cs) c)
    (hidle : c.ioContext.Idle) :
    .posted (.stopped k) ∈ c.ioContext.log ↔ ∀ e ∈ bs, e.fails = false := by
  obtain ⟨b, hb, hrest⟩ := h.of_append
  have hnew : phase (new m n : TcpServer T K) = .created := by
    simp [phase, phaseOf, new]
  obtain ⟨htracked, hbefore⟩ := history_of_phases
    (P := Phase.Accounts) (fun _ _ _ _ _ h hp => hp.step h) hb (Tracked.new m n)
    (by rw [hnew]; exact ⟨rfl, fun _ hmem => absurd hmem List.not_mem_nil⟩)
  cases hrest with
  | @cons _ d _ _ _ hstep hcs =>
    have hd := htracked.step hstep
    have hphase := step_phase htracked hstep
    have hreleased := step_released htracked hstep
    generalize hp : b.phase = p at *
    generalize hq : d.phase = q at *
    rw [← mem_released]
    cases hphase with
    | stop callback =>
      -- the loop goes on, and releases the callback when it ends
      obtain ⟨hnone, hfails⟩ := hbefore
      have hstart : d.phase.Stops k (released d.ioContext.log) := by
        rw [hreleased, hnone, hq]
        exact Or.inl ⟨rfl, rfl⟩
      obtain ⟨hc, hafter⟩ := history_of_phases (P := fun _ => Phase.Stops k)
        (fun _ _ _ _ _ h hp => hp.step h) hcs hd hstart
      rcases hafter with ⟨hphase, -⟩ | ⟨-, hk⟩
      · exact absurd hphase (phase_of_idle hc hidle _)
      · rw [hk]
        exact ⟨fun _ => hfails, fun _ => List.mem_singleton.mpr rfl⟩
    | stopEnded callback =>
      -- the loop has ended, and nothing releases the callback any more
      obtain ⟨hnone, hfails⟩ := hbefore
      have hstart : d.phase = .stuck k ∧ released d.ioContext.log = [] := by
        rw [hreleased, hnone, hq]
        exact ⟨rfl, rfl⟩
      obtain ⟨hc, -, hafter⟩ := history_of_phases
        (P := fun _ p rs => p = .stuck k ∧ rs = [])
        (fun _ _ _ _ _ h hp => Phase.stuck_step h hp) hcs hd hstart
      rw [hafter]
      constructor
      · intro hmem
        cases hmem
      · intro hall
        obtain ⟨e, hmem, hfail⟩ := hfails
        rw [hall e hmem] at hfail
        cases hfail
    | finish callback he => cases he
    | pass p he => cases he

theorem stop_completes_aborted : ∃ c : TcpServer ℕ ℕ,
    Run Step (new 16 16) ([.asyncStart true, .run .startAccepting] ++
      .asyncStop (some 7) true :: [.run .stop, .handleAccept .operationAborted 0,
        .run (.stopped 7)]) c ∧
    .posted (.stopped 7) ∈ c.ioContext.log := by
  obtain ⟨c, hrun, hidle⟩ : ∃ c : TcpServer ℕ ℕ,
      Run Step (new 16 16) ([.asyncStart true, .run .startAccepting] ++
        .asyncStop (some 7) true :: [.run .stop, .handleAccept .operationAborted 0,
          .run (.stopped 7)]) c ∧ c.ioContext.Idle :=
    ⟨_, Run.iff_foldlM.mpr rfl, by decide⟩
  exact ⟨c, hrun, (stop_completes_iff 16 16 _ _ 7 c hrun hidle).mpr (by decide)⟩

/-- After a failed accept there is none that the stop could abort. -/
theorem stop_never_completes : ∃ c : TcpServer ℕ ℕ,
    Run Step (new 16 16) [.asyncStart true, .run .startAccepting, .handleAccept (.other 24) 0,
      .asyncStop (some 7) true, .run .stop] c ∧
    c.ioContext.Idle ∧ .posted (.stopped 7) ∉ c.ioContext.log :=
  ⟨_, Run.iff_foldlM.mpr rfl, by decide, by decide⟩

end Eestv.Net.TcpServer
