import Eestv.Net.TcpServerWork

/-! The phases that a server goes through, as its owner sees them, and what each step of the
server does: to the phase, and to the log. -/

namespace Eestv.Net.TcpServer
open Runs IoContext

variable {T K : Type} {c d : TcpServer T K}

inductive Phase (K : Type)
  | created
  | looping
  /-- An accept has failed, and no other is started. -/
  | ended
  | stopping (callback : Option K)
  /-- Stopped when no accept was left that could release the callback. -/
  | stuck (callback : K)
  | stopped
deriving DecidableEq, Repr

def Event.endsLoop : Event T K → Bool
  | .run .startAccepting => true
  | .handleAccept _ _ => true
  | _ => false

def Event.passes : Event T K → Bool
  | .setConnectionCallback _ => true
  | .asyncStart returned => !returned
  | .asyncStop _ returned => !returned
  | .run .stop => true
  | .run (.stopped _) => true
  | _ => false

inductive Phase.Step : Phase K → Event T K → Phase K → Prop
  | start : Phase.Step .created (.asyncStart true) .looping
  | arm : Phase.Step .looping (.run .startAccepting) .looping
  | accept {error : ErrorCode} {socket : T} : error.failed = false →
      Phase.Step .looping (.handleAccept error socket) .looping
  | fail {error : ErrorCode} {socket : T} : error.failed = true →
      Phase.Step .looping (.handleAccept error socket) .ended
  | stop (callback : Option K) : Phase.Step .looping (.asyncStop callback true) (.stopping callback)
  | stopEnded (callback : K) : Phase.Step .ended (.asyncStop (some callback) true) (.stuck callback)
  | stopEndedEmpty : Phase.Step .ended (.asyncStop none true) .stopped
  | finish (callback : Option K) {e : Event T K} : e.endsLoop = true →
      Phase.Step (.stopping callback) e .stopped
  | pass (p : Phase K) {e : Event T K} : e.passes = true → Phase.Step p e p

def phaseOf (flags : Flags TcpServerState) (callback : Option K) : Phase K :=
  if flags.getFlag .stopSignaled then
    if flags.getFlag .startAccepting || flags.getFlag .accepting then .stopping callback
    else
      match callback with
      | some callback => .stuck callback
      | none => .stopped
  else if flags.getFlag .startAccepting || flags.getFlag .accepting then .looping
  else if flags.getFlag .startSignaled then .ended
  else .created

def phase (c : TcpServer T K) : Phase K := phaseOf c.flags c.stoppedCallback

/-! ### The log -/

def release (c : TcpServer T K) : List (Entry (Handler K) Operation (Call T K)) :=
  match c.stoppedCallback with
  | some callback => [.posted (.stopped callback)]
  | none => []

def goOn (c : TcpServer T K) : List (Entry (Handler K) Operation (Call T K)) :=
  if c.flags.getFlag .stopping then c.release else [.started .accept]

def written (c : TcpServer T K) : Event T K → List (Entry (Handler K) Operation (Call T K))
  | .setConnectionCallback _ => []
  | .asyncStart returned => if returned then [.posted .startAccepting] else []
  | .asyncStop _ returned => if returned then [.posted .stop] else []
  | .run .startAccepting => .ran .startAccepting :: c.goOn
  | .run .stop => [.ran .stop]
  | .run (.stopped callback) => [.ran (.stopped callback), .called (.stopped callback)]
  | .handleAccept error socket =>
    .finished .accept ::
      if error.failed then c.release
      else
        .called (.makeConnection socket c.receiveBufferSize c.sendBufferSize) ::
          ((if c.connectionCallback then [.called (.connection socket)] else []) ++ c.goOn)

theorem resolveOnStopped_log (hloop : c.looping = false) :
    c.resolveOnStopped.ioContext.log = c.ioContext.log ++ c.release := by
  unfold release
  rcases hk : c.stoppedCallback with _ | k
  · rw [resolveOnStopped_of_none hk, List.append_nil]
  · rw [resolveOnStopped_of_some hloop hk]
    rfl

theorem resolveOnStopped_callback (hloop : c.looping = false) :
    c.resolveOnStopped.stoppedCallback = none := by
  rcases hk : c.stoppedCallback with _ | k
  · rw [resolveOnStopped_of_none hk]
    exact hk
  · rw [resolveOnStopped_of_some hloop hk]

theorem asyncAccept_log
    (h : c.flags.getFlag .stopping = true → c.flags.getFlag .accepting = false) :
    c.asyncAccept.ioContext.log = c.ioContext.log ++ c.goOn := by
  unfold goOn
  rcases hstop : c.flags.getFlag .stopping with _ | _
  · rw [asyncAccept_of_running hstop]
    rfl
  · rw [asyncAccept_of_stopping hstop, resolveOnStopped_log]
    · rfl
    · simp [looping, h hstop]

section Steps

variable [DecidableEq K]

theorem step_log {e : Event T K} (hc : c.Tracked none) (hstep : c.Step e d) :
    d.ioContext.log = c.ioContext.log ++ c.written e := by
  cases e with
  | setConnectionCallback callback =>
    cases hstep
    exact (List.append_nil _).symm
  | asyncStart r =>
    obtain ⟨rfl, rfl⟩ | ⟨rfl, -, -, rfl⟩ := step_asyncStart hstep
    · exact (List.append_nil _).symm
    · rfl
  | asyncStop k r =>
    obtain ⟨rfl, rfl⟩ | ⟨rfl, -, -, rfl⟩ := step_asyncStop hstep
    · exact (List.append_nil _).symm
    · rfl
  | run h =>
    obtain ⟨io, hio, rfl⟩ := step_run.mp hstep
    have hlog := take_log hio
    cases h with
    | startAccepting =>
      obtain ⟨-, haccepting⟩ := hc.flags_of_posted (take_eq_some.mp hio).1
      refine (asyncAccept_log (c := { c with ioContext := io }) fun _ => haccepting).trans ?_
      dsimp only
      rw [hlog, List.append_assoc]
      rfl
    | stop =>
      unfold handle onStop
      dsimp only
      rw [if_pos hc.acceptorIsOpen]
      exact hlog
    | stopped k =>
      unfold handle
      dsimp only
      rw [call_log, hlog, List.append_assoc]
      rfl
  | handleAccept error socket =>
    obtain ⟨io, hio, rfl⟩ := step_handleAccept.mp hstep
    have hlog := finish_log hio
    obtain ⟨-, hstart⟩ := hc.flags_of_operation (finish_eq_some.mp hio).1
    unfold handleAccept written
    dsimp only
    split
    · rw [resolveOnStopped_log]
      · dsimp only
        rw [hlog, List.append_assoc]
        rfl
      · simp [looping, hstart]
    · have hcalls : (if c.connectionCallback then
            (io.call (.makeConnection socket c.receiveBufferSize c.sendBufferSize)).call
              (.connection socket)
          else io.call (.makeConnection socket c.receiveBufferSize c.sendBufferSize)).log =
          c.ioContext.log ++ .finished .accept ::
            .called (.makeConnection socket c.receiveBufferSize c.sendBufferSize) ::
            (if c.connectionCallback then [.called (.connection socket)] else []) := by
        split <;> simp [hlog]
      split
      · rename_i hrun
        rw [asyncAccept_log]
        · dsimp only
          rw [hcalls, List.append_assoc]
          rfl
        · intro hstop
          simp [hstop] at hrun
      · rename_i hstop
        have hgo : c.goOn = c.release := if_pos (by simpa using hstop)
        rw [resolveOnStopped_log]
        · dsimp only
          rw [hcalls, List.append_assoc, hgo]
          rfl
        · simp [looping, hstart]

/-! ### The phase -/

omit [DecidableEq K] in
theorem phase_of_looping (hloop : c.looping = true) : c.phase =
    if c.flags.getFlag .stopSignaled then .stopping c.stoppedCallback else .looping := by
  unfold looping at hloop
  simp only [phase, phaseOf, hloop, if_true]

omit [DecidableEq K] in
theorem resolveOnStopped_phase (hloop : c.looping = false)
    (hstarted : c.flags.getFlag .startSignaled = true) :
    c.resolveOnStopped.phase = if c.flags.getFlag .stopSignaled then .stopped else .ended := by
  unfold phase
  rw [resolveOnStopped_flags, resolveOnStopped_callback hloop]
  unfold looping at hloop
  simp only [phaseOf, hloop, hstarted, Bool.false_eq_true, if_false, if_true]

omit [DecidableEq K] in
theorem asyncAccept_phase (hstopping : c.flags.getFlag .stopping = c.flags.getFlag .stopSignaled)
    (haccepting : c.flags.getFlag .stopping = true → c.flags.getFlag .accepting = false)
    (hstarted : c.flags.getFlag .startSignaled = true) :
    c.asyncAccept.phase = if c.flags.getFlag .stopSignaled then .stopped else .looping := by
  rcases hstop : c.flags.getFlag .stopping with _ | _
  · rw [asyncAccept_of_running hstop, phase_of_looping (by simp [looping])]
    simp [← hstopping, hstop]
  · rw [asyncAccept_of_stopping hstop, resolveOnStopped_phase]
    · simp [← hstopping, hstop]
    · simp [looping, haccepting hstop]
    · simpa using hstarted

omit [DecidableEq K] in
theorem startLoop_phase (hc : Coherent c.flags) (hstart : c.flags.getFlag .startAccepting = true)
    (haccepting : c.flags.getFlag .accepting = false) :
    Phase.Step c.phase (.run .startAccepting : Event T K) c.asyncAccept.phase := by
  rw [phase_of_looping (by simp [looping, hstart]), asyncAccept_phase hc.stopping
    (fun _ => haccepting) (hc.started (Or.inl hstart))]
  split
  · exact .finish _ rfl
  · exact .arm

omit [DecidableEq K] in
theorem handleAccept_phase (hc : Coherent c.flags)
    (hstart : c.flags.getFlag .startAccepting = false)
    (haccepting : c.flags.getFlag .accepting = true) (error : ErrorCode) (socket : T) :
    (c.handleAccept error socket).phase =
      if c.flags.getFlag .stopSignaled then .stopped
      else if error.failed then .ended
      else .looping := by
  have hstarted := hc.started (Or.inr (Or.inl haccepting))
  unfold handleAccept
  dsimp only
  split
  · rw [resolveOnStopped_phase (by simp [looping, hstart]) (by simpa using hstarted)]
    simp
  · split
    · rename_i hrun
      have hrun : c.flags.getFlag .stopping = false := by simpa using hrun
      exact asyncAccept_phase (c := { c with ioContext := _ }) hc.stopping (by simp [hrun]) hstarted
    · rename_i hstop
      have hstop : c.flags.getFlag .stopping = true := by simpa using hstop
      rw [resolveOnStopped_phase (by simp [looping, hstart]) (by simpa using hstarted)]
      simp [← hc.stopping, hstop]

omit [DecidableEq K] in
theorem nextAccept_phase (hc : Coherent c.flags)
    (hstart : c.flags.getFlag .startAccepting = false)
    (haccepting : c.flags.getFlag .accepting = true) (error : ErrorCode) (socket : T) :
    Phase.Step c.phase (.handleAccept error socket) (c.handleAccept error socket).phase := by
  rw [phase_of_looping (by simp [looping, haccepting]),
    handleAccept_phase hc hstart haccepting]
  split
  · exact .finish _ rfl
  · split
    · rename_i herror
      exact .fail herror
    · rename_i herror
      exact .accept (by simpa using herror)

theorem step_phase {e : Event T K} (hc : c.Tracked none) (hstep : c.Step e d) :
    Phase.Step c.phase e d.phase := by
  have hcoherent := hc.coherent
  cases e with
  | setConnectionCallback callback =>
    cases hstep
    exact .pass _ rfl
  | asyncStart r =>
    obtain ⟨rfl, rfl⟩ | ⟨rfl, hnot, hstop, rfl⟩ := step_asyncStart hstep
    · exact .pass _ rfl
    · rw [hcoherent.stopping] at hstop
      have hidle := hcoherent.started
      simp only [hnot, Bool.false_eq_true, imp_false, not_or, Bool.not_eq_true] at hidle
      have hbefore : c.phase = .created := by
        simp [phase, phaseOf, hnot, hidle]
      have hafter : phaseOf ((c.flags.setFlag .startSignaled).setFlag .startAccepting)
          c.stoppedCallback = .looping := by
        simp [phaseOf, hstop]
      change Phase.Step c.phase _ (phaseOf _ _)
      rw [hbefore, hafter]
      exact .start
  | asyncStop k r =>
    obtain ⟨rfl, rfl⟩ | ⟨rfl, hstop, hstarted, rfl⟩ := step_asyncStop hstep
    · exact .pass _ rfl
    · change Phase.Step c.phase _ (phaseOf _ _)
      -- what the stop comes upon: a loop that has ended, or one that goes on
      rcases hloop : c.looping with _ | _
      · unfold looping at hloop
        have hbefore : c.phase = .ended := by
          simp only [phase, phaseOf, hloop, hstop, hstarted, Bool.false_eq_true, if_false,
            if_true]
        rw [hbefore]
        cases k with
        | none =>
          have hafter : phaseOf ((c.flags.setFlag .stopSignaled).setFlag .stopping)
              (none : Option K) = .stopped := by
            simp [phaseOf, hloop]
          rw [hafter]
          exact .stopEndedEmpty
        | some k =>
          have hafter : phaseOf ((c.flags.setFlag .stopSignaled).setFlag .stopping) (some k) =
              .stuck k := by
            simp [phaseOf, hloop]
          rw [hafter]
          exact .stopEnded k
      · have hbefore := phase_of_looping hloop
        rw [hstop] at hbefore
        unfold looping at hloop
        have hafter : phaseOf ((c.flags.setFlag .stopSignaled).setFlag .stopping) k =
            .stopping k := by
          simp [phaseOf, hloop]
        rw [hbefore, hafter]
        exact .stop k
  | run h =>
    obtain ⟨io, hio, rfl⟩ := step_run.mp hstep
    cases h with
    | startAccepting =>
      obtain ⟨hstart, haccepting⟩ := hc.flags_of_posted (take_eq_some.mp hio).1
      exact startLoop_phase (c := { c with ioContext := io }) hcoherent hstart haccepting
    | stop =>
      have hsame : phaseOf (c.flags.setFlag .stopping) c.stoppedCallback = c.phase := by
        simp [phase, phaseOf]
      unfold handle onStop
      dsimp only
      rw [if_pos hc.acceptorIsOpen]
      change Phase.Step c.phase _ (phaseOf _ _)
      rw [hsame]
      exact .pass _ rfl
    | stopped k => exact .pass _ rfl
  | handleAccept error socket =>
    obtain ⟨io, hio, rfl⟩ := step_handleAccept.mp hstep
    obtain ⟨haccepting, hstart⟩ := hc.flags_of_operation (finish_eq_some.mp hio).1
    exact nextAccept_phase (c := { c with ioContext := io }) hcoherent hstart haccepting error
      socket

end Steps

end Eestv.Net.TcpServer
