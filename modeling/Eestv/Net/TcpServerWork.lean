import Eestv.Library.FlagMirror
import Eestv.Library.Runs
import Eestv.Net.TcpServer

/-! The server's flags and the work that they stand for. -/

namespace Eestv.Net.TcpServer
open Runs IoContext

variable {T K : Type} {c d : TcpServer T K}

def Handler.flag : Handler K → Option TcpServerState
  | .startAccepting => some .startAccepting
  | .stop => none
  | .stopped _ => none

def Operation.flag : Operation → Option TcpServerState
  | .accept => some .accepting

def looping (c : TcpServer T K) : Bool :=
  c.flags.getFlag .startAccepting || c.flags.getFlag .accepting

def Mirrors (c : TcpServer T K) (hand : Option TcpServerState) : Prop :=
  FlagMirror [.startAccepting, .accepting] [.startAccepting, .accepting] Handler.flag
    Operation.flag c.flags.getFlag c.ioContext hand

theorem resolveOnStopped_of_looping (h : c.looping = true) : c.resolveOnStopped = c := by
  unfold looping at h
  unfold resolveOnStopped
  rw [← Bool.not_or, h]
  rfl

theorem resolveOnStopped_of_none (h : c.stoppedCallback = none) : c.resolveOnStopped = c := by
  unfold resolveOnStopped
  rw [h]
  split <;> rfl

theorem resolveOnStopped_of_some {k : K} (hloop : c.looping = false)
    (h : c.stoppedCallback = some k) :
    c.resolveOnStopped =
      { c with
        stoppedCallback := none
        ioContext := c.ioContext.post (.stopped k) } := by
  unfold looping at hloop
  unfold resolveOnStopped
  rw [← Bool.not_or, hloop, h]
  rfl

theorem resolveOnStopped_induction {P : TcpServer T K → Prop} (hc : P c)
    (hpost : ∀ k, c.looping = false → c.stoppedCallback = some k →
      P { c with
        stoppedCallback := none
        ioContext := c.ioContext.post (.stopped k) }) : P c.resolveOnStopped := by
  rcases hloop : c.looping with _ | _
  · rcases hk : c.stoppedCallback with _ | k
    · rwa [resolveOnStopped_of_none hk]
    · rw [resolveOnStopped_of_some hloop hk]
      exact hpost k hloop hk
  · rwa [resolveOnStopped_of_looping hloop]

@[simp] theorem resolveOnStopped_flags : c.resolveOnStopped.flags = c.flags :=
  resolveOnStopped_induction (P := fun d => d.flags = c.flags) rfl fun _ _ _ => rfl

theorem asyncAccept_of_running (h : c.flags.getFlag .stopping = false) :
    c.asyncAccept = { c with
      flags := (c.flags.clearFlag .startAccepting).setFlag .accepting
      ioContext := c.ioContext.start .accept } := by
  unfold asyncAccept
  simp [h]

theorem asyncAccept_of_stopping (h : c.flags.getFlag .stopping = true) :
    c.asyncAccept =
      ({ c with flags := c.flags.clearFlag .startAccepting } : TcpServer T K).resolveOnStopped := by
  unfold asyncAccept
  simp [h]

namespace Mirrors

theorem update {f : TcpServerState} (hc : c.Mirrors (some f)) :
    Mirrors { c with flags := c.flags.clearFlag f } none :=
  Flags.mirror_clearFlag hc

theorem setOther {hand : Option TcpServerState} {f : TcpServerState} (hc : c.Mirrors hand)
    (hf : f ≠ .startAccepting ∧ f ≠ .accepting) :
    Mirrors { c with flags := c.flags.setFlag f } hand :=
  Flags.mirror_setFlag_of_not_mem hc (by simp [hf]) (by simp [hf])

theorem startLoop (hc : c.Mirrors (some .startAccepting))
    (haccepting : c.flags.getFlag .accepting = false) :
    Mirrors { c with
      flags := (c.flags.clearFlag .startAccepting).setFlag .accepting
      ioContext := c.ioContext.start .accept } none := by
  have h := Flags.mirror_setFlag (a := .accepting) hc.update (by simpa using haccepting)
  exact FlagMirror.start h

theorem nextAccept (hc : c.Mirrors (some .accepting))
    (hstart : c.flags.getFlag .startAccepting = false)
    (haccepting : c.flags.getFlag .accepting = true) :
    Mirrors { c with
      flags := (c.flags.clearFlag .startAccepting).setFlag .accepting
      ioContext := c.ioContext.start .accept } none := by
  have hsame : ∀ f, ((c.flags.clearFlag .startAccepting).setFlag .accepting).getFlag f =
      c.flags.getFlag f := by
    intro f
    cases f <;> simp [hstart, haccepting]
  exact FlagMirror.start (FlagMirror.congr hc (fun f _ => hsame f) (fun _ _ => rfl))

end Mirrors

/-- The accept loop is in one place at a time, and only after a start; a stop is only accepted
after a start, and sets both of its flags. -/
structure Coherent (flags : Flags TcpServerState) : Prop where
  alone : flags.getFlag .startAccepting = false ∨ flags.getFlag .accepting = false
  started : flags.getFlag .startAccepting = true ∨ flags.getFlag .accepting = true ∨
    flags.getFlag .stopSignaled = true → flags.getFlag .startSignaled = true
  stopping : flags.getFlag .stopping = flags.getFlag .stopSignaled

namespace Coherent

variable {flags : Flags TcpServerState}

theorem clear {f : TcpServerState} (h : Coherent flags)
    (hf : f = .startAccepting ∨ f = .accepting) : Coherent (flags.clearFlag f) := by
  obtain ⟨halone, hstarted, hstopping⟩ := h
  rcases hf with rfl | rfl
  · constructor <;> simp_all
  · constructor
    · simp
    · intro h
      simp only [Flags.getFlag_clearFlag] at h ⊢
      exact hstarted (h.imp id fun h => h.imp (by simp) id)
    · simpa using hstopping

theorem accept (h : Coherent flags) (hstart : flags.getFlag .startSignaled = true) :
    Coherent ((flags.clearFlag .startAccepting).setFlag .accepting) := by
  obtain ⟨halone, hstarted, hstopping⟩ := h
  constructor <;> simp_all

theorem start (h : Coherent flags) (hstart : flags.getFlag .startSignaled = false) :
    Coherent ((flags.setFlag .startSignaled).setFlag .startAccepting) := by
  obtain ⟨halone, hstarted, hstopping⟩ := h
  constructor <;> simp_all

theorem stop (h : Coherent flags) (hstart : flags.getFlag .startSignaled = true) :
    Coherent ((flags.setFlag .stopSignaled).setFlag .stopping) := by
  obtain ⟨halone, hstarted, hstopping⟩ := h
  constructor <;> simp_all

theorem again (h : Coherent flags) (hstop : flags.getFlag .stopSignaled = true) :
    Coherent (flags.setFlag .stopping) := by
  obtain ⟨halone, hstarted, hstopping⟩ := h
  constructor <;> simp_all

end Coherent

structure Tracked (c : TcpServer T K) (hand : Option TcpServerState) : Prop where
  mirrors : c.Mirrors hand
  coherent : Coherent c.flags
  posted : .stop ∈ c.ioContext.posted → c.flags.getFlag .stopSignaled = true
  waiting : ∀ k, c.stoppedCallback = some k → c.flags.getFlag .stopSignaled = true
  acceptorIsOpen : c.acceptorIsOpen = true

namespace Tracked

theorem new (m n : ℕ) : (new m n : TcpServer T K).Tracked none := by
  refine ⟨?_, ⟨?_, ?_, ?_⟩, ?_, ?_, rfl⟩
  · exact FlagMirror.of_clear Flags.getFlag_empty fun _ => rfl
  · exact Or.inl (Flags.getFlag_empty _)
  · simp [TcpServer.new]
  · simp [TcpServer.new]
  · intro hmem
    cases hmem
  · intro k hk
    cases hk

theorem flags_of_posted (hc : c.Tracked none) (h : .startAccepting ∈ c.ioContext.posted) :
    c.flags.getFlag .startAccepting = true ∧ c.flags.getFlag .accepting = false := by
  have hflag := hc.mirrors.flag_of_work_pos (f := .startAccepting) (by decide)
    (work_pos_of_posted h rfl)
  refine ⟨hflag, hc.coherent.alone.resolve_left ?_⟩
  rw [hflag]
  simp

theorem flags_of_operation (hc : c.Tracked none) (h : .accept ∈ c.ioContext.operations) :
    c.flags.getFlag .accepting = true ∧ c.flags.getFlag .startAccepting = false := by
  have hflag := hc.mirrors.flag_of_work_pos (f := .accepting) (by decide)
    (work_pos_of_operation h rfl)
  refine ⟨hflag, hc.coherent.alone.resolve_right ?_⟩
  rw [hflag]
  simp

theorem take [DecidableEq K] {h : Handler K} {io : IoContext (Handler K) Operation (Call T K)}
    (hc : c.Tracked none) (hio : c.ioContext.take h = some io) :
    Tracked { c with ioContext := io } h.flag := by
  refine ⟨FlagMirror.take hc.mirrors hio, hc.coherent, ?_, hc.waiting, hc.acceptorIsOpen⟩
  intro hmem
  rw [(take_eq_some.mp hio).2] at hmem
  exact hc.posted (List.mem_of_mem_erase hmem)

theorem finish {io : IoContext (Handler K) Operation (Call T K)} (hc : c.Tracked none)
    (hio : c.ioContext.finish .accept = some io) :
    Tracked { c with ioContext := io } (some .accepting) := by
  refine ⟨FlagMirror.finish hc.mirrors hio, hc.coherent, ?_, hc.waiting, hc.acceptorIsOpen⟩
  intro hmem
  rw [(finish_eq_some.mp hio).2] at hmem
  exact hc.posted hmem

theorem clear {f : TcpServerState} (hc : c.Tracked (some f))
    (hf : f = .startAccepting ∨ f = .accepting) :
    Tracked { c with flags := c.flags.clearFlag f } none := by
  have hstop : (c.flags.clearFlag f).getFlag .stopSignaled = c.flags.getFlag .stopSignaled := by
    rcases hf with rfl | rfl <;> simp
  refine ⟨hc.mirrors.update, hc.coherent.clear hf, ?_, ?_, hc.acceptorIsOpen⟩
  · intro hmem
    rw [hstop]
    exact hc.posted hmem
  · intro k hk
    rw [hstop]
    exact hc.waiting k hk

theorem resolveOnStopped (hc : c.Tracked none) : c.resolveOnStopped.Tracked none := by
  refine resolveOnStopped_induction (P := fun d => Tracked d none) hc ?_
  intro k _ _
  refine ⟨FlagMirror.post hc.mirrors, hc.coherent, ?_, ?_, hc.acceptorIsOpen⟩
  · intro hmem
    rcases List.mem_append.mp hmem with hold | hnew
    · exact hc.posted hold
    · cases List.mem_singleton.mp hnew
  · intro j hj
    cases hj

theorem startLoop (hc : c.Tracked (some .startAccepting))
    (hstart : c.flags.getFlag .startAccepting = true)
    (haccepting : c.flags.getFlag .accepting = false) : c.asyncAccept.Tracked none := by
  rcases hstop : c.flags.getFlag .stopping with _ | _
  · rw [asyncAccept_of_running hstop]
    refine ⟨hc.mirrors.startLoop haccepting, hc.coherent.accept ?_, ?_, ?_, hc.acceptorIsOpen⟩
    · exact hc.coherent.started (Or.inl hstart)
    · simpa using hc.posted
    · simpa using hc.waiting
  · rw [asyncAccept_of_stopping hstop]
    exact resolveOnStopped (hc.clear (Or.inl rfl))

theorem nextAccept (hc : c.Tracked (some .accepting))
    (hstart : c.flags.getFlag .startAccepting = false)
    (haccepting : c.flags.getFlag .accepting = true)
    (hstop : c.flags.getFlag .stopping = false) : c.asyncAccept.Tracked none := by
  rw [asyncAccept_of_running hstop]
  refine ⟨hc.mirrors.nextAccept hstart haccepting, hc.coherent.accept ?_, ?_, ?_,
    hc.acceptorIsOpen⟩
  · exact hc.coherent.started (Or.inr (Or.inl haccepting))
  · simpa using hc.posted
  · simpa using hc.waiting

theorem call {hand : Option TcpServerState} {x : Call T K} (hc : c.Tracked hand) :
    Tracked { c with ioContext := c.ioContext.call x } hand :=
  ⟨FlagMirror.call hc.mirrors, hc.coherent, hc.posted, hc.waiting, hc.acceptorIsOpen⟩

theorem handleAccept (hc : c.Tracked (some .accepting))
    (hstart : c.flags.getFlag .startAccepting = false)
    (haccepting : c.flags.getFlag .accepting = true) (error : ErrorCode) (socket : T) :
    (c.handleAccept error socket).Tracked none := by
  unfold TcpServer.handleAccept
  dsimp only
  split
  · exact resolveOnStopped (hc.clear (Or.inr rfl))
  · have hcalls : Tracked { c with
        ioContext := if c.connectionCallback then
          (c.ioContext.call (.makeConnection socket c.receiveBufferSize
            c.sendBufferSize)).call (.connection socket)
        else c.ioContext.call (.makeConnection socket c.receiveBufferSize c.sendBufferSize) }
        (some .accepting) := by
      split
      · exact hc.call.call
      · exact hc.call
    split
    · rename_i hstop
      exact hcalls.nextAccept hstart haccepting (by simpa using hstop)
    · exact resolveOnStopped (hcalls.clear (Or.inr rfl))

theorem onStop (hc : c.Tracked none) (hstop : c.flags.getFlag .stopSignaled = true) :
    c.onStop.Tracked none := by
  unfold TcpServer.onStop
  dsimp only
  rw [if_pos hc.acceptorIsOpen]
  refine ⟨hc.mirrors.setOther (by decide), hc.coherent.again hstop, ?_, ?_, hc.acceptorIsOpen⟩
  · simpa using hc.posted
  · simpa using hc.waiting

end Tracked

section Steps

variable [DecidableEq K]

theorem step_asyncStart {r : Bool} (hstep : c.Step (.asyncStart r) d) :
    r = false ∧ d = c ∨ r = true ∧ c.flags.getFlag .startSignaled = false ∧
      c.flags.getFlag .stopping = false ∧ d = { c with
        flags := (c.flags.setFlag .startSignaled).setFlag .startAccepting
        ioContext := c.ioContext.post .startAccepting } := by
  have h := returned_iff.mp hstep
  unfold asyncStart at h
  split at h
  · cases h
    exact Or.inl ⟨rfl, rfl⟩
  · rename_i hnot
    cases h
    simp only [Bool.or_eq_true, not_or, Bool.not_eq_true] at hnot
    exact Or.inr ⟨rfl, hnot.1, hnot.2, rfl⟩

theorem step_asyncStop {k : Option K} {r : Bool} (hstep : c.Step (.asyncStop k r) d) :
    r = false ∧ d = c ∨ r = true ∧ c.flags.getFlag .stopSignaled = false ∧
      c.flags.getFlag .startSignaled = true ∧ d = { c with
        flags := (c.flags.setFlag .stopSignaled).setFlag .stopping
        stoppedCallback := k
        ioContext := c.ioContext.post .stop } := by
  have h := returned_iff.mp hstep
  unfold asyncStop at h
  split at h
  · cases h
    exact Or.inl ⟨rfl, rfl⟩
  · rename_i hnot
    cases h
    simp only [Bool.or_eq_true, not_or, Bool.not_eq_true, Bool.not_eq_false'] at hnot
    exact Or.inr ⟨rfl, hnot.1, hnot.2, rfl⟩

theorem step_run {h : Handler K} : c.Step (.run h) d ↔
    ∃ io, c.ioContext.take h = some io ∧
      ({ c with ioContext := io } : TcpServer T K).handle h = d :=
  Option.map_eq_some_iff

theorem step_handleAccept {error : ErrorCode} {socket : T} :
    c.Step (.handleAccept error socket) d ↔
      ∃ io, c.ioContext.finish .accept = some io ∧
        ({ c with ioContext := io } : TcpServer T K).handleAccept error socket = d :=
  Option.map_eq_some_iff

theorem Tracked.step {e : Event T K} (hc : c.Tracked none) (hstep : c.Step e d) :
    d.Tracked none := by
  cases e with
  | setConnectionCallback callback =>
    cases hstep
    exact ⟨hc.mirrors, hc.coherent, hc.posted, hc.waiting, hc.acceptorIsOpen⟩
  | asyncStart r =>
    obtain ⟨-, rfl⟩ | ⟨-, hnot, -, rfl⟩ := step_asyncStart hstep
    · exact hc
    · have hidle : c.flags.getFlag .startAccepting = false := by
        rcases hflag : c.flags.getFlag .startAccepting with _ | _
        · rfl
        · rw [hc.coherent.started (Or.inl hflag)] at hnot
          cases hnot
      have hset := Flags.mirror_setFlag (a := .startAccepting)
        (hc.mirrors.setOther (f := .startSignaled) (by decide)) (by simpa using hidle)
      refine ⟨FlagMirror.post hset, hc.coherent.start hnot, ?_, ?_, hc.acceptorIsOpen⟩
      · simpa using hc.posted
      · simpa using hc.waiting
  | asyncStop k r =>
    obtain ⟨-, rfl⟩ | ⟨-, -, hstarted, rfl⟩ := step_asyncStop hstep
    · exact hc
    · have hset := (hc.mirrors.setOther (f := .stopSignaled) (by decide)).setOther
        (f := .stopping) (by decide)
      refine ⟨FlagMirror.post hset, hc.coherent.stop hstarted, ?_, ?_, hc.acceptorIsOpen⟩
      · simp
      · simp
  | run h =>
    obtain ⟨io, hio, rfl⟩ := step_run.mp hstep
    have hmem := (take_eq_some.mp hio).1
    cases h with
    | startAccepting =>
      obtain ⟨hstart, haccepting⟩ := hc.flags_of_posted hmem
      exact (hc.take hio).startLoop hstart haccepting
    | stop => exact (hc.take hio).onStop (hc.posted hmem)
    | stopped k => exact (hc.take hio).call
  | handleAccept error socket =>
    obtain ⟨io, hio, rfl⟩ := step_handleAccept.mp hstep
    obtain ⟨haccepting, hstart⟩ := hc.flags_of_operation (finish_eq_some.mp hio).1
    exact (hc.finish hio).handleAccept hstart haccepting error socket

end Steps

end Eestv.Net.TcpServer
