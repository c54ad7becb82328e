import Eestv.Library.FlagMirror
import Eestv.Library.Runs
import Eestv.Net.TcpClient

/-! The client's flags and the work that they stand for, until it is reset. -/

namespace Eestv.Net.TcpClient
open Runs IoContext

variable {E K : Type} {c d : TcpClient E K}

def Handler.flag : Handler K → Option TcpClientState
  | .asyncResolve _ _ => some .scheduleResolving
  | .stop => some .stopping
  | .complete _ _ => none
  | .stopped _ => none

def Operation.flag : Operation E → Option TcpClientState
  | .resolve _ _ => some .resolving
  | .connect _ => some .connecting

def Mirrors (c : TcpClient E K) (hand : Option TcpClientState) : Prop :=
  FlagMirror [.scheduleResolving, .resolving, .connecting, .stopping]
    [.scheduleResolving, .resolving, .connecting, .stopping] Handler.flag Operation.flag
    c.flags.getFlag c.ioContext hand

theorem resolveOnStopped_induction {P : TcpClient E K → Prop} (hc : P c)
    (hpost : ∀ k, P { c with
      onStopped := none
      ioContext := c.ioContext.post (.stopped k) }) : P c.resolveOnStopped := by
  unfold resolveOnStopped
  split
  · split
    · exact hpost _
    · exact hc
  · exact hc

theorem postCompletion_induction {P : TcpClient E K → Prop} {error : ErrorCode} (hc : P c)
    (hpost : ∀ k, c.onConnectionComplete = some k → P { c with
      onConnectionComplete := none
      ioContext := c.ioContext.post (.complete k error) }) : P (c.postCompletion error) := by
  unfold postCompletion
  split
  · exact hpost _ ‹_›
  · exact hc

@[simp] theorem resolveOnStopped_flags : c.resolveOnStopped.flags = c.flags :=
  resolveOnStopped_induction (P := fun d => d.flags = c.flags) rfl fun _ => rfl

@[simp] theorem resolveOnStopped_callback :
    c.resolveOnStopped.onConnectionComplete = c.onConnectionComplete :=
  resolveOnStopped_induction (P := fun d => d.onConnectionComplete = c.onConnectionComplete) rfl
    fun _ => rfl

@[simp] theorem postCompletion_flags {error : ErrorCode} :
    (c.postCompletion error).flags = c.flags :=
  postCompletion_induction (P := fun d => d.flags = c.flags) rfl fun _ _ => rfl

theorem handleResolve_of_failed {error : ErrorCode} (herror : error.failed = true) (results : E) :
    c.handleResolve error results =
      if c.flags.getFlag .stopSingaled then
        (({ c with flags := c.flags.clearFlag .resolving } :
          TcpClient E K).postCompletion error).resolveOnStopped
      else
        ({ c with flags := c.flags.clearFlag .resolving } : TcpClient E K).postCompletion error := by
  unfold handleResolve postCompletion
  dsimp only
  rw [if_pos herror]
  split <;> simp

theorem handleResolve_of_success {error : ErrorCode} (herror : error.failed = false)
    (results : E) :
    c.handleResolve error results =
      if c.flags.getFlag .stopSingaled then
        ({ c with
          flags := (c.flags.setFlag .connecting).clearFlag .resolving
          ioContext := c.ioContext.start (.connect results) } : TcpClient E K).resolveOnStopped
      else
        { c with
          flags := (c.flags.setFlag .connecting).clearFlag .resolving
          ioContext := c.ioContext.start (.connect results) } := by
  unfold handleResolve
  simp [herror]

theorem handleConnect_of_failed {error : ErrorCode} (herror : error.failed = true) :
    c.handleConnect error =
      if c.flags.getFlag .stopSingaled then
        ({ c with flags := c.flags.clearFlag .connecting } :
          TcpClient E K).resolveOnStopped.postCompletion error
      else
        ({ c with flags := c.flags.clearFlag .connecting } : TcpClient E K).postCompletion error := by
  unfold handleConnect
  simp only [herror, Flags.getFlag_clearFlag, reduceCtorEq, decide_false, Bool.not_false,
    Bool.true_and, if_true]
  split <;> rfl

theorem handleConnect_of_success {error : ErrorCode} (herror : error.failed = false) :
    c.handleConnect error =
      if c.flags.getFlag .stopSingaled then
        ({ c with flags := c.flags.clearFlag .connecting } : TcpClient E K).resolveOnStopped
      else
        ({ c with flags := c.flags.clearFlag .connecting } : TcpClient E K).callCompletion error := by
  unfold handleConnect
  simp only [herror, Flags.getFlag_clearFlag, reduceCtorEq, decide_false, Bool.not_false,
    Bool.true_and, Bool.false_eq_true, if_false]

def stages (flags : Flags TcpClientState) : ℕ :=
  (flags.getFlag .scheduleResolving).toNat + (flags.getFlag .resolving).toNat +
    (flags.getFlag .connecting).toNat

/-- The invariant of the flags, while a piece of work is in hand or, with `none`, between two
steps. -/
structure Tracked (c : TcpClient E K) (hand : Option TcpClientState) : Prop where
  mirrors : c.Mirrors hand
  one_stage : stages c.flags ≤ 1
  stopping : c.flags.getFlag .stopping = true → c.flags.getFlag .stopSingaled = true
  failed : ∀ k error, .complete k error ∈ c.ioContext.posted → error.failed = true

namespace Tracked

theorem new : (new : TcpClient E K).Tracked none := by
  have hnone : ∀ f, (TcpClient.new : TcpClient E K).flags.getFlag f = false := Flags.getFlag_empty
  refine ⟨?_, ?_, ?_, ?_⟩
  · exact FlagMirror.of_clear hnone fun _ => rfl
  · simp [stages, hnone]
  · simp [hnone]
  · intro k error hmem
    cases hmem

theorem resolveOnStopped (hc : c.Tracked none) : c.resolveOnStopped.Tracked none := by
  refine resolveOnStopped_induction (P := fun d => Tracked d none) hc ?_
  intro k
  refine ⟨FlagMirror.post hc.mirrors, hc.one_stage, hc.stopping, ?_⟩
  simpa using hc.failed

theorem postCompletion {error : ErrorCode} (herror : error.failed = true)
    (hc : c.Tracked none) : (c.postCompletion error).Tracked none := by
  refine postCompletion_induction (P := fun d => Tracked d none) hc ?_
  intro k _
  refine ⟨FlagMirror.post hc.mirrors, hc.one_stage, hc.stopping, ?_⟩
  intro j e hmem
  rcases List.mem_append.mp hmem with hold | hnew
  · exact hc.failed j e hold
  · cases List.mem_singleton.mp hnew
    exact herror

theorem call {hand : Option TcpClientState} {x : Call K} (hc : c.Tracked hand) :
    Tracked { c with ioContext := c.ioContext.call x } hand :=
  ⟨FlagMirror.call hc.mirrors, hc.one_stage, hc.stopping, hc.failed⟩

theorem clear {f : TcpClientState} (hc : c.Tracked (some f)) (hf : f ≠ .stopSingaled) :
    Tracked { c with flags := c.flags.clearFlag f } none := by
  refine ⟨Flags.mirror_clearFlag hc.mirrors, Nat.le_trans ?_ hc.one_stage, ?_, hc.failed⟩
  · have hle : ∀ g, ((c.flags.clearFlag f).getFlag g).toNat ≤ (c.flags.getFlag g).toNat := by
      intro g
      rw [Flags.getFlag_clearFlag]
      cases c.flags.getFlag g <;> cases (decide (f = g)) <;> decide
    exact Nat.add_le_add (Nat.add_le_add (hle _) (hle _)) (hle _)
  · intro hstopping
    simp only [Flags.getFlag_clearFlag, Bool.and_eq_true] at hstopping ⊢
    exact ⟨by simpa using hf, hc.stopping hstopping.2⟩

theorem start {o : Operation E} {f : TcpClientState} (ho : o.flag = some f)
    (hc : c.Tracked (some f)) : Tracked { c with ioContext := c.ioContext.start o } none := by
  rw [← ho] at hc
  exact ⟨FlagMirror.start hc.mirrors, hc.one_stage, hc.stopping, hc.failed⟩

theorem enter {f : TcpClientState} (hc : c.Tracked none)
    (hf : f = .scheduleResolving ∨ f = .resolving ∨ f = .connecting)
    (hnone : stages c.flags = 0) :
    Tracked { c with flags := c.flags.setFlag f } (some f) := by
  unfold stages at hnone
  have hflag : c.flags.getFlag f = false := by
    rw [← Bool.toNat_eq_zero]
    rcases hf with rfl | rfl | rfl <;> omega
  refine ⟨Flags.mirror_setFlag hc.mirrors hflag, ?_, ?_, hc.failed⟩
  · unfold stages
    rcases hf with rfl | rfl | rfl <;>
      simp only [Flags.getFlag_setFlag, reduceCtorEq, decide_true, decide_false, Bool.true_or,
        Bool.false_or, Bool.toNat_true] <;> omega
  · intro hstopping
    rcases hf with rfl | rfl | rfl <;> simpa using hc.stopping (by simpa using hstopping)

theorem congr_flags {hand : Option TcpClientState} {flags : Flags TcpClientState}
    (hc : c.Tracked hand) (hflags : ∀ f, flags.getFlag f = c.flags.getFlag f) :
    Tracked { c with flags := flags } hand := by
  refine ⟨FlagMirror.congr hc.mirrors (fun f _ => hflags f) (fun _ _ => rfl), ?_, ?_, hc.failed⟩
  · simpa only [stages, hflags] using hc.one_stage
  · simpa only [hflags] using hc.stopping

end Tracked

theorem stages_clear {f : TcpClientState} (hc : c.Tracked (some f))
    (hf : f = .scheduleResolving ∨ f = .resolving ∨ f = .connecting) :
    stages (c.flags.clearFlag f) = 0 := by
  have hflag := hc.mirrors.flag_of_hand (f := f) (by rcases hf with rfl | rfl | rfl <;> decide)
  have hone := hc.one_stage
  unfold stages at *
  rcases hf with rfl | rfl | rfl <;>
    simp only [Flags.getFlag_clearFlag, hflag, reduceCtorEq, decide_true, decide_false,
      Bool.not_true, Bool.not_false, Bool.true_and, Bool.false_and, Bool.toNat_true,
      Bool.toNat_false] at hone ⊢ <;> omega

namespace Tracked

theorem asyncResolve (hc : c.Tracked (some .scheduleResolving)) (host : List Char) (port : ℤ) :
    (c.asyncResolve host port).Tracked none := by
  have hclear := hc.clear (by decide)
  unfold TcpClient.asyncResolve
  dsimp only
  split
  · exact hclear.resolveOnStopped
  · have henter := hclear.enter (f := .resolving) (by decide) (stages_clear hc (by decide))
    exact henter.start rfl

theorem handleResolve (hc : c.Tracked (some .resolving)) (error : ErrorCode) (results : E) :
    (c.handleResolve error results).Tracked none := by
  have hclear := hc.clear (by decide)
  rcases herror : error.failed with _ | _
  · have henter := hclear.enter (f := .connecting) (by decide) (stages_clear hc (by decide))
    have hstart : Tracked { c with
        flags := (c.flags.setFlag .connecting).clearFlag .resolving
        ioContext := c.ioContext.start (.connect results) } none := by
      apply congr_flags (henter.start (o := .connect results) rfl)
      intro f
      cases f <;> simp
    rw [handleResolve_of_success herror]
    split
    · exact hstart.resolveOnStopped
    · exact hstart
  · rw [handleResolve_of_failed herror]
    split
    · exact (hclear.postCompletion herror).resolveOnStopped
    · exact hclear.postCompletion herror

theorem handleConnect (hc : c.Tracked (some .connecting)) (error : ErrorCode) :
    (c.handleConnect error).Tracked none := by
  have hclear := hc.clear (by decide)
  rcases herror : error.failed with _ | _
  · rw [handleConnect_of_success herror]
    split
    · exact hclear.resolveOnStopped
    · unfold callCompletion
      split
      · exact ⟨FlagMirror.call hclear.mirrors, hclear.one_stage, hclear.stopping, hclear.failed⟩
      · exact hclear
  · rw [handleConnect_of_failed herror]
    split
    · exact hclear.resolveOnStopped.postCompletion herror
    · exact hclear.postCompletion herror

end Tracked

theorem Tracked.take [DecidableEq K] {h : Handler K}
    {io : IoContext (Handler K) (Operation E) (Call K)} (hc : c.Tracked none)
    (hio : c.ioContext.take h = some io) : Tracked { c with ioContext := io } h.flag := by
  refine ⟨FlagMirror.take hc.mirrors hio, hc.one_stage, hc.stopping, ?_⟩
  intro k error hmem
  rw [(take_eq_some.mp hio).2] at hmem
  exact hc.failed k error (List.mem_of_mem_erase hmem)

theorem Tracked.finish [DecidableEq E] {o : Operation E}
    {io : IoContext (Handler K) (Operation E) (Call K)} (hc : c.Tracked none)
    (hio : c.ioContext.finish o = some io) : Tracked { c with ioContext := io } o.flag := by
  refine ⟨FlagMirror.finish hc.mirrors hio, hc.one_stage, hc.stopping, ?_⟩
  intro k error hmem
  rw [(finish_eq_some.mp hio).2] at hmem
  exact hc.failed k error hmem

section Steps

variable [DecidableEq E] [DecidableEq K]

theorem step_asyncConnect {host : List Char} {port : ℤ} {k : Option K} {r : Bool}
    (hstep : c.Step (.asyncConnect host port k r) d) :
    r = false ∧ d = c ∨ r = true ∧ stages c.flags = 0 ∧ d = { c with
      flags := c.flags.setFlag .scheduleResolving
      onConnectionComplete := k
      ioContext := c.ioContext.post (.asyncResolve host port) } := by
  have h := returned_iff.mp hstep
  unfold asyncConnect at h
  split at h
  · cases h
    exact Or.inl ⟨rfl, rfl⟩
  · rename_i hnot
    cases h
    simp only [Bool.or_eq_true, not_or, Bool.not_eq_true] at hnot
    exact Or.inr ⟨rfl, by simp [stages, hnot], rfl⟩

theorem step_asyncStop {k : Option K} {r : Bool} (hstep : c.Step (.asyncStop k r) d) :
    r = false ∧ d = c ∨ r = true ∧ c.flags.getFlag .stopSingaled = false ∧ d = { c with
      flags := (c.flags.setFlag .stopSingaled).setFlag .stopping
      onStopped := k
      ioContext := c.ioContext.post .stop } := by
  have h := returned_iff.mp hstep
  unfold asyncStop at h
  split at h
  · cases h
    exact Or.inl ⟨rfl, rfl⟩
  · rename_i hnot
    cases h
    exact Or.inr ⟨rfl, by simpa using hnot, rfl⟩

theorem step_run {h : Handler K} : c.Step (.run h) d ↔
    ∃ io, c.ioContext.take h = some io ∧
      ({ c with ioContext := io } : TcpClient E K).handle h = d :=
  Option.map_eq_some_iff

theorem step_handleResolve {host service : List Char} {error : ErrorCode} {results : E} :
    c.Step (.handleResolve host service error results) d ↔
      ∃ io, c.ioContext.finish (.resolve host service) = some io ∧
        ({ c with ioContext := io } : TcpClient E K).handleResolve error results = d :=
  Option.map_eq_some_iff

theorem step_handleConnect {results : E} {error : ErrorCode} :
    c.Step (.handleConnect results error) d ↔
      ∃ io, c.ioContext.finish (.connect results) = some io ∧
        ({ c with ioContext := io } : TcpClient E K).handleConnect error = d :=
  Option.map_eq_some_iff

theorem Tracked.step {e : Event E K} (he : e ≠ .reset) (hc : c.Tracked none)
    (hstep : c.Step e d) : d.Tracked none := by
  cases e with
  | asyncConnect host port k r =>
    obtain ⟨-, rfl⟩ | ⟨-, hstages, rfl⟩ := step_asyncConnect hstep
    · exact hc
    · have henter := hc.enter (f := .scheduleResolving) (by decide) hstages
      refine ⟨FlagMirror.post henter.mirrors, henter.one_stage, henter.stopping, ?_⟩
      simpa using hc.failed
  | asyncStop k r =>
    obtain ⟨-, rfl⟩ | ⟨-, hnot, rfl⟩ := step_asyncStop hstep
    · exact hc
    · have hidle : (c.flags.setFlag .stopSingaled).getFlag .stopping = false := by
        simpa [hnot] using hc.stopping
      have hup := Flags.mirror_setFlag_of_not_mem (a := .stopSingaled) hc.mirrors (by decide)
        (by decide)
      have hset := Flags.mirror_setFlag hup hidle
      refine ⟨FlagMirror.post hset, ?_, ?_, ?_⟩
      · simpa [stages] using hc.one_stage
      · simp
      · simpa using hc.failed
  | reset => exact absurd rfl he
  | run h =>
    obtain ⟨io, hio, rfl⟩ := step_run.mp hstep
    have ht := hc.take hio
    cases h with
    | asyncResolve host port => exact ht.asyncResolve host port
    | stop => exact (ht.clear (by decide)).resolveOnStopped
    | complete k error => exact ht.call
    | stopped k => exact ht.call
  | handleResolve host service error results =>
    obtain ⟨io, hio, rfl⟩ := step_handleResolve.mp hstep
    exact (hc.finish hio).handleResolve error results
  | handleConnect results error =>
    obtain ⟨io, hio, rfl⟩ := step_handleConnect.mp hstep
    exact (hc.finish hio).handleConnect error

theorem Tracked.of_run {as : List (Event E K)} (h : Run Step TcpClient.new as c)
    (hreset : .reset ∉ as) : c.Tracked none := by
  have hkeep : ∀ (s : TcpClient E K) e t, e ≠ .reset → s.Tracked none → Step s e t →
      t.Tracked none := fun _ _ _ he hs hstep => hs.step he hstep
  exact h.invariant_of_not_mem (I := fun s => s.Tracked none) hkeep hreset new

end Steps

end Eestv.Net.TcpClient
