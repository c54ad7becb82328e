import Eestv.Library.FlagMirror
import Eestv.Library.Runs
import Eestv.Net.TcpConnection

/-! The connection's flags and the work that they stand for. Reads have no flag that is ever
set, and what a connection-lost handler does goes unrecorded: `receiving` and `lost` only name
the two kinds of work here. -/

namespace Eestv.Net.TcpConnection
open Runs

variable {R S K : Type} {c d : TcpConnection R S K}

def Handler.flag : Handler K → Option TcpConnectionState
  | .cancelAsyncOperations => some .closing
  | .startReceiving => some .startReceiving
  | .startSending => some .startSending
  | .connectionLost => some .lost
  | .disconnected _ => none

def Operation.flag : Operation → Option TcpConnectionState
  | .readSome _ _ => some .receiving
  | .write _ _ => some .sending

def work (c : TcpConnection R S K) (f : TcpConnectionState) : ℕ :=
  c.ioContext.work Handler.flag Operation.flag f

theorem work_of_take [DecidableEq K] {h : Handler K}
    {io : IoContext (Handler K) Operation (Call K)} (hio : c.ioContext.take h = some io)
    (f : TcpConnectionState) :
    ({ c with ioContext := io } : TcpConnection R S K).work f +
      (if h.flag = some f then 1 else 0) = c.work f :=
  IoContext.work_take hio

theorem work_of_finish {o : Operation} {io : IoContext (Handler K) Operation (Call K)}
    (hio : c.ioContext.finish o = some io) (f : TcpConnectionState) :
    ({ c with ioContext := io } : TcpConnection R S K).work f +
      (if o.flag = some f then 1 else 0) = c.work f :=
  IoContext.work_finish hio

theorem no_operation_of_work {f : TcpConnectionState} {o : Operation} (h : c.work f = 0)
    (ho : o.flag = some f) : o ∉ c.ioContext.operations := by
  intro hmem
  have hpos := IoContext.work_pos_of_operation (p := Handler.flag (K := K)) hmem ho
  unfold work at h
  omega

def Mirrors (c : TcpConnection R S K) (hand : Option TcpConnectionState) : Prop :=
  FlagMirror [.closing, .startSending, .sending, .startReceiving]
    [.closing, .startSending, .sending] Handler.flag Operation.flag c.flags.getFlag c.ioContext hand

theorem resolveOnStopped_of_busy (h : c.busy = true) : c.resolveOnStopped = c := if_pos h

theorem resolveOnStopped_of_none (h : c.disconnectedCallback = none) : c.resolveOnStopped = c := by
  unfold resolveOnStopped
  rw [h]
  split <;> rfl

theorem resolveOnStopped_of_some {k : K} (hbusy : c.busy = false)
    (h : c.disconnectedCallback = some k) :
    c.resolveOnStopped =
      { c with
        disconnectedCallback := none
        ioContext := c.ioContext.post (.disconnected k) } := by
  unfold resolveOnStopped
  rw [hbusy, h]
  rfl

theorem resolveOnStopped_induction {P : TcpConnection R S K → Prop} (hc : P c)
    (hpost : ∀ k, c.busy = false → c.disconnectedCallback = some k →
      P { c with
        disconnectedCallback := none
        ioContext := c.ioContext.post (.disconnected k) }) : P c.resolveOnStopped := by
  rcases hbusy : c.busy with _ | _
  · rcases hk : c.disconnectedCallback with _ | k
    · rwa [resolveOnStopped_of_none hk]
    · rw [resolveOnStopped_of_some hbusy hk]
      exact hpost k hbusy hk
  · rwa [resolveOnStopped_of_busy hbusy]

@[simp] theorem resolveOnStopped_flags : c.resolveOnStopped.flags = c.flags :=
  resolveOnStopped_induction (P := fun d => d.flags = c.flags) rfl fun _ _ _ => rfl

@[simp] theorem resolveOnStopped_work (f : TcpConnectionState) :
    c.resolveOnStopped.work f = c.work f := by
  refine resolveOnStopped_induction (P := fun d => d.work f = c.work f) rfl ?_
  intro k _ _
  exact IoContext.work_post

theorem onFailure_flags (f : TcpConnectionState) :
    (c.onFailure f).flags = c.flags.clearFlag f := by
  unfold onFailure
  dsimp only
  split <;> split <;> simp only [resolveOnStopped_flags]

@[simp] theorem asyncReceive_flags [IoBuffer R] :
    c.asyncReceive.flags = c.flags.clearFlag .startReceiving := by
  unfold asyncReceive
  dsimp only
  split
  · split <;> rfl
  · exact resolveOnStopped_flags

theorem asyncSend_flags [IoBuffer S] : c.asyncSend.flags =
    if usable (IoBuffer.getReadHead c.sendBuffer) = none then c.flags.clearFlag .sending
    else c.flags := by
  unfold asyncSend
  split
  · rename_i heq
    rw [heq]
    rfl
  · rename_i heq
    rw [heq]
    rfl

theorem onReceive_flags [IoBuffer R] {error : ErrorCode} {n : ℕ} {callback : BufferCallback R} :
    (c.onReceive error n callback).flags =
      c.flags.clearFlag (if error.failed then .receiving else .startReceiving) := by
  unfold onReceive
  split
  · exact onFailure_flags .receiving
  · exact asyncReceive_flags

theorem onSend_flags [IoBuffer S] {error : ErrorCode} {n : ℕ} : (c.onSend error n).flags =
    if error.failed ∨ usable (IoBuffer.getReadHead (IoBuffer.consume c.sendBuffer n).2) = none then
      c.flags.clearFlag .sending
    else c.flags := by
  unfold onSend
  split
  · rename_i herror
    simp only [herror, true_or, if_true, onFailure_flags]
  · rename_i herror
    dsimp only
    have hflags := asyncSend_flags (c := ({ c with
      sendBuffer := (IoBuffer.consume c.sendBuffer n).2 } : TcpConnection R S K))
    split <;> simp [herror, hflags]

theorem onStartSending_getFlag [IoBuffer S] (f : TcpConnectionState) :
    c.onStartSending.flags.getFlag f =
      if f = .sending ∧ c.flags.getFlag .stopSignaled = false then
        (usable (IoBuffer.getReadHead c.sendBuffer)).isSome
      else c.flags.getFlag f && f != .startSending := by
  unfold onStartSending
  dsimp only
  split
  · rename_i hstop
    rw [asyncSend_flags]
    dsimp only
    rcases usable (IoBuffer.getReadHead c.sendBuffer) with _ | w
    · cases f <;> simp_all
    · cases f <;> simp_all
  · cases f <;> simp_all

namespace Mirrors

theorem update {f : TcpConnectionState} (hc : c.Mirrors (some f)) :
    Mirrors { c with flags := c.flags.clearFlag f } none :=
  Flags.mirror_clearFlag hc

theorem resolveOnStopped (hc : c.Mirrors none) : c.resolveOnStopped.Mirrors none := by
  refine resolveOnStopped_induction (P := fun d => d.Mirrors none) hc ?_
  intro k _ _
  exact FlagMirror.post hc

theorem onFailure {f : TcpConnectionState}
    (hc : Mirrors { c with flags := c.flags.clearFlag f } none) :
    (c.onFailure f).Mirrors none := by
  have hlost : ∀ d : TcpConnection R S K, d.Mirrors none →
      Mirrors { d with ioContext := d.ioContext.post .connectionLost } none := by
    intro d hd
    exact FlagMirror.post (FlagMirror.grasp hd (by decide) (by decide))
  unfold TcpConnection.onFailure
  dsimp only
  split <;> split
  · exact hlost _ hc.resolveOnStopped
  · exact hc.resolveOnStopped
  · exact hlost _ hc
  · exact hc

theorem asyncReceive [IoBuffer R]
    (hc : Mirrors { c with flags := c.flags.clearFlag .startReceiving } none) :
    c.asyncReceive.Mirrors none := by
  unfold TcpConnection.asyncReceive
  dsimp only
  split
  · split
    · exact FlagMirror.start (FlagMirror.grasp hc (by decide) (by decide))
    · exact hc
  · exact hc.resolveOnStopped

theorem asyncSend [IoBuffer S] (hc : c.Mirrors (some .sending)) :
    c.asyncSend.Mirrors none := by
  unfold TcpConnection.asyncSend
  split
  · exact FlagMirror.start hc
  · exact hc.update

theorem onReceive [IoBuffer R] (hc : c.Mirrors (some .receiving)) (error : ErrorCode) (n : ℕ)
    (callback : BufferCallback R) : (c.onReceive error n callback).Mirrors none := by
  have hdrop : c.Mirrors none := FlagMirror.drop hc (by decide) (by decide)
  have hclear : ∀ f, f = .receiving ∨ f = .startReceiving →
      Mirrors { c with flags := c.flags.clearFlag f } none := by
    intro f hf
    exact Flags.mirror_clearFlag_of_not_mem hdrop (by rcases hf with rfl | rfl <;> decide)
  unfold TcpConnection.onReceive
  split
  · exact (hclear .receiving (Or.inl rfl)).onFailure
  · exact asyncReceive (hclear .startReceiving (Or.inr rfl))

theorem onStartSending [IoBuffer S] (hc : c.Mirrors (some .startSending))
    (hsending : c.flags.getFlag .sending = false) : c.onStartSending.Mirrors none := by
  unfold TcpConnection.onStartSending
  dsimp only
  split
  · apply asyncSend
    exact Flags.mirror_setFlag hc.update (by simpa using hsending)
  · exact hc.update.resolveOnStopped

theorem onSend [IoBuffer S] (hc : c.Mirrors (some .sending)) (error : ErrorCode) (n : ℕ) :
    (c.onSend error n).Mirrors none := by
  unfold TcpConnection.onSend
  split
  · exact hc.update.onFailure
  · have hsend : ({ c with sendBuffer := (IoBuffer.consume c.sendBuffer n).2 } :
        TcpConnection R S K).asyncSend.Mirrors none := asyncSend hc
    dsimp only
    split
    · exact hsend.resolveOnStopped
    · exact hsend

end Mirrors

/-! ### The invariant of the flags -/

structure Tracked (c : TcpConnection R S K) : Prop where
  mirrors : c.Mirrors none
  one_sender : c.flags.getFlag .startSending = false ∨ c.flags.getFlag .sending = false
  receiving : c.flags.getFlag .receiving = false
  stopSignaled : c.flags.getFlag .closing = true → c.flags.getFlag .stopSignaled = true

theorem Tracked.busy_of_no_work (hc : c.Tracked) (hwork : ∀ f, c.work f = 0) :
    c.busy = false := by
  have hclosing := hc.mirrors.flag_of_work_eq_zero (f := .closing) (by decide) (hwork _)
  have hstart := hc.mirrors.flag_of_work_eq_zero (f := .startSending) (by decide) (hwork _)
  have hsending := hc.mirrors.flag_of_work_eq_zero (f := .sending) (by decide) (hwork _)
  have hreceive := hc.mirrors.flag_of_work_eq_zero (f := .startReceiving) (by decide) (hwork _)
  simp only [busy, hclosing, hstart, hsending, hreceive, hc.receiving, Bool.or_false]

variable [IoBuffer R] [IoBuffer S]

theorem new_tracked (m n : ℕ) : (new m n : TcpConnection R S K).Tracked := by
  constructor
  · exact FlagMirror.of_clear Flags.getFlag_empty fun _ => rfl
  · exact Or.inl (Flags.getFlag_empty _)
  · exact Flags.getFlag_empty _
  · simp [new]

section Steps

variable [DecidableEq K]

theorem step_asyncStop {k : Option K} {r : Bool} (hstep : c.Step (.asyncStop k r) d) :
    r = false ∧ d = c ∨ r = true ∧ c.flags.getFlag .stopSignaled = false ∧ d = { c with
      flags := (c.flags.setFlag .stopSignaled).setFlag .closing
      disconnectedCallback := k
      ioContext := c.ioContext.post .cancelAsyncOperations } := by
  have h := returned_iff.mp hstep
  unfold asyncStop at h
  split at h
  · cases h
    exact Or.inl ⟨rfl, rfl⟩
  · rename_i hnot
    cases h
    exact Or.inr ⟨rfl, by simpa using hnot, rfl⟩

theorem step_run {h : Handler K} : c.Step (.run h) d ↔
    ∃ io, c.ioContext.take h = some io ∧
      ({ c with ioContext := io } : TcpConnection R S K).handle h = d :=
  Option.map_eq_some_iff

theorem step_onReceive {p n : ℕ} {error : ErrorCode} {bytes : List UInt8}
    {callback : BufferCallback R} : c.Step (.onReceive p n error bytes callback) d ↔
      bytes.length ≤ n ∧ ∃ io, c.ioContext.finish (.readSome p n) = some io ∧
        ({ c with
          receiveBuffer := IoBuffer.store c.receiveBuffer p bytes
          ioContext := io } : TcpConnection R S K).onReceive error bytes.length callback = d :=
  Option.ite_none_right_eq_some.trans (and_congr_right fun _ => Option.map_eq_some_iff)

theorem step_onSend {p n : ℕ} {error : ErrorCode} {bytes : List UInt8} :
    c.Step (.onSend p bytes error n) d ↔
      (error.failed ∨ n = bytes.length) ∧ ∃ io, c.ioContext.finish (.write p bytes) = some io ∧
        ({ c with ioContext := io } : TcpConnection R S K).onSend error n = d :=
  Option.ite_none_right_eq_some.trans (and_congr_right fun _ => Option.map_eq_some_iff)

theorem Tracked.step (hc : c.Tracked) {e : Event R S K} (hstep : c.Step e d) : d.Tracked := by
  obtain ⟨hm, hone, hrecv, hstop⟩ := hc
  cases e with
  | setConnectionLostCallback b =>
    cases hstep
    exact ⟨hm, hone, hrecv, hstop⟩
  | setDataReceivedCallback b =>
    cases hstep
    exact ⟨hm, hone, hrecv, hstop⟩
  | callQueueSendFunction b =>
    cases hstep
    exact ⟨hm, hone, hrecv, hstop⟩
  | startSending =>
    cases hstep
    unfold TcpConnection.startSending
    split
    · exact ⟨hm, hone, hrecv, hstop⟩
    · rename_i h
      simp only [Bool.or_eq_true, not_or, Bool.not_eq_true] at h
      have hset := Flags.mirror_setFlag hm h.1.1
      refine ⟨FlagMirror.post hset, ?_, ?_, ?_⟩
      · simp [h.1.2]
      · simpa using hrecv
      · simpa using hstop
  | startReceiving =>
    cases hstep
    unfold TcpConnection.startReceiving
    split
    · exact ⟨hm, hone, hrecv, hstop⟩
    · rename_i h
      simp only [Bool.or_eq_true, not_or, Bool.not_eq_true] at h
      have hset := Flags.mirror_setFlag hm h.1.1
      refine ⟨FlagMirror.post hset, ?_, ?_, ?_⟩
      · simpa using hone
      · simpa using hrecv
      · simpa using hstop
  | asyncStop k r =>
    obtain ⟨-, rfl⟩ | ⟨-, hns, rfl⟩ := step_asyncStop hstep
    · exact ⟨hm, hone, hrecv, hstop⟩
    · have hclosing : (c.flags.setFlag .stopSignaled).getFlag .closing = false := by
        simpa [hns] using hstop
      have hup := Flags.mirror_setFlag_of_not_mem (a := .stopSignaled) hm (by decide) (by decide)
      have hset := Flags.mirror_setFlag hup hclosing
      refine ⟨FlagMirror.post hset, ?_, ?_, ?_⟩
      · simpa using hone
      · simpa using hrecv
      · simp
  | run h =>
    obtain ⟨io, hio, rfl⟩ := step_run.mp hstep
    have ht : Mirrors { c with ioContext := io } h.flag := FlagMirror.take hm hio
    cases h with
    | cancelAsyncOperations =>
      refine ⟨ht.update.resolveOnStopped, ?_, ?_, ?_⟩
      · simpa [handle, cancelAsyncOperations] using hone
      · simpa [handle, cancelAsyncOperations] using hrecv
      · simp [handle, cancelAsyncOperations]
    | startReceiving =>
      refine ⟨ht.update.asyncReceive, ?_, ?_, ?_⟩
      · simpa [handle] using hone
      · simpa [handle] using hrecv
      · simpa [handle] using hstop
    | startSending =>
      -- the handler's own flag is still set, so no write is outstanding
      have hset : c.flags.getFlag .startSending = true := FlagMirror.flag_of_hand ht (by decide)
      have hsend : c.flags.getFlag .sending = false := by
        rcases hone with h | h
        · rw [hset] at h
          cases h
        · exact h
      refine ⟨ht.onStartSending hsend, ?_, ?_, ?_⟩
      · simp [handle, onStartSending_getFlag]
      · simpa [handle, onStartSending_getFlag] using hrecv
      · simpa [handle, onStartSending_getFlag] using hstop
    | connectionLost =>
      have hdrop := FlagMirror.drop ht (by decide) (by decide)
      unfold handle
      dsimp only
      split
      · exact ⟨FlagMirror.call hdrop, hone, hrecv, hstop⟩
      · exact ⟨hdrop, hone, hrecv, hstop⟩
    | disconnected k => exact ⟨FlagMirror.call ht, hone, hrecv, hstop⟩
  | onReceive p n error bytes callback =>
    obtain ⟨-, io, hio, rfl⟩ := step_onReceive.mp hstep
    have ht : Mirrors { c with
        receiveBuffer := IoBuffer.store c.receiveBuffer p bytes
        ioContext := io } (some .receiving) := FlagMirror.finish hm hio
    refine ⟨ht.onReceive _ _ _, ?_, ?_, ?_⟩
    · rw [onReceive_flags]
      split <;> simpa using hone
    · rw [onReceive_flags]
      split <;> simp [hrecv]
    · rw [onReceive_flags]
      split <;> simpa using hstop
  | onSend p bytes error n =>
    obtain ⟨-, io, hio, rfl⟩ := step_onSend.mp hstep
    have ht : Mirrors { c with ioContext := io } (some .sending) := FlagMirror.finish hm hio
    refine ⟨ht.onSend _ _, ?_, ?_, ?_⟩
    · rw [onSend_flags]
      split
      · simp
      · exact hone
    · rw [onSend_flags]
      split <;> simp [hrecv]
    · rw [onSend_flags]
      split <;> simpa using hstop

end Steps

end Eestv.Net.TcpConnection
