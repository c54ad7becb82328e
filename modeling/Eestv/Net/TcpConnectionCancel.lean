import Eestv.Net.TcpConnectionEffect

/-! What a connection still does after a stop was signaled: it starts no operation, except
that a write that succeeds is followed by one of the bytes queued behind it. -/

namespace Eestv.Net.TcpConnection
open Runs IoContext

variable {R S K : Type} {c d : TcpConnection R S K}

def Logs (P : Entry (Handler K) Operation (Call K) → Prop) (c d : TcpConnection R S K) : Prop :=
  ∃ l, d.ioContext.log = c.ioContext.log ++ l ∧ ∀ e ∈ l, P e

def Orderly (cancelled : Prop) : Entry (Handler K) Operation (Call K) → Prop
  | .posted _ => True
  | .ran h => h = .cancelAsyncOperations → cancelled
  | .started _ => ¬ cancelled
  | .finished _ => True
  | .called _ => True

namespace Logs

variable {P : Entry (Handler K) Operation (Call K) → Prop}

theorem refl (c : TcpConnection R S K) : Logs P c c := by
  refine ⟨[], (List.append_nil _).symm, ?_⟩
  intro e he
  cases he

theorem trans {b : TcpConnection R S K} (h : Logs P b c) (h' : Logs P c d) : Logs P b d := by
  obtain ⟨l, hl, hP⟩ := h
  obtain ⟨l', hl', hP'⟩ := h'
  refine ⟨l ++ l', ?_, ?_⟩
  · rw [hl', hl, List.append_assoc]
  · intro e he
    rcases List.mem_append.mp he with he | he
    · exact hP e he
    · exact hP' e he

theorem single {x : Entry (Handler K) Operation (Call K)} (hx : P x)
    (hlog : d.ioContext.log = c.ioContext.log ++ [x]) : Logs P c d := by
  refine ⟨[x], hlog, ?_⟩
  intro e he
  rw [List.mem_singleton.mp he]
  exact hx

end Logs

theorem Logs.of_flags {P : Entry (Handler K) Operation (Call K) → Prop}
    (flags : Flags TcpConnectionState) (h : Logs P { c with flags := flags } d) : Logs P c d := h

variable {cancelled : Prop}

theorem resolveOnStopped_orderly : Logs (Orderly cancelled) c c.resolveOnStopped := by
  refine resolveOnStopped_induction (P := Logs (Orderly cancelled) c) (Logs.refl c) ?_
  intro k _ _
  exact Logs.single (x := .posted (.disconnected k)) trivial rfl

theorem asyncReceive_orderly [IoBuffer R]
    (h : cancelled → c.flags.getFlag .stopSignaled = true) :
    Logs (Orderly cancelled) c c.asyncReceive := by
  unfold asyncReceive
  dsimp only
  apply Logs.of_flags (c.flags.clearFlag .startReceiving)
  split
  · rename_i hstop
    have hnot : ¬ cancelled := by
      intro hc
      simp [h hc] at hstop
    split
    · rename_i p n _
      exact Logs.single (x := .started (.readSome p n)) hnot rfl
    · exact Logs.refl _
  · exact resolveOnStopped_orderly

theorem onFailure_orderly {f : TcpConnectionState} :
    Logs (Orderly cancelled) c (c.onFailure f) := by
  have hlost : ∀ d : TcpConnection R S K, Logs (Orderly cancelled) d
      { d with ioContext := d.ioContext.post .connectionLost } := by
    intro d
    exact Logs.single (x := .posted .connectionLost) trivial rfl
  unfold onFailure
  dsimp only
  apply Logs.of_flags (c.flags.clearFlag f)
  split <;> split
  · exact resolveOnStopped_orderly.trans (hlost _)
  · exact resolveOnStopped_orderly
  · exact hlost _
  · exact Logs.refl _

theorem onReceive_orderly [IoBuffer R] {error : ErrorCode} {n : ℕ}
    {callback : BufferCallback R} (h : cancelled → c.flags.getFlag .stopSignaled = true) :
    Logs (Orderly cancelled) c (c.onReceive error n callback) := by
  unfold onReceive
  split
  · exact onFailure_orderly
  · exact asyncReceive_orderly (c := { c with receiveBuffer := _ }) h

section Send

variable [IoBuffer S]

def queuedBehind (c : TcpConnection R S K) (n : ℕ) : Bool :=
  (usable (IoBuffer.getReadHead (IoBuffer.consume c.sendBuffer n).2)).isSome

theorem asyncSend_orderly
    (h : cancelled → usable (IoBuffer.getReadHead c.sendBuffer) = none) :
    Logs (Orderly cancelled) c c.asyncSend := by
  unfold asyncSend
  split
  · rename_i p n hsome
    refine Logs.single (x := .started (.write p (IoBuffer.load c.sendBuffer p n))) ?_ rfl
    intro hc
    rw [h hc] at hsome
    cases hsome
  · exact Logs.refl _

theorem onStartSending_orderly (h : cancelled → c.flags.getFlag .stopSignaled = true) :
    Logs (Orderly cancelled) c c.onStartSending := by
  unfold onStartSending
  dsimp only
  split
  · rename_i hstop
    apply Logs.of_flags ((c.flags.clearFlag .startSending).setFlag .sending)
    apply asyncSend_orderly
    intro hc
    simp [h hc] at hstop
  · apply Logs.of_flags (c.flags.clearFlag .startSending)
    exact resolveOnStopped_orderly

theorem onSend_orderly {error : ErrorCode} {n : ℕ}
    (h : cancelled → error.failed = true ∨ c.queuedBehind n = false) :
    Logs (Orderly cancelled) c (c.onSend error n) := by
  unfold onSend
  split
  · exact onFailure_orderly
  · rename_i hok
    have hsend : Logs (Orderly cancelled) c ({ c with
        sendBuffer := (IoBuffer.consume c.sendBuffer n).2 } : TcpConnection R S K).asyncSend := by
      refine asyncSend_orderly (c := { c with sendBuffer := _ }) ?_
      intro hc
      have hqueued := (h hc).resolve_left hok
      unfold queuedBehind at hqueued
      simpa using hqueued
    dsimp only
    split
    · exact hsend.trans resolveOnStopped_orderly
    · exact hsend

theorem onSend_starts {n : ℕ} (hsending : c.flags.getFlag .sending = true)
    (hqueued : c.queuedBehind n = true) :
    ∃ o, (c.onSend .success n).ioContext.log = c.ioContext.log ++ [.started o] := by
  obtain ⟨⟨p, m⟩, hsome⟩ := Option.isSome_iff_exists.mp hqueued
  simp [onSend, ErrorCode.failed, asyncSend, hsome, hsending]

end Send

theorem Tracked.flag_of_take [DecidableEq K] (hc : c.Tracked) {h : Handler K}
    {f : TcpConnectionState} {io : IoContext (Handler K) Operation (Call K)}
    (hio : c.ioContext.take h = some io) (hflag : h.flag = some f)
    (hf : f ∈ [.closing, .startSending, .sending]) : c.flags.getFlag f = true := by
  exact hc.mirrors.flag_of_work_pos hf (work_pos_of_posted (take_eq_some.mp hio).1 hflag)

theorem Tracked.flag_of_finish (hc : c.Tracked) {o : Operation}
    {f : TcpConnectionState} {io : IoContext (Handler K) Operation (Call K)}
    (hio : c.ioContext.finish o = some io) (hflag : o.flag = some f)
    (hf : f ∈ [.closing, .startSending, .sending]) : c.flags.getFlag f = true := by
  exact hc.mirrors.flag_of_work_pos hf (work_pos_of_operation (finish_eq_some.mp hio).1 hflag)

variable [IoBuffer R] [IoBuffer S]

theorem handle_orderly (h : cancelled → c.flags.getFlag .stopSignaled = true) (a : Handler K) :
    Logs (Orderly cancelled) c (c.handle a) := by
  cases a with
  | cancelAsyncOperations =>
    apply Logs.of_flags (c.flags.clearFlag .closing)
    exact resolveOnStopped_orderly
  | startReceiving => exact asyncReceive_orderly h
  | startSending => exact onStartSending_orderly h
  | connectionLost =>
    unfold handle
    dsimp only
    split
    · exact Logs.single (x := .called .connectionLost) trivial rfl
    · exact Logs.refl c
  | disconnected k => exact Logs.single (x := .called (.disconnected k)) trivial rfl

/-! ### Steps and runs -/

variable [DecidableEq K]

/-- A write succeeds after the cancellation with bytes queued behind it. -/
def Restarts (c : TcpConnection R S K) : Event R S K → Prop
  | .onSend _ _ error n =>
    .ran .cancelAsyncOperations ∈ c.ioContext.log ∧ error.failed = false ∧ c.queuedBehind n = true
  | _ => False

def StartsNothingAfterCancel (c : TcpConnection R S K) : Prop :=
  After (· = .ran .cancelAsyncOperations) (fun x => x.starts = false) c.ioContext.log

omit [IoBuffer R] [IoBuffer S] in
instance (c : TcpConnection R S K) : Decidable c.StartsNothingAfterCancel :=
  inferInstanceAs (Decidable (After _ _ _))

structure Cancelling (c : TcpConnection R S K) : Prop where
  tracked : c.Tracked
  ran : .ran .cancelAsyncOperations ∈ c.ioContext.log → c.flags.getFlag .stopSignaled = true
  nothing : c.StartsNothingAfterCancel

def CancelledBy (c : TcpConnection R S K) (e : Event R S K) : Prop :=
  .ran .cancelAsyncOperations ∈ c.ioContext.log ∨ e = .run .cancelAsyncOperations

theorem Cancelling.stop_of_cancelledBy (hc : c.Cancelling) {e : Event R S K}
    (hstep : c.Step e d) (h : c.CancelledBy e) : c.flags.getFlag .stopSignaled = true := by
  rcases h with hran | rfl
  · exact hc.ran hran
  · obtain ⟨io, hio, -⟩ := step_run.mp hstep
    exact hc.tracked.stopSignaled (hc.tracked.flag_of_take hio rfl (by decide))

theorem Cancelling.step_orderly (hc : c.Cancelling) {e : Event R S K} (hstep : c.Step e d)
    (he : ¬ c.Restarts e) : Logs (Orderly (c.CancelledBy e)) c d := by
  have hstop := hc.stop_of_cancelledBy hstep
  cases e with
  | setConnectionLostCallback b =>
    cases hstep
    exact Logs.refl c
  | setDataReceivedCallback b =>
    cases hstep
    exact Logs.refl c
  | callQueueSendFunction b =>
    cases hstep
    exact Logs.refl c
  | startSending =>
    cases hstep
    unfold startSending
    split
    · exact Logs.refl c
    · exact Logs.single (x := .posted .startSending) trivial rfl
  | startReceiving =>
    cases hstep
    unfold startReceiving
    split
    · exact Logs.refl c
    · exact Logs.single (x := .posted .startReceiving) trivial rfl
  | asyncStop k r =>
    obtain ⟨-, rfl⟩ | ⟨-, -, rfl⟩ := step_asyncStop hstep
    · exact Logs.refl _
    · exact Logs.single (x := .posted .cancelAsyncOperations) trivial rfl
  | run a =>
    obtain ⟨io, hio, rfl⟩ := step_run.mp hstep
    have htake : Logs (Orderly (c.CancelledBy (.run a : Event R S K))) c
        { c with ioContext := io } := by
      refine Logs.single (x := .ran a) ?_ (take_log hio)
      rintro rfl
      exact Or.inr rfl
    exact htake.trans (handle_orderly (c := { c with ioContext := io }) hstop a)
  | onReceive p n error bytes callback =>
    obtain ⟨-, io, hio, rfl⟩ := step_onReceive.mp hstep
    have hfinish : ∀ cancelled, Logs (Orderly cancelled) c { c with
        receiveBuffer := IoBuffer.store c.receiveBuffer p bytes
        ioContext := io } := by
      intro cancelled
      exact Logs.single (x := .finished _) trivial (finish_log hio)
    exact (hfinish _).trans (onReceive_orderly hstop)
  | onSend p bytes error n =>
    obtain ⟨-, io, hio, rfl⟩ := step_onSend.mp hstep
    have hfinish : ∀ cancelled, Logs (Orderly cancelled) c { c with ioContext := io } := by
      intro cancelled
      exact Logs.single (x := .finished _) trivial (finish_log hio)
    refine (hfinish _).trans (onSend_orderly (c := { c with ioContext := io }) ?_)
    intro hcancelled
    rcases hfailed : error.failed with _ | _
    · have hran := hcancelled.resolve_right nofun
      right
      exact Bool.eq_false_iff.mpr fun hqueued => he ⟨hran, hfailed, hqueued⟩
    · exact Or.inl rfl

theorem step_stopSignaled {e : Event R S K} (hstep : c.Step e d)
    (hstop : c.flags.getFlag .stopSignaled = true) : d.flags.getFlag .stopSignaled = true := by
  rcases he : e.accepts with _ | _
  · rwa [(step_effect he hstep).stopSignaled]
  · cases e with
    | asyncStop k r =>
      obtain rfl : r = true := he
      have h := step_asyncStop hstep
      simp [hstop] at h
    | _ => cases he

theorem Cancelling.step (hc : c.Cancelling) {e : Event R S K} (hstep : c.Step e d)
    (he : ¬ c.Restarts e) : d.Cancelling := by
  obtain ⟨l, hl, horderly⟩ := hc.step_orderly hstep he
  have hnew : ∀ x ∈ l, x = .ran .cancelAsyncOperations → c.CancelledBy e := by
    rintro x hx rfl
    exact horderly _ hx rfl
  have hstart : c.CancelledBy e → ∀ x ∈ l, x.starts = false := by
    intro h x hx
    have hx := horderly x hx
    cases x with
    | started o => exact absurd h hx
    | _ => rfl
  refine ⟨hc.tracked.step hstep, ?_, ?_⟩
  · intro hran
    rw [hl, List.mem_append] at hran
    apply step_stopSignaled hstep
    rcases hran with hran | hran
    · exact hc.ran hran
    · exact hc.stop_of_cancelledBy hstep (hnew _ hran rfl)
  · unfold StartsNothingAfterCancel
    rw [hl, after_append]
    refine ⟨hc.nothing, ?_, ?_⟩
    · apply List.pairwise_of_forall_mem_list
      intro x hx y hy heq
      exact hstart (hnew x hx heq) y hy
    · rintro ⟨x, hx, rfl⟩
      exact hstart (Or.inl hx)

omit [DecidableEq K] in
theorem new_cancelling (m n : ℕ) : (new m n : TcpConnection R S K).Cancelling := by
  refine ⟨new_tracked m n, nofun, ?_⟩
  exact List.Pairwise.nil

theorem Cancelling.not_restarts (hc : c.Cancelling) {e : Event R S K} (hstep : c.Step e d)
    (hd : d.StartsNothingAfterCancel) : ¬ c.Restarts e := by
  intro he
  cases e with
  | onSend p bytes error n =>
    obtain ⟨hran, hok, hqueued⟩ := he
    obtain ⟨-, io, hio, rfl⟩ := step_onSend.mp hstep
    have hsending := hc.tracked.flag_of_finish hio rfl (by decide)
    obtain rfl : error = .success := by
      cases error <;> first | rfl | contradiction
    obtain ⟨o, hlog⟩ := onSend_starts (c := { c with ioContext := io }) hsending hqueued
    have hran' : .ran .cancelAsyncOperations ∈ io.log := by
      rw [finish_log hio]
      exact List.mem_append_left _ hran
    unfold StartsNothingAfterCancel at hd
    rw [hlog, after_append] at hd
    have hbehind := hd.2.2 ⟨_, hran', rfl⟩
    have hnot := hbehind (.started o) (List.mem_singleton.mpr rfl)
    cases hnot
  | _ => exact he

/-- Nothing is started after the cancellation in exactly the runs in which no write that
ends with success after it has bytes queued behind it. -/
theorem starts_nothing_after_cancel_iff (m n : ℕ) (as : List (Event R S K)) :
    Always Step StartsNothingAfterCancel (new m n) as ↔
      Each Step (fun c e => ¬ c.Restarts e) (new m n) as :=
  always_iff_each (fun _ hc => hc.nothing) (fun _ _ _ hc hstep => hc.step hstep)
    (fun _ _ _ hc hstep => hc.not_restarts hstep) (new_cancelling m n)

/-- Two bytes are queued, one after the other, and the stop comes between. -/
theorem starts_after_cancel : ∃ c : TcpConnection LinearBuffer LinearBuffer ℕ,
    Run Step (new 4 4) [.callQueueSendFunction (.write [1]), .startSending, .run .startSending,
      .callQueueSendFunction (.write [2]), .asyncStop none true, .run .cancelAsyncOperations,
      .onSend 0 [1] .success 1] c ∧
    ¬ c.StartsNothingAfterCancel := by
  refine ⟨_, Run.iff_foldlM.mpr rfl, ?_⟩
  decide

end Eestv.Net.TcpConnection
