import Eestv.Net.TcpClientWork

/-! Whether the stop callback is the last word. A connect that fails after the handler of the
stop has run releases the callback before it posts the completion; `handle_resolve` does it the
other way around. -/

namespace Eestv.Net.TcpClient
open Runs IoContext

variable {E K : Type} {c d : TcpClient E K}

def Releases (x : Entry (Handler K) (Operation E) (Call K)) : Prop :=
  ∃ k, x = .posted (.stopped k)

def Completes (x : Entry (Handler K) (Operation E) (Call K)) : Prop :=
  ∃ k error, x = .posted (.complete k error) ∨ error.failed = false ∧ x = .called (.complete k error)

def StopIsLast (c : TcpClient E K) : Prop :=
  After Releases (fun x => ¬ Completes x) c.ioContext.log

def Released (c : TcpClient E K) : Prop := ∃ x ∈ c.ioContext.log, Releases x

structure Settled (c : TcpClient E K) : Prop where
  stopSingaled : c.flags.getFlag .stopSingaled = true
  onStopped : c.onStopped = none
  stopping : c.flags.getFlag .stopping = false
  resolving : c.flags.getFlag .resolving = false
  connecting : c.flags.getFlag .connecting = false

structure Ordered (c : TcpClient E K) : Prop where
  last : c.StopIsLast
  settled : c.Released → c.Settled

/-- The connect fails after the handler of the stop has run, and both callbacks are stored. -/
def Overtakes (c : TcpClient E K) : Event E K → Prop
  | .handleConnect _ error => error.failed = true ∧ c.flags.getFlag .stopSingaled = true ∧
    c.flags.getFlag .stopping = false ∧ c.onStopped ≠ none ∧ c.onConnectionComplete ≠ none
  | _ => False

/-! ### One entry -/

theorem not_releases_of_not_posted {x : Entry (Handler K) (Operation E) (Call K)}
    (hx : ∀ h, x ≠ .posted h) : ¬ Releases x := by
  rintro ⟨k, rfl⟩
  exact hx _ rfl

theorem not_completes_of_stopped (k : K) :
    ¬ Completes (.posted (.stopped k) : Entry (Handler K) (Operation E) (Call K)) := by
  rintro ⟨j, error, hx | ⟨-, hx⟩⟩ <;> cases hx

namespace Ordered

theorem new : (new : TcpClient E K).Ordered := by
  refine ⟨List.Pairwise.nil, ?_⟩
  rintro ⟨x, hmem, -⟩
  cases hmem

theorem extend {x : Entry (Handler K) (Operation E) (Call K)} (hc : c.Ordered)
    (hlog : d.ioContext.log = c.ioContext.log ++ [x]) (hrelease : ¬ Releases x)
    (hcomplete : c.Released → ¬ Completes x) (hsettled : c.Settled → d.Settled) : d.Ordered := by
  constructor
  · unfold StopIsLast
    rw [hlog]
    exact after_concat.mpr ⟨hc.last, hcomplete⟩
  · rintro ⟨y, hmem, hy⟩
    rw [hlog] at hmem
    rcases List.mem_append.mp hmem with hold | hnew
    · exact hsettled (hc.settled ⟨y, hold, hy⟩)
    · cases List.mem_singleton.mp hnew
      exact absurd hy hrelease

theorem clear {f : TcpClientState} (hc : c.Ordered) (hf : f ≠ .stopSingaled) :
    Ordered { c with flags := c.flags.clearFlag f } := by
  refine ⟨hc.last, fun h => ?_⟩
  have hs := hc.settled h
  constructor
  · simpa [hf] using hs.stopSingaled
  · exact hs.onStopped
  · simp [hs.stopping]
  · simp [hs.resolving]
  · simp [hs.connecting]

theorem not_released (hc : c.Ordered) (h : ¬ c.Settled) : ¬ c.Released := mt hc.settled h

theorem resolveOnStopped (hc : c.Ordered) (hstop : c.flags.getFlag .stopSingaled = true) :
    c.resolveOnStopped.Ordered := by
  unfold TcpClient.resolveOnStopped
  split
  · rename_i hidle
    simp only [Bool.and_eq_true, Bool.not_eq_true'] at hidle
    obtain ⟨⟨⟨hstopping, -⟩, hresolving⟩, hconnecting⟩ := hidle
    split
    · rename_i k _
      refine ⟨?_, fun _ => ⟨hstop, rfl, hstopping, hresolving, hconnecting⟩⟩
      exact after_concat.mpr ⟨hc.last, fun _ => not_completes_of_stopped k⟩
    · exact hc
  · exact hc

theorem postCompletion {error : ErrorCode} (hc : c.Ordered) (hnot : ¬ c.Released) :
    (c.postCompletion error).Ordered := by
  refine postCompletion_induction (P := Ordered) hc ?_
  intro k _
  refine hc.extend (d := { c with
    onConnectionComplete := none
    ioContext := c.ioContext.post (.complete k error) }) rfl ?_ (fun h => absurd h hnot) ?_
  · rintro ⟨j, hj⟩
    cases hj
  · exact fun hs => ⟨hs.stopSingaled, hs.onStopped, hs.stopping, hs.resolving, hs.connecting⟩

theorem start {o : Operation E} {flags : Flags TcpClientState} (hc : c.Ordered)
    (hnot : ¬ c.Settled) :
    Ordered { c with flags := flags, ioContext := c.ioContext.start o } := by
  refine hc.extend (d := { c with flags := flags, ioContext := c.ioContext.start o }) rfl ?_ ?_
    (fun h => absurd h hnot)
  · exact not_releases_of_not_posted fun _ => by simp
  · exact fun h => absurd (hc.settled h) hnot

theorem asyncResolve (hc : c.Ordered) (host : List Char) (port : ℤ) :
    (c.asyncResolve host port).Ordered := by
  have hclear := hc.clear (f := .scheduleResolving) (by decide)
  unfold TcpClient.asyncResolve
  dsimp only
  split
  · exact hclear.resolveOnStopped ‹_›
  · rename_i hstop
    exact hclear.start fun hs => hstop hs.stopSingaled

theorem not_released_of_hand {f : TcpClientState} (hc : c.Ordered) (ht : c.Tracked (some f))
    (hf : f = .resolving ∨ f = .connecting) : ¬ c.Released := by
  have hflag := ht.mirrors.flag_of_hand (f := f) (by rcases hf with rfl | rfl <;> decide)
  apply hc.not_released
  intro hs
  rcases hf with rfl | rfl
  · rw [hs.resolving] at hflag
    cases hflag
  · rw [hs.connecting] at hflag
    cases hflag

theorem handleResolve (hc : c.Ordered) (ht : c.Tracked (some .resolving)) (error : ErrorCode)
    (results : E) : (c.handleResolve error results).Ordered := by
  have hnot := hc.not_released_of_hand ht (Or.inl rfl)
  rcases herror : error.failed with _ | _
  · have hstart : Ordered { c with
        flags := (c.flags.setFlag .connecting).clearFlag .resolving
        ioContext := c.ioContext.start (.connect results) } := by
      refine hc.start fun hs => ?_
      have hflag := ht.mirrors.flag_of_hand (by decide)
      rw [hs.resolving] at hflag
      cases hflag
    rw [handleResolve_of_success herror]
    split
    · exact hstart.resolveOnStopped (by simpa)
    · exact hstart
  · have hpost : Ordered (({ c with flags := c.flags.clearFlag .resolving } :
        TcpClient E K).postCompletion error) :=
      (hc.clear (f := .resolving) (by decide)).postCompletion hnot
    rw [handleResolve_of_failed herror]
    split
    · exact hpost.resolveOnStopped (by simpa)
    · exact hpost

end Ordered

theorem resolveOnStopped_of_stopping (h : c.flags.getFlag .stopping = true) :
    c.resolveOnStopped = c := by
  unfold resolveOnStopped
  rw [h]
  rfl

theorem resolveOnStopped_of_none (h : c.onStopped = none) : c.resolveOnStopped = c := by
  unfold resolveOnStopped
  rw [h]
  split <;> rfl

theorem resolveOnStopped_of_some {k : K} (hstopping : c.flags.getFlag .stopping = false)
    (hstages : stages c.flags = 0) (hk : c.onStopped = some k) :
    c.resolveOnStopped =
      { c with
        onStopped := none
        ioContext := c.ioContext.post (.stopped k) } := by
  simp only [stages, Nat.add_eq_zero_iff, Bool.toNat_eq_zero] at hstages
  unfold resolveOnStopped
  simp only [hstopping, hstages, hk, Bool.not_false, Bool.and_self, if_true]

theorem postCompletion_of_none {error : ErrorCode} (h : c.onConnectionComplete = none) :
    c.postCompletion error = c := by
  unfold postCompletion
  rw [h]

theorem postCompletion_of_some {error : ErrorCode} {k : K} (hk : c.onConnectionComplete = some k) :
    c.postCompletion error =
      { c with
        onConnectionComplete := none
        ioContext := c.ioContext.post (.complete k error) } := by
  unfold postCompletion
  rw [hk]

theorem Ordered.resolvePost {error : ErrorCode} (hc : c.Ordered) (hbefore : ¬ c.Released)
    (hstop : c.flags.getFlag .stopSingaled = true)
    (hnot : c.flags.getFlag .stopping = false → c.onStopped ≠ none →
      c.onConnectionComplete = none) : (c.resolveOnStopped.postCompletion error).Ordered := by
  rcases hstopping : c.flags.getFlag .stopping with _ | _
  · by_cases hk : c.onStopped = none
    · rw [resolveOnStopped_of_none hk]
      exact hc.postCompletion hbefore
    · rw [postCompletion_of_none]
      · exact hc.resolveOnStopped hstop
      · rw [resolveOnStopped_callback]
        exact hnot hstopping hk
  · rw [resolveOnStopped_of_stopping hstopping]
    exact hc.postCompletion hbefore

theorem not_stopIsLast_resolvePost {error : ErrorCode}
    (hstopping : c.flags.getFlag .stopping = false) (hstages : stages c.flags = 0)
    (hstopped : c.onStopped ≠ none) (hcomplete : c.onConnectionComplete ≠ none) :
    ¬ (c.resolveOnStopped.postCompletion error).StopIsLast := by
  obtain ⟨k, hk⟩ := Option.ne_none_iff_exists'.mp hstopped
  obtain ⟨j, hj⟩ := Option.ne_none_iff_exists'.mp hcomplete
  rw [resolveOnStopped_of_some hstopping hstages hk, postCompletion_of_some
    (c := { c with onStopped := none, ioContext := c.ioContext.post (.stopped k) }) hj]
  intro hlast
  have hbehind := (after_concat.mp hlast).2 ⟨.posted (.stopped k), ?_, k, rfl⟩
  · exact hbehind ⟨j, error, Or.inl rfl⟩
  · exact List.mem_append_right _ (List.mem_singleton.mpr rfl)

theorem Ordered.callCompletion {error : ErrorCode} (hc : c.Ordered)
    (hstop : ¬ c.flags.getFlag .stopSingaled = true) : (c.callCompletion error).Ordered := by
  unfold TcpClient.callCompletion
  split
  · rename_i k _
    refine hc.extend (x := .called (.complete k error)) rfl ?_
      (fun h => absurd (hc.settled h).stopSingaled hstop) fun hs => absurd hs.stopSingaled hstop
    exact not_releases_of_not_posted fun _ => by simp
  · exact hc

theorem Ordered.handleConnect (hc : c.Ordered) (ht : c.Tracked (some .connecting)) (results : E)
    (error : ErrorCode) (hnot : ¬ c.Overtakes (.handleConnect results error)) :
    (c.handleConnect error).Ordered := by
  have hbefore := hc.not_released_of_hand ht (Or.inr rfl)
  have hclear := hc.clear (f := .connecting) (by decide)
  rcases herror : error.failed with _ | _
  · rw [handleConnect_of_success herror]
    split
    · exact hclear.resolveOnStopped (by simpa)
    · rename_i hstop
      exact hclear.callCompletion (by simpa using hstop)
  · rw [handleConnect_of_failed herror]
    split
    · rename_i hstop
      refine hclear.resolvePost hbefore (by simpa) fun hstopping hstopped => ?_
      by_contra hcomplete
      exact hnot ⟨herror, hstop, by simpa using hstopping, hstopped, hcomplete⟩
    · exact hclear.postCompletion hbefore

theorem not_stopIsLast_of_overtakes (results : E) (error : ErrorCode)
    (ht : c.Tracked (some .connecting)) (h : c.Overtakes (.handleConnect results error)) :
    ¬ (c.handleConnect error).StopIsLast := by
  obtain ⟨herror, hstop, hstopping, hstopped, hcomplete⟩ := h
  rw [handleConnect_of_failed herror, if_pos hstop]
  have hstages := stages_clear ht (Or.inr (Or.inr rfl))
  exact not_stopIsLast_resolvePost (c := { c with flags := c.flags.clearFlag .connecting })
    (by simpa using hstopping) hstages hstopped hcomplete

section Steps

variable [DecidableEq E] [DecidableEq K]

omit [DecidableEq E] in
theorem Ordered.take {h : Handler K} {io : IoContext (Handler K) (Operation E) (Call K)}
    (hc : c.Ordered) (hio : c.ioContext.take h = some io) :
    Ordered { c with ioContext := io } := by
  refine hc.extend (take_log hio) (not_releases_of_not_posted fun _ => by simp) ?_ ?_
  · rintro - ⟨k, error, hx | ⟨-, hx⟩⟩ <;> cases hx
  · exact fun hs => ⟨hs.stopSingaled, hs.onStopped, hs.stopping, hs.resolving, hs.connecting⟩

omit [DecidableEq K] in
theorem Ordered.finish {o : Operation E} {io : IoContext (Handler K) (Operation E) (Call K)}
    (hc : c.Ordered) (hio : c.ioContext.finish o = some io) :
    Ordered { c with ioContext := io } := by
  refine hc.extend (finish_log hio) (not_releases_of_not_posted fun _ => by simp) ?_ ?_
  · rintro - ⟨k, error, hx | ⟨-, hx⟩⟩ <;> cases hx
  · exact fun hs => ⟨hs.stopSingaled, hs.onStopped, hs.stopping, hs.resolving, hs.connecting⟩

omit [DecidableEq E] [DecidableEq K] in
theorem Ordered.handle {h : Handler K} (hc : c.Ordered)
    (hstop : h = .stop → c.flags.getFlag .stopSingaled = true)
    (hfailed : ∀ k error, h = .complete k error → error.failed = true) :
    (c.handle h).Ordered := by
  cases h with
  | asyncResolve host port => exact hc.asyncResolve host port
  | stop =>
    have hclear := hc.clear (f := .stopping) (by decide)
    exact hclear.resolveOnStopped (by simpa using hstop rfl)
  | complete k error =>
    refine hc.extend (x := .called (.complete k error)) rfl
      (not_releases_of_not_posted fun _ => by simp) ?_ ?_
    · rintro - ⟨j, e, hx | ⟨he, hx⟩⟩
      · cases hx
      · cases hx
        rw [hfailed k error rfl] at he
        cases he
    · exact fun hs => ⟨hs.stopSingaled, hs.onStopped, hs.stopping, hs.resolving, hs.connecting⟩
  | stopped k =>
    refine hc.extend (x := .called (.stopped k)) rfl
      (not_releases_of_not_posted fun _ => by simp) ?_ ?_
    · rintro - ⟨j, e, hx | ⟨-, hx⟩⟩ <;> cases hx
    · exact fun hs => ⟨hs.stopSingaled, hs.onStopped, hs.stopping, hs.resolving, hs.connecting⟩

theorem Ordered.step {e : Event E K} (he : e ≠ .reset) (hc : c.Ordered) (ht : c.Tracked none)
    (hnot : ¬ c.Overtakes e) (hstep : c.Step e d) : d.Ordered := by
  cases e with
  | asyncConnect host port k r =>
    obtain ⟨-, rfl⟩ | ⟨-, -, rfl⟩ := step_asyncConnect hstep
    · exact hc
    · refine hc.extend (x := .posted (.asyncResolve host port)) rfl ?_ ?_ ?_
      · rintro ⟨j, hj⟩
        cases hj
      · rintro - ⟨j, e, hx | ⟨-, hx⟩⟩ <;> cases hx
      · intro hs
        constructor
        · simp [hs.stopSingaled]
        · exact hs.onStopped
        · simp [hs.stopping]
        · simp [hs.resolving]
        · simp [hs.connecting]
  | asyncStop k r =>
    obtain ⟨-, rfl⟩ | ⟨-, hstop, rfl⟩ := step_asyncStop hstep
    · exact hc
    · refine hc.extend (x := .posted .stop) rfl ?_ ?_ fun hs => ?_
      · rintro ⟨j, hj⟩
        cases hj
      · rintro - ⟨j, e, hx | ⟨-, hx⟩⟩ <;> cases hx
      · rw [hs.stopSingaled] at hstop
        cases hstop
  | reset => exact absurd rfl he
  | run h =>
    obtain ⟨io, hio, rfl⟩ := step_run.mp hstep
    have hmem := (take_eq_some.mp hio).1
    refine (hc.take hio).handle ?_ ?_
    · rintro rfl
      apply ht.stopping
      exact ht.mirrors.flag_of_work_pos (by decide) (work_pos_of_posted hmem rfl)
    · rintro k error rfl
      exact ht.failed k error hmem
  | handleResolve host service error results =>
    obtain ⟨io, hio, rfl⟩ := step_handleResolve.mp hstep
    exact (hc.finish hio).handleResolve (ht.finish hio) error results
  | handleConnect results error =>
    obtain ⟨io, hio, rfl⟩ := step_handleConnect.mp hstep
    exact (hc.finish hio).handleConnect (ht.finish hio) results error hnot

theorem not_overtakes_of_stopIsLast {e : Event E K} (ht : c.Tracked none) (hstep : c.Step e d)
    (hlast : d.StopIsLast) : ¬ c.Overtakes e := by
  cases e with
  | handleConnect results error =>
    obtain ⟨io, hio, rfl⟩ := step_handleConnect.mp hstep
    intro hover
    exact not_stopIsLast_of_overtakes results error (ht.finish hio) hover hlast
  | _ => exact id

/-- In a run without a reset every completion of an attempt comes before the stop callback,
exactly if no connect fails between the handler of the stop and this callback while a completion
is stored. -/
theorem stopIsLast_iff (as : List (Event E K)) (hreset : .reset ∉ as) :
    Always Step StopIsLast new as ↔ Each Step (fun c e => ¬ Overtakes c e) new as := by
  have hok : ∀ e ∈ as, e ≠ .reset := fun _ he => ne_of_mem_of_not_mem he hreset
  refine always_iff_each_of_forall (I := fun c => Tracked c none ∧ Ordered c)
    (fun c hc => hc.2.last) ?_ ?_ hok ⟨Tracked.new, Ordered.new⟩
  · rintro c e d he ⟨ht, hc⟩ hstep hnot
    exact ⟨ht.step he hstep, hc.step he ht hnot hstep⟩
  · rintro c e d _ ⟨ht, -⟩ hstep hlast
    exact not_overtakes_of_stopIsLast ht hstep hlast

end Steps

theorem stopIsLast_resolving : Always Step StopIsLast (new : TcpClient ℕ ℕ)
    [.asyncConnect ['h'] 80 (some 1) true, .run (.asyncResolve ['h'] 80),
      .asyncStop (some 2) true, .run .stop,
      .handleResolve ['h'] ['8', '0'] .operationAborted 5] := by
  refine (stopIsLast_iff _ (by decide)).mpr ?_
  simp only [each_cons]
  exact fun _ _ => ⟨id, fun _ _ => ⟨id, fun _ _ => ⟨id, fun _ _ => ⟨id, fun _ _ =>
    ⟨id, each_nil⟩⟩⟩⟩⟩

/-- The connect that the stop aborts is completed behind the stop callback. -/
theorem connect_completes_last : ∃ c : TcpClient ℕ ℕ,
    Run Step new [.asyncConnect ['h'] 80 (some 1) true, .run (.asyncResolve ['h'] 80),
      .handleResolve ['h'] ['8', '0'] .success 5, .asyncStop (some 2) true, .run .stop,
      .handleConnect 5 .operationAborted] c ∧ ¬ c.StopIsLast := by
  obtain ⟨c, hrun, l, hmem, hlog⟩ : ∃ c : TcpClient ℕ ℕ,
      Run Step new [.asyncConnect ['h'] 80 (some 1) true, .run (.asyncResolve ['h'] 80),
        .handleResolve ['h'] ['8', '0'] .success 5, .asyncStop (some 2) true, .run .stop,
        .handleConnect 5 .operationAborted] c ∧
      ∃ l, .posted (.stopped 2) ∈ l ∧
        c.ioContext.log = l ++ [.posted (.complete 1 .operationAborted)] := by
    refine ⟨_, Run.iff_foldlM.mpr rfl, _, ?_, (List.dropLast_append_getLast ?_).symm⟩
    · decide
    · decide
  refine ⟨c, hrun, fun hlast => ?_⟩
  unfold StopIsLast at hlast
  rw [hlog] at hlast
  exact (after_concat.mp hlast).2 ⟨_, hmem, 2, rfl⟩ ⟨1, _, Or.inl rfl⟩

end Eestv.Net.TcpClient
