import Eestv.Net.TcpClientWork

/-! Whether every accepted attempt is answered. A stop that lands before the posted resolve
handler runs, or before a connect that succeeds is seen, leaves the callback where it is. -/

namespace Eestv.Net.TcpClient
open Runs IoContext

variable {E K : Type} {c d : TcpClient E K}

/-- The callbacks of attempts that were called, in their order. -/
def delivered (l : List (Entry (Handler K) (Operation E) (Call K))) : List K :=
  l.filterMap fun
    | .called (.complete callback _) => some callback
    | _ => none

def succeeded (l : List (Entry (Handler K) (Operation E) (Call K))) : List K :=
  l.filterMap fun
    | .called (.complete callback error) => if error.failed then none else some callback
    | _ => none

@[simp] def Handler.completion : Handler K → Option K
  | .complete callback _ => some callback
  | _ => none

def completions (l : List (Handler K)) : List K := l.filterMap Handler.completion

def held (c : TcpClient E K) : List K :=
  if stages c.flags = 0 then [] else c.onConnectionComplete.toList

/-- The callbacks that were called or are still going to be. -/
def owed (c : TcpClient E K) : List K :=
  delivered c.ioContext.log ++ completions c.ioContext.posted ++ c.held

@[simp] theorem resolveOnStopped_owed : c.resolveOnStopped.owed = c.owed := by
  refine resolveOnStopped_induction (P := fun d => d.owed = c.owed) rfl ?_
  intro k
  simp [owed, held, delivered, completions]

@[simp] theorem resolveOnStopped_succeeded :
    succeeded c.resolveOnStopped.ioContext.log = succeeded c.ioContext.log := by
  refine resolveOnStopped_induction
    (P := fun d => succeeded d.ioContext.log = succeeded c.ioContext.log) rfl ?_
  intro k
  simp [succeeded]

@[simp] theorem postCompletion_succeeded {error : ErrorCode} :
    succeeded (c.postCompletion error).ioContext.log = succeeded c.ioContext.log := by
  refine postCompletion_induction
    (P := fun d => succeeded d.ioContext.log = succeeded c.ioContext.log) rfl ?_
  intro k _
  simp [succeeded]

theorem delivered_append (l l' : List (Entry (Handler K) (Operation E) (Call K))) :
    delivered (l ++ l') = delivered l ++ delivered l' := List.filterMap_append

theorem owed_of_no_stage (h : stages c.flags = 0) :
    c.owed = delivered c.ioContext.log ++ completions c.ioContext.posted := by
  simp [owed, held, h]

theorem owed_of_stage (h : stages c.flags ≠ 0) : c.owed =
    delivered c.ioContext.log ++ completions c.ioContext.posted ++
      c.onConnectionComplete.toList := by
  simp [owed, held, h]

theorem postCompletion_owed (error : ErrorCode) (h : stages c.flags = 0) :
    (c.postCompletion error).owed = c.owed ++ c.onConnectionComplete.toList := by
  rw [owed_of_no_stage h, owed_of_no_stage (by simpa using h)]
  unfold postCompletion
  split
  · rename_i k hk
    simp [delivered, completions, hk]
  · rename_i hk
    simp [hk]

theorem call_owed (x : Call K) :
    ({ c with ioContext := c.ioContext.call x } : TcpClient E K).owed.Perm
      (c.owed ++ delivered [(.called x : Entry (Handler K) (Operation E) (Call K))]) := by
  show (delivered (c.ioContext.log ++ [Entry.called x]) ++ completions c.ioContext.posted ++
    c.held).Perm (delivered c.ioContext.log ++ completions c.ioContext.posted ++ c.held ++ _)
  rw [delivered_append]
  simp only [List.append_assoc]
  refine List.Perm.append_left _ ?_
  rw [← List.append_assoc (completions _)]
  exact List.perm_append_comm

theorem callCompletion_owed {error : ErrorCode} (h : stages c.flags = 0) :
    (c.callCompletion error).owed.Perm (c.owed ++ c.onConnectionComplete.toList) := by
  unfold callCompletion
  split
  · rename_i k hk
    have hcall := call_owed (c := { c with onConnectionComplete := none }) (.complete k error)
    have hnone : ({ c with onConnectionComplete := none } : TcpClient E K).owed = c.owed := by
      rw [owed_of_no_stage (c := c) h, owed_of_no_stage]
      exact h
    rw [hnone] at hcall
    rw [hk]
    exact hcall
  · rename_i hk
    simp [hk]

theorem stages_ne_zero {f : TcpClientState}
    (hf : f = .scheduleResolving ∨ f = .resolving ∨ f = .connecting)
    (hflag : c.flags.getFlag f = true) : stages c.flags ≠ 0 := by
  unfold stages
  rcases hf with rfl | rfl | rfl <;> rw [hflag, Bool.toNat_true] <;> omega

theorem Tracked.stages_of_hand {f : TcpClientState} (hc : c.Tracked (some f))
    (hf : f = .scheduleResolving ∨ f = .resolving ∨ f = .connecting) : stages c.flags ≠ 0 :=
  stages_ne_zero hf (hc.mirrors.flag_of_hand (by rcases hf with rfl | rfl | rfl <;> decide))

theorem Tracked.owed_clear {f : TcpClientState} (hc : c.Tracked (some f))
    (hf : f = .scheduleResolving ∨ f = .resolving ∨ f = .connecting) :
    c.owed = ({ c with flags := c.flags.clearFlag f } : TcpClient E K).owed ++
      c.onConnectionComplete.toList := by
  have hclear := owed_of_no_stage (c := { c with flags := c.flags.clearFlag f })
    (stages_clear hc hf)
  rw [owed_of_stage (hc.stages_of_hand hf), hclear]

section Stages

theorem asyncResolve_owed (hc : c.Tracked (some .scheduleResolving)) (host : List Char)
    (port : ℤ) : c.owed = (c.asyncResolve host port).owed ++
      if c.flags.getFlag .stopSingaled then c.onConnectionComplete.toList else [] := by
  rcases hstop : c.flags.getFlag .stopSingaled with _ | _
  · have hd : stages (c.asyncResolve host port).flags ≠ 0 :=
      stages_ne_zero (f := .resolving) (by decide) (by simp [asyncResolve, hstop])
    rw [owed_of_stage (hc.stages_of_hand (by decide)), owed_of_stage hd]
    simp [asyncResolve, hstop, delivered]
  · rw [hc.owed_clear (by decide)]
    simp [asyncResolve, hstop]

theorem handleResolve_owed (hc : c.Tracked (some .resolving)) (error : ErrorCode) (results : E) :
    c.owed = (c.handleResolve error results).owed := by
  rcases herror : error.failed with _ | _
  · have hd : owed { c with
        flags := (c.flags.setFlag .connecting).clearFlag .resolving
        ioContext := c.ioContext.start (.connect results) } = c.owed := by
      rw [owed_of_stage (hc.stages_of_hand (by decide)), owed_of_stage]
      · simp [delivered]
      · exact stages_ne_zero (f := .connecting) (by decide) (by simp)
    rw [handleResolve_of_success herror]
    split
    · rw [resolveOnStopped_owed, hd]
    · exact hd.symm
  · have hpost := postCompletion_owed (c := { c with flags := c.flags.clearFlag .resolving })
      error (stages_clear hc (by decide))
    rw [hc.owed_clear (by decide), handleResolve_of_failed herror]
    split
    · rw [resolveOnStopped_owed]
      exact hpost.symm
    · exact hpost.symm

theorem handleConnect_owed (hc : c.Tracked (some .connecting)) (error : ErrorCode) :
    c.owed.Perm ((c.handleConnect error).owed ++
      if !error.failed && c.flags.getFlag .stopSingaled then c.onConnectionComplete.toList
      else []) := by
  have hnone := stages_clear hc (by decide)
  obtain ⟨b, hb⟩ : ∃ b : TcpClient E K, { c with flags := c.flags.clearFlag .connecting } = b :=
    ⟨_, rfl⟩
  have hcallback : b.onConnectionComplete = c.onConnectionComplete := by
    rw [← hb]
  have hstages : stages b.flags = 0 := by
    rw [← hb]
    exact hnone
  rw [hc.owed_clear (by decide), hb, ← hcallback]
  rcases herror : error.failed with _ | _
  · -- called, or left in its member under a stop
    rw [handleConnect_of_success herror, hb]
    rcases c.flags.getFlag .stopSingaled with _ | _
    · simpa using (callCompletion_owed hstages).symm
    · simp
  · -- posted with the error in both cases
    rw [handleConnect_of_failed herror, hb]
    rcases c.flags.getFlag .stopSingaled with _ | _
    · simp [postCompletion_owed error hstages]
    · have hlate : stages b.resolveOnStopped.flags = 0 := by
        rw [resolveOnStopped_flags]
        exact hstages
      simp [postCompletion_owed error hlate]

end Stages

/-! ### Steps -/

def Event.accepted : Event E K → List K
  | .asyncConnect _ _ onConnectionComplete true => onConnectionComplete.toList
  | _ => []

def Event.endsUnderStop : Event E K → Bool
  | .run (.asyncResolve _ _) => true
  | .handleConnect _ error => !error.failed
  | _ => false

/-- The step ends an attempt under a stop and leaves its callback stored. -/
def DropsCallback (c : TcpClient E K) (e : Event E K) : Prop :=
  e.endsUnderStop = true ∧ c.flags.getFlag .stopSingaled = true ∧
    c.onConnectionComplete.isSome = true

instance {e : Event E K} : Decidable (c.DropsCallback e) :=
  inferInstanceAs (Decidable (_ ∧ _))

def dropped (c : TcpClient E K) (e : Event E K) : List K :=
  if e.endsUnderStop && c.flags.getFlag .stopSingaled then c.onConnectionComplete.toList else []

theorem dropped_eq_nil {e : Event E K} : c.dropped e = [] ↔ ¬ c.DropsCallback e := by
  unfold dropped DropsCallback
  rcases e.endsUnderStop with _ | _
  · simp
  · rcases c.flags.getFlag .stopSingaled with _ | _
    · simp
    · rcases c.onConnectionComplete with _ | k <;> simp

theorem take_owed [DecidableEq K] {h : Handler K}
    {io : IoContext (Handler K) (Operation E) (Call K)} (hio : c.ioContext.take h = some io) :
    c.owed.Perm (({ c with ioContext := io } : TcpClient E K).owed ++ h.completion.toList) := by
  obtain ⟨hmem, rfl⟩ := take_eq_some.mp hio
  have hperm : (completions c.ioContext.posted).Perm
      (completions (c.ioContext.posted.erase h) ++ h.completion.toList) := by
    refine ((List.perm_cons_erase hmem).filterMap _).trans ?_
    rw [List.filterMap_cons]
    rcases h.completion with _ | k
    · exact .of_eq (List.append_nil _).symm
    · exact (List.perm_append_singleton k _).symm
  have hlog : delivered (c.ioContext.log ++ [.ran h]) = delivered c.ioContext.log := by
    simp [delivered]
  show (delivered c.ioContext.log ++ completions c.ioContext.posted ++ c.held).Perm
    (delivered (c.ioContext.log ++ [.ran h]) ++ completions (c.ioContext.posted.erase h) ++
      c.held ++ h.completion.toList)
  rw [hlog]
  refine ((hperm.append_left _).append_right _).trans ?_
  simp only [List.append_assoc]
  exact (List.perm_append_comm.append_left _).append_left _

theorem finish_owed [DecidableEq E] {o : Operation E}
    {io : IoContext (Handler K) (Operation E) (Call K)} (hio : c.ioContext.finish o = some io) :
    ({ c with ioContext := io } : TcpClient E K).owed = c.owed := by
  rw [(finish_eq_some.mp hio).2]
  simp [owed, held, delivered]

theorem owed_flags {flags : Flags TcpClientState} (h : stages flags = stages c.flags) :
    ({ c with flags := flags } : TcpClient E K).owed = c.owed := by
  simp only [owed, held, h]

theorem asyncConnect_owed [DecidableEq E] [DecidableEq K] {host : List Char} {port : ℤ}
    {k : Option K} {r : Bool} (hstep : c.Step (.asyncConnect host port k r) d) :
    d.owed = c.owed ++ Event.accepted (E := E) (.asyncConnect host port k r) := by
  obtain ⟨rfl, rfl⟩ | ⟨rfl, hstages, rfl⟩ := step_asyncConnect hstep
  · simp [Event.accepted]
  · rw [owed_of_no_stage hstages, owed_of_stage]
    · simp [delivered, completions, Event.accepted]
    · exact stages_ne_zero (f := .scheduleResolving) (by decide) (by simp)

theorem asyncStop_owed [DecidableEq E] [DecidableEq K] {k : Option K} {r : Bool}
    (hstep : c.Step (.asyncStop k r) d) : d.owed = c.owed := by
  obtain ⟨-, rfl⟩ | ⟨-, -, rfl⟩ := step_asyncStop hstep
  · rfl
  · have hstages : stages ((c.flags.setFlag .stopSingaled).setFlag .stopping) =
        stages c.flags := by
      simp [stages]
    simp [owed, held, hstages, delivered, completions]

theorem handle_owed {h : Handler K} (hc : c.Tracked h.flag) :
    (c.owed ++ h.completion.toList).Perm
      ((c.handle h).owed ++ c.dropped (.run h)) := by
  cases h with
  | asyncResolve host port =>
    rw [asyncResolve_owed hc host port]
    simp [dropped, Event.endsUnderStop, handle]
  | stop =>
    have hstages : stages (c.flags.clearFlag .stopping) = stages c.flags := by
      simp [stages]
    simp [dropped, Event.endsUnderStop, handle, onStop, owed_flags hstages]
  | complete k error =>
    have hcall := (call_owed (c := c) (.complete k error)).symm
    simpa [dropped, Event.endsUnderStop, handle, delivered] using hcall
  | stopped k =>
    have hcall := (call_owed (c := c) (.stopped k)).symm
    simpa [dropped, Event.endsUnderStop, handle, delivered] using hcall

/-- What is owed grows by what is accepted and shrinks by what is dropped. -/
theorem step_owed [DecidableEq E] [DecidableEq K] {e : Event E K} (he : e ≠ .reset)
    (hc : c.Tracked none) (hstep : c.Step e d) :
    (c.owed ++ e.accepted).Perm (d.owed ++ c.dropped e) := by
  cases e with
  | asyncConnect host port k r =>
    rw [asyncConnect_owed hstep]
    simp [dropped, Event.endsUnderStop]
  | asyncStop k r =>
    rw [asyncStop_owed hstep]
    simp [dropped, Event.endsUnderStop, Event.accepted]
  | reset => exact absurd rfl he
  | run h =>
    obtain ⟨io, hio, rfl⟩ := step_run.mp hstep
    have hrun := handle_owed (hc.take hio)
    show (c.owed ++ []).Perm _
    rw [List.append_nil]
    exact (take_owed hio).trans hrun
  | handleResolve host service error results =>
    obtain ⟨io, hio, rfl⟩ := step_handleResolve.mp hstep
    rw [← finish_owed hio, handleResolve_owed (hc.finish hio) error results]
    simp [dropped, Event.endsUnderStop, Event.accepted]
  | handleConnect results error =>
    obtain ⟨io, hio, rfl⟩ := step_handleConnect.mp hstep
    have hrun := handleConnect_owed (hc.finish hio) error
    rw [finish_owed hio] at hrun
    show (c.owed ++ []).Perm _
    rw [List.append_nil]
    exact hrun

theorem run_owed [DecidableEq E] [DecidableEq K] {as : List (Event E K)} (h : Run Step c as d)
    (hc : c.Tracked none) (hreset : .reset ∉ as) :
    ∃ drops, (c.owed ++ as.flatMap Event.accepted).Perm (d.owed ++ drops) ∧
      (drops = [] ↔ Each Step (fun c e => ¬ c.DropsCallback e) c as) := by
  induction h with
  | nil c => exact ⟨[], .refl _, fun _ => each_nil, fun _ => rfl⟩
  | @cons c b d e as hstep _ ih =>
    obtain ⟨he, has⟩ := not_or.mp (mt List.mem_cons.mpr hreset)
    obtain ⟨drops, hperm, hiff⟩ := ih (hc.step (Ne.symm he) hstep) has
    refine ⟨c.dropped e ++ drops, ?_, ?_⟩
    · have hfirst := (step_owed (Ne.symm he) hc hstep).append_right (as.flatMap Event.accepted)
      have hrest := hperm.append_right (c.dropped e)
      simp only [List.flatMap_cons, List.append_assoc] at hfirst hrest ⊢
      refine hfirst.trans ((List.perm_append_comm.append_left _).trans (hrest.trans ?_))
      exact List.perm_append_comm.append_left _
    · rw [List.append_eq_nil_iff, dropped_eq_nil, hiff, each_cons]
      constructor
      · rintro ⟨hdrop, hlater⟩ t ht
        cases Option.some.inj (hstep.symm.trans ht)
        exact ⟨hdrop, hlater⟩
      · intro hall
        exact hall b hstep

/-! ### Attempts that succeed -/

/-- The callback of the last attempt, and whether a stop was accepted. -/
structure Attempt (K : Type) where
  callback : Option K := none
  stopped : Bool := false

def Attempt.next (a : Attempt K) : Event E K → Attempt K
  | .asyncConnect _ _ onConnectionComplete true => { a with callback := onConnectionComplete }
  | .asyncStop _ true => { a with stopped := true }
  | _ => a

/-- An attempt succeeds when its connect does, unless it was stopped before. -/
def Attempt.succeeds (a : Attempt K) : Event E K → List K
  | .handleConnect _ error => if error.failed || a.stopped then [] else a.callback.toList
  | _ => []

def Attempt.established (a : Attempt K) : List (Event E K) → List K
  | [] => []
  | e :: es => a.succeeds e ++ (a.next e).established es

/-- The stored callback is that of the last attempt, while this is under way. -/
structure Represents (c : TcpClient E K) (a : Attempt K) : Prop where
  stopped : c.flags.getFlag .stopSingaled = a.stopped
  callback : stages c.flags ≠ 0 → c.onConnectionComplete = a.callback

theorem handle_succeeded {h : Handler K}
    (hfailed : ∀ k error, h = .complete k error → error.failed = true) :
    succeeded (c.handle h).ioContext.log = succeeded c.ioContext.log := by
  cases h with
  | asyncResolve host port =>
    unfold handle asyncResolve
    dsimp only
    split
    · exact resolveOnStopped_succeeded
    · simp [succeeded]
  | stop => exact resolveOnStopped_succeeded
  | complete k error =>
    have herror := hfailed k error rfl
    simp [handle, succeeded, herror]
  | stopped k => simp [handle, succeeded]

theorem handleResolve_succeeded (error : ErrorCode) (results : E) :
    succeeded (c.handleResolve error results).ioContext.log = succeeded c.ioContext.log := by
  have hstart : succeeded (c.ioContext.start (.connect results)).log =
      succeeded c.ioContext.log := by
    simp [succeeded]
  rcases herror : error.failed with _ | _
  · rw [handleResolve_of_success herror]
    split
    · exact resolveOnStopped_succeeded.trans hstart
    · exact hstart
  · rw [handleResolve_of_failed herror]
    split
    · exact resolveOnStopped_succeeded.trans postCompletion_succeeded
    · exact postCompletion_succeeded

theorem callCompletion_succeeded {error : ErrorCode} (herror : error.failed = false) :
    succeeded (c.callCompletion error).ioContext.log =
      succeeded c.ioContext.log ++ c.onConnectionComplete.toList := by
  unfold callCompletion
  split
  · rename_i k hk
    simp [succeeded, hk, herror]
  · rename_i hk
    simp [hk]

theorem handleConnect_succeeded (error : ErrorCode) :
    succeeded (c.handleConnect error).ioContext.log = succeeded c.ioContext.log ++
      if error.failed || c.flags.getFlag .stopSingaled then []
      else c.onConnectionComplete.toList := by
  rcases herror : error.failed with _ | _
  · rw [handleConnect_of_success herror]
    rcases c.flags.getFlag .stopSingaled with _ | _
    · exact callCompletion_succeeded herror
    · simp
  · rw [handleConnect_of_failed herror]
    rcases c.flags.getFlag .stopSingaled with _ | _ <;> simp

@[simp] theorem callCompletion_flags {error : ErrorCode} :
    (c.callCompletion error).flags = c.flags := by
  unfold callCompletion
  split <;> rfl

theorem handleConnect_flags (error : ErrorCode) :
    (c.handleConnect error).flags = c.flags.clearFlag .connecting := by
  rcases herror : error.failed with _ | _
  · rw [handleConnect_of_success herror]
    split <;> simp
  · rw [handleConnect_of_failed herror]
    split <;> simp

namespace Represents

variable {a : Attempt K}

theorem new : (new : TcpClient E K).Represents {} :=
  ⟨Flags.getFlag_empty _, fun h => absurd (by simp [stages, TcpClient.new]) h⟩

theorem resolveOnStopped (hr : c.Represents a) : c.resolveOnStopped.Represents a := by
  refine ⟨?_, ?_⟩
  · rw [resolveOnStopped_flags]
    exact hr.stopped
  · rw [resolveOnStopped_flags, resolveOnStopped_callback]
    exact hr.callback

theorem congr_flags {flags : Flags TcpClientState} (hr : c.Represents a)
    (hstop : flags.getFlag .stopSingaled = c.flags.getFlag .stopSingaled)
    (hstages : stages flags ≠ 0 → stages c.flags ≠ 0) :
    ({ c with flags := flags } : TcpClient E K).Represents a :=
  ⟨hstop.trans hr.stopped, fun h => hr.callback (hstages h)⟩

theorem handle {h : Handler K} (hc : c.Tracked h.flag) (hr : c.Represents a) :
    (c.handle h).Represents a := by
  cases h with
  | asyncResolve host port =>
    have hstage := hc.stages_of_hand (by decide)
    have hclear : Represents { c with flags := c.flags.clearFlag .scheduleResolving } a :=
      hr.congr_flags (by simp) fun _ => hstage
    unfold TcpClient.handle TcpClient.asyncResolve
    dsimp only
    split
    · exact hclear.resolveOnStopped
    · exact ⟨by simpa using hr.stopped, fun _ => hr.callback hstage⟩
  | stop =>
    refine (hr.congr_flags ?_ ?_).resolveOnStopped
    · simp
    · simp [stages]
  | complete k error => exact ⟨hr.stopped, hr.callback⟩
  | stopped k => exact ⟨hr.stopped, hr.callback⟩

theorem handleResolve (hc : c.Tracked (some .resolving)) (hr : c.Represents a)
    (error : ErrorCode) (results : E) : (c.handleResolve error results).Represents a := by
  rcases herror : error.failed with _ | _
  · have hstart : Represents { c with
        flags := (c.flags.setFlag .connecting).clearFlag .resolving
        ioContext := c.ioContext.start (.connect results) } a :=
      ⟨by simpa using hr.stopped, fun _ => hr.callback (hc.stages_of_hand (by decide))⟩
    rw [handleResolve_of_success herror]
    split
    · exact hstart.resolveOnStopped
    · exact hstart
  · have hpost : Represents (({ c with flags := c.flags.clearFlag .resolving } :
        TcpClient E K).postCompletion error) a := by
      refine ⟨?_, ?_⟩
      · rw [postCompletion_flags]
        simpa using hr.stopped
      · rw [postCompletion_flags]
        exact fun h => absurd (stages_clear hc (by decide)) h
    rw [handleResolve_of_failed herror]
    split
    · exact hpost.resolveOnStopped
    · exact hpost

theorem handleConnect (hc : c.Tracked (some .connecting)) (hr : c.Represents a)
    (error : ErrorCode) : (c.handleConnect error).Represents a := by
  refine ⟨?_, ?_⟩
  · rw [handleConnect_flags]
    simpa using hr.stopped
  · rw [handleConnect_flags]
    exact fun h => absurd (stages_clear hc (by decide)) h

theorem step [DecidableEq E] [DecidableEq K] {e : Event E K} (he : e ≠ .reset)
    (hc : c.Tracked none) (hr : c.Represents a) (hstep : c.Step e d) :
    d.Represents (a.next e) ∧
      succeeded d.ioContext.log = succeeded c.ioContext.log ++ a.succeeds e := by
  cases e with
  | asyncConnect host port k r =>
    obtain ⟨rfl, rfl⟩ | ⟨rfl, -, rfl⟩ := step_asyncConnect hstep
    · exact ⟨hr, (List.append_nil _).symm⟩
    · refine ⟨⟨?_, fun _ => rfl⟩, by simp [succeeded, Attempt.succeeds]⟩
      simpa [Attempt.next] using hr.stopped
  | asyncStop k r =>
    obtain ⟨rfl, rfl⟩ | ⟨rfl, -, rfl⟩ := step_asyncStop hstep
    · exact ⟨hr, (List.append_nil _).symm⟩
    · refine ⟨⟨by simp [Attempt.next], ?_⟩, by simp [succeeded, Attempt.succeeds]⟩
      simpa [stages, Attempt.next] using hr.callback
  | reset => exact absurd rfl he
  | run h =>
    obtain ⟨io, hio, rfl⟩ := step_run.mp hstep
    have hlog := handle_succeeded (c := { c with ioContext := io }) (h := h) ?_
    · refine ⟨handle (hc.take hio) ⟨hr.stopped, hr.callback⟩, ?_⟩
      rw [hlog, take_log hio]
      simp [succeeded, Attempt.succeeds]
    · rintro k error rfl
      exact hc.failed k error (take_eq_some.mp hio).1
  | handleResolve host service error results =>
    obtain ⟨io, hio, rfl⟩ := step_handleResolve.mp hstep
    refine ⟨handleResolve (hc.finish hio) ⟨hr.stopped, hr.callback⟩ error results, ?_⟩
    rw [handleResolve_succeeded, finish_log hio]
    simp [succeeded, Attempt.succeeds]
  | handleConnect results error =>
    obtain ⟨io, hio, rfl⟩ := step_handleConnect.mp hstep
    have ht := hc.finish hio
    refine ⟨handleConnect ht ⟨hr.stopped, hr.callback⟩ error, ?_⟩
    have hstage : stages c.flags ≠ 0 := ht.stages_of_hand (by decide)
    rw [handleConnect_succeeded, finish_log hio, hr.stopped, hr.callback hstage]
    simp [succeeded, Attempt.succeeds]

end Represents

theorem run_succeeded [DecidableEq E] [DecidableEq K] {as : List (Event E K)} {a : Attempt K}
    (h : Run Step c as d) (hc : c.Tracked none) (hr : c.Represents a) (hreset : .reset ∉ as) :
    succeeded d.ioContext.log = succeeded c.ioContext.log ++ a.established as := by
  induction h generalizing a with
  | nil c => exact (List.append_nil _).symm
  | cons hstep _ ih =>
    obtain ⟨he, has⟩ := not_or.mp (mt List.mem_cons.mpr hreset)
    obtain ⟨hnext, hlog⟩ := hr.step (Ne.symm he) hc hstep
    rw [ih (hc.step (Ne.symm he) hstep) hnext has, hlog, List.append_assoc]
    rfl

/-- Once nothing is pending any more, nothing is owed but what was called. -/
theorem Tracked.owed_of_idle (hc : c.Tracked none) (hidle : c.ioContext.Idle) :
    c.owed = delivered c.ioContext.log := by
  have hflag : ∀ f ∈ [TcpClientState.scheduleResolving, .resolving, .connecting, .stopping],
      c.flags.getFlag f = false := by
    intro f hf
    exact hc.mirrors.flag_of_work_eq_zero hf hidle.work_eq_zero
  rw [owed_of_no_stage, hidle.1]
  · simp [completions]
  · simp [stages, hflag]

/-- In every run without a reset, once nothing is pending any more, the callbacks of the attempts
that were accepted were each called once, those of the attempts that succeeded and no others
without an error, exactly if no step drops a callback under a stop. -/
theorem answered_iff [DecidableEq E] [DecidableEq K] (as : List (Event E K)) (c : TcpClient E K)
    (h : Run Step new as c) (hreset : .reset ∉ as) (hidle : c.ioContext.Idle) :
    (delivered c.ioContext.log).Perm (as.flatMap Event.accepted) ∧
        succeeded c.ioContext.log = Attempt.established {} as ↔
      Each Step (fun c e => ¬ c.DropsCallback e) new as := by
  obtain ⟨drops, hperm, hiff⟩ := run_owed h Tracked.new hreset
  have hc := Tracked.of_run h hreset
  have hnew : (new : TcpClient E K).owed = [] := by
    simp [owed, held, stages, new, delivered, completions]
  have hsucceeded := run_succeeded h Tracked.new Represents.new hreset
  rw [hnew, List.nil_append, hc.owed_of_idle hidle] at hperm
  rw [← hiff]
  constructor
  · rintro ⟨hall, -⟩
    have hlength := (hall.trans hperm).length_eq
    rw [List.length_append] at hlength
    exact List.length_eq_zero_iff.mp (by omega)
  · rintro rfl
    rw [List.append_nil] at hperm
    exact ⟨hperm.symm, hsucceeded⟩

theorem answered_connected :
    Each Step (fun c e => ¬ c.DropsCallback e) (new : TcpClient ℕ ℕ)
      [.asyncConnect ['h'] 80 (some 1) true, .run (.asyncResolve ['h'] 80),
        .handleResolve ['h'] ['8', '0'] .success 5, .handleConnect 5 .success,
        .asyncConnect ['h'] 81 (some 2) true, .run (.asyncResolve ['h'] 81),
        .handleResolve ['h'] ['8', '1'] .success 6, .asyncStop (some 3) true, .run .stop,
        .handleConnect 6 .operationAborted, .run (.stopped 3),
        .run (.complete 2 .operationAborted)] := by
  obtain ⟨c, hrun, hidle, hdelivered, hsucceeded⟩ : ∃ c : TcpClient ℕ ℕ,
      Run Step new [.asyncConnect ['h'] 80 (some 1) true, .run (.asyncResolve ['h'] 80),
        .handleResolve ['h'] ['8', '0'] .success 5, .handleConnect 5 .success,
        .asyncConnect ['h'] 81 (some 2) true, .run (.asyncResolve ['h'] 81),
        .handleResolve ['h'] ['8', '1'] .success 6, .asyncStop (some 3) true, .run .stop,
        .handleConnect 6 .operationAborted, .run (.stopped 3),
        .run (.complete 2 .operationAborted)] c ∧
      c.ioContext.Idle ∧ delivered c.ioContext.log = [1, 2] ∧ succeeded c.ioContext.log = [1] :=
    ⟨_, Run.iff_foldlM.mpr rfl, by decide, by decide, by decide⟩
  refine (answered_iff _ c hrun (by decide) hidle).mp ⟨?_, ?_⟩
  · rw [hdelivered]
    decide
  · rw [hsucceeded]
    rfl

/-- The stop comes before the resolve handler. -/
theorem never_answered : ∃ c : TcpClient ℕ ℕ,
    Run Step new [.asyncConnect ['h'] 80 (some 1) true, .asyncStop (some 2) true,
      .run (.asyncResolve ['h'] 80), .run .stop, .run (.stopped 2)] c ∧
    c.ioContext.Idle ∧ delivered c.ioContext.log = [] :=
  ⟨_, Run.iff_foldlM.mpr rfl, by decide, by decide⟩

end Eestv.Net.TcpClient
