import Eestv.Net.UdpDiscoveryServerWork

/-! What the discovery's server replies. Until it is stopped each reception is followed by the
next one, and the replies are those to the datagrams received, in their order. -/

namespace Eestv.Net.UdpDiscoveryServer
open Runs IoContext

variable {A K : Type} {c d : UdpDiscoveryServer A K} {adds : List (Discoverable A)}

/-- The replies that were started: what is sent, and to whom. -/
def replies (l : List (Entry (Handler K) (Operation A) (Call K))) : List (List UInt8 × A) :=
  l.filterMap fun
    | .started (.sendTo buffer endpoint) => some (buffer, endpoint)
    | _ => none

/-- The reply of the first discoverable that was added under what was received, if there is one,
to whom it is from. -/
def answer (adds : List (Discoverable A)) (datagram : List UInt8) (remoteEndpoint : A) :
    List (List UInt8 × A) :=
  match adds.find? (·.identifier = datagram) with
  | some discoverable =>
    if discoverable.getReply remoteEndpoint = [] then []
    else [(discoverable.getReply remoteEndpoint, remoteEndpoint)]
  | none => []

def Event.added (adds : List (Discoverable A)) : Event A K → List (Discoverable A)
  | .addDiscoverable discoverable => adds ++ [discoverable]
  | _ => adds

/-- An error and an empty datagram are not answered. -/
def Event.answered (adds : List (Discoverable A)) : Event A K → List (List UInt8 × A)
  | .handleReceive error datagram remoteEndpoint =>
    if error.failed = true ∨ datagram = [] then [] else answer adds datagram remoteEndpoint
  | _ => []

/-- The answers to the datagrams of a run, behind the discoverables in `adds`. -/
def answers (adds : List (Discoverable A)) : List (Event A K) → List (List UInt8 × A)
  | [] => []
  | e :: es => e.answered adds ++ answers (e.added adds) es

structure Represents (c : UdpDiscoveryServer A K) (adds : List (Discoverable A)) : Prop where
  stopping : c.flags.getFlag .stopping = false
  lookup : ∀ identifier, c.discoverables.lookup identifier =
    adds.find? (·.identifier = identifier)

@[simp] theorem replies_append (l l' : List (Entry (Handler K) (Operation A) (Call K))) :
    replies (l ++ l') = replies l ++ replies l' := List.filterMap_append

theorem replies_of_not_sent {x : Entry (Handler K) (Operation A) (Call K)}
    (hx : ∀ buffer a, x ≠ .started (.sendTo buffer a)) : replies [x] = [] := by
  unfold replies
  rw [List.filterMap_cons, List.filterMap_nil]
  split
  · rfl
  · rename_i heq
    split at heq
    · exact absurd rfl (hx _ _)
    · cases heq

/-! ### The discoverables -/

theorem Represents.addDiscoverable (hc : c.Represents adds) (discoverable : Discoverable A) :
    (c.addDiscoverable discoverable).Represents (adds ++ [discoverable]) := by
  unfold UdpDiscoveryServer.addDiscoverable
  split
  · rename_i hmem
    refine ⟨hc.stopping, fun identifier => ?_⟩
    rw [hc.lookup, List.find?_append]
    by_cases hkey : discoverable.identifier = identifier
    · subst hkey
      have hsome := AList.lookup_isSome.mpr hmem
      rw [hc.lookup] at hsome
      obtain ⟨first, hfirst⟩ := Option.isSome_iff_exists.mp hsome
      rw [hfirst]
      rfl
    · simp [hkey]
  · rename_i hmem
    refine ⟨hc.stopping, fun identifier => ?_⟩
    rw [List.find?_append, ← hc.lookup]
    by_cases hkey : discoverable.identifier = identifier
    · subst hkey
      rw [AList.lookup_insert, AList.lookup_eq_none.mpr hmem]
      simp
    · rw [AList.lookup_insert_ne (Ne.symm hkey)]
      simp [hkey]

/-! ### A reception -/

theorem received_reply (hc : c.Represents adds) (error : ErrorCode) (datagram : List UInt8)
    (a : A) :
    (if (c.received error datagram a).reply error datagram.length = [] then []
      else [((c.received error datagram a).reply error datagram.length, a)]) =
      (Event.handleReceive error datagram a : Event A K).answered adds := by
  by_cases herror : error.failed = true
  · simp [Event.answered, reply, herror]
  · by_cases hempty : datagram = []
    · simp [Event.answered, reply, hempty]
    · rw [received_of_success herror, receive_reply herror hempty]
      simp only [Event.answered, answer, ← hc.lookup, herror, hempty]
      rcases c.discoverables.lookup datagram with _ | discoverable
      · rfl
      · rfl

theorem received_remoteEndpoint (error : ErrorCode) (datagram : List UInt8) (a : A)
    (hreply : (c.received error datagram a).reply error datagram.length ≠ []) :
    (c.received error datagram a).remoteEndpoint = a := by
  unfold reply at hreply
  unfold received
  split
  · rename_i herror
    simp [herror] at hreply
  · rfl

theorem handleReceive_of_running {error : ErrorCode} {n : ℕ}
    (hstop : c.flags.getFlag .stopping = false) :
    c.handleReceive error n =
      { c.sendReply (c.reply error n) with
        ioContext := (c.sendReply (c.reply error n)).ioContext.start .receiveFrom } := by
  have hsame : (c.sendReply (c.reply error n)).flags.getFlag .stopping = false := by
    unfold sendReply
    split <;> simp [hstop]
  rw [handleReceive_eq, goOn, hsame]
  rfl

theorem sendReply_replies (text : List UInt8) :
    replies (c.sendReply text).ioContext.log = replies c.ioContext.log ++
      if text = [] then [] else [(text, c.remoteEndpoint)] := by
  unfold sendReply
  cases text with
  | nil => exact (List.append_nil _).symm
  | cons byte bytes => exact replies_append _ _

theorem sendReply_represents (hc : c.Represents adds) (text : List UInt8) :
    (c.sendReply text).Represents adds := by
  unfold sendReply
  split
  · exact ⟨by simp [hc.stopping], hc.lookup⟩
  · exact hc

theorem resolveOnStopped_of_running (hstop : c.flags.getFlag .stopping = false) :
    c.resolveOnStopped = c := by
  unfold resolveOnStopped
  rw [hstop]
  rfl

/-- What one step does until the server is stopped. -/
structure Serves (adds : List (Discoverable A)) (c : UdpDiscoveryServer A K) (e : Event A K)
    (d : UdpDiscoveryServer A K) : Prop where
  represents : d.Represents (e.added adds)
  replies : replies d.ioContext.log = replies c.ioContext.log ++ e.answered adds
  receiving : c.flags.getFlag .receivingAsync = true ∨ e = .run .start →
    d.flags.getFlag .receivingAsync = true

theorem Represents.handleReceive (hc : c.Represents adds) (error : ErrorCode)
    (datagram : List UInt8) (a : A) : Serves adds c (.handleReceive error datagram a)
      ((c.received error datagram a).handleReceive error datagram.length) := by
  have hanswer := received_reply (K := K) hc error datagram a
  have hendpoint := received_remoteEndpoint (c := c) error datagram a
  obtain ⟨buffer, s, heq⟩ := received_eq c error datagram a
  rw [heq] at hanswer hendpoint ⊢
  obtain ⟨b, hb⟩ : ∃ b, { c with recvBuffer := buffer, remoteEndpoint := s } = b := ⟨_, rfl⟩
  have hbefore : b.Represents adds := by
    rw [← hb]
    exact ⟨hc.stopping, hc.lookup⟩
  have hlog : b.ioContext.log = c.ioContext.log := by
    rw [← hb]
  have hflags : b.flags = c.flags := by
    rw [← hb]
  rw [hb] at hanswer hendpoint ⊢
  rw [handleReceive_of_running hbefore.stopping]
  have hsent := sendReply_represents hbefore (b.reply error datagram.length)
  refine ⟨⟨hsent.stopping, hsent.lookup⟩, ?_, ?_⟩
  · rw [← hanswer]
    refine (replies_append _ _).trans ?_
    rw [sendReply_replies, hlog, replies_of_not_sent (by simp), List.append_nil]
    congr 1
    split
    · rfl
    · rw [hendpoint ‹_›]
  · unfold sendReply
    simp only [hflags, reduceCtorEq, or_false]
    intro hreceiving
    split <;> simp [hreceiving, hflags]

section Steps

variable [DecidableEq A] [DecidableEq K]

omit [DecidableEq A] in
theorem take_replies {h : Handler K} {io : IoContext (Handler K) (Operation A) (Call K)}
    (hio : c.ioContext.take h = some io) : replies io.log = replies c.ioContext.log := by
  rw [take_log hio, replies_append, replies_of_not_sent fun _ _ => by simp, List.append_nil]

omit [DecidableEq K] in
theorem finish_replies {o : Operation A} {io : IoContext (Handler K) (Operation A) (Call K)}
    (hio : c.ioContext.finish o = some io) : replies io.log = replies c.ioContext.log := by
  rw [finish_log hio, replies_append, replies_of_not_sent fun _ _ => by simp, List.append_nil]

theorem Represents.step {e : Event A K} (he : e ≠ .reset) (hstop : ∀ k r, e ≠ .asyncStop k r)
    (hc : c.Represents adds) (hstep : c.Step e d) : Serves adds c e d := by
  have hquiet : ∀ {l l' : List (Entry (Handler K) (Operation A) (Call K))},
      replies l = replies l' → replies l = replies l' ++ [] :=
    fun h => h.trans (List.append_nil _).symm
  cases e with
  | addDiscoverable discoverable =>
    cases hstep
    obtain ⟨discoverables, heq⟩ := addDiscoverable_eq c discoverable
    refine ⟨hc.addDiscoverable discoverable, ?_, ?_⟩
    · rw [heq]
      exact hquiet rfl
    · rw [heq]
      simp
  | asyncStart r =>
    obtain rfl | ⟨-, -, rfl⟩ := step_asyncStart hstep
    · exact ⟨hc, hquiet rfl, by simp⟩
    · refine ⟨⟨by simp [hc.stopping], hc.lookup⟩, ?_, by simp⟩
      exact replies_append _ _
  | asyncStop k r => exact absurd rfl (hstop k r)
  | reset => exact absurd rfl he
  | run h =>
    obtain ⟨io, hio, rfl⟩ := step_run.mp hstep
    have htaken := take_replies hio
    cases h with
    | start =>
      unfold handle onStart
      rw [if_pos (by simp [hc.stopping])]
      refine ⟨⟨by simp [startReceive, hc.stopping], hc.lookup⟩, ?_, by simp [startReceive]⟩
      exact (replies_append _ _).trans (by rw [htaken]; rfl)
    | stop =>
      refine onStop_induction (c := { c with ioContext := io })
        (P := Serves adds c (.run .stop)) ?_ ?_
      · exact ⟨⟨hc.stopping, hc.lookup⟩, hquiet htaken, by simp⟩
      · intro k _
        refine ⟨⟨hc.stopping, hc.lookup⟩, ?_, by simp⟩
        exact (replies_append _ _).trans (by rw [htaken]; rfl)
    | stopped k =>
      refine ⟨⟨hc.stopping, hc.lookup⟩, ?_, by simp [handle]⟩
      exact (replies_append _ _).trans (by rw [htaken]; rfl)
  | handleReceive error datagram a =>
    obtain ⟨-, io, hio, rfl⟩ := step_handleReceive.mp hstep
    have hserves := Represents.handleReceive (c := { c with ioContext := io })
      ⟨hc.stopping, hc.lookup⟩ error datagram a
    refine ⟨hserves.represents, ?_, hserves.receiving⟩
    rw [hserves.replies, finish_replies hio]
  | handleSend buffer a error =>
    obtain ⟨io, hio, rfl⟩ := step_handleSend.mp hstep
    unfold handleSend
    rw [resolveOnStopped_of_running (by simp [hc.stopping])]
    exact ⟨⟨by simp [hc.stopping], hc.lookup⟩, hquiet (finish_replies hio), by simp⟩

theorem run_serves {as : List (Event A K)} (h : Run Step c as d) (hc : c.Represents adds)
    (hreset : .reset ∉ as) (hstop : ∀ k r, .asyncStop k r ∉ as) :
    replies d.ioContext.log = replies c.ioContext.log ++ answers adds as ∧
      (c.flags.getFlag .receivingAsync = true ∨ .run .start ∈ as →
        d.flags.getFlag .receivingAsync = true) := by
  induction h generalizing adds with
  | nil c => exact ⟨(List.append_nil _).symm, by simp⟩
  | @cons c b d e as hstep _ ih =>
    obtain ⟨he, has⟩ := not_or.mp (mt List.mem_cons.mpr hreset)
    have hno : ∀ k r, e ≠ .asyncStop k r := by
      rintro k r rfl
      exact hstop k r List.mem_cons_self
    have hserves := hc.step (Ne.symm he) hno hstep
    obtain ⟨hreplies, hreceiving⟩ := ih hserves.represents has
      fun k r hmem => hstop k r (List.mem_cons_of_mem _ hmem)
    constructor
    · rw [hreplies, hserves.replies, List.append_assoc]
      rfl
    · rintro (hflag | hmem)
      · exact hreceiving (Or.inl (hserves.receiving (Or.inl hflag)))
      · rcases List.mem_cons.mp hmem with hfirst | hlater
        · exact hreceiving (Or.inl (hserves.receiving (Or.inr hfirst.symm)))
        · exact hreceiving (Or.inr hlater)

/-- In every run without a stop and a reset one receive is outstanding once the start handler
has run, and the replies that were started are the answers to the datagrams received. -/
theorem replies_of_run [Inhabited A] (as : List (Event A K)) (c : UdpDiscoveryServer A K)
    (h : Run Step new as c) (hreset : .reset ∉ as) (hstop : ∀ k r, .asyncStop k r ∉ as) :
    (.run .start ∈ as → c.receives = 1) ∧ replies c.ioContext.log = answers [] as := by
  have hnew : (new : UdpDiscoveryServer A K).Represents [] :=
    ⟨Flags.getFlag_empty _, fun _ => AList.lookup_empty _⟩
  obtain ⟨hreplies, hreceiving⟩ := run_serves h hnew hreset hstop
  refine ⟨fun hmem => ?_, hreplies⟩
  rw [(Tracked.of_run h hreset).receives_eq, hreceiving (Or.inr hmem)]
  rfl

end Steps

theorem replies_of_run_first : ∃ c : UdpDiscoveryServer ℕ ℕ,
    Run Step new [.addDiscoverable ⟨[7], fun a => [UInt8.ofNat a]⟩,
      .addDiscoverable ⟨[7], fun _ => [9]⟩, .asyncStart true, .run .start,
      .handleReceive .success [] 4, .handleReceive .success [7] 5,
      .handleReceive (.other 1) [] 6] c ∧
    c.receives = 1 ∧ replies c.ioContext.log = [([5], 5)] := by
  obtain ⟨c, hrun⟩ : ∃ c : UdpDiscoveryServer ℕ ℕ,
      Run Step new [.addDiscoverable ⟨[7], fun a => [UInt8.ofNat a]⟩,
        .addDiscoverable ⟨[7], fun _ => [9]⟩, .asyncStart true, .run .start,
        .handleReceive .success [] 4, .handleReceive .success [7] 5,
        .handleReceive (.other 1) [] 6] c :=
    ⟨_, Run.iff_foldlM.mpr rfl⟩
  obtain ⟨hreceives, hreplies⟩ := replies_of_run _ c hrun (by simp) (by simp)
  exact ⟨c, hrun, hreceives (by simp), hreplies⟩

end Eestv.Net.UdpDiscoveryServer
