import Eestv.Net.UdpDiscoveryClientWork
import Eestv.Net.UdpDiscoveryServerReplies

/-! What a step of the discovery's client or server adds to what was sent and passed on, whatever
the state of its flags. -/

namespace Eestv.Net
open Runs IoContext

namespace UdpDiscoveryClient

variable {A K : Type} {b c d : UdpDiscoveryClient A K} {passed passed' : List (List UInt8)}

/-- The requests that were started: what is sent, and to which port. -/
def requests (l : List (Entry (Handler K) Operation (Call A K))) : List (List UInt8 × UInt16) :=
  l.filterMap fun
    | .started (.sendTo buffer _ port) => some (buffer, port)
    | _ => none

def responses (l : List (Entry (Handler K) Operation (Call A K))) : List (List UInt8) :=
  l.filterMap fun
    | .called (.response response _) => some response
    | _ => none

def passedOn (c : UdpDiscoveryClient A K) : Event A K → List (List UInt8)
  | .handleResponse error datagram _ =>
    if error.failed = true ∨ datagram = [] ∨ c.onResponse = false then [] else [datagram]
  | _ => []

structure Continues (c d : UdpDiscoveryClient A K) (passed : List (List UInt8)) : Prop where
  request : d.request = c.request
  onResponse : d.onResponse = c.onResponse
  log : ∃ l, d.ioContext.log = c.ioContext.log ++ l ∧ responses l = passed ∧
    ∀ r ∈ requests l, r = (c.serviceName, UInt16.ofInt c.destinationPort)

@[simp] theorem requests_append (l l' : List (Entry (Handler K) Operation (Call A K))) :
    requests (l ++ l') = requests l ++ requests l' := List.filterMap_append

@[simp] theorem responses_append (l l' : List (Entry (Handler K) Operation (Call A K))) :
    responses (l ++ l') = responses l ++ responses l' := List.filterMap_append

namespace Continues

theorem refl (c : UdpDiscoveryClient A K) : Continues c c [] :=
  ⟨rfl, rfl, [], (List.append_nil _).symm, rfl, nofun⟩

theorem trans (h : Continues b c passed) (h' : Continues c d passed') :
    Continues b d (passed ++ passed') := by
  obtain ⟨l, hl, hpassed, hrequests⟩ := h.log
  obtain ⟨l', hl', hpassed', hrequests'⟩ := h'.log
  refine ⟨h'.request.trans h.request, h'.onResponse.trans h.onResponse, l ++ l', ?_, ?_, ?_⟩
  · rw [hl', hl, List.append_assoc]
  · rw [responses_append, hpassed, hpassed']
  · intro r hr
    rw [requests_append] at hr
    rcases List.mem_append.mp hr with hr | hr
    · exact hrequests r hr
    · have hsame := h.request
      injection hsame with hname _ hport
      rw [hrequests' r hr, hname, hport]

theorem of_quiet (h : Continues b c []) (h' : Continues c d passed) : Continues b d passed :=
  h.trans h'

theorem entry {x : Entry (Handler K) Operation (Call A K)} (hrequest : d.request = c.request)
    (honResponse : d.onResponse = c.onResponse)
    (hlog : d.ioContext.log = c.ioContext.log ++ [x]) (hx : requests [x] = []) :
    Continues c d (responses [x]) :=
  ⟨hrequest, honResponse, [x], hlog, rfl, hx ▸ nofun⟩

theorem sendDiscoveryRequest (c : UdpDiscoveryClient A K) :
    Continues c c.sendDiscoveryRequest [] :=
  ⟨rfl, rfl, [.started c.request], rfl, rfl, by simp [requests, UdpDiscoveryClient.request]⟩

theorem resolveOnStopped (c : UdpDiscoveryClient A K) : Continues c c.resolveOnStopped [] :=
  resolveOnStopped_induction (P := fun d => Continues c d []) (refl c) fun k _ =>
    entry (x := .posted (.stopped k)) rfl rfl rfl rfl

theorem onStop (c : UdpDiscoveryClient A K) : Continues c c.onStop [] :=
  onStop_induction (P := fun d => Continues c d []) (refl c) fun k _ =>
    entry (x := .posted (.stopped k)) rfl rfl rfl rfl

theorem resolve (h : Continues b c passed) (f : UdpDiscoveryState) :
    Continues b ({ c with flags := c.flags.clearFlag f } : UdpDiscoveryClient A K).resolveOnStopped
      passed := by
  have hclear : Continues c { c with flags := c.flags.clearFlag f } [] :=
    ⟨rfl, rfl, (refl c).log⟩
  have hall := (h.trans hclear).trans (resolveOnStopped _)
  rwa [List.append_nil, List.append_nil] at hall

theorem onStart (c : UdpDiscoveryClient A K) : Continues c c.onStart [] := by
  unfold UdpDiscoveryClient.onStart
  split
  · exact of_quiet (c := { c with
      flags := c.flags.setFlag .receivingAsync
      ioContext := c.ioContext.start .receiveFrom })
      (entry (x := .started .receiveFrom) rfl rfl rfl rfl) (sendDiscoveryRequest _)
  · exact resolveOnStopped c

theorem asyncStart (c : UdpDiscoveryClient A K) : Continues c c.asyncStart.2 [] := by
  unfold UdpDiscoveryClient.asyncStart
  split
  · exact refl c
  · exact entry (x := .posted .start) rfl rfl rfl rfl

theorem handleSendComplete (c : UdpDiscoveryClient A K) (error : ErrorCode) :
    Continues c (c.handleSendComplete error) [] := by
  unfold UdpDiscoveryClient.handleSendComplete
  apply resolve
  split
  · exact refl c
  · split
    · exact entry (x := .started (.wait c.retryTimeout)) rfl rfl rfl rfl
    · exact refl c

theorem handleTimeout (c : UdpDiscoveryClient A K) (error : ErrorCode) :
    Continues c (c.handleTimeout error) [] := by
  unfold UdpDiscoveryClient.handleTimeout
  apply resolve
  split
  · exact refl c
  · exact sendDiscoveryRequest c

theorem received (c : UdpDiscoveryClient A K) (error : ErrorCode) (datagram : List UInt8) (a : A) :
    Continues c (c.received error datagram a) [] := by
  unfold UdpDiscoveryClient.received
  split
  · exact refl c
  · exact ⟨rfl, rfl, (refl c).log⟩

theorem handleResponse (c : UdpDiscoveryClient A K) (error : ErrorCode) (n : ℕ) :
    Continues c (c.handleResponse error n)
      (if error.failed = true ∨ n = 0 ∨ c.onResponse = false then [] else [c.recvBuffer.take n]) := by
  unfold UdpDiscoveryClient.handleResponse
  apply resolve
  split
  · rename_i herror
    rw [if_pos (Or.inl herror)]
    exact refl c
  · rename_i herror
    split
    · rename_i hpos
      dsimp only
      split
      · rename_i honResponse
        have hnot : ¬ (error.failed = true ∨ n = 0 ∨ c.onResponse = false) := by
          simp [herror, hpos.ne', honResponse]
        rw [if_neg hnot]
        have hcall : Continues c { c with
            ioContext := c.ioContext.call (.response (c.recvBuffer.take n) c.remoteEndpoint) }
            [c.recvBuffer.take n] :=
          entry (x := .called (.response (c.recvBuffer.take n) c.remoteEndpoint)) rfl rfl rfl rfl
        exact hcall.trans (entry (x := .started .receiveFrom) rfl rfl rfl rfl)
      · rename_i honResponse
        rw [if_pos (Or.inr (Or.inr (Bool.eq_false_iff.mpr honResponse)))]
        exact refl c
    · rename_i hzero
      rw [if_pos (Or.inr (Or.inl (Nat.eq_zero_of_not_pos hzero)))]
      exact refl c

theorem handleResponse_received (c : UdpDiscoveryClient A K) (error : ErrorCode)
    (datagram : List UInt8) (a : A) :
    Continues c ((c.received error datagram a).handleResponse error datagram.length)
      (c.passedOn (.handleResponse error datagram a)) := by
  apply of_quiet (received c error datagram a)
  have hresponse := handleResponse (c.received error datagram a) error datagram.length
  rw [received_onResponse] at hresponse
  split at hresponse
  · rename_i hnone
    rw [passedOn, if_pos (hnone.imp_right (Or.imp_left List.length_eq_zero_iff.mp))]
    exact hresponse
  · rename_i hsome
    have herror : ¬ error.failed = true := fun h => hsome (Or.inl h)
    have hreceived : (c.received error datagram a).recvBuffer.take datagram.length = datagram := by
      unfold UdpDiscoveryClient.received
      rw [if_neg herror]
      exact List.take_left' rfl
    rw [passedOn, if_neg (hsome ∘ Or.imp_right (Or.imp_left List.length_eq_zero_iff.mpr))]
    rwa [hreceived] at hresponse

end Continues

theorem step_continues [DecidableEq K] {e : Event A K} (hstep : c.Step e d) :
    Continues c d (c.passedOn e) := by
  have htake : ∀ {h : Handler K} {io}, c.ioContext.take h = some io →
      Continues c { c with ioContext := io } [] := by
    intro h io hio
    exact Continues.entry (x := .ran h) rfl rfl (take_log hio) rfl
  have hfinish : ∀ {o : Operation} {io}, c.ioContext.finish o = some io →
      Continues c { c with ioContext := io } [] := by
    intro o io hio
    exact Continues.entry (x := .finished o) rfl rfl (finish_log hio) rfl
  cases e with
  | asyncStart r =>
    have hstart := Continues.asyncStart c
    rwa [returned_iff.mp hstep] at hstart
  | asyncStop k r =>
    obtain ⟨-, rfl⟩ | ⟨-, -, rfl⟩ := step_asyncStop hstep
    · exact .refl d
    · exact Continues.entry (x := .posted .stop) rfl rfl rfl rfl
  | reset =>
    cases hstep
    exact ⟨rfl, rfl, (Continues.refl c).log⟩
  | run h =>
    obtain ⟨io, hio, rfl⟩ := step_run.mp hstep
    apply (htake hio).of_quiet
    cases h with
    | start => exact .onStart _
    | stop => exact .onStop _
    | stopped k => exact Continues.entry (x := .called (.stopped k)) rfl rfl rfl rfl
  | handleSendComplete error =>
    obtain ⟨io, hio, rfl⟩ := step_handleSendComplete.mp hstep
    exact (hfinish hio).of_quiet (.handleSendComplete _ error)
  | handleResponse error datagram a =>
    obtain ⟨-, io, hio, rfl⟩ := step_handleResponse.mp hstep
    exact (hfinish hio).of_quiet (.handleResponse_received _ error datagram a)
  | handleTimeout error =>
    obtain ⟨io, hio, rfl⟩ := step_handleTimeout.mp hstep
    exact (hfinish hio).of_quiet (.handleTimeout _ error)

end UdpDiscoveryClient

namespace UdpDiscoveryServer

variable {A K : Type} {c d : UdpDiscoveryServer A K}

def replied (c : UdpDiscoveryServer A K) : Event A K → List (List UInt8 × A)
  | .handleReceive error datagram a =>
    if error.failed = true ∨ datagram = [] then []
    else
      match c.discoverables.lookup datagram with
      | some discoverable =>
        if discoverable.getReply a = [] then [] else [(discoverable.getReply a, a)]
      | none => []
  | _ => []

theorem replies_of_log {x : Entry (Handler K) (Operation A) (Call K)}
    (hlog : d.ioContext.log = c.ioContext.log ++ [x])
    (hx : ∀ buffer a, x ≠ .started (.sendTo buffer a)) :
    replies d.ioContext.log = replies c.ioContext.log := by
  rw [hlog, replies_append, replies_of_not_sent hx, List.append_nil]

theorem resolveOnStopped_replies :
    replies c.resolveOnStopped.ioContext.log = replies c.ioContext.log :=
  resolveOnStopped_induction (P := fun d => replies d.ioContext.log = replies c.ioContext.log) rfl
    fun k _ => replies_of_log (x := .posted (.stopped k)) rfl nofun

theorem onStop_replies : replies c.onStop.ioContext.log = replies c.ioContext.log :=
  onStop_induction (P := fun d => replies d.ioContext.log = replies c.ioContext.log) rfl
    fun k _ => replies_of_log (x := .posted (.stopped k)) rfl nofun

theorem goOn_replies : replies c.goOn.ioContext.log = replies c.ioContext.log := by
  unfold goOn
  split
  · exact replies_of_log (x := .started .receiveFrom) rfl nofun
  · exact resolveOnStopped_replies

theorem onStart_replies : replies c.onStart.ioContext.log = replies c.ioContext.log := by
  unfold onStart
  split
  · exact replies_of_log (x := .started .receiveFrom) rfl nofun
  · exact resolveOnStopped_replies

theorem asyncStart_replies :
    replies c.asyncStart.2.ioContext.log = replies c.ioContext.log := by
  unfold asyncStart
  split
  · rfl
  · exact replies_of_log (x := .posted .start) rfl nofun

theorem handleReceive_replies (error : ErrorCode) (datagram : List UInt8) (a : A) :
    replies ((c.received error datagram a).handleReceive error datagram.length).ioContext.log =
      replies c.ioContext.log ++ c.replied (.handleReceive error datagram a) := by
  rw [handleReceive_eq, goOn_replies, sendReply_replies]
  obtain ⟨buffer, b, heq⟩ := received_eq c error datagram a
  have hlog : (c.received error datagram a).ioContext.log = c.ioContext.log := by
    rw [heq]
  rw [hlog, replied]
  congr 1
  by_cases hquiet : error.failed = true ∨ datagram = []
  · have hnone : (c.received error datagram a).reply error datagram.length = [] := by
      unfold reply
      rcases hquiet with herror | rfl
      · rw [if_pos herror]
      · rw [List.length_nil, if_neg (Nat.lt_irrefl 0), ite_self]
    rw [hnone, if_pos rfl, if_pos hquiet]
  · obtain ⟨herror, hempty⟩ := not_or.mp hquiet
    rw [if_neg hquiet, received_of_success herror, receive_reply herror hempty]
    rcases c.discoverables.lookup datagram with _ | discoverable
    · rfl
    · rfl

theorem step_replies [DecidableEq A] [DecidableEq K] {e : Event A K} (hstep : c.Step e d) :
    replies d.ioContext.log = replies c.ioContext.log ++ c.replied e := by
  have hquiet : replies d.ioContext.log = replies c.ioContext.log →
      replies d.ioContext.log = replies c.ioContext.log ++ [] :=
    fun h => h.trans (List.append_nil _).symm
  cases e with
  | addDiscoverable discoverable =>
    cases hstep
    obtain ⟨discoverables, heq⟩ := addDiscoverable_eq c discoverable
    apply hquiet
    rw [heq]
  | asyncStart r =>
    have hstart := asyncStart_replies (c := c)
    rw [returned_iff.mp hstep] at hstart
    exact hquiet hstart
  | asyncStop k r =>
    apply hquiet
    obtain ⟨-, rfl⟩ | ⟨-, -, rfl⟩ := step_asyncStop hstep
    · rfl
    · exact replies_of_log (x := .posted .stop) rfl nofun
  | reset =>
    cases hstep
    exact hquiet rfl
  | run h =>
    apply hquiet
    obtain ⟨io, hio, rfl⟩ := step_run.mp hstep
    rw [← take_replies hio]
    cases h with
    | start => exact onStart_replies
    | stop => exact onStop_replies
    | stopped k =>
      exact replies_of_log (c := { c with ioContext := io }) (x := .called (.stopped k)) rfl nofun
  | handleReceive error datagram a =>
    obtain ⟨-, io, hio, rfl⟩ := step_handleReceive.mp hstep
    rw [handleReceive_replies, finish_replies hio]
    rfl
  | handleSend buffer a error =>
    apply hquiet
    obtain ⟨io, hio, rfl⟩ := step_handleSend.mp hstep
    rw [← finish_replies hio]
    exact resolveOnStopped_replies

end UdpDiscoveryServer
end Eestv.Net
