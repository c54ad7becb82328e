import Eestv.DataBridge.Host
import Eestv.Library.Nodes
import Eestv.Net.DiscoveryStringNumbers

/-! Any number of bridges that discover each other. Datagrams are lost, repeated and reordered, and
each bridge calls, completes and stops in any order. -/

namespace Eestv
open Net StdString Runs FirstSeen

variable {Address : Type*} {makeAddress : List Char → Option Address}

/-! ### A reply that was cut off -/

namespace DiscoveryString

theorem construct_hasParts {s ip : List Char} (hs : ':' ∉ s) (hip : ':' ∉ ip) (port : UInt16)
    (now : ℕ) :
    HasParts (construct s ip port now) s ip (toStdString port.toNat) (toStdString now) :=
  ⟨hs, hip, notMem_toStdString _ rfl, rfl⟩

theorem HasParts.append {response s ip p t : List Char} (h : HasParts response s ip p t)
    (rest : List Char) : HasParts (response ++ rest) s ip p (t ++ rest) := by
  refine ⟨h.notMem_serviceName, h.notMem_ip, h.notMem_port, ?_⟩
  rw [h.eq_append]
  simp only [List.append_assoc, List.cons_append]

theorem info_of_take {s ip : List Char} {port : UInt16} {now n : ℕ}
    {info : DiscoveryInfo Address} (hs : ':' ∉ s) (hip : ':' ∉ ip)
    (h : parse makeAddress ((construct s ip port now).take n) = some info) :
    info.serviceName = s ∧ info.ipAddress = ip ∧ info.port = port := by
  obtain ⟨s', ip', p', t', hparts⟩ := hasParts_of_parse h
  have hwhole := hparts.append ((construct s ip port now).drop n)
  rw [List.take_append_drop] at hwhole
  obtain ⟨rfl, rfl, rfl, -⟩ := hwhole.unique (construct_hasParts hs hip port now)
  rw [hparts.parse_eq] at h
  obtain ⟨-, hname, haddress, -⟩ := infoOfParts_eq_some h
  refine ⟨hname, haddress, ?_⟩
  unfold infoOfParts at h
  split at h
  · cases h
  · split at h
    · cases h
    · have hport : port.toNat < 2 ^ 31 := Nat.lt_trans port.toNat_lt (by decide)
      rw [stoi_toStdString hport, Option.bind_some] at h
      simp only [Option.bind_eq_some_iff, Option.some.injEq] at h
      obtain ⟨_, -, _, -, rfl⟩ := h
      exact UInt16.toNat_inj.mp (toNat_ofInt_port port.toNat_lt)

end DiscoveryString

/-! ### One bridge -/

theorem Site.notMem_colon {A : Type} {site : Site A} {address : List Char}
    (h : address ∈ site.addresses) : ':' ∉ address := by
  intro hcolon
  rcases site.plain address h ':' hcolon with hdigit | hdot
  · exact absurd hdigit (by decide)
  · exact absurd hdot (by decide)

theorem Site.narrow {A : Type} {site : Site A} {address : List Char}
    (h : address ∈ site.addresses) : Narrow address := by
  intro c hc
  rcases site.plain address h c hc with hdigit | rfl
  · exact narrow_of_isDigit hdigit
  · decide

def Site.announcement {A : Type} (site : Site A) (address : List Char) (now : ℕ) : List Char :=
  DiscoveryString.construct (textOf site.discoveryTarget) address site.tcpPort now

theorem Site.narrow_announcement {A : Type} {site : Site A} {address : List Char} (now : ℕ)
    (h : address ∈ site.addresses) : Narrow (site.announcement address now) := by
  apply (narrow_textOf _).append
  apply Narrow.cons _ (by decide)
  apply (Site.narrow h).append
  apply Narrow.cons _ (by decide)
  apply (narrow_toStdString _).append
  exact (narrow_toStdString _).cons (by decide)

namespace Host

variable {A K : Type} {air air' : Air A} {x y : Host A K}

/-- One bridge on its own, with what the others have sent: it asks for its target only, it answers
only what was asked, and it handles only replies that were sent to it. -/
structure Sound (makeAddress : List Char → Option Address) (air : Air A) (x : Host A K) : Prop where
  request : x.client.request =
    .sendTo x.site.discoveryTarget [255, 255, 255, 255] (UInt16.ofInt x.site.port)
  onResponse : x.client.onResponse = true
  requests : ∀ r ∈ UdpDiscoveryClient.requests x.client.ioContext.log,
    r = (x.site.discoveryTarget, UInt16.ofInt x.site.port)
  replies : ∀ r ∈ UdpDiscoveryServer.replies x.server.ioContext.log,
    (∃ address ∈ x.site.addresses, ∃ now, r.1 = bytesOf (x.site.announcement address now)) ∧
      ∃ buffer, air.requests buffer (UInt16.ofInt x.site.port) r.2 ∧
        buffer.take UdpDiscoveryServer.recvBufferSize = x.site.discoveryTarget
  handled : ∃ events, x.network = .run makeAddress (textOf x.site.discoveryTarget) events ∧
    ∀ text, .response text ∈ events → ∃ buffer, ∃ a ∈ x.site.endpoints, air.replies buffer a ∧
      text = textOf (buffer.take UdpDiscoveryClient.recvBufferSize)

theorem start_sound [Inhabited A] (site : Site A) :
    (start site : Host A K).Sound makeAddress air := by
  have hclient := UdpDiscoveryClient.Continues.asyncStart
    (.new site.discoveryTarget 1000 site.port true : UdpDiscoveryClient A K)
  refine ⟨hclient.request, hclient.onResponse, ?_, ?_, [], rfl, nofun⟩
  · obtain ⟨l, hl, -, hrequests⟩ := hclient.log
    intro r hr
    rw [show (start site : Host A K).client.ioContext.log = l from hl] at hr
    exact hrequests r hr
  · intro r hr
    rw [start, UdpDiscoveryServer.asyncStart_replies] at hr
    cases hr

theorem Sound.mono (h : x.Sound makeAddress air)
    (hrequests : ∀ buffer port a, air.requests buffer port a → air'.requests buffer port a)
    (hreplies : ∀ buffer a, air.replies buffer a → air'.replies buffer a) :
    x.Sound makeAddress air' := by
  obtain ⟨events, hevents, hresponses⟩ := h.handled
  refine ⟨h.request, h.onResponse, h.requests, ?_, events, hevents, ?_⟩
  · intro r hr
    obtain ⟨hannounced, buffer, hbuffer, htake⟩ := h.replies r hr
    exact ⟨hannounced, buffer, hrequests _ _ _ hbuffer, htake⟩
  · intro text htext
    obtain ⟨buffer, a, ha, hsent, rfl⟩ := hresponses text htext
    exact ⟨buffer, a, ha, hreplies _ _ hsent, rfl⟩

theorem handleResponses_run (target : List Char) (events : List NetworkEvent)
    (responses : List (List UInt8)) :
    handleResponses makeAddress (.run makeAddress target events) responses =
      .run makeAddress target
        (events ++ responses.map fun response => .response (textOf response)) := by
  unfold handleResponses Network.run
  rw [List.foldl_append, List.foldl_map]

theorem serverIn_lookup (surroundings : Surroundings A) (identifier : List UInt8) :
    (x.serverIn surroundings).discoverables.lookup identifier =
      if identifier = x.site.discoveryTarget then some (x.discoverable surroundings) else none := by
  unfold serverIn UdpDiscoveryServer.addDiscoverable
  rw [if_neg (AList.notMem_empty _)]
  split
  · rename_i heq
    rw [heq]
    exact AList.lookup_insert _
  · rename_i hne
    exact (AList.lookup_insert_ne hne).trans (AList.lookup_empty _)

theorem serverIn_log (surroundings : Surroundings A) :
    (x.serverIn surroundings).ioContext.log = x.server.ioContext.log := by
  obtain ⟨discoverables, heq⟩ := UdpDiscoveryServer.addDiscoverable_eq
    { x.server with discoverables := ∅ } (x.discoverable surroundings)
  exact congrArg (·.ioContext.log) heq

theorem replied_of_permits {surroundings : Surroundings A} {e : UdpDiscoveryServer.Event A K}
    (htarget : x.network.bridge.discoveryTarget = textOf x.site.discoveryTarget)
    (hpermits : Permits air x (.server surroundings e)) :
    ∀ r ∈ (x.serverIn surroundings).replied e,
      (∃ address ∈ x.site.addresses, ∃ now, r.1 = bytesOf (x.site.announcement address now)) ∧
        ∃ buffer, air.requests buffer (UInt16.ofInt x.site.port) r.2 ∧
          buffer.take UdpDiscoveryServer.recvBufferSize = x.site.discoveryTarget := by
  intro r hr
  cases e with
  | handleReceive error datagram a =>
    obtain ⟨hrequest, hlocal⟩ := hpermits
    rw [UdpDiscoveryServer.replied, serverIn_lookup] at hr
    split at hr
    · cases hr
    · rename_i hquiet
      obtain ⟨herror, -⟩ := not_or.mp hquiet
      obtain ⟨buffer, hbuffer, rfl⟩ := hrequest.resolve_left herror
      by_cases heq : buffer.take UdpDiscoveryServer.recvBufferSize = x.site.discoveryTarget
      · rw [if_pos heq] at hr
        dsimp only at hr
        split at hr
        · cases hr
        · rename_i hreply
          obtain rfl := List.mem_singleton.mp hr
          refine ⟨?_, buffer, hbuffer, heq⟩
          change bytesOf (x.network.bridge.onDisvovered _ (surroundings.localAddress a) _) ≠ []
            at hreply
          change ∃ address ∈ x.site.addresses, ∃ now, bytesOf (x.network.bridge.onDisvovered _
            (surroundings.localAddress a) _) = _
          rcases haddress : surroundings.localAddress a with _ | address
          · rw [haddress] at hreply
            exact absurd rfl hreply
          · refine ⟨address, hlocal address haddress, surroundings.now, ?_⟩
            rw [Bridge.onDisvovered, htarget]
            rfl
      · rw [if_neg heq] at hr
        cases hr
  | _ => cases hr

theorem Sound.target (h : x.Sound makeAddress air) :
    x.network.bridge.discoveryTarget = textOf x.site.discoveryTarget := by
  obtain ⟨events, hevents, -⟩ := h.handled
  rw [hevents]
  exact (tracks_run makeAddress _ events).target_eq

theorem passedOn_of_permits {e : UdpDiscoveryClient.Event A K}
    (hpermits : Permits air x (.client e)) : ∀ response ∈ x.client.passedOn e,
      ∃ buffer, ∃ a ∈ x.site.endpoints, air.replies buffer a ∧
        response = buffer.take UdpDiscoveryClient.recvBufferSize := by
  intro response hresponse
  cases e with
  | handleResponse error datagram a =>
    rw [UdpDiscoveryClient.passedOn] at hresponse
    split at hresponse
    · cases hresponse
    · rename_i hnot
      obtain rfl := List.mem_singleton.mp hresponse
      exact hpermits.resolve_left fun herror => hnot (Or.inl herror)
  | _ => cases hresponse

variable [DecidableEq A] [DecidableEq K]

theorem step_client {e : UdpDiscoveryClient.Event A K}
    (h : x.step makeAddress (.client e) = some y) : ∃ client, x.client.Step e client ∧
      x.client.Continues client (x.client.passedOn e) ∧ y = { x with
        client := client
        network := handleResponses makeAddress x.network (x.client.passedOn e) } := by
  obtain ⟨-, h⟩ := Option.ite_none_left_eq_some.mp h
  obtain ⟨client, hclient, rfl⟩ := Option.map_eq_some_iff.mp h
  have hcontinues := UdpDiscoveryClient.step_continues hclient
  obtain ⟨l, hl, hpassed, -⟩ := hcontinues.log
  refine ⟨client, hclient, hcontinues, ?_⟩
  rw [hl, List.drop_left, hpassed]

theorem step_server {surroundings : Surroundings A} {e : UdpDiscoveryServer.Event A K}
    (h : x.step makeAddress (.server surroundings e) = some y) :
    ∃ server, (x.serverIn surroundings).Step e server ∧ y = { x with
      server := server
      discoveredCount := x.discoveredCount + x.discovered e } := by
  obtain ⟨-, h⟩ := Option.ite_none_left_eq_some.mp h
  obtain ⟨server, hserver, rfl⟩ := Option.map_eq_some_iff.mp h
  exact ⟨server, hserver, rfl⟩

theorem step_completion {index : ℕ} {error : Bool}
    (h : x.step makeAddress (.completion index error) = some y) :
    y = { x with network := x.network.handle makeAddress (.completion index error) } :=
  (Option.some.inj h).symm

theorem Sound.step {event : Event A K} (h : x.Sound makeAddress air)
    (hpermits : Permits air x event) (hstep : x.step makeAddress event = some y) :
    y.Sound makeAddress air := by
  obtain ⟨events, hevents, hresponses⟩ := h.handled
  cases event with
  | client e =>
    obtain ⟨client, -, hcontinues, rfl⟩ := step_client hstep
    have hrequest := h.request
    injection hrequest with hname _ hport
    refine ⟨hcontinues.request.trans h.request, hcontinues.onResponse.trans h.onResponse, ?_,
      h.replies, events ++ (x.client.passedOn e).map fun response => .response (textOf response),
      ?_, ?_⟩
    · obtain ⟨l, hl, -, hrequests⟩ := hcontinues.log
      intro r hr
      dsimp only at hr
      rw [hl, UdpDiscoveryClient.requests_append] at hr
      rcases List.mem_append.mp hr with hr | hr
      · exact h.requests r hr
      · rw [hrequests r hr, hname, hport]
    · dsimp only
      rw [hevents]
      exact handleResponses_run _ events _
    · intro text htext
      rcases List.mem_append.mp htext with htext | htext
      · exact hresponses text htext
      · obtain ⟨response, hmem, heq⟩ := List.mem_map.mp htext
        obtain ⟨buffer, a, ha, hsent, rfl⟩ := passedOn_of_permits hpermits response hmem
        injection heq with heq
        exact ⟨buffer, a, ha, hsent, heq.symm⟩
  | server surroundings e =>
    obtain ⟨server, hserver, rfl⟩ := step_server hstep
    refine ⟨h.request, h.onResponse, h.requests, ?_, events, hevents, hresponses⟩
    intro r hr
    dsimp only at hr
    rw [UdpDiscoveryServer.step_replies hserver, serverIn_log] at hr
    rcases List.mem_append.mp hr with hr | hr
    · exact h.replies r hr
    · exact replied_of_permits h.target hpermits r hr
  | completion index error =>
    obtain rfl := step_completion hstep
    refine ⟨h.request, h.onResponse, h.requests, h.replies, events ++ [.completion index error],
      ?_, ?_⟩
    · dsimp only
      rw [hevents, Network.run_snoc]
    · intro text htext
      rcases List.mem_append.mp htext with htext | htext
      · exact hresponses text htext
      · cases List.mem_singleton.mp htext

theorem site_of_step {event : Event A K} (hstep : x.step makeAddress event = some y) :
    y.site = x.site := by
  cases event with
  | client e =>
    obtain ⟨client, -, -, rfl⟩ := step_client hstep
    rfl
  | server surroundings e =>
    obtain ⟨server, -, rfl⟩ := step_server hstep
    rfl
  | completion index error =>
    obtain rfl := step_completion hstep
    rfl

theorem log_of_step {event : Event A K} (hstep : x.step makeAddress event = some y) :
    (∀ r ∈ UdpDiscoveryClient.requests x.client.ioContext.log,
      r ∈ UdpDiscoveryClient.requests y.client.ioContext.log) ∧
    ∀ r ∈ UdpDiscoveryServer.replies x.server.ioContext.log,
      r ∈ UdpDiscoveryServer.replies y.server.ioContext.log := by
  cases event with
  | client e =>
    obtain ⟨client, -, hcontinues, rfl⟩ := step_client hstep
    obtain ⟨l, hl, -⟩ := hcontinues.log
    refine ⟨fun r hr => ?_, fun _ => id⟩
    dsimp only
    rw [hl, UdpDiscoveryClient.requests_append]
    exact List.mem_append_left _ hr
  | server surroundings e =>
    obtain ⟨server, hserver, rfl⟩ := step_server hstep
    refine ⟨fun _ => id, fun r hr => ?_⟩
    dsimp only
    rw [UdpDiscoveryServer.step_replies hserver, serverIn_log]
    exact List.mem_append_left _ hr
  | completion index error =>
    obtain rfl := step_completion hstep
    exact ⟨fun _ => id, fun _ => id⟩

end Host

/-! ### All bridges -/

variable {ι A K : Type}

/-- A request reaches whoever listens at its port, a reply only the one who asked. -/
def discovery [DecidableEq A] [DecidableEq K] (ι : Type)
    (makeAddress : List Char → Option Address) :
    Nodes ι (Host A K) (Air A) (Host.Event A K) where
  view l _ :=
    { requests := fun buffer port a => ∃ k, (buffer, port) ∈
        UdpDiscoveryClient.requests (l k).client.ioContext.log ∧ a ∈ (l k).site.endpoints
      replies := fun buffer a => ∃ j, (buffer, a) ∈
        UdpDiscoveryServer.replies (l j).server.ioContext.log }
  step air x event y := x.Permits air event ∧ x.step makeAddress event = some y

section Runs

variable [DecidableEq ι] [DecidableEq A] [DecidableEq K] [Inhabited A] {sites : ι → Site A}
  {as : List (ι × Host.Event A K)} {l : ι → Host A K}

theorem site_of_run
    (h : Run (discovery ι makeAddress).Step (fun i => .start (sites i)) as l) (i : ι) :
    (l i).site = sites i := by
  refine h.invariant (I := fun l => ∀ i, (l i).site = sites i) ?_ (fun _ => rfl) i
  intro s a t hs hstep i
  rcases eq_or_ne i a.1 with rfl | hi
  · exact (Host.site_of_step (Nodes.step_self hstep).2).trans (hs _)
  · rw [Nodes.step_other hstep hi]
    exact hs i

theorem sound_of_discovery
    (h : Run (discovery ι makeAddress).Step (fun i => .start (sites i)) as l) (i : ι) :
    (l i).Sound makeAddress ((discovery ι makeAddress).view l i) := by
  refine Nodes.view_of_run (N := discovery ι makeAddress)
    (I := fun air x => x.Sound makeAddress air)
    (G := fun air air' : Air A =>
      (∀ buffer port a, air.requests buffer port a → air'.requests buffer port a) ∧
        ∀ buffer a, air.replies buffer a → air'.replies buffer a)
    (fun _ _ _ _ hx hstep => hx.step hstep.1 hstep.2) ?_
    (fun _ _ _ hgrows hx => hx.mono hgrows.1 hgrows.2) h (fun _ => Host.start_sound _) i
  -- whoever steps sends more, and the others have sent what they had
  intro s a t _ hstep
  have hlog : ∀ k,
      (∀ r ∈ UdpDiscoveryClient.requests (s k).client.ioContext.log,
        r ∈ UdpDiscoveryClient.requests (t k).client.ioContext.log) ∧
      (∀ r ∈ UdpDiscoveryServer.replies (s k).server.ioContext.log,
        r ∈ UdpDiscoveryServer.replies (t k).server.ioContext.log) ∧ (t k).site = (s k).site := by
    intro k
    rcases eq_or_ne k a.1 with rfl | hk
    · have hself := (Nodes.step_self hstep).2
      exact ⟨(Host.log_of_step hself).1, (Host.log_of_step hself).2, Host.site_of_step hself⟩
    · rw [Nodes.step_other hstep hk]
      exact ⟨fun _ => id, fun _ => id, rfl⟩
  constructor
  · rintro buffer port b ⟨k, hk, hb⟩
    exact ⟨k, (hlog k).1 _ hk, (hlog k).2.2 ▸ hb⟩
  · rintro buffer b ⟨j, hj⟩
    exact ⟨j, (hlog j).2.1 _ hj⟩

/-- Whatever happens to the datagrams, every attempt and every connection of a bridge goes to an
address and the port of a bridge with the same target, that announced them to this bridge after
this bridge had asked. -/
theorem attempts_are_answered (makeAddress : List Char → Option Address) (sites : ι → Site A)
    (hendpoints : ∀ i j a, a ∈ (sites i).endpoints → a ∈ (sites j).endpoints → i = j)
    (as : List (ι × Host.Event A K)) (l : ι → Host A K)
    (h : Run (discovery ι makeAddress).Step (fun i => .start (sites i)) as l) (i : ι)
    (call : ConnectCall) (hcall : call ∈ (l i).network.calls ∨
      (l i).network.bridge.pendingOutgoingConnections.lookup call.key = some ⟨call.client⟩) :
    ∃ j, ∃ address ∈ (sites j).addresses, ∃ now, ∃ a ∈ (sites i).endpoints,
      (sites j).discoveryTarget = (sites i).discoveryTarget ∧
      call.client = ⟨address, (sites j).tcpPort⟩ ∧
      (bytesOf ((sites j).announcement address now), a) ∈
        UdpDiscoveryServer.replies (l j).server.ioContext.log ∧
      ((sites i).discoveryTarget, UInt16.ofInt (sites j).port) ∈
        UdpDiscoveryClient.requests (l i).client.ioContext.log := by
  have hsite := site_of_run h
  have hsound := sound_of_discovery h
  obtain ⟨events, hevents, hresponses⟩ := (hsound i).handled
  have htracks := tracks_run makeAddress (textOf (l i).site.discoveryTarget) events
  rw [← hevents] at htracks
  replace hcall : call ∈ (l i).network.calls := hcall.elim id (htracks.pending_mem call.key _)
  -- the reply that the call is for
  obtain ⟨info, hfirst, rfl⟩ := (htracks.mem_calls_iff call).mp hcall
  obtain ⟨event, hmem, hinfo⟩ := List.mem_filterMap.mp hfirst.mem
  cases event with
  | completion index error => cases hinfo
  | response text =>
    obtain ⟨hparse, htarget⟩ := Option.filter_eq_some_iff.mp hinfo
    have hname : info.serviceName = textOf (l i).site.discoveryTarget := of_decide_eq_true htarget
    obtain ⟨buffer, a, ha, ⟨j, hj⟩, rfl⟩ := hresponses text hmem
    -- what `j` was asked, and that it was `i` who asked
    obtain ⟨⟨address, haddress, now, hbuffer⟩, asked, ⟨k, hk, hak⟩, htake⟩ :=
      (hsound j).replies _ hj
    dsimp only at hbuffer hak
    rw [hsite i] at ha hname
    rw [hsite k] at hak
    obtain rfl := hendpoints _ _ a ha hak
    have hrequest := (hsound i).requests _ hk
    rw [hsite j] at haddress hbuffer htake hk hrequest
    rw [hsite i] at hrequest
    injection hrequest with hasked hport
    subst hasked hbuffer
    rw [textOf_take, textOf_bytesOf (Site.narrow_announcement now haddress)] at hparse
    have hcolon : ':' ∉ textOf (sites i).discoveryTarget :=
      hname ▸ (DiscoveryString.wellFormed_of_parse hparse).2.1
    have hcolon' : ':' ∉ textOf (sites j).discoveryTarget := by
      rw [← htake, textOf_take]
      exact fun hmem => hcolon (List.mem_of_mem_take hmem)
    obtain ⟨hs, hip, hp⟩ := DiscoveryString.info_of_take hcolon' (Site.notMem_colon haddress) hparse
    refine ⟨j, address, haddress, now, a, ha, ?_, ?_, hj, hk⟩
    · exact textOf_injective (hs.symm.trans hname)
    · rw [DiscoveryInfo.call, hip, hp]

end Runs

def twoSites (second : Bool) : Site ℕ where
  discoveryTarget := [115, 118, 99]
  port := 12345
  tcpPort := if second then 4000 else 4001
  addresses := [if second then "10.0.0.5".toList else "10.0.0.4".toList]
  plain := by cases second <;> simp
  endpoints := [if second then 5 else 4]

theorem attempts_are_answered_svc : ∃ l : Bool → Host ℕ ℕ,
    (l false).network.calls = [⟨"1700000000000".toList, ⟨"10.0.0.5".toList, 4000⟩⟩] ∧
    ∃ j, "10.0.0.5".toList ∈ (twoSites j).addresses ∧ (twoSites j).tcpPort = 4000 := by
  obtain ⟨l, hrun, hcalls⟩ : ∃ l : Bool → Host ℕ ℕ,
      Run (discovery Bool fun ip => if ip = "10.0.0.5".toList then some 0x0A000005#32 else none).Step
        (fun i => .start (twoSites i))
        [(false, .client (.run .start)), (true, .server ⟨0, fun _ => none⟩ (.run .start)),
          (true, .server ⟨1700000000000, fun _ => some "10.0.0.5".toList⟩
            (.handleReceive .success [115, 118, 99] 4)),
          (false, .client (.handleResponse .success
            (bytesOf "svc:10.0.0.5:4000:1700000000000".toList) 5))] l ∧
      (l false).network.calls = [⟨"1700000000000".toList, ⟨"10.0.0.5".toList, 4000⟩⟩] := by
    refine ⟨_, .cons ⟨_, ⟨trivial, rfl⟩, rfl⟩ (.cons ⟨_, ⟨trivial, rfl⟩, rfl⟩
      (.cons ⟨_, ⟨⟨?_, ?_⟩, rfl⟩, rfl⟩ (.cons ⟨_, ⟨?_, rfl⟩, rfl⟩ (.nil _)))), rfl⟩
    · exact Or.inr ⟨[115, 118, 99], ⟨false, .head _, .head _⟩, rfl⟩
    · rintro address ⟨⟩
      exact .head _
    · exact Or.inr ⟨_, 4, .head _, ⟨true, .head _⟩, rfl⟩
  have hendpoints : ∀ i j a, a ∈ (twoSites i).endpoints → a ∈ (twoSites j).endpoints → i = j := by
    intro i j a hi hj
    have heq := (List.mem_singleton.mp hi).symm.trans (List.mem_singleton.mp hj)
    cases i <;> cases j <;> first | rfl | exact absurd heq (by decide)
  obtain ⟨j, address, haddress, now, a, -, -, hclient, -⟩ := attempts_are_answered _ twoSites
    hendpoints _ l hrun false ⟨"1700000000000".toList, ⟨"10.0.0.5".toList, 4000⟩⟩
    (Or.inl (hcalls ▸ .head _))
  injection hclient with hhost hport
  exact ⟨l, hcalls, j, hhost ▸ haddress, hport.symm⟩

end Eestv
