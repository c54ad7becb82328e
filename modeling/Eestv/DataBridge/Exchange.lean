import Eestv.DataBridge.Discovery

/-! From wherever the bridges have got to, one answer and one reception of it are all that a bridge
needs to attempt a connection to another one. -/

namespace Eestv
open Net StdString Runs FirstSeen IoContext

variable {Address : Type*} {makeAddress : List Char → Option Address}

namespace Host

variable {A K : Type} [DecidableEq A] [DecidableEq K] {x : Host A K}

theorem exists_reception (surroundings : Surroundings A) {datagram : List UInt8} (a : A)
    (hreceive : .receiveFrom ∈ x.server.ioContext.operations)
    (hlength : datagram.length ≤ UdpDiscoveryServer.recvBufferSize) :
    ∃ server, (x.serverIn surroundings).Step (.handleReceive .success datagram a) server := by
  obtain ⟨discoverables, heq⟩ := UdpDiscoveryServer.addDiscoverable_eq
    { x.server with discoverables := ∅ } (x.discoverable surroundings)
  refine ⟨_, UdpDiscoveryServer.step_handleReceive.mpr
    ⟨hlength, _, finish_eq_some.mpr ⟨?_, rfl⟩, rfl⟩⟩
  unfold serverIn
  rw [heq]
  exact hreceive

omit [DecidableEq A] in
theorem exists_response {datagram : List UInt8} {a : A}
    (hreceive : .receiveFrom ∈ x.client.ioContext.operations)
    (hlength : datagram.length ≤ UdpDiscoveryClient.recvBufferSize) :
    ∃ client, x.client.Step (.handleResponse .success datagram a) client :=
  ⟨_, UdpDiscoveryClient.step_handleResponse.mpr
    ⟨hlength, _, finish_eq_some.mpr ⟨hreceive, rfl⟩, rfl⟩⟩

theorem step_of_client {e : UdpDiscoveryClient.Event A K} {client : UdpDiscoveryClient A K}
    (he : (Event.client e : Event A K).Setup = false) (hclient : x.client.Step e client) :
    x.step makeAddress (.client e) = some { x with
      client := client
      network := handleResponses makeAddress x.network (x.client.passedOn e) } := by
  have hstep : x.step makeAddress (.client e) = some { x with
      client := client
      network := handleResponses makeAddress x.network (UdpDiscoveryClient.responses
        (client.ioContext.log.drop x.client.ioContext.log.length)) } := by
    unfold step
    rw [he, if_neg Bool.false_ne_true]
    dsimp only
    rw [show x.client.step e = some client from hclient]
    rfl
  obtain ⟨client', hclient', -, heq⟩ := step_client hstep
  obtain rfl : client = client' := Option.some.inj (hclient.symm.trans hclient')
  rw [hstep, heq]

theorem step_of_server {surroundings : Surroundings A} {e : UdpDiscoveryServer.Event A K}
    {server : UdpDiscoveryServer A K}
    (he : (Event.server surroundings e : Event A K).Setup = false)
    (hserver : (x.serverIn surroundings).Step e server) :
    x.step makeAddress (.server surroundings e) = some { x with
      server := server
      discoveredCount := x.discoveredCount + x.discovered e } := by
  unfold step
  rw [he, if_neg Bool.false_ne_true]
  dsimp only
  rw [show (x.serverIn surroundings).step e = some server from hserver]
  rfl

end Host

/-! ### What is exchanged -/

/-- A site that can be asked: both are set up for the same target, and it fits in a datagram. -/
structure Site.Asks {A : Type} (asker site : Site A) : Prop where
  target : site.discoveryTarget = asker.discoveryTarget
  port : UInt16.ofInt site.port = UInt16.ofInt asker.port
  ne_nil : site.discoveryTarget ≠ []
  colon : ':' ∉ textOf site.discoveryTarget
  length : site.discoveryTarget.length ≤ UdpDiscoveryServer.recvBufferSize

/-- An answer that fits in a datagram and is understood. -/
structure Site.Announces {A : Type} (makeAddress : List Char → Option Address) (site : Site A)
    (address : List Char) (now : ℕ) : Prop where
  mem : address ∈ site.addresses
  ne_nil : address ≠ []
  isSome : (makeAddress address).isSome = true
  now_lt : now < 2 ^ 64
  length : (site.announcement address now).length ≤ UdpDiscoveryClient.recvBufferSize

theorem handle_announcement {A : Type} {asker site : Site A} {address : List Char} {now : ℕ}
    {network : Network}
    (htarget : network.bridge.discoveryTarget = textOf asker.discoveryTarget)
    (hasks : asker.Asks site) (hannounces : site.Announces makeAddress address now) :
    (network.handle makeAddress (.response (site.announcement address now))).calls =
      network.calls ++ (if toStdString now ∈ network.bridge.pendingOutgoingConnections ∨
        toStdString now ∈ network.bridge.connectingClients then []
        else [⟨toStdString now, ⟨address, site.tcpPort⟩⟩]) ∧
    (network.handle makeAddress (.response (site.announcement address now))).bridge.discoveryCount =
      network.bridge.discoveryCount + 1 := by
  obtain ⟨ip, hip⟩ := Option.isSome_iff_exists.mp hannounces.isSome
  have hparse := DiscoveryString.parse_construct (mt textOf_eq_nil.mp hasks.ne_nil) hasks.colon
    (Site.notMem_colon hannounces.mem) hip hannounces.ne_nil hannounces.now_lt site.tcpPort
  have hkey : (UInt64.ofNat now).toNat = now := UInt64.toNat_ofNat_of_lt' hannounces.now_lt
  have hinfo : (NetworkEvent.response (site.announcement address now)).info makeAddress
      network.bridge.discoveryTarget =
      some ⟨textOf site.discoveryTarget, address, site.tcpPort, ⟨ip, site.tcpPort⟩,
        UInt64.ofNat now⟩ := by
    rw [NetworkEvent.info, Site.announcement, hparse, htarget, hasks.target]
    exact Option.filter_some_pos (decide_eq_true rfl)
  rw [Network.handle, Bridge.onDiscoveryResponse_some hinfo]
  dsimp only
  unfold Bridge.onPeerDiscovered
  dsimp only
  rw [hkey]
  split
  · exact ⟨rfl, rfl⟩
  · exact ⟨rfl, rfl⟩

theorem Site.announcement_ne_nil {A : Type} (site : Site A) (address : List Char) (now : ℕ) :
    bytesOf (site.announcement address now) ≠ [] := by
  unfold bytesOf Site.announcement DiscoveryString.construct
  simp only [ne_eq, List.map_eq_nil_iff, List.append_eq_nil_iff, reduceCtorEq, and_false,
    not_false_eq_true]

namespace Host

variable {A K : Type} [DecidableEq A] [DecidableEq K] {x : Host A K} {air : Air A}

theorem Sound.exists_answer {asker : Site A} (hx : x.Sound makeAddress air) (a : A)
    (address : List Char) (now : ℕ) (hasks : asker.Asks x.site)
    (hreceive : .receiveFrom ∈ x.server.ioContext.operations) :
    ∃ y, x.step makeAddress (.server ⟨now, fun _ => some address⟩
        (.handleReceive .success x.site.discoveryTarget a)) = some y ∧
      (y.client = x.client ∧ y.network = x.network) ∧
      y.discoveredCount = x.discoveredCount + 1 ∧
      (bytesOf (x.site.announcement address now), a) ∈
        UdpDiscoveryServer.replies y.server.ioContext.log := by
  obtain ⟨server, hserver⟩ :=
    exists_reception ⟨now, fun _ => some address⟩ a hreceive hasks.length
  refine ⟨_, step_of_server rfl hserver, ⟨rfl, rfl⟩, ?_, ?_⟩
  · have hone : x.discovered
        (.handleReceive .success x.site.discoveryTarget a : UdpDiscoveryServer.Event A K) = 1 := by
      simp [discovered, ErrorCode.failed, hasks.ne_nil]
    exact congrArg (x.discoveredCount + ·) hone
  · dsimp only
    rw [UdpDiscoveryServer.step_replies hserver]
    apply List.mem_append_right
    have hquiet : ¬ (ErrorCode.success.failed = true ∨ x.site.discoveryTarget = []) := by
      simp [ErrorCode.failed, hasks.ne_nil]
    have hreply : (x.discoverable ⟨now, fun _ => some address⟩).getReply a =
        bytesOf (x.site.announcement address now) := by
      change bytesOf (x.network.bridge.onDisvovered _ (some address) _) = _
      rw [Bridge.onDisvovered, hx.target]
      rfl
    rw [UdpDiscoveryServer.replied, if_neg hquiet, serverIn_lookup, if_pos rfl]
    dsimp only
    rw [hreply, if_neg (Site.announcement_ne_nil _ _ _)]
    exact List.mem_singleton_self _

theorem Sound.exists_handled {site : Site A} {b : A} {address : List Char} {now : ℕ}
    (hx : x.Sound makeAddress air) (hannounces : site.Announces makeAddress address now)
    (hreceive : .receiveFrom ∈ x.client.ioContext.operations) :
    ∃ y, x.step makeAddress (.client (.handleResponse .success
        (bytesOf (site.announcement address now)) b)) = some y ∧
      y.network = x.network.handle makeAddress (.response (site.announcement address now)) ∧
      y.discoveredCount = x.discoveredCount := by
  have hlength : (bytesOf (site.announcement address now)).length ≤
      UdpDiscoveryClient.recvBufferSize := by
    rw [bytesOf_length]
    exact hannounces.length
  obtain ⟨client, hclient⟩ := exists_response (a := b) hreceive hlength
  refine ⟨_, step_of_client rfl hclient, ?_, rfl⟩
  have hpassed : x.client.passedOn
      (.handleResponse .success (bytesOf (site.announcement address now)) b) =
      [bytesOf (site.announcement address now)] := by
    have hnot : ¬ (ErrorCode.success.failed = true ∨
        bytesOf (site.announcement address now) = [] ∨ x.client.onResponse = false) := by
      simp [ErrorCode.failed, Site.announcement_ne_nil, hx.onResponse]
    rw [UdpDiscoveryClient.passedOn, if_neg hnot]
  have hhandled : handleResponses makeAddress x.network [bytesOf (site.announcement address now)] =
      x.network.handle makeAddress (.response (site.announcement address now)) := by
    change x.network.handle makeAddress (.response (textOf (bytesOf _))) = _
    rw [textOf_bytesOf (Site.narrow_announcement now hannounces.mem)]
  dsimp only
  rw [hpassed, hhandled]

end Host

/-! ### The exchange -/

variable {ι A K : Type} [DecidableEq ι] [DecidableEq A] [DecidableEq K]

theorem twoSites_asks : (twoSites false).Asks (twoSites true) := by
  refine ⟨rfl, rfl, ?_, ?_, ?_⟩ <;> decide

theorem twoSites_announces : (twoSites true).Announces
    (fun ip => if ip = "10.0.0.5".toList then some 0x0A000005#32 else none) "10.0.0.5".toList
    1700000000000 := by
  refine ⟨.head _, ?_, ?_, ?_, ?_⟩ <;> decide

/-- In every reachable state, when a bridge has asked and its socket and that of another one with
its target are received from, that one can answer. The answer leads to an attempt to connect to the
address and port it tells, unless there is an attempt of the same time already, and both bridges
count it. -/
theorem exchange_attempts [Inhabited A] (makeAddress : List Char → Option Address)
    (sites : ι → Site A) (as : List (ι × Host.Event A K)) (l : ι → Host A K)
    (h : Run (discovery ι makeAddress).Step (fun i => .start (sites i)) as l) (i j : ι)
    (hasks : (sites i).Asks (sites j)) (a b : A) (ha : a ∈ (sites i).endpoints)
    (address : List Char) (now : ℕ) (hannounces : (sites j).Announces makeAddress address now)
    (hasked : UdpDiscoveryClient.requests (l i).client.ioContext.log ≠ [])
    (hclient : .receiveFrom ∈ (l i).client.ioContext.operations)
    (hserver : .receiveFrom ∈ (l j).server.ioContext.operations) :
    ∃ l' : ι → Host A K, Run (discovery ι makeAddress).Step l
        [(j, .server ⟨now, fun _ => some address⟩
          (.handleReceive .success (sites j).discoveryTarget a)),
        (i, .client (.handleResponse .success
          (bytesOf ((sites j).announcement address now)) b))] l' ∧
      (l' i).network.calls = (l i).network.calls ++
        (if toStdString now ∈ (l i).network.bridge.connectingClients then []
          else [⟨toStdString now, ⟨address, (sites j).tcpPort⟩⟩]) ∧
      (l' i).network.bridge.discoveryCount = (l i).network.bridge.discoveryCount + 1 ∧
      (l' j).discoveredCount = (l j).discoveredCount + 1 := by
  have hsite := site_of_run h
  have hsound := sound_of_discovery h
  -- the request that `j` receives
  obtain ⟨r, hr⟩ := List.exists_mem_of_ne_nil _ hasked
  have hrequest := (hsound i).requests r hr
  rw [hsite i] at hrequest
  obtain ⟨x, hanswer, hx, hdiscovered, hreply⟩ := (hsound j).exists_answer a address now
    (by rw [hsite j]; exact hasks) hserver
  rw [hsite j] at hanswer hreply
  have hfirst : (discovery ι makeAddress).Step l (j, .server ⟨now, fun _ => some address⟩
      (.handleReceive .success (sites j).discoveryTarget a)) (Function.update l j x) := by
    refine ⟨x, ⟨⟨Or.inr ⟨(sites j).discoveryTarget, ⟨i, ?_, hsite i ▸ ha⟩, ?_⟩, ?_⟩, hanswer⟩, rfl⟩
    · rw [hsite j, hasks.port, hasks.target, ← hrequest]
      exact hr
    · rw [List.take_of_length_le hasks.length]
    · rintro _ ⟨⟩
      rw [hsite j]
      exact hannounces.mem
  -- `i` is as it was, but for its server
  have hsame : (Function.update l j x i).client = (l i).client ∧
      (Function.update l j x i).network = (l i).network := by
    rcases eq_or_ne i j with rfl | hne
    · rw [Function.update_self]
      exact hx
    · rw [Function.update_of_ne hne]
      exact ⟨rfl, rfl⟩
  have hrun := h.append (.single hfirst)
  obtain ⟨y, hhandled, hnetwork, hkept⟩ := (sound_of_discovery hrun i).exists_handled (b := b)
    hannounces (by rw [hsame.1]; exact hclient)
  rw [hsame.2] at hnetwork
  have hsecond : (discovery ι makeAddress).Step (Function.update l j x) (i, .client
      (.handleResponse .success (bytesOf ((sites j).announcement address now)) b))
      (Function.update (Function.update l j x) i y) := by
    refine ⟨y, ⟨Or.inr ⟨bytesOf ((sites j).announcement address now), a, ?_, ⟨j, ?_⟩, ?_⟩,
      hhandled⟩, rfl⟩
    · rw [site_of_run hrun i]
      exact ha
    · rw [Function.update_self]
      exact hreply
    · rw [List.take_of_length_le (bytesOf_length.trans_le hannounces.length)]
  obtain ⟨hcalls, hcount⟩ :=
    handle_announcement ((hsound i).target.trans (by rw [hsite i])) hasks hannounces
  refine ⟨_, .cons hfirst (.single hsecond), ?_, ?_, ?_⟩
  · rw [Function.update_self, hnetwork, hcalls]
    -- a connection is there for an attempt only
    obtain ⟨events, hevents, -⟩ := (hsound i).handled
    have htracks := tracks_run makeAddress (textOf (l i).site.discoveryTarget) events
    rw [← hevents] at htracks
    have hkey : toStdString now ∈ (l i).network.bridge.pendingOutgoingConnections ∨
        toStdString now ∈ (l i).network.bridge.connectingClients ↔
          toStdString now ∈ (l i).network.bridge.connectingClients := by
      refine or_iff_right_of_imp fun hpending => ?_
      obtain ⟨connection, hlookup⟩ := Option.isSome_iff_exists.mp (AList.lookup_isSome.mpr hpending)
      have hcall := htracks.pending_mem _ _ hlookup
      exact AList.lookup_isSome.mp (Option.isSome_iff_exists.mpr
        ⟨_, (htracks.connecting_iff _ _).mpr hcall⟩)
    simp only [hkey]
  · rw [Function.update_self, hnetwork, hcount]
  · rcases eq_or_ne j i with rfl | hne
    · rw [Function.update_self, hkept, Function.update_self, hdiscovered]
    · rw [Function.update_of_ne hne, Function.update_self, hdiscovered]

theorem exchange_attempts_svc : ∃ l l' : Bool → Host ℕ ℕ,
    Run (discovery Bool fun ip => if ip = "10.0.0.5".toList then some 0x0A000005#32 else none).Step l
      [(true, .server ⟨1700000000000, fun _ => some "10.0.0.5".toList⟩
        (.handleReceive .success [115, 118, 99] 4)),
      (false, .client (.handleResponse .success
        (bytesOf "svc:10.0.0.5:4000:1700000000000".toList) 5))] l' ∧
    (l' false).network.calls = [⟨"1700000000000".toList, ⟨"10.0.0.5".toList, 4000⟩⟩] := by
  obtain ⟨l, hrun, hasked, hclient, hserver, hnetwork⟩ : ∃ l : Bool → Host ℕ ℕ,
      Run (discovery Bool fun ip => if ip = "10.0.0.5".toList then some 0x0A000005#32 else none).Step
        (fun i => .start (twoSites i))
        [(false, .client (.run .start)), (true, .server ⟨0, fun _ => none⟩ (.run .start))] l ∧
      UdpDiscoveryClient.requests (l false).client.ioContext.log = [([115, 118, 99], 12345)] ∧
      (l false).client.ioContext.operations = [.receiveFrom, .sendTo [115, 118, 99]
        [255, 255, 255, 255] 12345] ∧
      (l true).server.ioContext.operations = [.receiveFrom] ∧
      (l false).network = .start "svc".toList :=
    ⟨_, .cons ⟨_, ⟨trivial, rfl⟩, rfl⟩ (.cons ⟨_, ⟨trivial, rfl⟩, rfl⟩ (.nil _)), rfl, rfl, rfl, rfl⟩
  obtain ⟨l', hexchange, hcalls, -⟩ := exchange_attempts _ twoSites _ l hrun false true
    twoSites_asks 4 5 (.head _) _ 1700000000000 twoSites_announces (by rw [hasked]; exact nofun)
    (by rw [hclient]; exact .head _) (by rw [hserver]; exact .head _)
  refine ⟨l, l', hexchange, hcalls.trans ?_⟩
  rw [hnetwork]
  rfl

end Eestv
