import Eestv.DataBridge.Bridge

/-! Which attempts a run of discovery replies starts: one for each first reply of a
timestamp. From this, when a peer is attempted twice and when a peer is passed over. -/

namespace Eestv
open StdString FirstSeen

variable {Address : Type*} {makeAddress : List Char → Option Address} {target : List Char}
variable {infos : List (DiscoveryInfo Address)} {info : DiscoveryInfo Address} {network : Network}

def DiscoveryInfo.call (info : DiscoveryInfo Address) : ConnectCall :=
  ⟨toStdString info.timestampMs.toNat, ⟨info.ipAddress, info.port⟩⟩

theorem key_eq_iff {a b : DiscoveryInfo Address} :
    a.call.key = b.call.key ↔ a.timestampMs = b.timestampMs :=
  ⟨fun h => UInt64.toNat_inj.mp (toStdString_injective h),
    fun h => congrArg (fun t : UInt64 => toStdString t.toNat) h⟩

/-- The tables of a bridge that has handled the replies `infos`. Nothing is ever removed
from them: the calls made are the entries of `connectingClients`. -/
structure Tracks (target : List Char) (infos : List (DiscoveryInfo Address))
    (network : Network) : Prop where
  target_eq : network.bridge.discoveryTarget = target
  count_eq : network.bridge.discoveryCount = infos.length
  mem_calls_iff : ∀ call, call ∈ network.calls ↔
    ∃ a, First DiscoveryInfo.timestampMs infos a ∧ a.call = call
  inFlight_subset : network.inFlight ⊆ network.calls
  connecting_iff : ∀ key client, network.bridge.connectingClients.lookup key = some client ↔
    ⟨key, client⟩ ∈ network.calls
  pending_mem : ∀ key connection,
    network.bridge.pendingOutgoingConnections.lookup key = some connection →
    ⟨key, connection.client⟩ ∈ network.calls

theorem tracks_start :
    Tracks target ([] : List (DiscoveryInfo Address)) (Network.start target) where
  target_eq := rfl
  count_eq := rfl
  mem_calls_iff _ := ⟨nofun, fun ⟨_, h, _⟩ => absurd h not_first_nil⟩
  inFlight_subset := nofun
  connecting_iff _ _ := ⟨nofun, nofun⟩
  pending_mem _ _ := nofun

namespace Tracks

theorem found_iff (h : Tracks target infos network) :
    (info.call.key ∈ network.bridge.pendingOutgoingConnections ∨
      info.call.key ∈ network.bridge.connectingClients) ↔
    ¬Fresh DiscoveryInfo.timestampMs infos info := by
  have hcall : (∃ client, ⟨info.call.key, client⟩ ∈ network.calls) ↔
      ¬Fresh DiscoveryInfo.timestampMs infos info := by
    rw [not_fresh_iff]
    constructor
    · rintro ⟨client, hmem⟩
      obtain ⟨a, ha, hcall⟩ := (h.mem_calls_iff _).mp hmem
      have hkey : a.call.key = info.call.key := by rw [hcall]
      exact ⟨a, ha, key_eq_iff.mp hkey⟩
    · rintro ⟨a, ha, hts⟩
      refine ⟨a.call.client, (h.mem_calls_iff _).mpr ⟨a, ha, ?_⟩⟩
      rw [← key_eq_iff.mpr hts]
  rw [← hcall]
  constructor
  · rintro (hp | hc)
    · obtain ⟨connection, hlookup⟩ := Option.isSome_iff_exists.mp (AList.lookup_isSome.mpr hp)
      exact ⟨_, h.pending_mem _ _ hlookup⟩
    · obtain ⟨client, hlookup⟩ := Option.isSome_iff_exists.mp (AList.lookup_isSome.mpr hc)
      exact ⟨client, (h.connecting_iff _ _).mp hlookup⟩
  · rintro ⟨client, hmem⟩
    exact Or.inr (AList.lookup_isSome.mp
      (Option.isSome_of_eq_some ((h.connecting_iff _ _).mpr hmem)))

theorem call_of_fresh (h : Tracks target infos network)
    (hfresh : Fresh DiscoveryInfo.timestampMs infos info) :
    network.bridge.onPeerDiscovered info =
      ⟨{ network.bridge with
          connectingClients :=
            network.bridge.connectingClients.insert info.call.key info.call.client
          discoveryCount := network.bridge.discoveryCount + 1 }, some info.call, true⟩ :=
  if_neg fun hfound => h.found_iff.mp hfound hfresh

theorem no_call_of_not_fresh (h : Tracks target infos network)
    (hfresh : ¬Fresh DiscoveryInfo.timestampMs infos info) :
    network.bridge.onPeerDiscovered info =
      ⟨{ network.bridge with discoveryCount := network.bridge.discoveryCount + 1 }, none, true⟩ :=
  if_pos (h.found_iff.mpr hfresh)

theorem key_ne_of_fresh (h : Tracks target infos network)
    (hfresh : Fresh DiscoveryInfo.timestampMs infos info) {key : List Char} {client : TcpClient}
    (hcall : ⟨key, client⟩ ∈ network.calls) : key ≠ info.call.key := by
  obtain ⟨a, ha, hkey⟩ := (h.mem_calls_iff _).mp hcall
  obtain rfl : a.call.key = key := by rw [hkey]
  exact fun heq => hfresh a ha.mem (key_eq_iff.mp heq)

theorem snoc_fresh (h : Tracks target infos network)
    (hfresh : Fresh DiscoveryInfo.timestampMs infos info) :
    Tracks target (infos ++ [info])
      ⟨(network.bridge.onPeerDiscovered info).bridge, network.calls ++ [info.call],
        network.inFlight ++ [info.call]⟩ := by
  rw [h.call_of_fresh hfresh]
  refine ⟨h.target_eq, ?_, fun call => ?_, fun call hcall => ?_, fun key client => ?_,
    fun key connection hlookup => ?_⟩
  · rw [List.length_append, List.length_singleton, ← h.count_eq]
  · rw [List.mem_append, List.mem_singleton, h.mem_calls_iff]
    constructor
    · rintro (⟨a, ha, rfl⟩ | rfl)
      · exact ⟨a, first_snoc.mpr (Or.inl ha), rfl⟩
      · exact ⟨info, first_snoc.mpr (Or.inr ⟨rfl, hfresh⟩), rfl⟩
    · rintro ⟨a, ha, rfl⟩
      rcases first_snoc.mp ha with ha | ⟨rfl, -⟩
      · exact Or.inl ⟨a, ha, rfl⟩
      · exact Or.inr rfl
  · rw [List.mem_append] at hcall ⊢
    exact hcall.imp_left fun hmem => h.inFlight_subset hmem
  · rw [List.mem_append, List.mem_singleton]
    by_cases hkey : key = info.call.key
    · subst hkey
      rw [AList.lookup_insert, Option.some.injEq]
      constructor
      · rintro rfl
        exact Or.inr rfl
      · rintro (hmem | heq)
        · exact absurd rfl (h.key_ne_of_fresh hfresh hmem)
        · exact (congrArg ConnectCall.client heq).symm
    · rw [AList.lookup_insert_ne hkey, h.connecting_iff]
      exact (or_iff_left fun heq => hkey (congrArg ConnectCall.key heq)).symm
  · exact List.mem_append_left _ (h.pending_mem key connection hlookup)

theorem snoc_not_fresh (h : Tracks target infos network)
    (hfresh : ¬Fresh DiscoveryInfo.timestampMs infos info) :
    Tracks target (infos ++ [info])
      ⟨(network.bridge.onPeerDiscovered info).bridge, network.calls, network.inFlight⟩ := by
  rw [h.no_call_of_not_fresh hfresh]
  refine ⟨h.target_eq, ?_, fun call => ?_, h.inFlight_subset, h.connecting_iff, h.pending_mem⟩
  · rw [List.length_append, List.length_singleton, ← h.count_eq]
  · simp only [first_snoc_of_not_fresh hfresh, h.mem_calls_iff]

theorem complete (h : Tracks target infos network) (index : ℕ) (error : Bool) :
    Tracks target infos (network.handle makeAddress (.completion index error)) := by
  cases hcall : network.inFlight[index]? with
  | none =>
    rw [Network.handle_completion_of_none hcall]
    exact h
  | some call =>
    rw [Network.handle_completion hcall]
    have hmem : call ∈ network.calls := h.inFlight_subset (List.mem_of_getElem? hcall)
    -- the callback is gone, but `connectingClients` keeps the client
    have hrest : network.inFlight.eraseIdx index ⊆ network.calls := fun c hc =>
      h.inFlight_subset (List.mem_of_mem_eraseIdx hc)
    cases error with
    | true =>
      exact ⟨h.target_eq, h.count_eq, h.mem_calls_iff, hrest, h.connecting_iff, h.pending_mem⟩
    | false =>
      refine ⟨h.target_eq, h.count_eq, h.mem_calls_iff, hrest, h.connecting_iff,
        fun key connection hlookup => ?_⟩
      change AList.lookup key (AList.insert call.key (TcpConnection.mk call.client)
        network.bridge.pendingOutgoingConnections) = some connection at hlookup
      by_cases hkey : key = call.key
      · subst hkey
        rw [AList.lookup_insert, Option.some.injEq] at hlookup
        rw [← hlookup]
        exact hmem
      · rw [AList.lookup_insert_ne hkey] at hlookup
        exact h.pending_mem key connection hlookup

theorem handle (h : Tracks target infos network) (event : NetworkEvent) :
    Tracks target (infos ++ (event.info makeAddress target).toList)
      (network.handle makeAddress event) := by
  cases event with
  | completion index error =>
    rw [NetworkEvent.info, Option.toList_none, List.append_nil]
    exact h.complete index error
  | response text =>
    rw [Network.handle]
    have htarget := h.target_eq
    subst htarget
    cases hinfo : (NetworkEvent.response text).info makeAddress network.bridge.discoveryTarget with
    | none =>
      rw [Bridge.onDiscoveryResponse_none hinfo, Option.toList_none, Option.toList_none,
        List.append_nil, List.append_nil, List.append_nil]
      exact h
    | some info =>
      rw [Bridge.onDiscoveryResponse_some hinfo, Option.toList_some]
      by_cases hfresh : Fresh DiscoveryInfo.timestampMs infos info
      · have hnext := h.snoc_fresh hfresh
        rwa [h.call_of_fresh hfresh] at hnext ⊢
      · have hnext := h.snoc_not_fresh hfresh
        rw [h.no_call_of_not_fresh hfresh] at hnext ⊢
        rwa [Option.toList_none, List.append_nil, List.append_nil]

end Tracks

theorem tracks_run (makeAddress : List Char → Option Address) (target : List Char)
    (events : List NetworkEvent) :
    Tracks target (discovered makeAddress target events)
      (Network.run makeAddress target events) := by
  induction events using List.reverseRecOn with
  | nil => exact tracks_start
  | append_singleton events event ih =>
    rw [discovered_append, discovered_singleton, Network.run_snoc]
    exact ih.handle event

end Eestv
