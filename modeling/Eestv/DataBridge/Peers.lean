import Eestv.DataBridge.Attempts

/-! Attempts by peer: the table is keyed by the time of a reply, so a peer is attempted
again when it brings a second new timestamp, and passed over when it brings none. -/

namespace Eestv
open FirstSeen DiscoveryInfo

variable {Address : Type*} (makeAddress : List Char → Option Address) (target : List Char)

/-- No reply starts an attempt to a peer that the bridge holds at that time. -/
def AttemptsOnce (events : List NetworkEvent) : Prop :=
  ∀ before text after, events = before ++ .response text :: after →
    ∀ call peer,
      ((Network.run makeAddress target before).bridge.onDiscoveryResponse makeAddress text).call =
        some call →
      call.client.peer makeAddress = some peer →
      ¬(Network.run makeAddress target before).bridge.Holds makeAddress peer

def AttemptsAll (events : List NetworkEvent) : Prop :=
  ∀ info ∈ discovered makeAddress target events,
    ∃ call ∈ (Network.run makeAddress target events).calls,
      call.client.peer makeAddress = some info.endpoint

variable {makeAddress target} {events : List NetworkEvent} {info : DiscoveryInfo Address}

theorem peer_of_event {event : NetworkEvent} (h : event.info makeAddress target = some info) :
    info.call.client.peer makeAddress = some info.endpoint := by
  cases event with
  | completion => cases h
  | response text =>
    obtain ⟨hparse, -⟩ := Option.filter_eq_some_iff.mp h
    exact DiscoveryString.endpoint_of_parse hparse

theorem peer_of_discovered (h : info ∈ discovered makeAddress target events) :
    info.call.client.peer makeAddress = some info.endpoint := by
  obtain ⟨event, -, hevent⟩ := List.mem_filterMap.mp h
  exact peer_of_event hevent

theorem exists_event_of_discovered {xs ys : List (DiscoveryInfo Address)}
    (h : discovered makeAddress target events = xs ++ info :: ys) :
    ∃ before text after, events = before ++ .response text :: after ∧
      discovered makeAddress target before = xs ∧
      (NetworkEvent.response text).info makeAddress target = some info := by
  obtain ⟨first, rest, rfl, hfirst, hrest⟩ := List.filterMap_eq_append_iff.mp h
  obtain ⟨skipped, event, after, rfl, hskipped, hevent, -⟩ := List.filterMap_eq_cons_iff.mp hrest
  cases event with
  | completion => cases hevent
  | response text =>
    refine ⟨first ++ skipped, text, after, (List.append_assoc ..).symm, ?_, hevent⟩
    rw [discovered_append, discovered, hfirst, discovered, List.filterMap_eq_nil_iff.mpr hskipped,
      List.append_nil]

theorem holds_iff {peer : Endpoint Address} :
    (Network.run makeAddress target events).bridge.Holds makeAddress peer ↔
      ∃ a, First timestampMs (discovered makeAddress target events) a ∧ a.endpoint = peer := by
  have h := tracks_run makeAddress target events
  have hcall : ∀ {key client}, ⟨key, client⟩ ∈ (Network.run makeAddress target events).calls →
      client.peer makeAddress = some peer →
      ∃ a, First timestampMs (discovered makeAddress target events) a ∧ a.endpoint = peer := by
    intro key client hmem hpeer
    obtain ⟨a, ha, hacall⟩ := (h.mem_calls_iff _).mp hmem
    have hclient : a.call.client = client := by rw [hacall]
    rw [← hclient, peer_of_discovered ha.mem] at hpeer
    exact ⟨a, ha, Option.some.inj hpeer⟩
  constructor
  · rintro (⟨key, client, hlookup, hpeer⟩ | ⟨key, connection, hlookup, hpeer⟩)
    · exact hcall ((h.connecting_iff _ _).mp hlookup) hpeer
    · exact hcall (h.pending_mem _ _ hlookup) hpeer
  · rintro ⟨a, ha, rfl⟩
    exact Or.inl ⟨a.call.key, a.call.client,
      (h.connecting_iff _ _).mpr ((h.mem_calls_iff _).mpr ⟨a, ha, rfl⟩), peer_of_discovered ha.mem⟩

theorem onDiscoveryResponse_call_iff {text : List Char} {call : ConnectCall} :
    ((Network.run makeAddress target events).bridge.onDiscoveryResponse makeAddress text).call =
        some call ↔
      ∃ info : DiscoveryInfo Address,
        (NetworkEvent.response text).info makeAddress target = some info ∧
        Fresh timestampMs (discovered makeAddress target events) info ∧ info.call = call := by
  have h := tracks_run makeAddress target events
  generalize Network.run makeAddress target events = network at h ⊢
  have htarget := h.target_eq
  subst htarget
  cases hinfo : (NetworkEvent.response text).info makeAddress network.bridge.discoveryTarget with
  | none =>
    rw [Bridge.onDiscoveryResponse_none hinfo]
    exact ⟨nofun, nofun⟩
  | some info =>
    rw [Bridge.onDiscoveryResponse_some hinfo]
    by_cases hfresh :
        Fresh timestampMs (discovered makeAddress network.bridge.discoveryTarget events) info
    · rw [h.call_of_fresh hfresh]
      constructor
      · intro hcall
        exact ⟨info, rfl, hfresh, Option.some.inj hcall⟩
      · rintro ⟨_, ⟨rfl⟩, -, rfl⟩
        rfl
    · rw [h.no_call_of_not_fresh hfresh]
      refine ⟨nofun, ?_⟩
      rintro ⟨_, ⟨rfl⟩, hnew, -⟩
      exact absurd hnew hfresh

/-- No peer is attempted while it is held, exactly when no reply with a new timestamp comes
from the peer of an earlier reply whose timestamp was new. -/
theorem attemptsOnce_iff (makeAddress : List Char → Option Address) (target : List Char)
    (events : List NetworkEvent) :
    AttemptsOnce makeAddress target events ↔
      ∀ xs info ys, discovered makeAddress target events = xs ++ info :: ys →
        Fresh timestampMs xs info → ∀ a, First timestampMs xs a → a.endpoint ≠ info.endpoint := by
  unfold AttemptsOnce
  constructor
  · intro honce xs info ys hsplit hfresh a ha heq
    -- the event of this reply starts an attempt although its peer is in the table
    obtain ⟨before, text, after, hevents, rfl, hinfo⟩ := exists_event_of_discovered hsplit
    have hcall := onDiscoveryResponse_call_iff.mpr ⟨info, hinfo, hfresh, rfl⟩
    apply honce before text after hevents info.call info.endpoint hcall (peer_of_event hinfo)
    exact holds_iff.mpr ⟨a, ha, heq⟩
  · intro hnew before text after hevents call peer hcall hpeer hholds
    obtain ⟨info, hinfo, hfresh, rfl⟩ := onDiscoveryResponse_call_iff.mp hcall
    obtain ⟨a, ha, rfl⟩ := holds_iff.mp hholds
    have hsplit : discovered makeAddress target events =
        discovered makeAddress target before ++ info :: discovered makeAddress target after := by
      rw [hevents, discovered_append, ← List.singleton_append, discovered_append,
        discovered_singleton, hinfo]
      rfl
    apply hnew _ info _ hsplit hfresh a ha
    rw [peer_of_event hinfo] at hpeer
    exact (Option.some.inj hpeer).symm

/-- A peer that replies to two requests, a second apart, is attempted twice. -/
theorem second_reply_not_attemptsOnce :
    ¬AttemptsOnce (fun ip => if ip = "10.0.0.5".toList then some 0x0A000005#32 else none)
      "svc".toList
      [.response (DiscoveryString.construct "svc".toList "10.0.0.5".toList 4000 1700000000000),
        .response
          (DiscoveryString.construct "svc".toList "10.0.0.5".toList 4000 1700000001000)] := by
  intro honce
  apply honce [_] _ [] rfl ⟨"1700000001000".toList, "10.0.0.5".toList, 4000⟩
    ⟨0x0A000005#32, 4000⟩ (by decide) (by decide)
  exact Or.inl ⟨"1700000000000".toList, ⟨"10.0.0.5".toList, 4000⟩, by decide, by decide⟩

/-- Every discovered peer is attempted, exactly when every one of them sent some reply whose
timestamp was in no reply before. -/
theorem attemptsAll_iff (makeAddress : List Char → Option Address) (target : List Char)
    (events : List NetworkEvent) :
    AttemptsAll makeAddress target events ↔
      ∀ info ∈ discovered makeAddress target events,
        ∃ a, First timestampMs (discovered makeAddress target events) a ∧
          a.endpoint = info.endpoint := by
  have h := tracks_run makeAddress target events
  unfold AttemptsAll
  apply forall₂_congr
  intro info hinfo
  constructor
  · rintro ⟨call, hcall, hpeer⟩
    obtain ⟨a, ha, rfl⟩ := (h.mem_calls_iff call).mp hcall
    rw [peer_of_discovered ha.mem] at hpeer
    exact ⟨a, ha, Option.some.inj hpeer⟩
  · rintro ⟨a, ha, heq⟩
    refine ⟨a.call, (h.mem_calls_iff _).mpr ⟨a, ha, rfl⟩, ?_⟩
    rw [peer_of_discovered ha.mem, heq]

/-- Of two peers that reply in the same millisecond the second is not attempted. -/
theorem same_millisecond_not_attemptsAll :
    ¬AttemptsAll (fun ip => if ip = "10.0.0.5".toList then some 0x0A000005#32 else
        if ip = "10.0.0.6".toList then some 0x0A000006#32 else none)
      "svc".toList
      [.response (DiscoveryString.construct "svc".toList "10.0.0.5".toList 4000 1700000000000),
        .response
          (DiscoveryString.construct "svc".toList "10.0.0.6".toList 4000 1700000000000)] := by
  unfold AttemptsAll
  decide

end Eestv
