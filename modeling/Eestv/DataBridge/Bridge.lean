import Eestv.Library.FirstSeen
import Eestv.Net.DiscoveryString
import Mathlib.Data.List.AList

/-! The bridge's table of connection attempts under discovery replies and completions
of attempts, in any order. `makeAddress` is the address parser of the network library. -/

namespace Eestv
open StdString FirstSeen

/-- A client with the host and port that it was told to connect to. -/
structure TcpClient where
  host : List Char
  port : UInt16
deriving DecidableEq

structure TcpConnection where
  client : TcpClient
deriving DecidableEq

/-- A call of `async_connect`: the client, and the key that its callback captures. -/
structure ConnectCall where
  key : List Char
  client : TcpClient
deriving DecidableEq

structure Bridge where
  discoveryTarget : List Char
  connectingClients : AList fun _ : List Char => TcpClient
  pendingOutgoingConnections : AList fun _ : List Char => TcpConnection
  discoveryCount : ℕ

structure Handled where
  bridge : Bridge
  call : Option ConnectCall
  result : Bool

variable {Address : Type*}

namespace Bridge

/-- `async_connect` on the fresh client returns true. -/
def onPeerDiscovered (bridge : Bridge) (info : DiscoveryInfo Address) : Handled :=
  let counted := { bridge with discoveryCount := bridge.discoveryCount + 1 }
  let key := toStdString info.timestampMs.toNat
  if key ∈ bridge.pendingOutgoingConnections ∨ key ∈ bridge.connectingClients then
    ⟨counted, none, true⟩
  else
    let client : TcpClient := ⟨info.ipAddress, info.port⟩
    ⟨{ counted with connectingClients := counted.connectingClients.insert key client },
      some ⟨key, client⟩, true⟩

def onDiscoveryResponse (makeAddress : List Char → Option Address) (bridge : Bridge)
    (response : List Char) : Handled :=
  match DiscoveryString.parse makeAddress response with
  | some info =>
    if info.serviceName = bridge.discoveryTarget then bridge.onPeerDiscovered info
    else ⟨bridge, none, false⟩
  | none => ⟨bridge, none, false⟩

/-- The callback of `async_connect`. The client stays in `connectingClients` either way. -/
def onConnectionComplete (bridge : Bridge) (call : ConnectCall) (error : Bool) : Bridge :=
  if error then bridge
  else { bridge with
    pendingOutgoingConnections := bridge.pendingOutgoingConnections.insert call.key ⟨call.client⟩ }

end Bridge

/-- A bridge with every call of `async_connect` so far and the calls whose callbacks have
not run. -/
structure Network where
  bridge : Bridge
  calls : List ConnectCall
  inFlight : List ConnectCall

inductive NetworkEvent
  | response (text : List Char)
  /-- The callback of the call at a position of `inFlight` runs. -/
  | completion (index : ℕ) (error : Bool)

namespace Network

def start (target : List Char) : Network := ⟨⟨target, ∅, ∅, 0⟩, [], []⟩

def handle (makeAddress : List Char → Option Address) (network : Network) :
    NetworkEvent → Network
  | .response text =>
    let handled := network.bridge.onDiscoveryResponse makeAddress text
    ⟨handled.bridge, network.calls ++ handled.call.toList, network.inFlight ++ handled.call.toList⟩
  | .completion index error =>
    match network.inFlight[index]? with
    | some call =>
      ⟨network.bridge.onConnectionComplete call error, network.calls,
        network.inFlight.eraseIdx index⟩
    | none => network

def run (makeAddress : List Char → Option Address) (target : List Char)
    (events : List NetworkEvent) : Network :=
  events.foldl (handle makeAddress) (start target)

end Network

variable (makeAddress : List Char → Option Address) (target : List Char)

/-- The reply that an event brings, when it is well formed and of the service that the
bridge looks for. -/
def NetworkEvent.info : NetworkEvent → Option (DiscoveryInfo Address)
  | .response text =>
    (DiscoveryString.parse makeAddress text).filter fun info => info.serviceName = target
  | .completion _ _ => none

def discovered (events : List NetworkEvent) : List (DiscoveryInfo Address) :=
  events.filterMap (NetworkEvent.info makeAddress target)

def TcpClient.peer (client : TcpClient) : Option (Endpoint Address) :=
  (makeAddress client.host).map fun address => ⟨address, client.port⟩

def Bridge.Holds (bridge : Bridge) (peer : Endpoint Address) : Prop :=
  (∃ key client, bridge.connectingClients.lookup key = some client ∧
    client.peer makeAddress = some peer) ∨
  ∃ key connection, bridge.pendingOutgoingConnections.lookup key = some connection ∧
    connection.client.peer makeAddress = some peer

variable {makeAddress target}

theorem discovered_append (events events' : List NetworkEvent) :
    discovered makeAddress target (events ++ events') =
      discovered makeAddress target events ++ discovered makeAddress target events' :=
  List.filterMap_append

theorem discovered_singleton (event : NetworkEvent) :
    discovered makeAddress target [event] = (event.info makeAddress target).toList := by
  rw [discovered, List.filterMap_cons]
  cases event.info makeAddress target <;> rfl

theorem Network.run_snoc (events : List NetworkEvent) (event : NetworkEvent) :
    run makeAddress target (events ++ [event]) =
      (run makeAddress target events).handle makeAddress event := by
  rw [run, List.foldl_append]
  rfl

theorem Bridge.onDiscoveryResponse_some {bridge : Bridge} {text : List Char}
    {info : DiscoveryInfo Address}
    (h : (NetworkEvent.response text).info makeAddress bridge.discoveryTarget = some info) :
    bridge.onDiscoveryResponse makeAddress text = bridge.onPeerDiscovered info := by
  obtain ⟨hparse, htarget⟩ := Option.filter_eq_some_iff.mp h
  rw [onDiscoveryResponse, hparse]
  exact if_pos (of_decide_eq_true htarget)

theorem Bridge.onDiscoveryResponse_none {bridge : Bridge} {text : List Char}
    (h : (NetworkEvent.response text).info makeAddress bridge.discoveryTarget = none) :
    bridge.onDiscoveryResponse makeAddress text = ⟨bridge, none, false⟩ := by
  unfold onDiscoveryResponse
  cases hparse : DiscoveryString.parse makeAddress text with
  | none => rfl
  | some info =>
    have htarget := Option.filter_eq_none_iff.mp h info hparse
    exact if_neg fun heq => htarget (decide_eq_true heq)

theorem Network.handle_completion {network : Network} {index : ℕ} {call : ConnectCall}
    (h : network.inFlight[index]? = some call) (error : Bool) :
    network.handle makeAddress (.completion index error) =
      ⟨network.bridge.onConnectionComplete call error, network.calls,
        network.inFlight.eraseIdx index⟩ := by
  simp only [handle, h]

theorem Network.handle_completion_of_none {network : Network} {index : ℕ}
    (h : network.inFlight[index]? = none) (error : Bool) :
    network.handle makeAddress (.completion index error) = network := by
  simp only [handle, h]

end Eestv
