import Eestv.DataBridge.Attempts
import Eestv.Library.ByteText
import Eestv.Net.UdpDiscoveryTraffic

/-! A bridge with the discovery that it sets up: it answers requests for its target, and handles
the replies to its own. The constructor has run, the destructor may stop both ends. The server of
its connections is only its port. -/

namespace Eestv
open Net StdString

def Bridge.onDisvovered (bridge : Bridge) (tcpPort : UInt16) (localAddress : Option (List Char))
    (now : ℕ) : List Char :=
  match localAddress with
  | some address => DiscoveryString.construct bridge.discoveryTarget address tcpPort now
  | none => []

/-- What stays the same for a bridge. `A` are the endpoints of UDP sockets. -/
structure Site (A : Type) where
  discoveryTarget : List UInt8
  /-- Where it asks and where it is asked. -/
  port : ℤ
  /-- Where it accepts connections. -/
  tcpPort : UInt16
  /-- The texts of its IPv4 addresses. -/
  addresses : List (List Char)
  plain : ∀ address ∈ addresses, ∀ c ∈ address, c.isDigit = true ∨ c = '.'
  /-- Where the socket of its client is reached. -/
  endpoints : List A

/-- What `on_disvovered` looks up. -/
structure Surroundings (A : Type) where
  now : ℕ
  localAddress : A → Option (List Char)

structure Host (A K : Type) where
  site : Site A
  network : Network
  server : UdpDiscoveryServer A K
  client : UdpDiscoveryClient A K
  discoveredCount : ℕ

/-- What is on the wire: requests with their port and sender, replies with their receiver. -/
structure Air (A : Type) where
  requests : List UInt8 → UInt16 → A → Prop
  replies : List UInt8 → A → Prop

namespace Host

variable {Address : Type*} {A K : Type}

inductive Event (A K : Type)
  | client (e : UdpDiscoveryClient.Event A K)
  | server (surroundings : Surroundings A) (e : UdpDiscoveryServer.Event A K)
  | completion (index : ℕ) (error : Bool)

/-- The calls that only the constructor makes, and `reset`, which nobody makes. -/
def Event.Setup : Event A K → Bool
  | .client (.asyncStart _) => true
  | .client .reset => true
  | .server _ (.addDiscoverable _) => true
  | .server _ (.asyncStart _) => true
  | .server _ .reset => true
  | _ => false

def start [Inhabited A] (site : Site A) : Host A K where
  site := site
  network := .start (textOf site.discoveryTarget)
  server := UdpDiscoveryServer.new.asyncStart.2
  client := (UdpDiscoveryClient.new site.discoveryTarget 1000 site.port true).asyncStart.2
  discoveredCount := 0

def discoverable (x : Host A K) (surroundings : Surroundings A) : Discoverable A where
  identifier := x.site.discoveryTarget
  callback a := bytesOf (x.network.bridge.onDisvovered x.site.tcpPort
    (surroundings.localAddress a) surroundings.now)

def serverIn (x : Host A K) (surroundings : Surroundings A) : UdpDiscoveryServer A K :=
  UdpDiscoveryServer.addDiscoverable { x.server with discoverables := ∅ }
    (x.discoverable surroundings)

def discovered (x : Host A K) : UdpDiscoveryServer.Event A K → ℕ
  | .handleReceive error datagram _ =>
    if !error.failed && datagram = x.site.discoveryTarget && !datagram.isEmpty then 1 else 0
  | _ => 0

def handleResponses (makeAddress : List Char → Option Address) (network : Network)
    (responses : List (List UInt8)) : Network :=
  responses.foldl (fun network response => network.handle makeAddress (.response (textOf response)))
    network

def step [DecidableEq A] [DecidableEq K] (makeAddress : List Char → Option Address)
    (x : Host A K) (event : Event A K) : Option (Host A K) :=
  if event.Setup then none
  else
    match event with
    | .client e => (x.client.step e).map fun client =>
      { x with
        client := client
        network := handleResponses makeAddress x.network (UdpDiscoveryClient.responses
          (client.ioContext.log.drop x.client.ioContext.log.length)) }
    | .server surroundings e => ((x.serverIn surroundings).step e).map fun server =>
      { x with
        server := server
        discoveredCount := x.discoveredCount + x.discovered e }
    | .completion index error =>
      some { x with network := x.network.handle makeAddress (.completion index error) }

/-- A socket receives what was sent to it, cut to the size of the buffer, and any number of
times. The local address is one of the bridge's own. -/
def Permits (air : Air A) (x : Host A K) : Event A K → Prop
  | .client (.handleResponse error datagram _) => error.failed = true ∨
    ∃ buffer, ∃ a ∈ x.site.endpoints, air.replies buffer a ∧
      datagram = buffer.take UdpDiscoveryClient.recvBufferSize
  | .server surroundings (.handleReceive error datagram a) =>
    (error.failed = true ∨ ∃ buffer, air.requests buffer (UInt16.ofInt x.site.port) a ∧
      datagram = buffer.take UdpDiscoveryServer.recvBufferSize) ∧
    ∀ address, surroundings.localAddress a = some address → address ∈ x.site.addresses
  | _ => True

end Host
end Eestv
