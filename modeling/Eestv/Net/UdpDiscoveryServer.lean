import Eestv.Library.IoContext
import Eestv.Net.DiscoveryStates
import Mathlib.Data.List.AList

/-! The server of the discovery, with the same kinds of steps as the client. What a discoverable
replies depends on who asks. The constructor's port, the log texts and the thread of `stop()` are
left out. -/

namespace Eestv.Net

structure Discoverable (A : Type) where
  identifier : List UInt8
  callback : A → List UInt8

def Discoverable.getReply {A : Type} (d : Discoverable A) (remoteEndpoint : A) : List UInt8 :=
  d.callback remoteEndpoint

namespace UdpDiscoveryServer

inductive Handler (K : Type)
  | start
  | stop
  | stopped (callback : K)
deriving DecidableEq, Repr

inductive Operation (A : Type)
  | receiveFrom
  | sendTo (buffer : List UInt8) (endpoint : A)
deriving DecidableEq, Repr

inductive Call (K : Type)
  | stopped (callback : K)
deriving DecidableEq, Repr

end UdpDiscoveryServer

structure UdpDiscoveryServer (A K : Type) where
  remoteEndpoint : A
  recvBuffer : List UInt8
  discoverables : AList (fun _ : List UInt8 => Discoverable A)
  onStopped : Option K
  flags : Flags UdpDiscoveryState
  ioContext : IoContext (UdpDiscoveryServer.Handler K) (UdpDiscoveryServer.Operation A)
    (UdpDiscoveryServer.Call K)

namespace UdpDiscoveryServer

variable {A K : Type}

/-! ### The members of the source -/

def recvBufferSize : ℕ := 1024

def new [Inhabited A] : UdpDiscoveryServer A K :=
  ⟨default, List.replicate recvBufferSize 0, ∅, none, {}, {}⟩

def resolveOnStopped (c : UdpDiscoveryServer A K) : UdpDiscoveryServer A K :=
  if c.flags.getFlag .stopping then
    if !c.flags.getFlag .receivingAsync && !c.flags.getFlag .sendingAsync then
      match c.onStopped with
      | some callback =>
        { c with
          onStopped := none
          ioContext := c.ioContext.post (.stopped callback) }
      | none => c
    else c
  else c

def startReceive (c : UdpDiscoveryServer A K) : UdpDiscoveryServer A K :=
  { c with
    flags := c.flags.setFlag .receivingAsync
    ioContext := c.ioContext.start .receiveFrom }

def asyncStart (c : UdpDiscoveryServer A K) : Bool × UdpDiscoveryServer A K :=
  if c.flags.getFlag .running || c.flags.getFlag .stopping then (false, c)
  else
    (true, { c with
      flags := c.flags.setFlag .running
      ioContext := c.ioContext.post .start })

def onStart (c : UdpDiscoveryServer A K) : UdpDiscoveryServer A K :=
  if !c.flags.getFlag .stopping then c.startReceive else c.resolveOnStopped

def asyncStop (c : UdpDiscoveryServer A K) (onStopped : Option K) :
    Bool × UdpDiscoveryServer A K :=
  if c.flags.getFlag .stopping then (false, c)
  else
    (true, { c with
      flags := c.flags.setFlag .stopping
      onStopped := onStopped
      ioContext := c.ioContext.post .stop })

def onStop (c : UdpDiscoveryServer A K) : UdpDiscoveryServer A K :=
  if c.flags.getFlag .running then c
  else
    match c.onStopped with
    | some callback =>
      { c with
        onStopped := none
        ioContext := c.ioContext.post (.stopped callback) }
    | none => c

/-- `emplace` leaves a discoverable that has the identifier already. -/
def addDiscoverable (c : UdpDiscoveryServer A K) (discoverable : Discoverable A) :
    UdpDiscoveryServer A K :=
  if discoverable.identifier ∈ c.discoverables then c
  else
    { c with discoverables := c.discoverables.insert discoverable.identifier discoverable }

def receive (c : UdpDiscoveryServer A K) (datagram : List UInt8) (remoteEndpoint : A) :
    UdpDiscoveryServer A K :=
  { c with
    recvBuffer := datagram ++ c.recvBuffer.drop datagram.length
    remoteEndpoint := remoteEndpoint }

def handleReceive (c : UdpDiscoveryServer A K) (error : ErrorCode) (bytesTransferred : ℕ) :
    UdpDiscoveryServer A K :=
  let c :=
    if error.failed then c
    else if bytesTransferred > 0 then
      let receivedIdentifier := c.recvBuffer.take bytesTransferred
      let reply :=
        match c.discoverables.lookup receivedIdentifier with
        | some discoverable => discoverable.getReply c.remoteEndpoint
        | none => []
      if !reply.isEmpty then
        { c with
          flags := c.flags.setFlag .sendingAsync
          ioContext := c.ioContext.start (.sendTo reply c.remoteEndpoint) }
      else c
    else c
  if !c.flags.getFlag .stopping then { c with ioContext := c.ioContext.start .receiveFrom }
  else { c with flags := c.flags.clearFlag .receivingAsync }.resolveOnStopped

def handleSend (c : UdpDiscoveryServer A K) (_error : ErrorCode) : UdpDiscoveryServer A K :=
  { c with flags := c.flags.clearFlag .sendingAsync }.resolveOnStopped

def reset (c : UdpDiscoveryServer A K) : UdpDiscoveryServer A K :=
  { c with flags := c.flags.clearAll }

def handle (c : UdpDiscoveryServer A K) : Handler K → UdpDiscoveryServer A K
  | .start => c.onStart
  | .stop => c.onStop
  | .stopped callback => { c with ioContext := c.ioContext.call (.stopped callback) }

/-! ### Steps -/

inductive Event (A K : Type)
  | addDiscoverable (discoverable : Discoverable A)
  | asyncStart (returned : Bool)
  | asyncStop (onStopped : Option K) (returned : Bool)
  | reset
  | run (handler : Handler K)
  | handleReceive (error : ErrorCode) (datagram : List UInt8) (remoteEndpoint : A)
  | handleSend (buffer : List UInt8) (endpoint : A) (error : ErrorCode)

def step [DecidableEq A] [DecidableEq K] (c : UdpDiscoveryServer A K) :
    Event A K → Option (UdpDiscoveryServer A K)
  | .addDiscoverable discoverable => some (c.addDiscoverable discoverable)
  | .asyncStart returned => if c.asyncStart.1 = returned then some c.asyncStart.2 else none
  | .asyncStop onStopped returned =>
    if (c.asyncStop onStopped).1 = returned then some (c.asyncStop onStopped).2 else none
  | .reset => some c.reset
  | .run handler =>
    (c.ioContext.take handler).map fun io => { c with ioContext := io }.handle handler
  | .handleReceive error datagram remoteEndpoint =>
    if datagram.length ≤ recvBufferSize then
      (c.ioContext.finish .receiveFrom).map fun io =>
        let c := { c with ioContext := io }
        let c := if error.failed then c else c.receive datagram remoteEndpoint
        c.handleReceive error datagram.length
    else none
  | .handleSend buffer endpoint error =>
    (c.ioContext.finish (.sendTo buffer endpoint)).map fun io =>
      { c with ioContext := io }.handleSend error

def Step [DecidableEq A] [DecidableEq K] (c : UdpDiscoveryServer A K) (e : Event A K)
    (d : UdpDiscoveryServer A K) : Prop :=
  c.step e = some d

end UdpDiscoveryServer
end Eestv.Net
