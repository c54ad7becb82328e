import Eestv.Library.IoContext
import Eestv.Net.DiscoveryStates

/-! The client of the discovery. Each function is one critical section under the mutex, and a
step is a call of a member together with what it posts, a posted handler that runs or an
operation that ends, in any order. Endpoints and callbacks are names. The options of the socket,
the log texts and the thread of `stop()` are left out. -/

namespace Eestv.Net
namespace UdpDiscoveryClient

inductive Handler (K : Type)
  | start
  | stop
  | stopped (callback : K)
deriving DecidableEq, Repr

inductive Operation
  | receiveFrom
  | sendTo (buffer address : List UInt8) (port : UInt16)
  | wait (timeout : ℤ)
deriving DecidableEq, Repr

inductive Call (A K : Type)
  | response (response : List UInt8) (remoteEndpoint : A)
  | stopped (callback : K)
deriving DecidableEq, Repr

end UdpDiscoveryClient

/-- `onResponse` is whether there is a handler of responses: what it returns is only logged. -/
structure UdpDiscoveryClient (A K : Type) where
  serviceName : List UInt8
  retryTimeout : ℤ
  destinationPort : ℤ
  onResponse : Bool
  recvBuffer : List UInt8
  remoteEndpoint : A
  onStopped : Option K
  flags : Flags UdpDiscoveryState
  ioContext : IoContext (UdpDiscoveryClient.Handler K) UdpDiscoveryClient.Operation
    (UdpDiscoveryClient.Call A K)

namespace UdpDiscoveryClient

variable {A K : Type}

/-! ### The members of the source -/

def recvBufferSize : ℕ := 1024

def new [Inhabited A] (serviceName : List UInt8) (retryTimeout destinationPort : ℤ)
    (onResponse : Bool) : UdpDiscoveryClient A K :=
  ⟨serviceName, retryTimeout, destinationPort, onResponse, List.replicate recvBufferSize 0,
    default, none, {}, {}⟩

def resolveOnStopped (c : UdpDiscoveryClient A K) : UdpDiscoveryClient A K :=
  if c.flags.getFlag .stopping then
    if !c.flags.getFlag .receivingAsync && !c.flags.getFlag .sendingAsync &&
        !c.flags.getFlag .timerRunning then
      match c.onStopped with
      | some callback =>
        { c with
          onStopped := none
          ioContext := c.ioContext.post (.stopped callback) }
      | none => c
    else c
  else c

/-- What is sent to 255.255.255.255. The port of an endpoint has 16 bits. -/
def request (c : UdpDiscoveryClient A K) : Operation :=
  .sendTo c.serviceName [255, 255, 255, 255] (UInt16.ofInt c.destinationPort)

def sendDiscoveryRequest (c : UdpDiscoveryClient A K) : UdpDiscoveryClient A K :=
  { c with
    flags := c.flags.setFlag .sendingAsync
    ioContext := c.ioContext.start c.request }

def asyncStart (c : UdpDiscoveryClient A K) : Bool × UdpDiscoveryClient A K :=
  if c.flags.getFlag .running || c.flags.getFlag .stopping then (false, c)
  else
    (true, { c with
      flags := c.flags.setFlag .running
      ioContext := c.ioContext.post .start })

def onStart (c : UdpDiscoveryClient A K) : UdpDiscoveryClient A K :=
  if !c.flags.getFlag .stopping then
    { c with
      flags := c.flags.setFlag .receivingAsync
      ioContext := c.ioContext.start .receiveFrom }.sendDiscoveryRequest
  else c.resolveOnStopped

def asyncStop (c : UdpDiscoveryClient A K) (onStopped : Option K) :
    Bool × UdpDiscoveryClient A K :=
  if c.flags.getFlag .stopping then (false, c)
  else
    (true, { c with
      flags := c.flags.setFlag .stopping
      onStopped := onStopped
      ioContext := c.ioContext.post .stop })

def onStop (c : UdpDiscoveryClient A K) : UdpDiscoveryClient A K :=
  if c.flags.getFlag .running then c
  else
    match c.onStopped with
    | some callback =>
      { c with
        onStopped := none
        ioContext := c.ioContext.post (.stopped callback) }
    | none => c

def handleSendComplete (c : UdpDiscoveryClient A K) (error : ErrorCode) :
    UdpDiscoveryClient A K :=
  let c :=
    if error.failed then c
    else if !c.flags.getFlag .stopping then
      { c with
        flags := c.flags.setFlag .timerRunning
        ioContext := c.ioContext.start (.wait c.retryTimeout) }
    else c
  { c with flags := c.flags.clearFlag .sendingAsync }.resolveOnStopped

def receive (c : UdpDiscoveryClient A K) (datagram : List UInt8) (remoteEndpoint : A) :
    UdpDiscoveryClient A K :=
  { c with
    recvBuffer := datagram ++ c.recvBuffer.drop datagram.length
    remoteEndpoint := remoteEndpoint }

def handleResponse (c : UdpDiscoveryClient A K) (error : ErrorCode) (bytesTransferred : ℕ) :
    UdpDiscoveryClient A K :=
  let c :=
    if error.failed then c
    else if bytesTransferred > 0 then
      let response := c.recvBuffer.take bytesTransferred
      if c.onResponse then
        { c with
          ioContext :=
            (c.ioContext.call (.response response c.remoteEndpoint)).start .receiveFrom }
      else c
    else c
  { c with flags := c.flags.clearFlag .receivingAsync }.resolveOnStopped

def handleTimeout (c : UdpDiscoveryClient A K) (error : ErrorCode) : UdpDiscoveryClient A K :=
  let c := if error.failed then c else c.sendDiscoveryRequest
  { c with flags := c.flags.clearFlag .timerRunning }.resolveOnStopped

def reset (c : UdpDiscoveryClient A K) : UdpDiscoveryClient A K :=
  { c with flags := c.flags.clearAll }

def handle (c : UdpDiscoveryClient A K) : Handler K → UdpDiscoveryClient A K
  | .start => c.onStart
  | .stop => c.onStop
  | .stopped callback => { c with ioContext := c.ioContext.call (.stopped callback) }

/-! ### Steps -/

/-- A call comes with what it returned. A datagram comes as received, and is only read behind a
success. -/
inductive Event (A K : Type)
  | asyncStart (returned : Bool)
  | asyncStop (onStopped : Option K) (returned : Bool)
  | reset
  | run (handler : Handler K)
  | handleSendComplete (error : ErrorCode)
  | handleResponse (error : ErrorCode) (datagram : List UInt8) (remoteEndpoint : A)
  | handleTimeout (error : ErrorCode)
deriving DecidableEq, Repr

def step [DecidableEq K] (c : UdpDiscoveryClient A K) :
    Event A K → Option (UdpDiscoveryClient A K)
  | .asyncStart returned => if c.asyncStart.1 = returned then some c.asyncStart.2 else none
  | .asyncStop onStopped returned =>
    if (c.asyncStop onStopped).1 = returned then some (c.asyncStop onStopped).2 else none
  | .reset => some c.reset
  | .run handler =>
    (c.ioContext.take handler).map fun io => { c with ioContext := io }.handle handler
  | .handleSendComplete error =>
    (c.ioContext.finish c.request).map fun io => { c with ioContext := io }.handleSendComplete error
  | .handleResponse error datagram remoteEndpoint =>
    if datagram.length ≤ recvBufferSize then
      (c.ioContext.finish .receiveFrom).map fun io =>
        let c := { c with ioContext := io }
        let c := if error.failed then c else c.receive datagram remoteEndpoint
        c.handleResponse error datagram.length
    else none
  | .handleTimeout error =>
    (c.ioContext.finish (.wait c.retryTimeout)).map fun io =>
      { c with ioContext := io }.handleTimeout error

def Step [DecidableEq K] (c : UdpDiscoveryClient A K) (e : Event A K)
    (d : UdpDiscoveryClient A K) : Prop :=
  c.step e = some d

end UdpDiscoveryClient
end Eestv.Net
