import Eestv.Data.IoBuffer
import Eestv.Flags
import Eestv.Library.IoContext

/-! The connection. Each function is one critical section under the mutex; a step is a call
of a member, a posted handler that runs or an operation that ends, in any order. Callbacks of
the user are names, apart from what they do to a buffer. The socket, the endpoint in the log
texts and the thread of `stop()`, which calls `async_stop` and waits, are left out. -/

namespace Eestv.Net

inductive TcpConnectionState
  | startSending
  | sending
  | startReceiving
  | receiving
  | closing
  | stopSignaled
  | lost
deriving DecidableEq, Repr

instance : FlagType TcpConnectionState where
  bit
    | .startSending => 0
    | .sending => 1
    | .startReceiving => 2
    | .receiving => 3
    | .closing => 4
    | .stopSignaled => 5
    | .lost => 6
  bit_injective := by
    intro a b h
    cases a <;> cases b <;> first | rfl | contradiction

namespace TcpConnection

inductive Handler (K : Type)
  | cancelAsyncOperations
  | startReceiving
  | startSending
  | connectionLost
  /-- Owns the callback of `async_stop`, and does not refer to the connection. -/
  | disconnected (callback : K)
deriving DecidableEq, Repr

inductive Operation
  | readSome (p n : ℕ)
  /-- From the pointer `p`, the bytes there when the operation starts. -/
  | write (p : ℕ) (bytes : List UInt8)
deriving DecidableEq, Repr

inductive Call (K : Type)
  | connectionLost
  | disconnected (callback : K)
deriving DecidableEq, Repr

end TcpConnection

structure TcpConnection (R S K : Type) where
  flags : Flags TcpConnectionState
  receiveBuffer : R
  sendBuffer : S
  connectionLostCallback : Bool
  dataReceivedCallback : Bool
  disconnectedCallback : Option K
  ioContext : IoContext (TcpConnection.Handler K) TcpConnection.Operation (TcpConnection.Call K)

namespace TcpConnection

variable {R S K : Type} [IoBuffer R] [IoBuffer S]

/-! ### The members of the source -/

def new (receiveBufferSize sendBufferSize : ℕ) : TcpConnection R S K :=
  ⟨{}, IoBuffer.new receiveBufferSize, IoBuffer.new sendBufferSize, false, false, none, {}⟩

def callQueueSendFunction (c : TcpConnection R S K) (callback : BufferCallback S) :
    TcpConnection R S K :=
  { c with sendBuffer := callback.apply c.sendBuffer }

/-- The condition of `resolve_on_stopped`: work that it waits for. -/
def busy (c : TcpConnection R S K) : Bool :=
  c.flags.getFlag .closing || c.flags.getFlag .startSending || c.flags.getFlag .sending ||
    c.flags.getFlag .startReceiving || c.flags.getFlag .receiving

def resolveOnStopped (c : TcpConnection R S K) : TcpConnection R S K :=
  if c.busy then c
  else
    match c.disconnectedCallback with
    | some callback =>
      { c with
        disconnectedCallback := none
        ioContext := c.ioContext.post (.disconnected callback) }
    | none => c

def asyncStop (c : TcpConnection R S K) (onDisconnected : Option K) :
    Bool × TcpConnection R S K :=
  if c.flags.getFlag .stopSignaled then (false, c)
  else
    (true, { c with
      flags := (c.flags.setFlag .stopSignaled).setFlag .closing
      disconnectedCallback := onDisconnected
      ioContext := c.ioContext.post .cancelAsyncOperations })

/-- What `_socket.cancel` aborts is seen when the operations end. -/
def cancelAsyncOperations (c : TcpConnection R S K) : TcpConnection R S K :=
  { c with flags := c.flags.clearFlag .closing }.resolveOnStopped

def startReceiving (c : TcpConnection R S K) : TcpConnection R S K :=
  if c.flags.getFlag .startReceiving || c.flags.getFlag .receiving ||
      c.flags.getFlag .stopSignaled then c
  else
    { c with
      flags := c.flags.setFlag .startReceiving
      ioContext := c.ioContext.post .startReceiving }

def usable : Option ℕ × ℕ → Option (ℕ × ℕ)
  | (some p, n) => if n = 0 then none else some (p, n)
  | (none, _) => none

def asyncReceive (c : TcpConnection R S K) : TcpConnection R S K :=
  let c := { c with flags := c.flags.clearFlag .startReceiving }
  if !c.flags.getFlag .stopSignaled then
    match usable (IoBuffer.getWriteHead c.receiveBuffer) with
    | some (p, n) => { c with ioContext := c.ioContext.start (.readSome p n) }
    | none => c
  else c.resolveOnStopped

/-- The branch of `on_receive` and of `on_send` for a failed operation. -/
def onFailure (c : TcpConnection R S K) (flag : TcpConnectionState) : TcpConnection R S K :=
  let c := { c with flags := c.flags.clearFlag flag }
  let c := if c.flags.getFlag .stopSignaled then c.resolveOnStopped else c
  if c.connectionLostCallback then { c with ioContext := c.ioContext.post .connectionLost } else c

/-- `callback` is what `_data_received_callback` does with the buffer this time. -/
def onReceive (c : TcpConnection R S K) (error : ErrorCode) (bytesTransferred : ℕ)
    (callback : BufferCallback R) : TcpConnection R S K :=
  if error.failed then c.onFailure .receiving
  else
    let buffer := (IoBuffer.commit c.receiveBuffer bytesTransferred).2
    let buffer := if c.dataReceivedCallback then callback.apply buffer else buffer
    { c with receiveBuffer := buffer }.asyncReceive

def startSending (c : TcpConnection R S K) : TcpConnection R S K :=
  if c.flags.getFlag .startSending || c.flags.getFlag .sending ||
      c.flags.getFlag .stopSignaled then c
  else
    { c with
      flags := c.flags.setFlag .startSending
      ioContext := c.ioContext.post .startSending }

def asyncSend (c : TcpConnection R S K) : TcpConnection R S K :=
  match usable (IoBuffer.getReadHead c.sendBuffer) with
  | some (p, n) =>
    { c with ioContext := c.ioContext.start (.write p (IoBuffer.load c.sendBuffer p n)) }
  | none => { c with flags := c.flags.clearFlag .sending }

def onStartSending (c : TcpConnection R S K) : TcpConnection R S K :=
  let c := { c with flags := c.flags.clearFlag .startSending }
  if !c.flags.getFlag .stopSignaled then
    { c with flags := c.flags.setFlag .sending }.asyncSend
  else c.resolveOnStopped

def onSend (c : TcpConnection R S K) (error : ErrorCode) (bytesTransferred : ℕ) :
    TcpConnection R S K :=
  if error.failed then c.onFailure .sending
  else
    let c := { c with sendBuffer := (IoBuffer.consume c.sendBuffer bytesTransferred).2 }.asyncSend
    if !c.flags.getFlag .sending && c.flags.getFlag .stopSignaled then c.resolveOnStopped else c

/-- A posted handler runs. Calling an empty `_connection_lost_callback` throws. -/
def handle (c : TcpConnection R S K) : Handler K → TcpConnection R S K
  | .cancelAsyncOperations => c.cancelAsyncOperations
  | .startReceiving => c.asyncReceive
  | .startSending => c.onStartSending
  | .connectionLost =>
    if c.connectionLostCallback then { c with ioContext := c.ioContext.call .connectionLost } else c
  | .disconnected callback => { c with ioContext := c.ioContext.call (.disconnected callback) }

/-! ### Steps -/

inductive Event (R S K : Type) [IoBuffer R] [IoBuffer S]
  | setConnectionLostCallback (callback : Bool)
  | setDataReceivedCallback (callback : Bool)
  | callQueueSendFunction (callback : BufferCallback S)
  | startSending
  | startReceiving
  | asyncStop (onDisconnected : Option K) (returned : Bool)
  | run (handler : Handler K)
  | onReceive (p n : ℕ) (error : ErrorCode) (bytes : List UInt8) (callback : BufferCallback R)
  | onSend (p : ℕ) (bytes : List UInt8) (error : ErrorCode) (bytesTransferred : ℕ)

/-- An `async_read_some` reports at most its region, filled from the front; an `async_write`
that succeeds has written its whole region. -/
def step [DecidableEq K] (c : TcpConnection R S K) :
    Event R S K → Option (TcpConnection R S K)
  | .setConnectionLostCallback callback => some { c with connectionLostCallback := callback }
  | .setDataReceivedCallback callback => some { c with dataReceivedCallback := callback }
  | .callQueueSendFunction callback => some (c.callQueueSendFunction callback)
  | .startSending => some c.startSending
  | .startReceiving => some c.startReceiving
  | .asyncStop onDisconnected returned =>
    let r := c.asyncStop onDisconnected
    if r.1 = returned then some r.2 else none
  | .run handler =>
    (c.ioContext.take handler).map fun io => { c with ioContext := io }.handle handler
  | .onReceive p n error bytes callback =>
    if bytes.length ≤ n then
      (c.ioContext.finish (.readSome p n)).map fun io =>
        { c with
          receiveBuffer := IoBuffer.store c.receiveBuffer p bytes
          ioContext := io }.onReceive error bytes.length callback
    else none
  | .onSend p bytes error bytesTransferred =>
    if error.failed ∨ bytesTransferred = bytes.length then
      (c.ioContext.finish (.write p bytes)).map fun io =>
        { c with ioContext := io }.onSend error bytesTransferred
    else none

def Step [DecidableEq K] (c : TcpConnection R S K) (e : Event R S K) (d : TcpConnection R S K) :
    Prop :=
  c.step e = some d

end TcpConnection
end Eestv.Net
