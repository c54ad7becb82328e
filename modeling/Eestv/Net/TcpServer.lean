import Eestv.Flags
import Eestv.Library.IoContext

/-! The server. As for a connection, each function is one critical section under the mutex and
a step is a call of a member, a posted handler that runs or an accept that ends, in any order.
Sockets and callbacks are names. The endpoints, the log texts and the thread of `stop()` are
left out. -/

namespace Eestv.Net

inductive TcpServerState
  | startSignaled
  | stopSignaled
  | startAccepting
  | accepting
  | stopping
deriving DecidableEq, Repr

instance : FlagType TcpServerState where
  bit
    | .startSignaled => 0
    | .stopSignaled => 1
    | .startAccepting => 2
    | .accepting => 3
    | .stopping => 4
  bit_injective := by
    intro a b h
    cases a <;> cases b <;> first | rfl | contradiction

namespace TcpServer

inductive Handler (K : Type)
  | startAccepting
  | stop
  | stopped (callback : K)
deriving DecidableEq, Repr

inductive Operation
  | accept
deriving DecidableEq, Repr

inductive Call (T K : Type)
  | makeConnection (socket : T) (receiveBufferSize sendBufferSize : ℕ)
  | connection (socket : T)
  | stopped (callback : K)
deriving DecidableEq, Repr

end TcpServer

structure TcpServer (T K : Type) where
  flags : Flags TcpServerState
  /-- The constructor opens the acceptor, and no member closes it. -/
  acceptorIsOpen : Bool
  receiveBufferSize : ℕ
  sendBufferSize : ℕ
  connectionCallback : Bool
  stoppedCallback : Option K
  ioContext : IoContext (TcpServer.Handler K) TcpServer.Operation (TcpServer.Call T K)

namespace TcpServer

variable {T K : Type}

/-! ### The members of the source -/

def new (receiveBufferSize sendBufferSize : ℕ) : TcpServer T K :=
  ⟨{}, true, receiveBufferSize, sendBufferSize, false, none, {}⟩

def resolveOnStopped (c : TcpServer T K) : TcpServer T K :=
  if !c.flags.getFlag .startAccepting && !c.flags.getFlag .accepting then
    match c.stoppedCallback with
    | some callback =>
      { c with
        stoppedCallback := none
        ioContext := c.ioContext.post (.stopped callback) }
    | none => c
  else c

def asyncStart (c : TcpServer T K) : Bool × TcpServer T K :=
  if c.flags.getFlag .startSignaled || c.flags.getFlag .stopping then (false, c)
  else
    (true, { c with
      flags := (c.flags.setFlag .startSignaled).setFlag .startAccepting
      ioContext := c.ioContext.post .startAccepting })

def asyncStop (c : TcpServer T K) (onStopped : Option K) : Bool × TcpServer T K :=
  if c.flags.getFlag .stopSignaled || !c.flags.getFlag .startSignaled then (false, c)
  else
    (true, { c with
      flags := (c.flags.setFlag .stopSignaled).setFlag .stopping
      stoppedCallback := onStopped
      ioContext := c.ioContext.post .stop })

/-- The handler that `async_stop` posts. What `_acceptor.cancel` aborts is seen when the accept
ends. -/
def onStop (c : TcpServer T K) : TcpServer T K :=
  let c := { c with flags := c.flags.setFlag .stopping }
  if c.acceptorIsOpen then c else c.resolveOnStopped

def asyncAccept (c : TcpServer T K) : TcpServer T K :=
  let c := { c with flags := c.flags.clearFlag .startAccepting }
  if !c.flags.getFlag .stopping then
    { c with
      flags := c.flags.setFlag .accepting
      ioContext := c.ioContext.start .accept }
  else c.resolveOnStopped

/-- A connection is made from the socket, and dropped when there is no callback to take it. -/
def handleAccept (c : TcpServer T K) (error : ErrorCode) (socket : T) : TcpServer T K :=
  if error.failed then { c with flags := c.flags.clearFlag .accepting }.resolveOnStopped
  else
    let io := c.ioContext.call (.makeConnection socket c.receiveBufferSize c.sendBufferSize)
    let io := if c.connectionCallback then io.call (.connection socket) else io
    let c := { c with ioContext := io }
    if !c.flags.getFlag .stopping then c.asyncAccept
    else { c with flags := c.flags.clearFlag .accepting }.resolveOnStopped

def handle (c : TcpServer T K) : Handler K → TcpServer T K
  | .startAccepting => c.asyncAccept
  | .stop => c.onStop
  | .stopped callback => { c with ioContext := c.ioContext.call (.stopped callback) }

/-! ### Steps -/

inductive Event (T K : Type)
  | setConnectionCallback (callback : Bool)
  | asyncStart (returned : Bool)
  | asyncStop (onStopped : Option K) (returned : Bool)
  | run (handler : Handler K)
  | handleAccept (error : ErrorCode) (socket : T)
deriving DecidableEq, Repr

def step [DecidableEq K] (c : TcpServer T K) : Event T K → Option (TcpServer T K)
  | .setConnectionCallback callback => some { c with connectionCallback := callback }
  | .asyncStart returned => if c.asyncStart.1 = returned then some c.asyncStart.2 else none
  | .asyncStop onStopped returned =>
    if (c.asyncStop onStopped).1 = returned then some (c.asyncStop onStopped).2 else none
  | .run handler =>
    (c.ioContext.take handler).map fun io => { c with ioContext := io }.handle handler
  | .handleAccept error socket =>
    (c.ioContext.finish .accept).map fun io => { c with ioContext := io }.handleAccept error socket

def Step [DecidableEq K] (c : TcpServer T K) (e : Event T K) (d : TcpServer T K) : Prop :=
  c.step e = some d

end TcpServer
end Eestv.Net
