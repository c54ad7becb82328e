import Eestv.Flags
import Eestv.Library.IoContext
import Eestv.Library.StdString

/-! The client. Again each function is one critical section under the mutex, and a step is a
call of a member, a posted handler that runs or an operation that ends, in any order. What
`async_connect` and `async_stop` post behind their critical section is posted in the same step:
until it is posted, it is like a handler that is not picked. Callbacks are names. The socket,
the log texts, `to_string` and the thread of `stop()` are left out. -/

namespace Eestv.Net
open StdString

inductive TcpClientState
  | scheduleResolving
  | resolving
  | connecting
  | stopping
  | stopSingaled
deriving DecidableEq, Repr

instance : FlagType TcpClientState where
  bit
    | .scheduleResolving => 0
    | .resolving => 1
    | .connecting => 2
    | .stopping => 3
    | .stopSingaled => 4
  bit_injective := by
    intro a b h
    cases a <;> cases b <;> first | rfl | contradiction

namespace TcpClient

inductive Handler (K : Type)
  | asyncResolve (host : List Char) (port : ℤ)
  | stop
  | complete (callback : K) (error : ErrorCode)
  | stopped (callback : K)
deriving DecidableEq, Repr

inductive Operation (E : Type)
  | resolve (host service : List Char)
  | connect (results : E)
deriving DecidableEq, Repr

inductive Call (K : Type)
  | complete (callback : K) (error : ErrorCode)
  | stopped (callback : K)
deriving DecidableEq, Repr

end TcpClient

/-- `E` is what a resolver yields. -/
structure TcpClient (E K : Type) where
  flags : Flags TcpClientState := {}
  onConnectionComplete : Option K := none
  onStopped : Option K := none
  ioContext : IoContext (TcpClient.Handler K) (TcpClient.Operation E) (TcpClient.Call K) := {}

namespace TcpClient

variable {E K : Type}

/-! ### The members of the source -/

def new : TcpClient E K := {}

def resolveOnStopped (c : TcpClient E K) : TcpClient E K :=
  if !c.flags.getFlag .stopping && !c.flags.getFlag .scheduleResolving &&
      !c.flags.getFlag .resolving && !c.flags.getFlag .connecting then
    match c.onStopped with
    | some callback =>
      { c with
        onStopped := none
        ioContext := c.ioContext.post (.stopped callback) }
    | none => c
  else c

def asyncConnect (c : TcpClient E K) (host : List Char) (port : ℤ)
    (onConnectionComplete : Option K) : Bool × TcpClient E K :=
  if c.flags.getFlag .resolving || c.flags.getFlag .scheduleResolving ||
      c.flags.getFlag .connecting || c.flags.getFlag .stopping then (false, c)
  else
    (true, { c with
      flags := c.flags.setFlag .scheduleResolving
      onConnectionComplete := onConnectionComplete
      ioContext := c.ioContext.post (.asyncResolve host port) })

def asyncResolve (c : TcpClient E K) (host : List Char) (port : ℤ) : TcpClient E K :=
  let c := { c with flags := c.flags.clearFlag .scheduleResolving }
  if c.flags.getFlag .stopSingaled then c.resolveOnStopped
  else
    { c with
      flags := c.flags.setFlag .resolving
      ioContext := c.ioContext.start (.resolve host (toStdStringInt port)) }

def postCompletion (c : TcpClient E K) (error : ErrorCode) : TcpClient E K :=
  match c.onConnectionComplete with
  | some callback =>
    { c with
      onConnectionComplete := none
      ioContext := c.ioContext.post (.complete callback error) }
  | none => c

def callCompletion (c : TcpClient E K) (error : ErrorCode) : TcpClient E K :=
  match c.onConnectionComplete with
  | some callback =>
    { c with
      onConnectionComplete := none
      ioContext := c.ioContext.call (.complete callback error) }
  | none => c

def handleResolve (c : TcpClient E K) (error : ErrorCode) (results : E) : TcpClient E K :=
  let c :=
    if error.failed then c.postCompletion error
    else
      { c with
        flags := c.flags.setFlag .connecting
        ioContext := c.ioContext.start (.connect results) }
  let c := { c with flags := c.flags.clearFlag .resolving }
  if c.flags.getFlag .stopSingaled then c.resolveOnStopped else c

def asyncStop (c : TcpClient E K) (onStopped : Option K) : Bool × TcpClient E K :=
  if c.flags.getFlag .stopSingaled then (false, c)
  else
    (true, { c with
      flags := (c.flags.setFlag .stopSingaled).setFlag .stopping
      onStopped := onStopped
      ioContext := c.ioContext.post .stop })

/-- The handler that `async_stop` posts. What is cancelled is seen when it ends. -/
def onStop (c : TcpClient E K) : TcpClient E K :=
  { c with flags := c.flags.clearFlag .stopping }.resolveOnStopped

def reset (c : TcpClient E K) : TcpClient E K := { c with flags := c.flags.clearAll }

def handleConnect (c : TcpClient E K) (error : ErrorCode) : TcpClient E K :=
  let c := { c with flags := c.flags.clearFlag .connecting }
  if error.failed then
    (if c.flags.getFlag .stopSingaled then c.resolveOnStopped else c).postCompletion error
  else if c.flags.getFlag .stopSingaled then c.resolveOnStopped
  else c.callCompletion error

def handle (c : TcpClient E K) : Handler K → TcpClient E K
  | .asyncResolve host port => c.asyncResolve host port
  | .stop => c.onStop
  | .complete callback error => { c with ioContext := c.ioContext.call (.complete callback error) }
  | .stopped callback => { c with ioContext := c.ioContext.call (.stopped callback) }

/-! ### Steps -/

/-- A call comes with what it returned, the end of an operation with what it reports. -/
inductive Event (E K : Type)
  | asyncConnect (host : List Char) (port : ℤ) (onConnectionComplete : Option K) (returned : Bool)
  | asyncStop (onStopped : Option K) (returned : Bool)
  | reset
  | run (handler : Handler K)
  | handleResolve (host service : List Char) (error : ErrorCode) (results : E)
  | handleConnect (results : E) (error : ErrorCode)
deriving DecidableEq, Repr

def step [DecidableEq E] [DecidableEq K] (c : TcpClient E K) :
    Event E K → Option (TcpClient E K)
  | .asyncConnect host port onConnectionComplete returned =>
    let r := c.asyncConnect host port onConnectionComplete
    if r.1 = returned then some r.2 else none
  | .asyncStop onStopped returned =>
    let r := c.asyncStop onStopped
    if r.1 = returned then some r.2 else none
  | .reset => some c.reset
  | .run handler =>
    (c.ioContext.take handler).map fun io => { c with ioContext := io }.handle handler
  | .handleResolve host service error results =>
    (c.ioContext.finish (.resolve host service)).map fun io =>
      { c with ioContext := io }.handleResolve error results
  | .handleConnect results error =>
    (c.ioContext.finish (.connect results)).map fun io =>
      { c with ioContext := io }.handleConnect error

def Step [DecidableEq E] [DecidableEq K] (c : TcpClient E K) (e : Event E K)
    (d : TcpClient E K) : Prop :=
  c.step e = some d

end TcpClient
end Eestv.Net
