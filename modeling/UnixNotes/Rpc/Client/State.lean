import Mathlib.Data.List.AList
import UnixNotes.Rpc.Codec

namespace UnixNotes.Rpc.Client

open Reactor (Buffer)

inductive ConnectionState where
  | disconnected | connecting | connected | reconnecting | stopping
  deriving DecidableEq, Repr

inductive PendingState where
  | waitingToSend | sent | completed | timedOut | cancelled | failed
  deriving DecidableEq, Repr

structure RpcCallOptions where
  timeout : Int64 := 3000
  retryEnabled : Bool := false
  maxRetries : Nat := 0
  failFast : Bool := true
  traceId : ByteString := []

/-! ### Calls -/

/-- One `callAsyncInternal`: its locals, its `PendingCall` and its `RpcFuture::State`. The last three
fields record what happened to it and are read by no code. -/
structure Call where
  requestId : UInt64 := 0
  request : RpcRequest := {}
  options : RpcCallOptions := {}
  state : PendingState := .waitingToSend
  deadline : Nat := 0
  /-- The parameter `callback` is not empty. -/
  localCallback : Bool := false
  /-- `pending->callback` is not empty. -/
  callback : Bool := false
  timerId : Nat := 0
  frame : ByteString := []
  /-- The response of the future once that is completed. -/
  completed : Option RpcResponse := none
  /-- `futureState->cancel` is not empty. -/
  cancel : Bool := false
  hasCallback : Bool := false
  completions : List (Nat × RpcResponse) := []
  invocations : List RpcResponse := []

abbrev PendingMap := AList fun _ : UInt64 => Nat

def PendingMap.find (m : PendingMap) (requestId : UInt64) : Option Nat := m.lookup requestId

/-- What `RpcClient` knows about calls: `pendingCalls` maps a request id to the index of its call. -/
structure CallTable where
  nextRequestId : UInt64 := 1
  callCount : Nat := 0
  call : Nat → Call := fun _ => {}
  pendingCalls : PendingMap := ∅
  alive : Bool := true
  totalCalls : UInt64 := 0
  successCalls : UInt64 := 0
  failedCalls : UInt64 := 0
  timeoutCalls : UInt64 := 0
  cancelledCalls : UInt64 := 0

namespace CallTable

def set (calls : CallTable) (k : Nat) (call : Call) : CallTable :=
  { calls with call := Function.update calls.call k call }

def setPending (calls : CallTable) (pendingCalls : PendingMap) : CallTable :=
  { calls with pendingCalls := pendingCalls }

end CallTable

/-! ### The connection -/

/-- `errno` with its text. -/
structure SystemError where
  code : Int
  message : ByteString
  deriving DecidableEq, Repr

inductive SocketState where
  | kConnecting | kConnected | kDisconnected
  deriving DecidableEq, Repr

structure TcpConnection where
  state : SocketState := .kConnecting
  inputBuffer : Buffer := Buffer.empty
  /-- The connection, message and close callbacks are set. -/
  callbacks : Bool := true

inductive ConnectorState where
  | kDisconnected | kConnecting | kConnected
  deriving DecidableEq, Repr

structure Connector where
  connectRequested : Bool := false
  state : ConnectorState := .kDisconnected
  callbacks : Bool := true

def kInitialReconnectDelay : Nat := 100
def kMaxReconnectDelay : Nat := 3000

/-- What `stateMutex_` guards, and the `TcpClient` with its `Connector`. Connections are known by
their numbers. -/
structure Net where
  connectionState : ConnectionState := .disconnected
  desiredConnected : Bool := false
  stopping : Bool := false
  connectionError : Int := 0
  reconnectDelay : Nat := kInitialReconnectDelay
  reconnectTimerId : Nat := 0
  stateCallback : Bool := false
  reconnectCount : UInt64 := 0
  connector : Connector := {}
  connection : Option Nat := none
  connectionCount : Nat := 0
  connections : Nat → TcpConnection := fun _ => {}

namespace Net

def setConnection (net : Net) (n : Nat) (connection : TcpConnection) : Net :=
  { net with connections := Function.update net.connections n connection }

def setSocketState (net : Net) (n : Nat) (state : SocketState) : Net :=
  net.setConnection n { net.connections n with state := state }

def setConnectorState (net : Net) (state : ConnectorState) : Net :=
  { net with connector := { net.connector with state := state } }

/-- The `TcpClient` holds a connection that is established. -/
def Established (net : Net) : Prop :=
  ∃ n, net.connection = some n ∧ (net.connections n).state = .kConnected

end Net

/-! ### The event loop and its timers -/

/-- The functors given to `queueInLoop` and to timers. -/
inductive Functor where
  | startInLoop
  | stopInLoop
  | forceCloseInLoop (n : Nat)
  | sendInLoop (n : Nat) (frame : ByteString)
  | onDeadline (requestId : UInt64)
  | reconnectTimer
  | setMarker (m : Nat)
  | destroyTcpClient (m : Nat)
  deriving DecidableEq

/-- `cancelled` and `finished` timers call nothing any more, `executing` ones are in their
callback. -/
inductive TimerPhase where
  | pending | submitted | executing | cancelled | finished
  deriving DecidableEq, Repr

structure Timer where
  functor : Functor := .reconnectTimer
  expiration : Nat := 0
  phase : TimerPhase := .finished

/-- The pending functors of the `EventLoop`, the promises they fulfil, and the timers, which the
`TimerManager` numbers from 1. The clock counts milliseconds. -/
structure Loop where
  pendingFunctors : List Functor := []
  quit : Bool := false
  markerCount : Nat := 0
  markers : List Nat := []
  timerCount : Nat := 1
  timers : Nat → Timer := fun _ => {}
  now : Nat := 0

namespace Loop

def setPhase (loop : Loop) (id : Nat) (phase : TimerPhase) : Loop :=
  { loop with timers := Function.update loop.timers id { loop.timers id with phase := phase } }

/-- `runAfter`: the new timer has the number `timerCount`. -/
def addTimer (loop : Loop) (delay : Nat) (functor : Functor) : Loop :=
  { loop with
    timerCount := loop.timerCount + 1
    timers := Function.update loop.timers loop.timerCount
      { functor := functor, expiration := loop.now + delay, phase := .pending } }

end Loop

structure State where
  calls : CallTable := {}
  net : Net := {}
  loop : Loop := {}

end UnixNotes.Rpc.Client
