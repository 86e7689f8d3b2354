import UnixNotes.Rpc.Client.State

namespace UnixNotes.Rpc.Client

/-- Which variable the callback of a call is taken from: the parameter of `callAsyncInternal`, or
`pending->callback`. -/
inductive Route where
  | param | pending
  deriving DecidableEq, Repr

/-- Steps of the functions that work on calls. `k` is the index of a call. -/
inductive CallInstr where
  /-- Code of the user: it calls operations of the client, then returns. -/
  | userCode
  | nextRequestId (k : Nat)
  | retryRequestId (k : Nat)
  | callAsyncInternal (k : Nat)
  | setCancel (k : Nat)
  | recordClientResponse (response : RpcResponse)
  | complete (k : Nat) (response : RpcResponse) (route : Route)
  | invokeCallback (k : Nat) (response : RpcResponse) (route : Route)
  | insertPending (k : Nat)
  | snapshotPending
  | sendPendingCall (k : Nat)
  | fetchConnection (k : Nat)
  | markSent (k n : Nat)
  | send (k n : Nat)
  | completeResponse (response : RpcResponse)
  | failPending (requestId : UInt64) (errorCode : RpcErrorCode) (errorMessage : ByteString)
  | failAllPending (errorCode : RpcErrorCode) (errorMessage : ByteString)
  | failSentPending (errorCode : RpcErrorCode) (errorMessage : ByteString)
  | expireRetryExhaustedPending (message : ByteString)
  | completePending (k : Nat) (response : RpcResponse)
  | cancel (k : Nat)
  | cancelPending (requestId : UInt64)
  | destroy
  deriving DecidableEq

/-- Steps of the functions that work on the connection state and on the `TcpClient`. `n` is the
number of a connection. -/
inductive NetInstr where
  | connect (timeout : Int64)
  | connectWait (timeout : Int64)
  | connectWaitUntil (deadline : Nat)
  | disconnect
  | destroy
  | setConnectionStateCallback (callback : Bool)
  | checkState (k : Nat)
  | sendPendingCalls
  | updateConnectionState (state : ConnectionState)
  | countReconnect
  | cancelReconnectTimer
  | scheduleReconnect
  | storeReconnectTimer (id : Nat)
  | reconnectTimer
  | connectorStart
  | connectorStop
  | stopConnection
  | startInLoop
  | connected
  | stopInLoop
  | handleWrite (error : Option SystemError)
  | handleError (error : SystemError)
  | reportError (error : SystemError)
  | newConnection
  | connectEstablished (n : Nat)
  | onConnection (n : Nat)
  | onConnectionError (error : SystemError)
  | handleRead (n : Nat) (bytes : ByteString) (eof : Bool)
  | onMessage (n : Nat)
  | sendInLoop (n : Nat) (frame : ByteString)
  | handleClose (n : Nat)
  | removeConnection (n : Nat)
  | connectDestroyed (n : Nat)
  | forceCloseInLoop (n : Nat)
  | resetTcpClient
  | dropConnection
  deriving DecidableEq

/-- Steps of the event loop and of the timer threads. -/
inductive LoopInstr where
  | loop
  | doPendingFunctors
  | queueInLoop (functor : Functor)
  | syncWithLoop
  | destroyInLoop
  | setMarker (m : Nat)
  | awaitMarker (m : Nat)
  | quit
  | armReconnect (delay : Nat)
  | cancelTimer (id : Nat)
  | timerService
  | finishTimer (id : Nat)
  deriving DecidableEq

/-- `armDeadline` is the one step that writes to a call and to the timers. -/
inductive Instr where
  | call (i : CallInstr)
  | net (i : NetInstr)
  | loop (i : LoopInstr)
  | armDeadline (k : Nat)
  deriving DecidableEq

inductive Operation where
  | connect (timeout : Int64)
  | disconnect
  | callAsync (request : RpcRequest) (options : RpcCallOptions) (callback : Bool)
  | cancel (k : Nat)
  | setConnectionStateCallback (callback : Bool)
  | destroy

inductive Event where
  | connectorWritable (error : Option SystemError)
  | connectorError (error : SystemError)
  | readable (n : Nat) (bytes : ByteString) (eof : Bool)
  | closed (n : Nat)

/-- How creating the socket and `::connect` on it turn out. -/
inductive ConnectResult where
  | noSocket (error : SystemError)
  | connected
  | inProgress
  | refused (error : SystemError)

/-- What the client's code leaves to its user, to the operating system, to time and to the order of
an `unordered_map`. -/
inductive Choice where
  | next
  | operation (operation : Operation)
  | order (ks : List Nat)
  | poll (events : List Event)
  | connectResult (result : ConnectResult)
  | sendFails
  | tick (milliseconds : Nat)
  | submitTimer (id : Nat)
  | runTimer (id : Nat)

/-- Thread 0 runs the event loop. -/
def isInLoopThread (t : Nat) : Bool := t == 0

/-- `TcpClient::stop`. -/
def stopClient : List Instr := [.net .connectorStop, .net .stopConnection]

def Functor.body : Functor → List Instr
  | .startInLoop => [.net .startInLoop]
  | .stopInLoop => [.net .stopInLoop]
  | .forceCloseInLoop n => [.net (.forceCloseInLoop n)]
  | .sendInLoop n frame => [.net (.sendInLoop n frame)]
  | .onDeadline requestId =>
    [.call (.failPending requestId .timeout (ascii "RPC call timed out"))]
  | .reconnectTimer => [.net .reconnectTimer]
  | .setMarker m => [.loop (.setMarker m)]
  | .destroyTcpClient m => stopClient ++ [.net .resetTcpClient, .loop (.setMarker m)]

def runInLoop (t : Nat) (functor : Functor) : List Instr :=
  if isInLoopThread t then functor.body else [.loop (.queueInLoop functor)]

def Event.handler : Event → Instr
  | .connectorWritable error => .net (.handleWrite error)
  | .connectorError error => .net (.handleError error)
  | .readable n bytes eof => .net (.handleRead n bytes eof)
  | .closed n => .net (.handleClose n)

end UnixNotes.Rpc.Client
