import UnixNotes.Library.Interleaving
import UnixNotes.Rpc.Client.Instr

namespace UnixNotes.Rpc.Client

open Reactor (Buffer)

def errorResponse (requestId : UInt64) (errorCode : RpcErrorCode) (errorMessage : ByteString) :
    RpcResponse :=
  { requestId := requestId, errorCode := errorCode.toInt32, errorMessage := errorMessage }

def removeCalls (m : PendingMap) (ks : List Nat) : PendingMap where
  entries := m.entries.filter fun entry => entry.2 ∉ ks
  nodupKeys := m.nodupKeys.sublist List.filter_sublist

namespace CallTable

def recordClientResponse (calls : CallTable) (response : RpcResponse) : CallTable :=
  if response.errorCode = 0 then
    { calls with successCalls := calls.successCalls + 1 }
  else
    let calls := { calls with failedCalls := calls.failedCalls + 1 }
    if response.errorCode = RpcErrorCode.timeout.toInt32 ∨
        response.errorCode = RpcErrorCode.queueingTimeout.toInt32 then
      { calls with timeoutCalls := calls.timeoutCalls + 1 }
    else if response.errorCode = RpcErrorCode.cancelled.toInt32 then
      { calls with cancelledCalls := calls.cancelledCalls + 1 }
    else
      calls

def pendingList (calls : CallTable) : List Nat := calls.pendingCalls.entries.map Sigma.snd

def setState (calls : CallTable) (k : Nat) (state : PendingState) : CallTable :=
  calls.set k { calls.call k with state := state }

def select (calls : CallTable) (p : Call → Bool) : List Nat :=
  calls.pendingList.filter fun k => p (calls.call k)

/-- Takes the calls in `ks` out of `pendingCalls` and marks them as failed. -/
def failCalls (calls : CallTable) (ks : List Nat) : CallTable :=
  { calls with
    call := fun k => if k ∈ ks then { calls.call k with state := .failed } else calls.call k
    pendingCalls := removeCalls calls.pendingCalls ks }

def completeEach (calls : CallTable) (ks : List Nat) (errorCode : RpcErrorCode)
    (errorMessage : ByteString) : List Instr :=
  ks.map fun k =>
    .call (.completePending k (errorResponse (calls.call k).requestId errorCode errorMessage))

end CallTable

def failedState : RpcErrorCode → PendingState
  | .timeout | .queueingTimeout => .timedOut
  | .cancelled => .cancelled
  | _ => .failed

/-- Completing the future and then calling back, as `callAsyncInternal` and `completePending` do. -/
def finishCall (k : Nat) (response : RpcResponse) (route : Route) : List Instr :=
  [.call (.recordClientResponse response), .call (.complete k response route)]

def cancelTimerIfSet (id : Nat) : List Instr :=
  if id = 0 then [] else [.loop (.cancelTimer id)]

/-! ### Calls -/

/-- The request as `callAsyncInternal` completes it from the options. -/
def prepareRequest (requestId : UInt64) (request : RpcRequest) (options : RpcCallOptions) :
    RpcRequest :=
  { request with
    requestId := requestId
    timeoutMs := options.timeout.toUInt64
    traceId :=
      if options.traceId = [] then ascii ("rpc-" ++ toString requestId.toNat) else options.traceId
    serializer := serializerOrRaw request.serializer
    attempt := if request.attempt = 0 then 1 else request.attempt }

/-- The retries `expireRetryExhaustedPending` takes as done. -/
def completedRetries (call : Call) : Nat :=
  if call.request.attempt = 0 then 0 else call.request.attempt.toNat - 1

def isWaiting (call : Call) : Bool := call.state = .waitingToSend

def isRetryExhausted (call : Call) : Bool :=
  isWaiting call && call.options.retryEnabled &&
    decide (completedRetries call ≥ call.options.maxRetries)

def countAttempt (call : Call) : Call :=
  if isWaiting call && call.options.retryEnabled then
    { call with request := { call.request with attempt := call.request.attempt + 1 } }
  else
    call

def CallTable.countAttempts (calls : CallTable) (ks : List Nat) : CallTable :=
  { calls with call := fun k => if k ∈ ks then countAttempt (calls.call k) else calls.call k }

/-- `RpcFuture::complete`, called by thread `t`. -/
def Call.complete (call : Call) (t : Nat) (response : RpcResponse) : Call :=
  let call := { call with completions := call.completions ++ [(t, response)] }
  if call.completed = none then { call with completed := some response, cancel := false } else call

def Call.invoke (call : Call) (response : RpcResponse) : Call :=
  { call with invocations := call.invocations ++ [response] }

/-- The operations a user may call; each runs before the rest of the user's code. -/
def Operation.begin (calls : CallTable) : Operation → CallTable × List Instr
  | .connect timeout => (calls, [.net (.connect timeout)])
  | .disconnect => (calls, [.net .disconnect])
  | .callAsync request options callback =>
    let call : Call :=
      { request := request, options := options, localCallback := callback, hasCallback := callback }
    ({ calls.set calls.callCount call with callCount := calls.callCount + 1 },
      [.call (.nextRequestId calls.callCount)])
  | .cancel k => (calls, [.call (.cancel k)])
  | .setConnectionStateCallback callback => (calls, [.net (.setConnectionStateCallback callback)])
  | .destroy => (calls, [.call .destroy])

def CallInstr.exec (t : Nat) (x : Choice) (s : State) :
    CallInstr → Option (CallTable × List Instr)
  | .userCode =>
    match x with
    | .operation operation =>
      let (calls, instrs) := operation.begin s.calls
      some (calls, instrs ++ [.call .userCode])
    | _ => some (s.calls, [])
  | .nextRequestId k =>
    let requestId := s.calls.nextRequestId
    let calls := { s.calls with nextRequestId := requestId + 1 }
    if requestId = 0 then
      some (calls, [.call (.retryRequestId k)])
    else
      some (calls.set k { calls.call k with requestId := requestId },
        [.call (.callAsyncInternal k)])
  | .retryRequestId k =>
    let requestId := s.calls.nextRequestId
    let calls := { s.calls with nextRequestId := requestId + 1 }
    some (calls.set k { calls.call k with requestId := requestId }, [.call (.callAsyncInternal k)])
  | .callAsyncInternal k =>
    let calls := { s.calls with totalCalls := s.calls.totalCalls + 1 }
    let call := calls.call k
    let request := prepareRequest call.requestId call.request call.options
    if call.options.timeout ≤ 0 then
      some (calls, finishCall k (errorResponse call.requestId .timeout
        (ascii "RPC call timed out before it was sent")) .param)
    else
      match RpcCodec.encodeRequest request with
      | .error error =>
        some (calls, finishCall k (errorResponse call.requestId .protocolError error.what) .param)
      | .ok frame =>
        let call :=
          { call with
            request := request
            deadline := s.loop.now + call.options.timeout.toNatClampNeg
            callback := call.localCallback
            localCallback := false
            frame := frame }
        some (calls.set k call, [.call (.setCancel k), .armDeadline k])
  | .setCancel k =>
    let call := s.calls.call k
    if call.completed = none then some (s.calls.set k { call with cancel := true }, [])
    else some (s.calls, [])
  | .recordClientResponse response => some (s.calls.recordClientResponse response, [])
  | .complete k response route =>
    some (s.calls.set k ((s.calls.call k).complete t response),
      [.call (.invokeCallback k response route)])
  | .invokeCallback k response .param =>
    let call := s.calls.call k
    if call.localCallback then
      some (s.calls.set k (call.invoke response), [.call .userCode])
    else
      some (s.calls, [])
  | .invokeCallback k _ .pending =>
    let call := s.calls.call k
    if call.callback then
      -- `RpcFuture::get` waits for the response.
      call.completed.map fun response =>
        (s.calls.set k (call.invoke response), [.call .userCode])
    else
      some (s.calls, [])
  | .insertPending k =>
    let requestId := (s.calls.call k).requestId
    -- `emplace` keeps an entry that is there already.
    if requestId ∈ s.calls.pendingCalls then some (s.calls, [])
    else some (s.calls.setPending (s.calls.pendingCalls.insert requestId k), [])
  | .snapshotPending =>
    match x with
    | .order ks =>
      if ks.Perm (s.calls.select isWaiting) then
        some (s.calls, ks.map fun k => .call (.sendPendingCall k))
      else none
    | _ => none
  | .sendPendingCall k =>
    let call := s.calls.call k
    if s.loop.now ≥ call.deadline then
      some (s.calls, [.call (.failPending call.requestId .queueingTimeout
        (ascii "RPC call timed out before it was sent"))])
    else
      some (s.calls, [.call (.fetchConnection k)])
  | .fetchConnection k =>
    match s.net.connection with
    | none => some (s.calls, [])
    | some n => some (s.calls, [.call (.markSent k n)])
  | .markSent k n =>
    let call := s.calls.call k
    if s.calls.pendingCalls.find call.requestId = some k ∧ call.state = .waitingToSend then
      some (s.calls.setState k .sent, [.call (.send k n)])
    else
      some (s.calls, [])
  | .send k n => some (s.calls, runInLoop t (.sendInLoop n (s.calls.call k).frame))
  | .completeResponse response =>
    match s.calls.pendingCalls.find response.requestId with
    | none => some (s.calls, [])
    | some k =>
      some ((s.calls.setState k .completed).setPending
          (s.calls.pendingCalls.erase response.requestId),
        [.call (.completePending k response)])
  | .failPending requestId errorCode errorMessage =>
    match s.calls.pendingCalls.find requestId with
    | none => some (s.calls, [])
    | some k =>
      some ((s.calls.setState k (failedState errorCode)).setPending
          (s.calls.pendingCalls.erase requestId),
        [.call (.completePending k (errorResponse requestId errorCode errorMessage))])
  | .failAllPending errorCode errorMessage =>
    match x with
    | .order ks =>
      if ks.Perm s.calls.pendingList then
        some (s.calls.failCalls ks, s.calls.completeEach ks errorCode errorMessage)
      else none
    | _ => none
  | .failSentPending errorCode errorMessage =>
    match x with
    | .order ks =>
      if ks.Perm (s.calls.select fun call => call.state = .sent || call.options.failFast) then
        some (s.calls.failCalls ks, s.calls.completeEach ks errorCode errorMessage)
      else none
    | _ => none
  | .expireRetryExhaustedPending message =>
    match x with
    | .order ks =>
      if ks.Perm (s.calls.select isRetryExhausted) then
        let kept := (s.calls.select isWaiting).filter fun k => k ∉ ks
        let hasWaiting := !kept.isEmpty
        some ((s.calls.failCalls ks).countAttempts kept,
          s.calls.completeEach ks .retryExhausted (ascii "RPC retry attempts exhausted") ++
            if hasWaiting then
              [.net (.updateConnectionState .reconnecting), .net .scheduleReconnect]
            else
              [.net (.updateConnectionState .disconnected),
                .call (.failAllPending .networkError message)])
      else none
    | _ => none
  | .completePending k response =>
    let call := s.calls.call k
    some (s.calls.set k { call with timerId := 0 },
      cancelTimerIfSet call.timerId ++ finishCall k response .pending)
  | .cancel k =>
    let call := s.calls.call k
    if call.completed = none ∧ call.cancel then
      some (s.calls, [.call (.cancelPending call.requestId)])
    else
      some (s.calls, [])
  | .cancelPending requestId =>
    if s.calls.alive then
      some (s.calls, [.call (.failPending requestId .cancelled (ascii "RPC call cancelled"))])
    else
      some (s.calls, [])
  | .destroy => some ({ s.calls with alive := false }, [.net .destroy])

/-! ### The connection -/

/-- The end of a call that is neither sent nor queued: its timer is cancelled and its future
completed; the callback is the one `pending` has not taken. -/
def failFast (k : Nat) (call : Call) (errorCode : RpcErrorCode) (errorMessage : ByteString) :
    List Instr :=
  .loop (.cancelTimer call.timerId) ::
    finishCall k (errorResponse call.requestId errorCode errorMessage) .param

def startConnect (state : ConnectionState) : List Instr :=
  [.net (.updateConnectionState state), .net .connectorStart]

def NetInstr.exec (t : Nat) (x : Choice) (s : State) : NetInstr → Option (Net × List Instr)
  | .connect timeout =>
    if isInLoopThread t ∨ timeout ≤ 0 ∨ s.net.stopping then
      some (s.net, [])
    else
      let net : Net := { s.net with desiredConnected := true, connectionError := 0 }
      match net.connectionState with
      | .connected => some (net, [])
      | .disconnected =>
        some ({ net with connectionState := .connecting },
          startConnect .connecting ++ [.net (.connectWait timeout)])
      | _ => some (net, [.net (.connectWait timeout)])
  | .connectWait timeout =>
    some (s.net, [.net (.connectWaitUntil (s.loop.now + timeout.toNatClampNeg))])
  | .connectWaitUntil deadline =>
    let observedTerminalState := s.net.connectionState = .connected ∨
      s.net.connectionState = .disconnected ∨ s.net.stopping
    if ¬observedTerminalState ∧ s.loop.now < deadline then
      none
    else if ¬observedTerminalState ∨ s.net.connectionState ≠ .connected then
      some ({ s.net with desiredConnected := false, connectionState := .disconnected },
        .net .cancelReconnectTimer :: stopClient)
    else
      some (s.net, [])
  | .disconnect =>
    some ({ s.net with desiredConnected := false, connectionState := .disconnected },
      [.net .cancelReconnectTimer,
        .call (.failAllPending .networkError (ascii "RPC connection closed"))] ++ stopClient ++
      (if isInLoopThread t then [] else [.loop .syncWithLoop]) ++
      [.net (.updateConnectionState .disconnected)])
  | .destroy =>
    some ({ s.net with stopping := true, desiredConnected := false, connectionState := .stopping },
      [.net .cancelReconnectTimer,
        .call (.failAllPending .clientStopping (ascii "RPC client is stopping")),
        .loop .destroyInLoop, .loop .quit])
  | .setConnectionStateCallback callback => some ({ s.net with stateCallback := callback }, [])
  | .checkState k =>
    let call := s.calls.call k
    if s.net.stopping then
      some (s.net, failFast k call .clientStopping (ascii "RPC client is stopping"))
    else if s.net.connectionState = .connected then
      some (s.net, [.call (.insertPending k), .net .sendPendingCalls])
    else if call.options.failFast then
      some (s.net, failFast k call .networkError (ascii "RPC client is not connected"))
    else
      let net : Net := { s.net with desiredConnected := true }
      if net.connectionState = .disconnected then
        some ({ net with connectionState := .connecting },
          [.call (.insertPending k)] ++ startConnect .connecting ++ [.net .sendPendingCalls])
      else
        some (net, [.call (.insertPending k), .net .sendPendingCalls])
  | .sendPendingCalls =>
    if s.net.connectionState = .connected then some (s.net, [.call .snapshotPending])
    else some (s.net, [])
  | .updateConnectionState state =>
    some ({ s.net with connectionState := state },
      (if s.net.stateCallback then [.call .userCode] else []) ++
        if state = .reconnecting then [.net .countReconnect] else [])
  | .countReconnect => some ({ s.net with reconnectCount := s.net.reconnectCount + 1 }, [])
  | .cancelReconnectTimer =>
    some ({ s.net with reconnectTimerId := 0 }, cancelTimerIfSet s.net.reconnectTimerId)
  | .scheduleReconnect =>
    if s.net.desiredConnected = false ∨ s.net.stopping ∨ s.net.reconnectTimerId ≠ 0 then
      some (s.net, [])
    else
      let delay := s.net.reconnectDelay
      some ({ s.net with reconnectDelay := min kMaxReconnectDelay (delay * 2) },
        [.loop (.armReconnect delay)])
  | .storeReconnectTimer id => some ({ s.net with reconnectTimerId := id }, [])
  | .reconnectTimer =>
    let net : Net := { s.net with reconnectTimerId := 0 }
    if net.desiredConnected = false ∨ net.stopping then some (net, [])
    else some (net, startConnect .reconnecting)
  | .connectorStart =>
    some ({ s.net with connector := { s.net.connector with connectRequested := true } },
      runInLoop t .startInLoop)
  | .connectorStop =>
    some ({ s.net with connector := { s.net.connector with connectRequested := false } },
      runInLoop t .stopInLoop)
  | .stopConnection =>
    match s.net.connection with
    | none => some (s.net, [])
    | some n => some (s.net, runInLoop t (.forceCloseInLoop n))
  | .startInLoop =>
    if s.net.connector.connectRequested = false ∨ s.net.connector.state ≠ .kDisconnected then
      some (s.net, [])
    else
      match x with
      | .connectResult (.noSocket error) =>
        some (s.net, if s.net.connector.callbacks then [.net (.onConnectionError error)] else [])
      | .connectResult .connected => some (s.net.setConnectorState .kConnected, [.net .connected])
      | .connectResult .inProgress => some (s.net.setConnectorState .kConnecting, [])
      | .connectResult (.refused error) => some (s.net, [.net (.reportError error)])
      | _ => none
  | .connected =>
    if s.net.connector.connectRequested ∧ s.net.connector.callbacks then
      some (s.net, [.net .newConnection])
    else
      some (s.net.setConnectorState .kDisconnected, [])
  | .stopInLoop => some (s.net.setConnectorState .kDisconnected, [])
  | .handleWrite error =>
    if s.net.connector.state ≠ .kConnecting then
      some (s.net, [])
    else
      match error with
      | some error =>
        some (s.net.setConnectorState .kDisconnected, [.net (.reportError error)])
      | none =>
        if s.net.connector.connectRequested ∧ s.net.connector.callbacks then
          some (s.net.setConnectorState .kConnected, [.net .newConnection])
        else
          some (s.net.setConnectorState .kDisconnected, [])
  | .handleError error =>
    if s.net.connector.state ≠ .kConnecting then some (s.net, [])
    else some (s.net.setConnectorState .kDisconnected, [.net (.reportError error)])
  | .reportError error =>
    if s.net.connector.connectRequested ∧ s.net.connector.callbacks then
      some (s.net, [.net (.onConnectionError error)])
    else
      some (s.net, [])
  | .newConnection =>
    let n := s.net.connectionCount
    some ({ s.net.setConnection n {} with connection := some n, connectionCount := n + 1 },
      [.net (.connectEstablished n)])
  | .connectEstablished n =>
    some (s.net.setSocketState n .kConnected,
      if (s.net.connections n).callbacks then [.net (.onConnection n)] else [])
  | .onConnection n =>
    if (s.net.connections n).state = .kConnected then
      some ({ s.net with reconnectDelay := kInitialReconnectDelay },
        [.net (.updateConnectionState .connected), .net .sendPendingCalls])
    else
      some (s.net,
        .call (.failSentPending .networkError (ascii "RPC connection closed")) ::
          if s.net.desiredConnected ∧ ¬s.net.stopping then
            [.net (.updateConnectionState .reconnecting), .net .scheduleReconnect]
          else
            [.net (.updateConnectionState .disconnected),
              .call (.failAllPending .networkError (ascii "RPC connection closed"))])
  | .onConnectionError error =>
    some ({ s.net with connectionError := error.code },
      if s.net.desiredConnected ∧ ¬s.net.stopping then
        [.call (.expireRetryExhaustedPending error.message)]
      else
        [.net (.updateConnectionState .disconnected),
          .call (.failAllPending .networkError error.message)])
  | .handleRead n bytes eof =>
    let connection := s.net.connections n
    some (s.net.setConnection n
        { connection with inputBuffer := connection.inputBuffer.append bytes },
      (if bytes ≠ [] ∧ connection.callbacks then [.net (.onMessage n)] else []) ++
        if eof then [.net (.handleClose n)] else [])
  | .onMessage n =>
    let connection := s.net.connections n
    match RpcCodec.tryDecodeResponse connection.inputBuffer {} with
    | (.needMoreData, _, _) => some (s.net, [])
    | (.protocolError, _, _) =>
      some (s.net, .call (.failAllPending .protocolError
        (ascii "server returned an invalid RPC response")) :: stopClient)
    | (.complete, buffer, response) =>
      some (s.net.setConnection n { connection with inputBuffer := buffer },
        [.call (.completeResponse response), .net (.onMessage n)])
  | .sendInLoop n frame =>
    match x with
    | .sendFails =>
      if (s.net.connections n).state = .kConnected ∧ frame ≠ [] then
        some (s.net, [.net (.handleClose n)])
      else
        some (s.net, [])
    | _ => some (s.net, [])
  | .handleClose n =>
    if (s.net.connections n).state = .kDisconnected then some (s.net, [])
    else
      some (s.net.setSocketState n .kDisconnected,
        if (s.net.connections n).callbacks then [.net (.removeConnection n)] else [])
  | .removeConnection n =>
    some ({ s.net with
        connection := if s.net.connection = some n then none else s.net.connection },
      [.net .connectorStop, .net (.connectDestroyed n)])
  | .connectDestroyed n =>
    some (s.net.setSocketState n .kDisconnected,
      if (s.net.connections n).callbacks then [.net (.onConnection n)] else [])
  | .forceCloseInLoop n =>
    if (s.net.connections n).state = .kConnected then some (s.net, [.net (.handleClose n)])
    else some (s.net, [])
  | .resetTcpClient =>
    some ({ s.net with connector := { s.net.connector with callbacks := false } },
      [.net .connectorStop, .net .dropConnection])
  | .dropConnection =>
    match s.net.connection with
    | none => some (s.net, [])
    | some n =>
      some ({ s.net.setConnection n
          { s.net.connections n with state := .kDisconnected, callbacks := false } with
        connection := none }, [])

/-! ### The event loop and the timers -/

/-- The poller reports a channel only while it is watched. -/
def Event.Watched (net : Net) : Event → Prop
  | .connectorWritable _ | .connectorError _ => net.connector.state = .kConnecting
  | .readable n _ _ | .closed n => (net.connections n).state = .kConnected

instance (net : Net) : (event : Event) → Decidable (event.Watched net)
  | .connectorWritable _ | .connectorError _ =>
    inferInstanceAs (Decidable (net.connector.state = .kConnecting))
  | .readable n _ _ | .closed n =>
    inferInstanceAs (Decidable ((net.connections n).state = .kConnected))

def LoopInstr.exec (x : Choice) (s : State) : LoopInstr → Option (Loop × List Instr)
  | .loop =>
    if s.loop.quit then
      some (s.loop, [])
    else
      match x with
      | .poll events =>
        if ∀ event ∈ events, event.Watched s.net then
          some (s.loop, events.map Event.handler ++ [.loop .doPendingFunctors, .loop .loop])
        else none
      | _ => none
  | .doPendingFunctors =>
    some ({ s.loop with pendingFunctors := [] }, s.loop.pendingFunctors.flatMap Functor.body)
  | .queueInLoop functor =>
    some ({ s.loop with pendingFunctors := s.loop.pendingFunctors ++ [functor] }, [])
  | .syncWithLoop =>
    let m := s.loop.markerCount
    some ({ s.loop with markerCount := m + 1 },
      [.loop (.queueInLoop (.setMarker m)), .loop (.awaitMarker m)])
  | .destroyInLoop =>
    let m := s.loop.markerCount
    some ({ s.loop with markerCount := m + 1 },
      [.loop (.queueInLoop (.destroyTcpClient m)), .loop (.awaitMarker m)])
  | .setMarker m => some ({ s.loop with markers := m :: s.loop.markers }, [])
  | .awaitMarker m => if m ∈ s.loop.markers then some (s.loop, []) else none
  | .quit => some ({ s.loop with quit := true }, [])
  | .armReconnect delay =>
    some (s.loop.addTimer delay .reconnectTimer, [.net (.storeReconnectTimer s.loop.timerCount)])
  | .cancelTimer id =>
    if (s.loop.timers id).phase = .finished then some (s.loop, [])
    else some (s.loop.setPhase id .cancelled, [])
  | .timerService =>
    match x with
    | .tick milliseconds =>
      some ({ s.loop with now := s.loop.now + milliseconds }, [.loop .timerService])
    | .submitTimer id =>
      let timer := s.loop.timers id
      if timer.phase = .pending ∧ timer.expiration ≤ s.loop.now then
        some (s.loop.setPhase id .submitted, [.loop .timerService])
      else none
    | .runTimer id =>
      let timer := s.loop.timers id
      if timer.phase = .submitted then
        some (s.loop.setPhase id .executing,
          [.loop (.queueInLoop timer.functor), .loop (.finishTimer id), .loop .timerService])
      else none
    | _ => none
  | .finishTimer id => some (s.loop.setPhase id .finished, [])

/-! ### The machine -/

def Instr.exec (t : Nat) (i : Instr) (x : Choice) (s : State) : Option (State × List Instr) :=
  match i with
  | .call i => (i.exec t x s).map fun r => ({ s with calls := r.1 }, r.2)
  | .net i => (i.exec t x s).map fun r => ({ s with net := r.1 }, r.2)
  | .loop i => (i.exec x s).map fun r => ({ s with loop := r.1 }, r.2)
  | .armDeadline k =>
    let call := s.calls.call k
    some ({ s with
      calls := s.calls.set k { call with timerId := s.loop.timerCount }
      loop := s.loop.addTimer call.options.timeout.toNatClampNeg (.onDeadline call.requestId) },
      [.net (.checkState k)])

def client : Library.Machine State Instr Choice := ⟨Instr.exec⟩

abbrev ClientConfig := Library.Config State Instr

def init (timerThreads users : Nat) : ClientConfig where
  shared := {}
  threads := [.loop .loop] :: (List.replicate timerThreads [.loop .timerService] ++
    List.replicate users [.call .userCode])

theorem mem_init_stack {timerThreads users t : Nat} {i : Instr}
    (h : (init timerThreads users).Active t i) :
    i = .loop .loop ∨ i = .loop .timerService ∨ i = .call .userCode := by
  obtain ⟨stack, hmem, hi⟩ := Library.Config.mem_threads h
  simp only [init, List.mem_cons, List.mem_append] at hmem
  obtain rfl | hmem | hmem := hmem
  · exact .inl (List.mem_singleton.mp hi)
  · rw [List.eq_of_mem_replicate hmem] at hi
    exact .inr (.inl (List.mem_singleton.mp hi))
  · rw [List.eq_of_mem_replicate hmem] at hi
    exact .inr (.inr (List.mem_singleton.mp hi))

theorem total_init {timerThreads users : Nat} {w : Instr → Nat} (hloop : w (.loop .loop) = 0)
    (htimer : w (.loop .timerService) = 0) (huser : w (.call .userCode) = 0) :
    (init timerThreads users).total w = 0 := by
  refine Library.Config.total_eq_zero fun t i hactive => ?_
  obtain rfl | rfl | rfl := mem_init_stack hactive
  · exact hloop
  · exact htimer
  · exact huser

end UnixNotes.Rpc.Client
