import UnixNotes.Rpc.Client.Exec

namespace UnixNotes.Rpc.Client

/-- `callAsyncInternal` ends the call `k` without sending or queueing it. -/
def ShouldFailFast (s : State) (k : Nat) : Prop :=
  s.net.stopping = true ∨
    s.net.connectionState ≠ .connected ∧ (s.calls.call k).options.failFast = true

instance (s : State) (k : Nat) : Decidable (ShouldFailFast s k) :=
  inferInstanceAs (Decidable (_ ∨ _ ∧ _))

/-- What thread `t` may be left with when it executes an instruction in state `s`. -/
inductive Pushes (t : Nat) (s : State) : Instr → Instr → Prop
  | userCode : Pushes t s (.call .userCode) (.call .userCode)
  | userConnect {timeout} : Pushes t s (.call .userCode) (.net (.connect timeout))
  | userDisconnect : Pushes t s (.call .userCode) (.net .disconnect)
  | userCall : Pushes t s (.call .userCode) (.call (.nextRequestId s.calls.callCount))
  | userCancel {k} : Pushes t s (.call .userCode) (.call (.cancel k))
  | userCallback {callback} :
    Pushes t s (.call .userCode) (.net (.setConnectionStateCallback callback))
  | userDestroy : Pushes t s (.call .userCode) (.call .destroy)
  | retryRequestId {k} : Pushes t s (.call (.nextRequestId k)) (.call (.retryRequestId k))
  | firstRequestId {k} : Pushes t s (.call (.nextRequestId k)) (.call (.callAsyncInternal k))
  | secondRequestId {k} : Pushes t s (.call (.retryRequestId k)) (.call (.callAsyncInternal k))
  | recordUnsent {k response} :
    Pushes t s (.call (.callAsyncInternal k)) (.call (.recordClientResponse response))
  | completeUnsent {k response} :
    Pushes t s (.call (.callAsyncInternal k)) (.call (.complete k response .param))
  | setCancel {k} : Pushes t s (.call (.callAsyncInternal k)) (.call (.setCancel k))
  | armDeadline {k} : Pushes t s (.call (.callAsyncInternal k)) (.armDeadline k)
  | checkState {k} : Pushes t s (.armDeadline k) (.net (.checkState k))
  | invokeCallback {k response route} :
    Pushes t s (.call (.complete k response route)) (.call (.invokeCallback k response route))
  | calledBack {k response route} :
    Pushes t s (.call (.invokeCallback k response route)) (.call .userCode)
  | sendPendingCall {k} : Pushes t s (.call .snapshotPending) (.call (.sendPendingCall k))
  | queueingTimeout {k} : Pushes t s (.call (.sendPendingCall k))
      (.call (.failPending (s.calls.call k).requestId .queueingTimeout
        (ascii "RPC call timed out before it was sent")))
  | fetchConnection {k} : Pushes t s (.call (.sendPendingCall k)) (.call (.fetchConnection k))
  | markSent {k n} (hconnection : s.net.connection = some n) :
    Pushes t s (.call (.fetchConnection k)) (.call (.markSent k n))
  | send {k n} : Pushes t s (.call (.markSent k n)) (.call (.send k n))
  | sendHere {k n frame} (hloop : isInLoopThread t = true) :
    Pushes t s (.call (.send k n)) (.net (.sendInLoop n frame))
  | sendThere {k n frame} (hloop : isInLoopThread t = false) :
    Pushes t s (.call (.send k n)) (.loop (.queueInLoop (.sendInLoop n frame)))
  | completeOne {response k} (hfind : s.calls.pendingCalls.find response.requestId = some k) :
    Pushes t s (.call (.completeResponse response)) (.call (.completePending k response))
  | failOne {requestId errorCode errorMessage k}
      (hfind : s.calls.pendingCalls.find requestId = some k) :
    Pushes t s (.call (.failPending requestId errorCode errorMessage))
      (.call (.completePending k (errorResponse requestId errorCode errorMessage)))
  | failAll {errorCode errorMessage k response} (hk : k ∈ s.calls.pendingList) :
    Pushes t s (.call (.failAllPending errorCode errorMessage))
      (.call (.completePending k response))
  | failSent {errorCode errorMessage k response} (hk : k ∈ s.calls.pendingList) :
    Pushes t s (.call (.failSentPending errorCode errorMessage))
      (.call (.completePending k response))
  | expire {message k response} (hk : k ∈ s.calls.pendingList) :
    Pushes t s (.call (.expireRetryExhaustedPending message)) (.call (.completePending k response))
  | expireReconnecting {message} : Pushes t s (.call (.expireRetryExhaustedPending message))
      (.net (.updateConnectionState .reconnecting))
  | expireSchedule {message} :
    Pushes t s (.call (.expireRetryExhaustedPending message)) (.net .scheduleReconnect)
  | expireDisconnected {message} : Pushes t s (.call (.expireRetryExhaustedPending message))
      (.net (.updateConnectionState .disconnected))
  | expireFailAll {message} : Pushes t s (.call (.expireRetryExhaustedPending message))
      (.call (.failAllPending .networkError message))
  | cancelDeadline {k response} (hset : (s.calls.call k).timerId ≠ 0) :
    Pushes t s (.call (.completePending k response))
      (.loop (.cancelTimer (s.calls.call k).timerId))
  | recordPending {k response} :
    Pushes t s (.call (.completePending k response)) (.call (.recordClientResponse response))
  | completePending {k response} :
    Pushes t s (.call (.completePending k response)) (.call (.complete k response .pending))
  | cancelPending {k} :
    Pushes t s (.call (.cancel k)) (.call (.cancelPending (s.calls.call k).requestId))
  | failCancelled {requestId} : Pushes t s (.call (.cancelPending requestId))
      (.call (.failPending requestId .cancelled (ascii "RPC call cancelled")))
  | destroy : Pushes t s (.call .destroy) (.net .destroy)
  | connectConnecting {timeout} :
    Pushes t s (.net (.connect timeout)) (.net (.updateConnectionState .connecting))
  | connectStart {timeout} : Pushes t s (.net (.connect timeout)) (.net .connectorStart)
  | connectWait {timeout} : Pushes t s (.net (.connect timeout)) (.net (.connectWait timeout))
  | connectWaitUntil {timeout deadline} :
    Pushes t s (.net (.connectWait timeout)) (.net (.connectWaitUntil deadline))
  | timedOutTimer {deadline} :
    Pushes t s (.net (.connectWaitUntil deadline)) (.net .cancelReconnectTimer)
  | timedOutStop {deadline} :
    Pushes t s (.net (.connectWaitUntil deadline)) (.net .connectorStop)
  | timedOutClose {deadline} :
    Pushes t s (.net (.connectWaitUntil deadline)) (.net .stopConnection)
  | disconnectTimer : Pushes t s (.net .disconnect) (.net .cancelReconnectTimer)
  | disconnectFailAll : Pushes t s (.net .disconnect)
      (.call (.failAllPending .networkError (ascii "RPC connection closed")))
  | disconnectStop : Pushes t s (.net .disconnect) (.net .connectorStop)
  | disconnectClose : Pushes t s (.net .disconnect) (.net .stopConnection)
  | disconnectSync : Pushes t s (.net .disconnect) (.loop .syncWithLoop)
  | disconnected : Pushes t s (.net .disconnect) (.net (.updateConnectionState .disconnected))
  | destroyTimer : Pushes t s (.net .destroy) (.net .cancelReconnectTimer)
  | destroyFailAll : Pushes t s (.net .destroy)
      (.call (.failAllPending .clientStopping (ascii "RPC client is stopping")))
  | destroyInLoop : Pushes t s (.net .destroy) (.loop .destroyInLoop)
  | quit : Pushes t s (.net .destroy) (.loop .quit)
  | failFastTimer {k} (hfail : ShouldFailFast s k) : Pushes t s (.net (.checkState k))
      (.loop (.cancelTimer (s.calls.call k).timerId))
  | recordFailFast {k response} (hfail : ShouldFailFast s k) :
    Pushes t s (.net (.checkState k)) (.call (.recordClientResponse response))
  | failFast {k response} (hfail : ShouldFailFast s k) :
    Pushes t s (.net (.checkState k)) (.call (.complete k response .param))
  | insertPending {k} (hfail : ¬ShouldFailFast s k) :
    Pushes t s (.net (.checkState k)) (.call (.insertPending k))
  | callConnecting {k} :
    Pushes t s (.net (.checkState k)) (.net (.updateConnectionState .connecting))
  | callStart {k} : Pushes t s (.net (.checkState k)) (.net .connectorStart)
  | callSend {k} : Pushes t s (.net (.checkState k)) (.net .sendPendingCalls)
  | snapshotPending : Pushes t s (.net .sendPendingCalls) (.call .snapshotPending)
  | stateChanged {state} : Pushes t s (.net (.updateConnectionState state)) (.call .userCode)
  | countReconnect {state} : Pushes t s (.net (.updateConnectionState state)) (.net .countReconnect)
  | cancelReconnect (hset : s.net.reconnectTimerId ≠ 0) : Pushes t s (.net .cancelReconnectTimer)
      (.loop (.cancelTimer s.net.reconnectTimerId))
  | armReconnect {delay} : Pushes t s (.net .scheduleReconnect) (.loop (.armReconnect delay))
  | timerReconnecting :
    Pushes t s (.net .reconnectTimer) (.net (.updateConnectionState .reconnecting))
  | timerStart : Pushes t s (.net .reconnectTimer) (.net .connectorStart)
  | startHere (hloop : isInLoopThread t = true) :
    Pushes t s (.net .connectorStart) (.net .startInLoop)
  | startThere (hloop : isInLoopThread t = false) :
    Pushes t s (.net .connectorStart) (.loop (.queueInLoop .startInLoop))
  | stopHere (hloop : isInLoopThread t = true) : Pushes t s (.net .connectorStop) (.net .stopInLoop)
  | stopThere (hloop : isInLoopThread t = false) :
    Pushes t s (.net .connectorStop) (.loop (.queueInLoop .stopInLoop))
  | closeHere {n} (hloop : isInLoopThread t = true) (hconnection : s.net.connection = some n) :
    Pushes t s (.net .stopConnection) (.net (.forceCloseInLoop n))
  | closeThere {n} (hloop : isInLoopThread t = false) (hconnection : s.net.connection = some n) :
    Pushes t s (.net .stopConnection) (.loop (.queueInLoop (.forceCloseInLoop n)))
  | noSocket {error} : Pushes t s (.net .startInLoop) (.net (.onConnectionError error))
  | connectedAtOnce : Pushes t s (.net .startInLoop) (.net .connected)
  | refused {error} : Pushes t s (.net .startInLoop) (.net (.reportError error))
  | connected : Pushes t s (.net .connected) (.net .newConnection)
  | writeError {error error'} : Pushes t s (.net (.handleWrite error)) (.net (.reportError error'))
  | writable {error} : Pushes t s (.net (.handleWrite error)) (.net .newConnection)
  | connectError {error} : Pushes t s (.net (.handleError error)) (.net (.reportError error))
  | connectionError {error} :
    Pushes t s (.net (.reportError error)) (.net (.onConnectionError error))
  | connectEstablished :
    Pushes t s (.net .newConnection) (.net (.connectEstablished s.net.connectionCount))
  | established {n} : Pushes t s (.net (.connectEstablished n)) (.net (.onConnection n))
  | onConnected {n} (hstate : (s.net.connections n).state = .kConnected) :
    Pushes t s (.net (.onConnection n)) (.net (.updateConnectionState .connected))
  | connectedSend {n} : Pushes t s (.net (.onConnection n)) (.net .sendPendingCalls)
  | lostFailSent {n} (hstate : (s.net.connections n).state ≠ .kConnected) :
    Pushes t s (.net (.onConnection n))
      (.call (.failSentPending .networkError (ascii "RPC connection closed")))
  | lostReconnecting {n} (hstate : (s.net.connections n).state ≠ .kConnected) :
    Pushes t s (.net (.onConnection n)) (.net (.updateConnectionState .reconnecting))
  | lostSchedule {n} (hstate : (s.net.connections n).state ≠ .kConnected) :
    Pushes t s (.net (.onConnection n)) (.net .scheduleReconnect)
  | lostDisconnected {n} (hstate : (s.net.connections n).state ≠ .kConnected) :
    Pushes t s (.net (.onConnection n)) (.net (.updateConnectionState .disconnected))
  | lostFailAll {n} (hstate : (s.net.connections n).state ≠ .kConnected) :
    Pushes t s (.net (.onConnection n))
      (.call (.failAllPending .networkError (ascii "RPC connection closed")))
  | errorExpire {error} : Pushes t s (.net (.onConnectionError error))
      (.call (.expireRetryExhaustedPending error.message))
  | errorDisconnected {error} :
    Pushes t s (.net (.onConnectionError error)) (.net (.updateConnectionState .disconnected))
  | errorFailAll {error} : Pushes t s (.net (.onConnectionError error))
      (.call (.failAllPending .networkError error.message))
  | readMessage {n bytes eof} : Pushes t s (.net (.handleRead n bytes eof)) (.net (.onMessage n))
  | readEnd {n bytes eof} : Pushes t s (.net (.handleRead n bytes eof)) (.net (.handleClose n))
  | invalidFailAll {n} : Pushes t s (.net (.onMessage n))
      (.call (.failAllPending .protocolError (ascii "server returned an invalid RPC response")))
  | invalidStop {n} : Pushes t s (.net (.onMessage n)) (.net .connectorStop)
  | invalidClose {n} : Pushes t s (.net (.onMessage n)) (.net .stopConnection)
  | completeResponse {n response} :
    Pushes t s (.net (.onMessage n)) (.call (.completeResponse response))
  | nextMessage {n} : Pushes t s (.net (.onMessage n)) (.net (.onMessage n))
  | sendFails {n frame} : Pushes t s (.net (.sendInLoop n frame)) (.net (.handleClose n))
  | removeConnection {n} : Pushes t s (.net (.handleClose n)) (.net (.removeConnection n))
  | removeStop {n} : Pushes t s (.net (.removeConnection n)) (.net .connectorStop)
  | connectDestroyed {n} : Pushes t s (.net (.removeConnection n)) (.net (.connectDestroyed n))
  | destroyed {n} : Pushes t s (.net (.connectDestroyed n)) (.net (.onConnection n))
  | forceClose {n} : Pushes t s (.net (.forceCloseInLoop n)) (.net (.handleClose n))
  | resetStop : Pushes t s (.net .resetTcpClient) (.net .connectorStop)
  | dropConnection : Pushes t s (.net .resetTcpClient) (.net .dropConnection)
  | eventWritable {error} (hstate : s.net.connector.state = .kConnecting) :
    Pushes t s (.loop .loop) (.net (.handleWrite error))
  | eventError {error} (hstate : s.net.connector.state = .kConnecting) :
    Pushes t s (.loop .loop) (.net (.handleError error))
  | eventReadable {n bytes eof} (hstate : (s.net.connections n).state = .kConnected) :
    Pushes t s (.loop .loop) (.net (.handleRead n bytes eof))
  | eventClosed {n} (hstate : (s.net.connections n).state = .kConnected) :
    Pushes t s (.loop .loop) (.net (.handleClose n))
  | doPendingFunctors : Pushes t s (.loop .loop) (.loop .doPendingFunctors)
  | loop : Pushes t s (.loop .loop) (.loop .loop)
  | runStart (hmem : Functor.startInLoop ∈ s.loop.pendingFunctors) :
    Pushes t s (.loop .doPendingFunctors) (.net .startInLoop)
  | runStop (hmem : Functor.stopInLoop ∈ s.loop.pendingFunctors) :
    Pushes t s (.loop .doPendingFunctors) (.net .stopInLoop)
  | runForceClose {n} (hmem : Functor.forceCloseInLoop n ∈ s.loop.pendingFunctors) :
    Pushes t s (.loop .doPendingFunctors) (.net (.forceCloseInLoop n))
  | runSend {n frame} (hmem : Functor.sendInLoop n frame ∈ s.loop.pendingFunctors) :
    Pushes t s (.loop .doPendingFunctors) (.net (.sendInLoop n frame))
  | runDeadline {requestId} (hmem : Functor.onDeadline requestId ∈ s.loop.pendingFunctors) :
    Pushes t s (.loop .doPendingFunctors)
      (.call (.failPending requestId .timeout (ascii "RPC call timed out")))
  | runReconnect (hmem : Functor.reconnectTimer ∈ s.loop.pendingFunctors) :
    Pushes t s (.loop .doPendingFunctors) (.net .reconnectTimer)
  | runMarker {m} (hmem : Functor.setMarker m ∈ s.loop.pendingFunctors) :
    Pushes t s (.loop .doPendingFunctors) (.loop (.setMarker m))
  | runDestroyStop {m} (hmem : Functor.destroyTcpClient m ∈ s.loop.pendingFunctors) :
    Pushes t s (.loop .doPendingFunctors) (.net .connectorStop)
  | runDestroyClose {m} (hmem : Functor.destroyTcpClient m ∈ s.loop.pendingFunctors) :
    Pushes t s (.loop .doPendingFunctors) (.net .stopConnection)
  | runDestroyReset {m} (hmem : Functor.destroyTcpClient m ∈ s.loop.pendingFunctors) :
    Pushes t s (.loop .doPendingFunctors) (.net .resetTcpClient)
  | runDestroyMarker {m} (hmem : Functor.destroyTcpClient m ∈ s.loop.pendingFunctors) :
    Pushes t s (.loop .doPendingFunctors) (.loop (.setMarker m))
  | syncMarker {m} : Pushes t s (.loop .syncWithLoop) (.loop (.queueInLoop (.setMarker m)))
  | syncAwait {m} : Pushes t s (.loop .syncWithLoop) (.loop (.awaitMarker m))
  | destroyClient {m} :
    Pushes t s (.loop .destroyInLoop) (.loop (.queueInLoop (.destroyTcpClient m)))
  | destroyAwait {m} : Pushes t s (.loop .destroyInLoop) (.loop (.awaitMarker m))
  | storeReconnect {delay} :
    Pushes t s (.loop (.armReconnect delay)) (.net (.storeReconnectTimer s.loop.timerCount))
  | timerService : Pushes t s (.loop .timerService) (.loop .timerService)
  | runTimer {id} (hphase : (s.loop.timers id).phase = .submitted) :
    Pushes t s (.loop .timerService) (.loop (.queueInLoop (s.loop.timers id).functor))
  | finishTimer {id} (hphase : (s.loop.timers id).phase = .submitted) :
    Pushes t s (.loop .timerService) (.loop (.finishTimer id))

section Exec

variable {t : Nat} {x : Choice} {s : State} {pushed : List Instr}

theorem completeEach_pushes {i : Instr} {ks : List Nat} {errorCode : RpcErrorCode}
    {errorMessage : ByteString} (hks : ∀ k ∈ ks, k ∈ s.calls.pendingList)
    (h : ∀ k response, k ∈ s.calls.pendingList →
      Pushes t s i (.call (.completePending k response))) :
    ∀ j ∈ s.calls.completeEach ks errorCode errorMessage, Pushes t s i j := by
  intro j hj
  obtain ⟨k, hk, rfl⟩ := List.mem_map.mp hj
  exact h k _ (hks k hk)

theorem select_subset {calls : CallTable} {p : Call → Bool} {ks : List Nat}
    (h : ks.Perm (calls.select p)) : ∀ k ∈ ks, k ∈ calls.pendingList := fun _ hk =>
  (List.mem_filter.mp (h.mem_iff.mp hk)).1

theorem call_pushes {i : CallInstr} {calls : CallTable}
    (h : i.exec t x s = some (calls, pushed)) : ∀ j ∈ pushed, Pushes t s (.call i) j := by
  cases i
  case userCode =>
    simp only [CallInstr.exec] at h
    split at h
    · rename_i operation
      cases operation <;> cases h <;>
        simp only [Operation.begin, List.cons_append, List.nil_append, List.forall_mem_cons,
          List.not_mem_nil, false_imp_iff, implies_true, and_true] <;>
        exact ⟨by constructor, .userCode⟩
    · cases h
      simp
  case invokeCallback k response route =>
    cases route
    · simp only [CallInstr.exec] at h
      split at h <;> cases h
      · simpa using .calledBack
      · simp
    · simp only [CallInstr.exec] at h
      split at h
      · obtain ⟨stored, -, heq⟩ := Option.map_eq_some_iff.mp h
        cases heq
        simpa using .calledBack
      · cases h
        simp
  case snapshotPending =>
    simp only [CallInstr.exec] at h
    (repeat' split at h) <;> cases h
    intro j hj
    obtain ⟨k, -, rfl⟩ := List.mem_map.mp hj
    exact .sendPendingCall
  case markSent k n =>
    simp only [CallInstr.exec] at h
    split at h <;> cases h
    · simpa using .send
    · simp
  case send k n =>
    cases h
    rw [runInLoop]
    split
    · rename_i hloop
      simpa [Functor.body] using .sendHere hloop
    · rename_i hloop
      simpa using .sendThere (Bool.not_eq_true _ ▸ hloop)
  case failAllPending errorCode errorMessage =>
    simp only [CallInstr.exec] at h
    (repeat' split at h) <;> cases h
    rename_i ks hperm
    exact completeEach_pushes (fun k hk => hperm.mem_iff.mp hk) fun k response hk => .failAll hk
  case failSentPending errorCode errorMessage =>
    simp only [CallInstr.exec] at h
    (repeat' split at h) <;> cases h
    rename_i ks hperm
    exact completeEach_pushes (select_subset hperm) fun k response hk => .failSent hk
  case expireRetryExhaustedPending message =>
    simp only [CallInstr.exec] at h
    (repeat' split at h) <;> cases h
    all_goals
      rename_i ks hperm _
      refine List.forall_mem_append.mpr
        ⟨completeEach_pushes (select_subset hperm) fun k response hk => .expire hk, ?_⟩
      simp only [List.forall_mem_cons, List.not_mem_nil, false_imp_iff, implies_true, and_true]
      exact ⟨by constructor, by constructor⟩
  case completePending k response =>
    cases h
    refine List.forall_mem_append.mpr ⟨?_, ?_⟩
    · rw [cancelTimerIfSet]
      split
      · simp
      · rename_i hset
        simpa using .cancelDeadline hset
    · simp only [finishCall, List.forall_mem_cons, List.not_mem_nil, false_imp_iff, implies_true,
        and_true]
      exact ⟨.recordPending, .completePending⟩
  all_goals
    simp only [CallInstr.exec] at h
    (repeat' split at h) <;> cases h <;>
      simp only [finishCall, List.forall_mem_cons, List.not_mem_nil, false_imp_iff, implies_true,
        and_true]
  all_goals constructor <;> first | assumption | constructor

theorem failFast_pushes {k : Nat} (hfail : ShouldFailFast s k) (errorCode : RpcErrorCode)
    (errorMessage : ByteString) : ∀ j ∈ failFast k (s.calls.call k) errorCode errorMessage,
      Pushes t s (.net (.checkState k)) j := by
  simp only [failFast, finishCall, List.forall_mem_cons, List.not_mem_nil, false_imp_iff,
    implies_true, and_true]
  exact ⟨.failFastTimer hfail, .recordFailFast hfail, .failFast hfail⟩

theorem runInLoop_pushes {i j j' : Instr} {functor : Functor} (hbody : functor.body = [j])
    (hqueue : j' = .loop (.queueInLoop functor))
    (hhere : isInLoopThread t = true → Pushes t s i j)
    (hthere : isInLoopThread t = false → Pushes t s i j') :
    ∀ j ∈ runInLoop t functor, Pushes t s i j := by
  rw [runInLoop]
  split
  · rename_i hloop
    rw [hbody]
    simpa using hhere hloop
  · rename_i hloop
    subst hqueue
    simpa using hthere (Bool.not_eq_true _ ▸ hloop)

theorem net_pushes {i : NetInstr} {net : Net} (h : i.exec t x s = some (net, pushed)) :
    ∀ j ∈ pushed, Pushes t s (.net i) j := by
  cases i
  case checkState k =>
    simp only [NetInstr.exec] at h
    split at h
    · rename_i hstopping
      cases h
      exact failFast_pushes (.inl hstopping) _ _
    · rename_i hstopping
      split at h
      · rename_i hconnected
        cases h
        have hfail : ¬ShouldFailFast s k := by
          rintro (hstop | ⟨hne, -⟩)
          · exact hstopping hstop
          · exact hne hconnected
        simpa using ⟨.insertPending hfail, .callSend⟩
      · rename_i hconnected
        split at h
        · rename_i hfailFast
          cases h
          exact failFast_pushes (.inr ⟨hconnected, hfailFast⟩) _ _
        · rename_i hfailFast
          have hfail : ¬ShouldFailFast s k := by
            rintro (hstop | ⟨-, hfast⟩)
            · exact hstopping hstop
            · exact hfailFast hfast
          split at h <;> cases h
          · simpa [startConnect] using
              ⟨.insertPending hfail, .callConnecting, .callStart, .callSend⟩
          · simpa using ⟨.insertPending hfail, .callSend⟩
  case connectorStart =>
    cases h
    exact runInLoop_pushes rfl rfl .startHere .startThere
  case connectorStop =>
    cases h
    exact runInLoop_pushes rfl rfl .stopHere .stopThere
  case stopConnection =>
    simp only [NetInstr.exec] at h
    split at h <;> cases h
    · simp
    · rename_i n hconnection
      exact runInLoop_pushes rfl rfl (fun hloop => .closeHere hloop hconnection)
        fun hloop => .closeThere hloop hconnection
  case updateConnectionState state =>
    cases h
    refine List.forall_mem_append.mpr ⟨?_, ?_⟩
    · split <;> simp [Pushes.stateChanged]
    · split <;> simp [Pushes.countReconnect]
  case cancelReconnectTimer =>
    cases h
    rw [cancelTimerIfSet]
    split
    · simp
    · rename_i hset
      simpa using .cancelReconnect hset
  all_goals
    simp only [NetInstr.exec] at h
    (repeat' split at h) <;> cases h <;>
      simp only [startConnect, stopClient, List.forall_mem_cons, List.forall_mem_append,
        List.not_mem_nil, false_imp_iff, implies_true, and_true]
  all_goals (repeat' apply And.intro) <;> constructor <;> assumption

theorem body_pushes {functor : Functor} (hmem : functor ∈ s.loop.pendingFunctors) :
    ∀ j ∈ functor.body, Pushes t s (.loop .doPendingFunctors) j := by
  cases functor
  case destroyTcpClient m =>
    simpa [Functor.body, stopClient] using
      ⟨.runDestroyStop hmem, .runDestroyClose hmem, .runDestroyReset hmem, .runDestroyMarker hmem⟩
  all_goals
    simp only [Functor.body, List.forall_mem_cons, List.not_mem_nil, false_imp_iff, implies_true,
      and_true]
    constructor
    exact hmem

theorem handler_pushes {event : Event} (h : event.Watched s.net) :
    Pushes t s (.loop .loop) event.handler := by
  cases event with
  | connectorWritable error => exact .eventWritable h
  | connectorError error => exact .eventError h
  | readable n bytes eof => exact .eventReadable h
  | closed n => exact .eventClosed h

theorem loop_pushes {i : LoopInstr} {loop : Loop} (h : i.exec x s = some (loop, pushed)) :
    ∀ j ∈ pushed, Pushes t s (.loop i) j := by
  cases i
  case loop =>
    simp only [LoopInstr.exec] at h
    (repeat' split at h) <;> cases h
    · simp
    · rename_i events hwatched
      refine List.forall_mem_append.mpr ⟨?_, ?_⟩
      · intro j hj
        obtain ⟨event, hevent, rfl⟩ := List.mem_map.mp hj
        exact handler_pushes (hwatched event hevent)
      · simpa using ⟨.doPendingFunctors, .loop⟩
  case doPendingFunctors =>
    cases h
    intro j hj
    obtain ⟨functor, hmem, hj⟩ := List.mem_flatMap.mp hj
    exact body_pushes hmem j hj
  case timerService =>
    simp only [LoopInstr.exec] at h
    (repeat' split at h) <;> cases h
    · simpa using .timerService
    · simpa using .timerService
    · rename_i hphase
      simpa using ⟨.runTimer hphase, .finishTimer hphase, .timerService⟩
  all_goals
    simp only [LoopInstr.exec] at h
    (repeat' split at h) <;> cases h <;>
      simp only [List.forall_mem_cons, List.not_mem_nil, false_imp_iff, implies_true, and_true]
  all_goals (repeat' apply And.intro) <;> constructor

theorem pushes_of_exec {i : Instr} {s' : State} (h : i.exec t x s = some (s', pushed)) :
    ∀ j ∈ pushed, Pushes t s i j := by
  cases i with
  | call i =>
    obtain ⟨⟨calls, pushed⟩, hexec, heq⟩ := Option.map_eq_some_iff.mp h
    cases heq
    exact call_pushes hexec
  | net i =>
    obtain ⟨⟨net, pushed⟩, hexec, heq⟩ := Option.map_eq_some_iff.mp h
    cases heq
    exact net_pushes hexec
  | loop i =>
    obtain ⟨⟨loop, pushed⟩, hexec, heq⟩ := Option.map_eq_some_iff.mp h
    cases heq
    exact loop_pushes hexec
  | armDeadline k =>
    cases h
    simpa using .checkState

end Exec

end UnixNotes.Rpc.Client
