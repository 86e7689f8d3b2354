import Mathlib.Data.List.AList
import UnixNotes.Rpc.RoundTrip

namespace UnixNotes.Rpc

/-! ### Handlers and their registry -/

inductive HandlerExit where
  | returned
  | threwException (what : ByteString)
  | threwOther
  deriving DecidableEq, Repr

/-- What a handler has made of its response when it returns or throws. -/
structure HandlerOutcome where
  response : RpcResponse
  exit : HandlerExit
  deriving DecidableEq, Repr

abbrev MethodHandler := RpcRequest → RpcResponse → HandlerOutcome

abbrev MethodMap := AList fun _ : ByteString => MethodHandler

structure ServiceRegistry where
  services : AList fun _ : ByteString => MethodMap

inductive LookupResult where
  | serviceNotFound
  | methodNotFound
  | found (handler : MethodHandler)

namespace ServiceRegistry

def empty : ServiceRegistry := ⟨∅⟩

/-- The handler is `none` for an empty `std::function`. -/
def registerMethod (registry : ServiceRegistry) (serviceName methodName : ByteString)
    (handler : Option MethodHandler) : Bool × ServiceRegistry :=
  match handler with
  | none => (false, registry)
  | some handler =>
    if serviceName = [] ∨ methodName = [] then
      (false, registry)
    else
      let methods := (registry.services.lookup serviceName).getD ∅
      if methodName ∈ methods then
        (false, ⟨registry.services.insert serviceName methods⟩)
      else
        (true, ⟨registry.services.insert serviceName (methods.insert methodName handler)⟩)

def findMethod (registry : ServiceRegistry) (serviceName methodName : ByteString) : LookupResult :=
  match registry.services.lookup serviceName with
  | none => .serviceNotFound
  | some methods =>
    match methods.lookup methodName with
    | none => .methodNotFound
    | some handler => .found handler

end ServiceRegistry

/-! ### The business pool as `handleRequest` sees it -/

inductive SubmitResult where
  | accepted | queueFull | timeout | poolStopping
  deriving DecidableEq, Repr

structure PoolState where
  /-- `tls_local != nullptr`: the calling thread is one of the pool's workers. -/
  onWorker : Bool
  stopping : Bool
  tasksFull : Bool

def PoolState.tryPost (pool : PoolState) : SubmitResult :=
  if pool.onWorker then .accepted
  else if pool.stopping then .poolStopping
  else if pool.tasksFull then .queueFull
  else .accepted

/-! ### The server -/

structure ServerCounters where
  totalRequests : UInt64 := 0
  successResponses : UInt64 := 0
  failedResponses : UInt64 := 0
  timeoutResponses : UInt64 := 0
  serviceNotFound : UInt64 := 0
  methodNotFound : UInt64 := 0
  serverErrorResponses : UInt64 := 0
  queueRejected : UInt64 := 0
  currentQueueSize : UInt64 := 0
  deriving DecidableEq, Repr

/-- A response with its frame, handed to the connection unless that is gone by then. -/
structure Reply where
  response : RpcResponse
  frame : ByteString
  sent : Bool
  deriving DecidableEq, Repr

/-- What a piece of the server's code leaves: `escaped` is the exception that left it. -/
structure Served where
  counters : ServerCounters
  replies : List Reply := []
  escaped : Option LengthError := none
  deriving DecidableEq, Repr

/-- `micros` is the time since `startTime` that the clock shows. -/
def elapsedMicros (micros : Int64) : UInt64 := if micros ≤ 0 then 1 else micros.toUInt64

def recordResponse (counters : ServerCounters) (response : RpcResponse) : ServerCounters :=
  if response.errorCode = 0 then
    { counters with successResponses := counters.successResponses + 1 }
  else
    let counters := { counters with failedResponses := counters.failedResponses + 1 }
    if response.errorCode = RpcErrorCode.timeout.toInt32 then
      { counters with timeoutResponses := counters.timeoutResponses + 1 }
    else if response.errorCode = RpcErrorCode.serviceNotFound.toInt32 then
      { counters with serviceNotFound := counters.serviceNotFound + 1 }
    else if response.errorCode = RpcErrorCode.methodNotFound.toInt32 then
      { counters with methodNotFound := counters.methodNotFound + 1 }
    else if response.errorCode = RpcErrorCode.serverError.toInt32 then
      { counters with serverErrorResponses := counters.serverErrorResponses + 1 }
    else
      counters

def errorReply (request : RpcRequest) (errorCode : RpcErrorCode) (errorMessage : ByteString)
    (micros : Int64) : RpcResponse :=
  { requestId := request.requestId
    errorCode := errorCode.toInt32
    errorMessage := errorMessage
    traceId := request.traceId
    serializer := serializerOrRaw request.serializer
    serverCostUs := elapsedMicros micros }

def sendError (counters : ServerCounters) (request : RpcRequest) (errorCode : RpcErrorCode)
    (errorMessage : ByteString) (micros : Int64) : Served :=
  let response := errorReply request errorCode errorMessage micros
  let counters := recordResponse counters response
  match RpcCodec.encodeResponse response with
  | .ok frame => { counters, replies := [⟨response, frame, true⟩] }
  | .error error => { counters, escaped := some error }

structure BusinessTask where
  handler : MethodHandler
  request : RpcRequest

/-- What the task finds when it runs: the clock at its two readings, and its connection. -/
structure TaskRun where
  micros : Int64
  retryMicros : Int64
  connectionAlive : Bool

def serverErrorResponse (response : RpcResponse) (errorMessage : ByteString) : RpcResponse :=
  { response with
    errorCode := RpcErrorCode.serverError.toInt32
    errorMessage := errorMessage
    payload := [] }

namespace BusinessTask

def initialResponse (task : BusinessTask) : RpcResponse :=
  { requestId := task.request.requestId
    traceId := task.request.traceId
    serializer := serializerOrRaw task.request.serializer }

/-- The `try` around the handler with its two `catch` branches. -/
def callHandler (task : BusinessTask) : RpcResponse :=
  let outcome := task.handler task.request task.initialResponse
  match outcome.exit with
  | .returned => { outcome.response with requestId := task.request.requestId }
  | .threwException what => serverErrorResponse outcome.response what
  | .threwOther => serverErrorResponse outcome.response (ascii "unknown server error")

def applyDeadline (task : BusinessTask) (response : RpcResponse) : RpcResponse :=
  if response.errorCode = 0 ∧ task.request.timeoutMs ≠ 0 ∧
      response.serverCostUs / 1000 > task.request.timeoutMs then
    { response with
      errorCode := RpcErrorCode.timeout.toInt32
      errorMessage := ascii "RPC request exceeded server deadline"
      payload := [] }
  else
    response

def finishResponse (task : BusinessTask) (micros : Int64) : RpcResponse :=
  task.applyDeadline
    { task.callHandler with
      traceId := task.request.traceId
      serializer := serializerOrRaw task.request.serializer
      serverCostUs := elapsedMicros micros }

/-- The response of the `catch` around the first `encodeResponse`. -/
def encodeFallback (response : RpcResponse) (error : LengthError) (micros : Int64) : RpcResponse :=
  { serverErrorResponse response (ascii "failed to encode RPC response: " ++ error.what) with
    serverCostUs := elapsedMicros micros }

def run (task : BusinessTask) (env : TaskRun) (counters : ServerCounters) : Served :=
  let response := task.finishResponse env.micros
  let counters := { counters with currentQueueSize := counters.currentQueueSize - 1 }
  match RpcCodec.encodeResponse response with
  | .ok frame =>
    { counters := recordResponse counters response
      replies := [⟨response, frame, env.connectionAlive⟩] }
  | .error error =>
    let response := encodeFallback response error env.retryMicros
    match RpcCodec.encodeResponse response with
    | .ok frame =>
      { counters := recordResponse counters response
        replies := [⟨response, frame, env.connectionAlive⟩] }
    | .error error => { counters, escaped := some error }

end BusinessTask

/-- A request whose strings have been moved into the task. -/
def RpcRequest.movedFrom (request : RpcRequest) : RpcRequest :=
  { request with serviceName := [], methodName := [], payload := [], traceId := [], serializer := [] }

def unsupportedSerializer (request : RpcRequest) : Bool :=
  !request.serializer.isEmpty && request.serializer != ascii "raw"

/-- The task is the one the business pool has accepted. -/
def handleRequest (registry : ServiceRegistry) (pool : PoolState) (micros : Int64)
    (counters : ServerCounters) (request : RpcRequest) : Served × Option BusinessTask :=
  let counters := { counters with totalRequests := counters.totalRequests + 1 }
  if unsupportedSerializer request then
    (sendError counters request .deserializationError
      (ascii "unsupported request serializer: " ++ request.serializer) micros, none)
  else
    match registry.findMethod request.serviceName request.methodName with
    | .serviceNotFound =>
      (sendError counters request .serviceNotFound
        (ascii "service not found: " ++ request.serviceName) micros, none)
    | .methodNotFound =>
      (sendError counters request .methodNotFound
        (ascii "method not found: " ++ request.serviceName ++ ascii "." ++ request.methodName)
        micros, none)
    | .found handler =>
      let task : BusinessTask := { handler, request }
      let counters := { counters with currentQueueSize := counters.currentQueueSize + 1 }
      -- `try_post` gets the task by value, so the request is moved whatever it answers.
      if pool.tryPost = .accepted then
        ({ counters }, some task)
      else
        let counters :=
          { counters with
            currentQueueSize := counters.currentQueueSize - 1
            queueRejected := counters.queueRejected + 1 }
        (sendError counters request.movedFrom .serverError
          (ascii "server business queue is full") micros, none)

/-- A request from its arrival to the end of the task it has posted, if any. -/
def serveRequest (registry : ServiceRegistry) (pool : PoolState) (micros : Int64) (env : TaskRun)
    (counters : ServerCounters) (request : RpcRequest) : Served :=
  match handleRequest registry pool micros counters request with
  | (served, none) => served
  | (served, some task) =>
    let ran := task.run env served.counters
    { ran with replies := served.replies ++ ran.replies }

end UnixNotes.Rpc
