import UnixNotes.Library.Interleaving
import UnixNotes.Rpc.Server

namespace UnixNotes.Rpc.Server

/-- What the IO threads and the business pool share. `tasks` are the requests whose task the pool
has accepted and no worker has taken; `received` counts requests and is read by no code. -/
structure State where
  registry : ServiceRegistry := .empty
  counters : ServerCounters := {}
  tasks : List RpcRequest := []
  queueCapacity : Nat := 1
  stopping : Bool := false
  replies : List Reply := []
  received : Nat := 0

namespace State

def pool (s : State) : PoolState :=
  { onWorker := false, stopping := s.stopping, tasksFull := s.tasks.length = s.queueCapacity }

def setQueueSize (s : State) (currentQueueSize : UInt64) : State :=
  { s with counters := { s.counters with currentQueueSize := currentQueueSize } }

end State

inductive Instr where
  /-- The user of the server: it registers methods and may destroy the server. -/
  | owner
  | eventLoop
  | handleRequest (request : RpcRequest)
  | checkSerializer (request : RpcRequest)
  | findMethod (request : RpcRequest)
  | countQueued (request : RpcRequest)
  | tryPost (request : RpcRequest)
  | uncountQueued
  | countRejected
  | sendError (request : RpcRequest) (errorCode : RpcErrorCode) (errorMessage : ByteString)
  | recordResponse (response : RpcResponse)
  | recordErrorCode (response : RpcResponse)
  | sendEncoded (response : RpcResponse)
  | workerLoop
  | runTask (request : RpcRequest)
  | encodeResponse (response : RpcResponse)
  | encodeFallback (response : RpcResponse)
  | send (response : RpcResponse) (frame : ByteString)
  /-- An exception has left `onMessage` or the task. -/
  | messageThrew
  | taskThrew
  deriving DecidableEq

inductive Choice where
  | next
  | messages (requests : List RpcRequest)
  | registerMethod (serviceName methodName : ByteString) (handler : Option MethodHandler)
  | stop
  | time (micros : Int64)
  | handler (outcome : HandlerOutcome) (micros : Int64)
  | connectionAlive (alive : Bool)

/-- The first `fetch_add` of `recordResponse`. -/
def countResponse (counters : ServerCounters) (response : RpcResponse) : ServerCounters :=
  if response.errorCode = 0 then
    { counters with successResponses := counters.successResponses + 1 }
  else
    { counters with failedResponses := counters.failedResponses + 1 }

/-- The `switch` of `recordResponse`. -/
def countErrorCode (counters : ServerCounters) (response : RpcResponse) : ServerCounters :=
  if response.errorCode = RpcErrorCode.timeout.toInt32 then
    { counters with timeoutResponses := counters.timeoutResponses + 1 }
  else if response.errorCode = RpcErrorCode.serviceNotFound.toInt32 then
    { counters with serviceNotFound := counters.serviceNotFound + 1 }
  else if response.errorCode = RpcErrorCode.methodNotFound.toInt32 then
    { counters with methodNotFound := counters.methodNotFound + 1 }
  else if response.errorCode = RpcErrorCode.serverError.toInt32 then
    { counters with serverErrorResponses := counters.serverErrorResponses + 1 }
  else
    counters

def Instr.exec (i : Instr) (x : Choice) (s : State) : Option (State × List Instr) :=
  match i with
  | .owner =>
    match x with
    | .registerMethod serviceName methodName handler =>
      some ({ s with registry := (s.registry.registerMethod serviceName methodName handler).2 },
        [.owner])
    | .stop => some ({ s with stopping := true }, [])
    | _ => none
  | .eventLoop =>
    match x with
    | .messages requests => some (s, requests.map .handleRequest ++ [.eventLoop])
    | _ => none
  | .handleRequest request =>
    some ({ s with
      counters := { s.counters with totalRequests := s.counters.totalRequests + 1 }
      received := s.received + 1 }, [.checkSerializer request])
  | .checkSerializer request =>
    if unsupportedSerializer request then
      some (s, [.sendError request .deserializationError
        (ascii "unsupported request serializer: " ++ request.serializer)])
    else
      some (s, [.findMethod request])
  | .findMethod request =>
    match s.registry.findMethod request.serviceName request.methodName with
    | .serviceNotFound =>
      some (s, [.sendError request .serviceNotFound
        (ascii "service not found: " ++ request.serviceName)])
    | .methodNotFound =>
      some (s, [.sendError request .methodNotFound
        (ascii "method not found: " ++ request.serviceName ++ ascii "." ++ request.methodName)])
    | .found _ => some (s, [.countQueued request])
  | .countQueued request =>
    some (s.setQueueSize (s.counters.currentQueueSize + 1), [.tryPost request])
  | .tryPost request =>
    if s.pool.tryPost = .accepted then
      some ({ s with tasks := s.tasks ++ [request] }, [])
    else
      some (s, [.uncountQueued, .countRejected,
        .sendError request.movedFrom .serverError (ascii "server business queue is full")])
  | .uncountQueued => some (s.setQueueSize (s.counters.currentQueueSize - 1), [])
  | .countRejected =>
    some ({ s with
      counters := { s.counters with queueRejected := s.counters.queueRejected + 1 } }, [])
  | .sendError request errorCode errorMessage =>
    match x with
    | .time micros =>
      let response := errorReply request errorCode errorMessage micros
      some (s, [.recordResponse response, .sendEncoded response])
    | _ => none
  | .recordResponse response =>
    some ({ s with counters := countResponse s.counters response },
      if response.errorCode = 0 then [] else [.recordErrorCode response])
  | .recordErrorCode response =>
    some ({ s with counters := countErrorCode s.counters response }, [])
  | .sendEncoded response =>
    match RpcCodec.encodeResponse response with
    | .ok frame => some ({ s with replies := s.replies ++ [⟨response, frame, true⟩] }, [])
    | .error _ => some (s, [.messageThrew])
  | .workerLoop =>
    match s.tasks with
    | request :: tasks => some ({ s with tasks := tasks }, [.runTask request, .workerLoop])
    | [] => if s.stopping then some (s, []) else none
  | .runTask request =>
    match x with
    | .handler outcome micros =>
      let task : BusinessTask := { handler := fun _ _ => outcome, request := request }
      some (s, [.uncountQueued, .encodeResponse (task.finishResponse micros)])
    | _ => none
  | .encodeResponse response =>
    match RpcCodec.encodeResponse response, x with
    | .ok frame, _ => some (s, [.recordResponse response, .send response frame])
    | .error error, .time micros =>
      some (s, [.encodeFallback (BusinessTask.encodeFallback response error micros)])
    | .error _, _ => none
  | .encodeFallback response =>
    match RpcCodec.encodeResponse response with
    | .ok frame => some (s, [.recordResponse response, .send response frame])
    | .error _ => some (s, [.taskThrew])
  | .send response frame =>
    match x with
    | .connectionAlive alive =>
      some ({ s with replies := s.replies ++ [⟨response, frame, alive⟩] }, [])
    | _ => none
  | .messageThrew | .taskThrew => none

def server : Library.Machine State Instr Choice := ⟨fun _ => Instr.exec⟩

abbrev ServerConfig := Library.Config State Instr

def init (queueCapacity ioThreads workers : Nat) : ServerConfig where
  shared := { queueCapacity := queueCapacity }
  threads := [.owner] :: (List.replicate ioThreads [.eventLoop] ++
    List.replicate workers [.workerLoop])

theorem mem_init_stack {queueCapacity ioThreads workers t : Nat} {i : Instr}
    (h : (init queueCapacity ioThreads workers).Active t i) :
    i = .owner ∨ i = .eventLoop ∨ i = .workerLoop := by
  obtain ⟨stack, hmem, hi⟩ := Library.Config.mem_threads h
  simp only [init, List.mem_cons, List.mem_append] at hmem
  obtain rfl | hmem | hmem := hmem
  · exact .inl (List.mem_singleton.mp hi)
  · rw [List.eq_of_mem_replicate hmem] at hi
    exact .inr (.inl (List.mem_singleton.mp hi))
  · rw [List.eq_of_mem_replicate hmem] at hi
    exact .inr (.inr (List.mem_singleton.mp hi))

end UnixNotes.Rpc.Server
