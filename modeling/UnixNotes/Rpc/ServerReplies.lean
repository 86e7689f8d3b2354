import UnixNotes.Rpc.Server

namespace UnixNotes.Rpc

theorem elapsedMicros_ne_zero (micros : Int64) : elapsedMicros micros ≠ 0 := by
  rw [elapsedMicros]
  split
  · decide
  · rename_i h
    intro hzero
    apply h
    have : micros = 0 := by
      have := congrArg UInt64.toInt64 hzero
      simpa using this
    rw [this]
    decide

section Encode

variable {α : Type}

theorem checkStringLength_bind (length : Nat) (field : String)
    (next : Unit → Except LengthError α) :
    (checkStringLength length field >>= next) =
      if length > 0xffffffff then .error ⟨ascii field ++ ascii " is too long"⟩ else next () := by
  rw [checkStringLength]
  split <;> rfl

theorem appendMetadataString_bind (output value : ByteString) (field : String)
    (next : ByteString → Except LengthError α) :
    (appendMetadataString output value field >>= next) =
      if value.length > 0xffffffff then .error ⟨ascii field ++ ascii " is too long"⟩
      else next (output ++ prefixedBytes value) := by
  rw [appendMetadataString, bind_assoc, checkStringLength_bind]
  simp only [pure_bind, appendUint32_eq, prefixedBytes, List.append_assoc]

end Encode

/-- The length of the text `encodeFrame` throws. -/
def frameRefusalLength (metadataLength bodyLength : Nat) : Nat :=
  if metadataLength > 0xffffffff then (ascii "metadata is too long").length
  else if bodyLength > 0xffffffff then (ascii "body is too long").length
  else (ascii "RPC message exceeds the size limit").length

theorem encodeFrame_eq_error {type : MessageType} {requestId : UInt64} {metadata body : ByteString}
    {error : LengthError} (h : encodeFrame type requestId metadata body = .error error) :
    error.what.length = frameRefusalLength metadata.length body.length := by
  simp only [encodeFrame, checkStringLength_bind] at h
  rw [frameRefusalLength]
  split at h
  · rename_i hmetadata
    cases h
    rw [if_pos hmetadata]
    rfl
  · rename_i hmetadata
    rw [if_neg hmetadata]
    split at h
    · rename_i hbody
      cases h
      rw [if_pos hbody]
      rfl
    · rename_i hbody
      rw [if_neg hbody]
      split at h
      · cases h
        rfl
      · cases h

/-- The length of the text `encodeResponse` throws for a response whose trace id and serializer
have valid lengths. -/
def refusalLength (response : RpcResponse) : Nat :=
  if response.errorMessage.length > 0xffffffff then (ascii "error message is too long").length
  else frameRefusalLength (responseMetadata response).length response.payload.length

theorem encodeResponse_eq_error {response : RpcResponse} {error : LengthError}
    (htrace : response.traceId.length ≤ 0xffffffff)
    (hserializer : response.serializer.length ≤ 0xffffffff)
    (h : RpcCodec.encodeResponse response = .error error) :
    error.what.length = refusalLength response := by
  simp only [RpcCodec.encodeResponse, checkStringLength_bind, appendMetadataString_bind,
    if_neg (Nat.not_lt.mpr htrace), if_neg (Nat.not_lt.mpr hserializer)] at h
  rw [refusalLength]
  split at h
  · rename_i hmessage
    cases h
    rw [if_pos hmessage]
    rfl
  · rename_i hmessage
    rw [if_neg hmessage]
    cases hext : hasResponseExtension response with
    | true =>
      rw [if_pos hext, responseMetadata_of_extension hext] at h
      exact encodeFrame_eq_error h
    | false =>
      rw [if_neg (by simp [hext]), responseMetadata_of_no_extension hext] at h
      exact encodeFrame_eq_error h

def responseSize (response : RpcResponse) : Nat :=
  30 + response.errorMessage.length + response.traceId.length + response.serializer.length +
    response.payload.length

theorem hasResponseExtension_of_cost {response : RpcResponse} (h : response.serverCostUs ≠ 0) :
    hasResponseExtension response = true := by
  simp [hasResponseExtension, h]

theorem responseMetadata_of_cost {response : RpcResponse} (h : response.serverCostUs ≠ 0) :
    (responseMetadata response).length =
      30 + response.errorMessage.length + response.traceId.length +
        response.serializer.length := by
  rw [length_responseMetadata, if_pos (hasResponseExtension_of_cost h)]
  omega

theorem encodeResponse_of_cost {response : RpcResponse} (h : response.serverCostUs ≠ 0) :
    (∃ frame, RpcCodec.encodeResponse response = .ok frame) ↔
      responseSize response ≤ kMaxMessageSize := by
  simp only [RpcCodec.encodeResponse_eq_ok, exists_and_left, exists_eq, and_true,
    responseMetadata_of_cost h, responseSize]

theorem encodeResponse_error_of_cost {response : RpcResponse} (h : response.serverCostUs ≠ 0) :
    (∃ error, RpcCodec.encodeResponse response = .error error) ↔
      kMaxMessageSize < responseSize response := by
  rw [RpcCodec.encodeResponse_throws_iff, responseMetadata_of_cost h, responseSize]

/-- Exactly one reply was produced, and it carries the ids of `request`. -/
def Served.Answers (served : Served) (request : RpcRequest) : Prop :=
  ∃ reply, served.replies = [reply] ∧ reply.response.requestId = request.requestId ∧
    reply.response.traceId = request.traceId

theorem answers_single {counters : ServerCounters} {escaped : Option LengthError} {reply : Reply}
    {request : RpcRequest} :
    Served.Answers ⟨counters, [reply], escaped⟩ request ↔
      reply.response.requestId = request.requestId ∧
        reply.response.traceId = request.traceId := by
  simp [Served.Answers]

theorem not_answers_nil {counters : ServerCounters} {escaped : Option LengthError}
    {request : RpcRequest} : ¬Served.Answers ⟨counters, [], escaped⟩ request := by
  simp [Served.Answers]

section SendError

variable (counters : ServerCounters) (request : RpcRequest) (errorCode : RpcErrorCode)
  (errorMessage : ByteString) (micros : Int64)

def errorReplySize (request : RpcRequest) (errorMessage : ByteString) : Nat :=
  30 + errorMessage.length + request.traceId.length + (serializerOrRaw request.serializer).length

theorem responseSize_errorReply :
    responseSize (errorReply request errorCode errorMessage micros) =
      errorReplySize request errorMessage := rfl

theorem sendError_cases :
    (errorReplySize request errorMessage ≤ kMaxMessageSize ∧
      ∃ counters' frame, sendError counters request errorCode errorMessage micros =
        { counters := counters'
          replies := [⟨errorReply request errorCode errorMessage micros, frame, true⟩] }) ∨
    (kMaxMessageSize < errorReplySize request errorMessage ∧
      ∃ counters' error, sendError counters request errorCode errorMessage micros =
        { counters := counters', escaped := some error }) := by
  have hcost : (errorReply request errorCode errorMessage micros).serverCostUs ≠ 0 :=
    elapsedMicros_ne_zero micros
  have hok := encodeResponse_of_cost hcost
  have herror := encodeResponse_error_of_cost hcost
  rw [responseSize_errorReply] at hok herror
  rw [sendError]
  cases hencode : RpcCodec.encodeResponse (errorReply request errorCode errorMessage micros) with
  | ok frame => exact .inl ⟨hok.mp ⟨frame, hencode⟩, _, frame, rfl⟩
  | error error => exact .inr ⟨herror.mp ⟨error, hencode⟩, _, error, rfl⟩

theorem sendError_escaped_iff :
    (sendError counters request errorCode errorMessage micros).escaped = none ↔
      errorReplySize request errorMessage ≤ kMaxMessageSize := by
  obtain ⟨hsize, _, _, h⟩ | ⟨hsize, _, _, h⟩ :=
    sendError_cases counters request errorCode errorMessage micros
  · simp [h, hsize]
  · simp [h, hsize]

theorem sendError_answers_iff (asked : RpcRequest) :
    (sendError counters request errorCode errorMessage micros).Answers asked ↔
      errorReplySize request errorMessage ≤ kMaxMessageSize ∧
        request.requestId = asked.requestId ∧ request.traceId = asked.traceId := by
  obtain ⟨hsize, _, _, h⟩ | ⟨hsize, _, _, h⟩ :=
    sendError_cases counters request errorCode errorMessage micros
  · rw [h, answers_single]
    simp [hsize, errorReply]
  · rw [h]
    exact ⟨fun h => absurd h not_answers_nil, fun h => absurd h.1 (Nat.not_le.mpr hsize)⟩

end SendError

def HandlerOutcome.answerLengths (outcome : HandlerOutcome) (request : RpcRequest)
    (micros : Int64) : Nat × Nat :=
  match outcome.exit with
  | .threwException what => (what.length, 0)
  | .threwOther => ((ascii "unknown server error").length, 0)
  | .returned =>
    if outcome.response.errorCode = 0 ∧ request.timeoutMs ≠ 0 ∧
        elapsedMicros micros / 1000 > request.timeoutMs then
      ((ascii "RPC request exceeded server deadline").length, 0)
    else
      (outcome.response.errorMessage.length, outcome.response.payload.length)

/-- The answer of the handler fits into a frame, or the text about its not fitting does. -/
def AnswerFits (request : RpcRequest) (outcome : HandlerOutcome) (micros : Int64) : Prop :=
  let (messageLength, payloadLength) := outcome.answerLengths request micros
  let metadataLength :=
    30 + messageLength + request.traceId.length + (serializerOrRaw request.serializer).length
  let refusalLength :=
    if messageLength > 0xffffffff then (ascii "error message is too long").length
    else frameRefusalLength metadataLength payloadLength
  metadataLength + payloadLength ≤ kMaxMessageSize ∨
    61 + refusalLength + request.traceId.length +
      (serializerOrRaw request.serializer).length ≤ kMaxMessageSize

namespace BusinessTask

variable (task : BusinessTask) (micros : Int64)

def outcome : HandlerOutcome := task.handler task.request task.initialResponse

theorem finishResponse_traceId :
    (task.finishResponse micros).traceId = task.request.traceId := by
  rw [finishResponse, applyDeadline]
  split <;> rfl

theorem finishResponse_serializer :
    (task.finishResponse micros).serializer = serializerOrRaw task.request.serializer := by
  rw [finishResponse, applyDeadline]
  split <;> rfl

theorem finishResponse_serverCostUs :
    (task.finishResponse micros).serverCostUs = elapsedMicros micros := by
  rw [finishResponse, applyDeadline]
  split <;> rfl

theorem finishResponse_requestId :
    (task.finishResponse micros).requestId =
      if task.outcome.exit = .returned then task.request.requestId
      else task.outcome.response.requestId := by
  have hcall : task.callHandler.requestId =
      if task.outcome.exit = .returned then task.request.requestId
      else task.outcome.response.requestId := by
    rw [callHandler, outcome]
    cases h : (task.handler task.request task.initialResponse).exit <;> simp [serverErrorResponse]
  rw [finishResponse, applyDeadline, ← hcall]
  split <;> rfl

theorem finishResponse_lengths :
    ((task.finishResponse micros).errorMessage.length,
        (task.finishResponse micros).payload.length) =
      task.outcome.answerLengths task.request micros := by
  rw [finishResponse, applyDeadline, callHandler, HandlerOutcome.answerLengths, outcome]
  cases h : (task.handler task.request task.initialResponse).exit with
  | returned => simp only; split <;> rfl
  | threwException what => simp [serverErrorResponse, RpcErrorCode.toInt32]
  | threwOther => simp [serverErrorResponse, RpcErrorCode.toInt32]

theorem fallback_traceId (error : LengthError) (retryMicros : Int64) :
    (encodeFallback (task.finishResponse micros) error retryMicros).traceId =
      task.request.traceId :=
  task.finishResponse_traceId micros

theorem fallback_size {error : LengthError}
    (h : RpcCodec.encodeResponse (task.finishResponse micros) = .error error) (retryMicros : Int64)
    (htrace : task.request.traceId.length ≤ 0xffffffff)
    (hserializer : (serializerOrRaw task.request.serializer).length ≤ 0xffffffff) :
    responseSize (encodeFallback (task.finishResponse micros) error retryMicros) =
      61 + refusalLength (task.finishResponse micros) + task.request.traceId.length +
        (serializerOrRaw task.request.serializer).length := by
  have hlength := encodeResponse_eq_error (by rwa [finishResponse_traceId])
    (by rwa [finishResponse_serializer]) h
  simp only [responseSize, encodeFallback, serverErrorResponse, List.length_append, length_ascii,
    List.length_nil, hlength, finishResponse_traceId, finishResponse_serializer]
  simp
  omega

theorem fallback_fits_iff {error : LengthError}
    (h : RpcCodec.encodeResponse (task.finishResponse micros) = .error error)
    (retryMicros : Int64) :
    responseSize (encodeFallback (task.finishResponse micros) error retryMicros) ≤
        kMaxMessageSize ↔
      61 + refusalLength (task.finishResponse micros) + task.request.traceId.length +
        (serializerOrRaw task.request.serializer).length ≤ kMaxMessageSize := by
  by_cases hshort : task.request.traceId.length ≤ 0xffffffff ∧
      (serializerOrRaw task.request.serializer).length ≤ 0xffffffff
  · rw [task.fallback_size micros h retryMicros hshort.1 hshort.2]
  · have hserializer : (encodeFallback (task.finishResponse micros) error retryMicros).serializer =
        serializerOrRaw task.request.serializer := task.finishResponse_serializer micros
    simp only [responseSize, fallback_traceId, hserializer, kMaxMessageSize]
    constructor <;> intro hfits <;> exact absurd (by omega) hshort

theorem answerFits_iff :
    AnswerFits task.request task.outcome micros ↔
      responseSize (task.finishResponse micros) ≤ kMaxMessageSize ∨
        61 + refusalLength (task.finishResponse micros) + task.request.traceId.length +
          (serializerOrRaw task.request.serializer).length ≤ kMaxMessageSize := by
  have hcost : (task.finishResponse micros).serverCostUs ≠ 0 := by
    rw [finishResponse_serverCostUs]
    exact elapsedMicros_ne_zero micros
  rw [AnswerFits, ← finishResponse_lengths, refusalLength, responseMetadata_of_cost hcost,
    responseSize, finishResponse_traceId, finishResponse_serializer]

theorem run_cases (env : TaskRun) (counters : ServerCounters) :
    (AnswerFits task.request task.outcome env.micros ∧
      ∃ counters' response frame, task.run env counters =
          { counters := counters', replies := [⟨response, frame, env.connectionAlive⟩] } ∧
        response.requestId = (task.finishResponse env.micros).requestId ∧
        response.traceId = task.request.traceId) ∨
    (¬AnswerFits task.request task.outcome env.micros ∧
      ∃ counters' error, task.run env counters =
        { counters := counters', escaped := some error }) := by
  have hcost : (task.finishResponse env.micros).serverCostUs ≠ 0 := by
    rw [finishResponse_serverCostUs]
    exact elapsedMicros_ne_zero env.micros
  have hfirst := encodeResponse_of_cost hcost
  have hthrows := encodeResponse_error_of_cost hcost
  rw [answerFits_iff, run]
  cases hencode : RpcCodec.encodeResponse (task.finishResponse env.micros) with
  | ok frame =>
    exact .inl ⟨.inl (hfirst.mp ⟨frame, hencode⟩), _, _, frame, rfl, rfl,
      task.finishResponse_traceId env.micros⟩
  | error error =>
    have hexceeds := hthrows.mp ⟨error, hencode⟩
    have hretry : (encodeFallback (task.finishResponse env.micros) error
        env.retryMicros).serverCostUs ≠ 0 := elapsedMicros_ne_zero env.retryMicros
    have hsecond := encodeResponse_of_cost hretry
    have hrethrows := encodeResponse_error_of_cost hretry
    rw [task.fallback_fits_iff env.micros hencode] at hsecond
    rw [← Nat.not_le, task.fallback_fits_iff env.micros hencode] at hrethrows
    simp only
    cases hfallback : RpcCodec.encodeResponse
        (encodeFallback (task.finishResponse env.micros) error env.retryMicros) with
    | ok frame =>
      exact .inl ⟨.inr (hsecond.mp ⟨frame, hfallback⟩), _, _, frame, rfl, rfl,
        task.fallback_traceId env.micros error env.retryMicros⟩
    | error error =>
      have hboth := hrethrows.mp ⟨error, hfallback⟩
      refine .inr ⟨?_, _, error, rfl⟩
      rintro (h | h)
      · exact absurd h (Nat.not_le.mpr hexceeds)
      · exact hboth h

theorem run_escaped_iff (env : TaskRun) (counters : ServerCounters) :
    (task.run env counters).escaped = none ↔
      AnswerFits task.request task.outcome env.micros := by
  obtain ⟨hfits, _, _, _, h, -, -⟩ | ⟨hfits, _, _, h⟩ := task.run_cases env counters
  · simp [h, hfits]
  · simp [h, hfits]

theorem run_answers_iff (env : TaskRun) (counters : ServerCounters) :
    (task.run env counters).Answers task.request ↔
      AnswerFits task.request task.outcome env.micros ∧
        (task.outcome.exit ≠ .returned →
          task.outcome.response.requestId = task.request.requestId) := by
  obtain ⟨hfits, _, _, _, h, hid, htrace⟩ | ⟨hfits, _, _, h⟩ := task.run_cases env counters
  · rw [h, answers_single]
    simp only [hid, htrace, finishResponse_requestId, hfits, and_true, true_and]
    split
    · simp_all
    · simp_all
  · rw [h]
    exact ⟨fun h => absurd h not_answers_nil, fun h => absurd h.1 hfits⟩

end BusinessTask

section Serve

variable (registry : ServiceRegistry) (pool : PoolState) (micros : Int64) (env : TaskRun)
  (counters : ServerCounters) (request : RpcRequest)

/-- The text of a reply to `request`, with the strings it echoes, stays within the size limit. -/
def RepliesFit : Prop :=
  if unsupportedSerializer request then
    62 + request.traceId.length + 2 * request.serializer.length ≤ kMaxMessageSize
  else
    match registry.findMethod request.serviceName request.methodName with
    | .serviceNotFound =>
      52 + request.traceId.length + request.serviceName.length ≤ kMaxMessageSize
    | .methodNotFound =>
      52 + request.traceId.length + request.serviceName.length + request.methodName.length ≤
        kMaxMessageSize
    | .found handler =>
      pool.tryPost = .accepted →
        AnswerFits request (BusinessTask.outcome ⟨handler, request⟩) env.micros

/-- Nothing has replaced the request's ids by the time its reply is built: a handler that throws
has kept the request id, and a rejected request has no trace id to lose. -/
def KeepsIds : Prop :=
  unsupportedSerializer request = false →
    match registry.findMethod request.serviceName request.methodName with
    | .found handler =>
      if pool.tryPost = .accepted then
        (BusinessTask.outcome ⟨handler, request⟩).exit ≠ .returned →
          (BusinessTask.outcome ⟨handler, request⟩).response.requestId = request.requestId
      else
        request.traceId = []
    | _ => True

theorem serializerOrRaw_of_unsupported (h : unsupportedSerializer request = true) :
    serializerOrRaw request.serializer = request.serializer := by
  apply serializerOrRaw_of_ne
  intro hnil
  simp [unsupportedSerializer, hnil] at h

theorem serializerOrRaw_of_supported (h : unsupportedSerializer request = false) :
    serializerOrRaw request.serializer = ascii "raw" := by
  rw [serializerOrRaw]
  split
  · rfl
  · rename_i hne
    simpa [unsupportedSerializer, hne] using h

theorem serveRequest_cases :
    (∃ counters' asked errorCode errorMessage,
      serveRequest registry pool micros env counters request =
        sendError counters' asked errorCode errorMessage micros ∧
      (errorReplySize asked errorMessage ≤ kMaxMessageSize ↔
        RepliesFit registry pool env request) ∧
      asked.requestId = request.requestId ∧
      (asked.traceId = request.traceId ↔ KeepsIds registry pool request)) ∨
    (∃ counters' handler,
      serveRequest registry pool micros env counters request =
        BusinessTask.run ⟨handler, request⟩ env counters' ∧
      (AnswerFits request (BusinessTask.outcome ⟨handler, request⟩) env.micros ↔
        RepliesFit registry pool env request) ∧
      (((BusinessTask.outcome ⟨handler, request⟩).exit ≠ .returned →
          (BusinessTask.outcome ⟨handler, request⟩).response.requestId = request.requestId) ↔
        KeepsIds registry pool request)) := by
  rw [serveRequest, handleRequest, RepliesFit, KeepsIds]
  cases hser : unsupportedSerializer request with
  | true =>
    refine .inl ⟨_, request, _, _, rfl, ?_, rfl, by simp⟩
    simp only [errorReplySize, serializerOrRaw_of_unsupported request hser, List.length_append,
      length_ascii]
    simp
    omega
  | false =>
    have hraw : (serializerOrRaw request.serializer).length = 3 := by
      rw [serializerOrRaw_of_supported request hser]
      rfl
    simp only [Bool.false_eq_true, if_false, forall_const]
    cases registry.findMethod request.serviceName request.methodName with
    | serviceNotFound =>
      refine .inl ⟨_, request, _, _, rfl, ?_, rfl, by simp⟩
      simp only [errorReplySize, hraw, List.length_append, length_ascii]
      simp
      omega
    | methodNotFound =>
      refine .inl ⟨_, request, _, _, rfl, ?_, rfl, by simp⟩
      simp only [errorReplySize, hraw, List.length_append, length_ascii]
      simp
      omega
    | found handler =>
      by_cases hpost : pool.tryPost = .accepted
      · simp only [hpost, if_true, forall_const]
        exact .inr ⟨_, handler, rfl, Iff.rfl, Iff.rfl⟩
      · simp only [hpost, if_false, false_implies]
        refine .inl ⟨_, request.movedFrom, _, _, rfl, ?_, rfl, eq_comm⟩
        simp [errorReplySize, RpcRequest.movedFrom, kMaxMessageSize, serializerOrRaw]

theorem serveRequest_escaped_iff :
    (serveRequest registry pool micros env counters request).escaped = none ↔
      RepliesFit registry pool env request := by
  obtain ⟨_, _, _, _, h, hfits, -, -⟩ | ⟨_, _, h, hfits, -⟩ :=
    serveRequest_cases registry pool micros env counters request
  · rw [h, sendError_escaped_iff, hfits]
  · rw [h, BusinessTask.run_escaped_iff, hfits]

theorem escapes_of_long_serializer {serializer : ByteString} (hlength : serializer.length = 8388608) :
    (∃ buffer buffer', RpcCodec.tryDecodeRequest buffer {} =
      (.complete, buffer', { serializer := serializer })) ∧
    (serveRequest .empty ⟨false, false, false⟩ 0 ⟨0, 0, true⟩ {}
      { serializer := serializer }).escaped ≠ none := by
  have hnil : serializer ≠ [] := by
    rintro rfl
    simp at hlength
  have hraw : serializer ≠ ascii "raw" := by
    rintro rfl
    simp at hlength
  have hunsupported : unsupportedSerializer { serializer := serializer } = true := by
    simp [unsupportedSerializer, hnil, hraw]
  constructor
  · apply RpcCodec.exists_tryDecodeRequest_eq hnil
    simp [length_requestMetadata, hasRequestExtension, hlength, hraw, kMaxMessageSize]
  · rw [serveRequest, handleRequest, hunsupported]
    simp only [if_true, ne_eq, sendError_escaped_iff, errorReplySize,
      serializerOrRaw_of_unsupported _ hunsupported]
    simp [hlength, kMaxMessageSize]

/-- A client may name a serializer of 8 MiB; the text that refuses it repeats the name. -/
theorem serveRequest_escapes :
    (∃ buffer buffer', RpcCodec.tryDecodeRequest buffer {} =
      (.complete, buffer', { serializer := List.replicate (8 * 1024 * 1024) 120 })) ∧
    (serveRequest .empty ⟨false, false, false⟩ 0 ⟨0, 0, true⟩ {}
      { serializer := List.replicate (8 * 1024 * 1024) 120 }).escaped ≠ none :=
  escapes_of_long_serializer List.length_replicate

theorem serveRequest_answers_iff :
    (serveRequest registry pool micros env counters request).Answers request ↔
      RepliesFit registry pool env request ∧ KeepsIds registry pool request := by
  obtain ⟨_, _, _, _, h, hfits, hid, htrace⟩ | ⟨_, handler, h, hfits, hids⟩ :=
    serveRequest_cases registry pool micros env counters request
  · rw [h, sendError_answers_iff, hfits, htrace]
    simp [hid]
  · rw [h, ← hfits, ← hids]
    exact BusinessTask.run_answers_iff ⟨handler, request⟩ env _

end Serve

/-- A registry whose only handler changes the request id and throws. -/
def throwingRegistry : ServiceRegistry :=
  (ServiceRegistry.empty.registerMethod (ascii "echo") (ascii "say")
    (some fun _ response => ⟨{ response with requestId := 7 }, .threwOther⟩)).2

def sayRequest (traceId : ByteString) : RpcRequest :=
  { requestId := 1, serviceName := ascii "echo", methodName := ascii "say", traceId := traceId }

theorem serveRequest_loses_ids :
    ¬(serveRequest throwingRegistry ⟨false, false, false⟩ 0 ⟨0, 0, true⟩ {}
        (sayRequest [])).Answers (sayRequest []) ∧
    ¬(serveRequest throwingRegistry ⟨false, false, true⟩ 0 ⟨0, 0, true⟩ {}
        (sayRequest (ascii "t"))).Answers (sayRequest (ascii "t")) := by
  constructor
  · rintro ⟨reply, hreplies, hid, -⟩
    have hseven : (serveRequest throwingRegistry ⟨false, false, false⟩ 0 ⟨0, 0, true⟩ {}
        (sayRequest [])).replies.map (fun reply => reply.response.requestId) = [7] := by decide
    rw [hreplies, List.map_singleton, hid] at hseven
    exact absurd hseven (by decide)
  · rintro ⟨reply, hreplies, -, htrace⟩
    have hempty : (serveRequest throwingRegistry ⟨false, false, true⟩ 0 ⟨0, 0, true⟩ {}
        (sayRequest (ascii "t"))).replies.map (fun reply => reply.response.traceId) = [[]] := by
      decide
    rw [hreplies, List.map_singleton, htrace] at hempty
    exact absurd hempty (by decide)

end UnixNotes.Rpc
