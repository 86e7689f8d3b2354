import UnixNotes.Rpc.Grammar

namespace UnixNotes.Rpc

open Reactor (Buffer)

/-- The metadata end with an extension that has an empty serializer, and the encoder needs an
extension too: it writes the name out. -/
def RequestWidens (metadata : ByteString) (request : RpcRequest) : Prop :=
  hasRequestExtension request = true ∧ request.serializer = ascii "raw" ∧
    metadata = prefixedBytes request.serviceName ++ (prefixedBytes request.methodName ++
      requestExtensionBytes { request with serializer := [] })

def ResponseWidens (metadata : ByteString) (response : RpcResponse) : Prop :=
  hasResponseExtension response = true ∧ response.serializer = ascii "raw" ∧
    metadata = uint32Bytes response.errorCode.toUInt32 ++ (prefixedBytes response.errorMessage ++
      responseExtensionBytes { response with serializer := [] })

variable {requestId : UInt64} {metadata body : ByteString}

theorem RequestWidens.length_eq {request : RpcRequest} (h : RequestWidens metadata request) :
    (requestMetadata request).length = metadata.length + 3 := by
  obtain ⟨hext, hraw, rfl⟩ := h
  rw [length_requestMetadata, if_pos hext, hraw]
  simp only [requestExtensionBytes, List.length_append, length_prefixedBytes,
    length_extensionHeaderBytes, length_uint64Bytes, length_uint32Bytes, List.length_nil]
  change 8 + _ + _ + (26 + _ + 3) = _
  omega

theorem ResponseWidens.length_eq {response : RpcResponse} (h : ResponseWidens metadata response) :
    (responseMetadata response).length = metadata.length + 3 := by
  obtain ⟨hext, hraw, rfl⟩ := h
  rw [length_responseMetadata, if_pos hext, hraw]
  simp only [responseExtensionBytes, List.length_append, length_prefixedBytes,
    length_extensionHeaderBytes, length_uint64Bytes, length_uint32Bytes, List.length_nil]
  change 8 + _ + (22 + _ + 3) = _
  omega

namespace RequestGrammar

variable {request : RpcRequest} (h : RequestGrammar requestId body metadata request)
include h

theorem payload_eq : request.payload = body := by
  cases h <;> rfl

theorem serializer_ne : request.serializer ≠ [] := by
  cases h with
  | plain => exact List.cons_ne_nil _ _
  | extended => exact serializerOrRaw_ne_nil _

theorem length_le_or_widens :
    (requestMetadata request).length ≤ metadata.length ∨ RequestWidens metadata request := by
  cases hext : hasRequestExtension request with
  | false =>
    refine .inl ?_
    rw [length_requestMetadata, if_neg (by rw [hext]; decide)]
    cases h <;> simp only [List.length_append, length_prefixedBytes] <;> omega
  | true =>
    cases h with
    | plain => cases hext
    | @extended serviceName methodName traceId serializer timeoutMs attempt =>
      by_cases hserializer : serializer = []
      · subst hserializer
        exact .inr ⟨hext, rfl, rfl⟩
      · refine .inl (Nat.le_of_eq ?_)
        rw [requestMetadata, if_pos hext, serializerOrRaw_of_ne hserializer]
        rfl

end RequestGrammar

namespace ResponseGrammar

variable {response : RpcResponse} (h : ResponseGrammar requestId body metadata response)
include h

theorem payload_eq : response.payload = body := by
  cases h <;> rfl

theorem serializer_ne : response.serializer ≠ [] := by
  cases h with
  | plain => exact List.cons_ne_nil _ _
  | extended => exact serializerOrRaw_ne_nil _

theorem length_le_or_widens :
    (responseMetadata response).length ≤ metadata.length ∨ ResponseWidens metadata response := by
  cases hext : hasResponseExtension response with
  | false =>
    refine .inl ?_
    rw [length_responseMetadata, if_neg (by rw [hext]; decide)]
    cases h <;> simp only [List.length_append, length_prefixedBytes, length_uint32Bytes] <;> omega
  | true =>
    cases h with
    | plain => cases hext
    | @extended errorCode errorMessage traceId serializer serverCostUs =>
      by_cases hserializer : serializer = []
      · subst hserializer
        exact .inr ⟨hext, rfl, rfl⟩
      · refine .inl (Nat.le_of_eq ?_)
        rw [responseMetadata, if_pos hext, serializerOrRaw_of_ne hserializer]
        rfl

end ResponseGrammar

namespace RpcCodec

/-- An accepted message and its frame: the encoder throws exactly when the name of an empty
serializer does not fit below the limit any more, and what it returns decodes to the message. -/
structure Reencodes {α : Type} (type : MessageType)
    (decode : Buffer → α → DecodeStatus × Buffer × α) (encode : α → Except LengthError ByteString)
    (Widens : ByteString → α → Prop) (data : ByteString) (message : α) : Prop where
  throws : ∃ requestId metadata body rest,
    data = frameBytes type requestId metadata body ++ rest ∧
      ((∃ error, encode message = .error error) ↔
        Widens metadata message ∧ kMaxMessageSize < metadata.length + body.length + 3)
  decodes : ∀ frame, encode message = .ok frame → ∀ (buffer : Buffer) (rest : ByteString),
    buffer.peek = frame ++ rest → ∀ other, ∃ buffer',
      decode buffer other = (.complete, buffer', message) ∧ buffer'.peek = rest

theorem over_limit_iff {Widens : Prop} {written accepted content : Nat}
    (hsize : accepted + content ≤ kMaxMessageSize) (hlength : Widens → written = accepted + 3)
    (hcases : written ≤ accepted ∨ Widens) :
    kMaxMessageSize < written + content ↔ Widens ∧ kMaxMessageSize < accepted + content + 3 := by
  constructor
  · intro hlong
    cases hcases with
    | inl hle => omega
    | inr hwidens =>
      have := hlength hwidens
      exact ⟨hwidens, by omega⟩
  · rintro ⟨hwidens, hlong⟩
    have := hlength hwidens
    omega

theorem reencodes_request {buffer : Buffer} {message : RpcRequest}
    (h : (tryDecodeRequest buffer message).1 = .complete) :
    Reencodes .request tryDecodeRequest encodeRequest RequestWidens buffer.peek
      (tryDecodeRequest buffer message).2.2 := by
  have hexact := tryDecodeRequest_exact buffer message
  obtain ⟨decoded, rest, hframe⟩ := hexact.complete.mp h
  rw [(hexact.accepted decoded rest hframe).1]
  obtain ⟨requestId, metadata, body, hpeek, hsize, hgrammar⟩ := hframe
  refine ⟨⟨requestId, metadata, body, rest, hpeek, ?_⟩, fun frame hencode buffer rest hpeek other => ?_⟩
  · rw [encodeRequest_throws_iff, hgrammar.payload_eq]
    exact over_limit_iff hsize RequestWidens.length_eq hgrammar.length_le_or_widens
  · obtain ⟨buffer', hdecode, hrest⟩ := tryDecodeRequest_encodeRequest hencode hpeek other
    rw [serializerOrRaw_of_ne hgrammar.serializer_ne] at hdecode
    exact ⟨buffer', hdecode, hrest⟩

theorem reencodes_response {buffer : Buffer} {message : RpcResponse}
    (h : (tryDecodeResponse buffer message).1 = .complete) :
    Reencodes .response tryDecodeResponse encodeResponse ResponseWidens buffer.peek
      (tryDecodeResponse buffer message).2.2 := by
  have hexact := tryDecodeResponse_exact buffer message
  obtain ⟨decoded, rest, hframe⟩ := hexact.complete.mp h
  rw [(hexact.accepted decoded rest hframe).1]
  obtain ⟨requestId, metadata, body, hpeek, hsize, hgrammar⟩ := hframe
  refine ⟨⟨requestId, metadata, body, rest, hpeek, ?_⟩, fun frame hencode buffer rest hpeek other => ?_⟩
  · rw [encodeResponse_throws_iff, hgrammar.payload_eq]
    exact over_limit_iff hsize ResponseWidens.length_eq hgrammar.length_le_or_widens
  · obtain ⟨buffer', hdecode, hrest⟩ := tryDecodeResponse_encodeResponse hencode hpeek other
    rw [serializerOrRaw_of_ne hgrammar.serializer_ne] at hdecode
    exact ⟨buffer', hdecode, hrest⟩

theorem decode_then_encode :
    (∀ buffer message, (tryDecodeRequest buffer message).1 = .complete →
      Reencodes .request tryDecodeRequest encodeRequest RequestWidens buffer.peek
        (tryDecodeRequest buffer message).2.2) ∧
    (∀ buffer message, (tryDecodeResponse buffer message).1 = .complete →
      Reencodes .response tryDecodeResponse encodeResponse ResponseWidens buffer.peek
        (tryDecodeResponse buffer message).2.2) :=
  ⟨fun _ _ => reencodes_request, fun _ _ => reencodes_response⟩

/-- A request that names no serializer, which is decoded as the default one. -/
def namelessRequest : Buffer :=
  Buffer.empty.append (frameBytes .request 7
    (requestMetadata { timeoutMs := 5, traceId := ascii "t", serializer := [] }) [1])

def namelessResponse : Buffer :=
  Buffer.empty.append (frameBytes .response 7
    (responseMetadata { serverCostUs := 5, serializer := [] }) [1])

set_option maxRecDepth 10000 in
theorem decode_then_encode_nameless :
    (tryDecodeRequest namelessRequest {}).2.2.serializer = ascii "raw" ∧
    Reencodes .request tryDecodeRequest encodeRequest RequestWidens namelessRequest.peek
      (tryDecodeRequest namelessRequest {}).2.2 ∧
    Reencodes .response tryDecodeResponse encodeResponse ResponseWidens namelessResponse.peek
      (tryDecodeResponse namelessResponse {}).2.2 :=
  ⟨by decide, decode_then_encode.1 _ _ (by decide), decode_then_encode.2 _ _ (by decide)⟩

/-- A frame of 16 MiB that is accepted: a timeout of 1 ms, an empty serializer and a body of zeros. -/
theorem encode_throws_after_decode : ∃ buffer : Buffer, ∃ error,
    (tryDecodeRequest buffer {}).1 = .complete ∧
      encodeRequest (tryDecodeRequest buffer {}).2.2 = .error error := by
  let body : ByteString := List.replicate (kMaxMessageSize - 34) 0
  let request : RpcRequest := { timeoutMs := 1, payload := body }
  let metadata : ByteString := prefixedBytes [] ++ (prefixedBytes [] ++
    requestExtensionBytes { request with serializer := [] })
  let buffer : Buffer := Buffer.empty.append (frameBytes .request 0 metadata body)
  have hbody : body.length = kMaxMessageSize - 34 := List.length_replicate
  have hmetadata : metadata.length = 34 := rfl
  have hgrammar : RequestGrammar 0 body metadata request := .extended
  have hpeek : buffer.peek = frameBytes .request 0 metadata body ++ [] := by
    rw [Buffer.peek_append, Buffer.peek_empty, List.nil_append, List.append_nil]
  have hframe : FrameAt .request RequestGrammar buffer.peek request [] :=
    ⟨0, metadata, body, hpeek, by rw [hbody, hmetadata]; decide, hgrammar⟩
  obtain ⟨buffer', hdecode, -⟩ := tryDecode_of_frameAt readRequest_iff hframe {}
  have hthrows : ∃ error, encodeRequest request = .error error := by
    rw [encodeRequest_throws_iff, RequestWidens.length_eq ⟨rfl, rfl, rfl⟩, hmetadata]
    change _ < 34 + 3 + body.length
    rw [hbody]
    decide
  obtain ⟨error, hencode⟩ := hthrows
  refine ⟨buffer, error, ?_⟩
  rw [tryDecodeRequest, hdecode]
  exact ⟨rfl, hencode⟩

end RpcCodec

end UnixNotes.Rpc
