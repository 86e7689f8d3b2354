import Mathlib.Data.Option.Basic
import UnixNotes.Rpc.CodecLaws

namespace UnixNotes.Rpc

open Reactor (Buffer)

theorem hasRequestExtension_eq_false {request : RpcRequest} :
    hasRequestExtension request = false ↔
      request.timeoutMs = 0 ∧ request.traceId = [] ∧ request.serializer = ascii "raw" ∧
        request.attempt = 0 := by
  simp [hasRequestExtension, and_assoc]

theorem hasResponseExtension_eq_false {response : RpcResponse} :
    hasResponseExtension response = false ↔
      response.traceId = [] ∧ response.serverCostUs = 0 ∧ response.serializer = ascii "raw" := by
  simp [hasResponseExtension, and_assoc]

theorem requestMetadata_of_extension {request : RpcRequest}
    (h : hasRequestExtension request = true) :
    appendUint32 (appendUint64 (appendUint16 (appendUint32
      ([] ++ prefixedBytes request.serviceName ++ prefixedBytes request.methodName)
      kMetadataExtensionMagic) kMetadataExtensionVersion) request.timeoutMs) request.attempt ++
      prefixedBytes request.traceId ++ prefixedBytes request.serializer =
      requestMetadata request := by
  simp [requestMetadata, requestExtensionBytes, extensionHeaderBytes, h, appendUint16_eq,
    appendUint32_eq, appendUint64_eq]

theorem requestMetadata_of_no_extension {request : RpcRequest}
    (h : hasRequestExtension request = false) :
    [] ++ prefixedBytes request.serviceName ++ prefixedBytes request.methodName =
      requestMetadata request := by
  simp [requestMetadata, h]

theorem responseMetadata_of_extension {response : RpcResponse}
    (h : hasResponseExtension response = true) :
    appendUint64 (appendUint16 (appendUint32
      (appendUint32 [] response.errorCode.toUInt32 ++ prefixedBytes response.errorMessage)
      kMetadataExtensionMagic) kMetadataExtensionVersion) response.serverCostUs ++
      prefixedBytes response.traceId ++ prefixedBytes response.serializer =
      responseMetadata response := by
  simp [responseMetadata, responseExtensionBytes, extensionHeaderBytes, h, appendUint16_eq,
    appendUint32_eq, appendUint64_eq]

theorem responseMetadata_of_no_extension {response : RpcResponse}
    (h : hasResponseExtension response = false) :
    appendUint32 [] response.errorCode.toUInt32 ++ prefixedBytes response.errorMessage =
      responseMetadata response := by
  simp [responseMetadata, h, appendUint32_eq]

namespace RpcCodec

theorem encodeRequest_eq_ok {request : RpcRequest} {frame : ByteString} :
    encodeRequest request = .ok frame ↔
      (requestMetadata request).length + request.payload.length ≤ kMaxMessageSize ∧
        frame = frameBytes .request request.requestId (requestMetadata request) request.payload := by
  have hlen := length_requestMetadata request
  simp only [encodeRequest, checkStringLength_bind_eq_ok, appendMetadataString_bind_eq_ok]
  cases hext : hasRequestExtension request with
  | true =>
    simp only [hext, if_true] at hlen
    simp only [if_true, appendMetadataString_bind_eq_ok, encodeFrame_eq_ok,
      requestMetadata_of_extension hext]
    simp only [kMaxMessageSize]
    constructor
    · rintro ⟨-, -, -, -, -, -, -, -, h⟩
      exact h
    · rintro ⟨h, rfl⟩
      refine ⟨?_, ?_, ?_, ?_, ?_, ?_, ?_, ?_, h, rfl⟩ <;> omega
  | false =>
    obtain ⟨-, htrace, hserializer, -⟩ := hasRequestExtension_eq_false.mp hext
    simp only [hext, Bool.false_eq_true, if_false] at hlen
    simp only [Bool.false_eq_true, if_false, encodeFrame_eq_ok,
      requestMetadata_of_no_extension hext]
    simp only [kMaxMessageSize, htrace, hserializer]
    constructor
    · rintro ⟨-, -, -, -, -, -, h⟩
      exact h
    · rintro ⟨h, rfl⟩
      refine ⟨?_, ?_, by decide, by decide, ?_, ?_, h, rfl⟩ <;> omega

theorem encodeResponse_eq_ok {response : RpcResponse} {frame : ByteString} :
    encodeResponse response = .ok frame ↔
      (responseMetadata response).length + response.payload.length ≤ kMaxMessageSize ∧
        frame =
          frameBytes .response response.requestId (responseMetadata response) response.payload := by
  have hlen := length_responseMetadata response
  simp only [encodeResponse, checkStringLength_bind_eq_ok, appendMetadataString_bind_eq_ok]
  cases hext : hasResponseExtension response with
  | true =>
    simp only [hext, if_true] at hlen
    simp only [if_true, appendMetadataString_bind_eq_ok, encodeFrame_eq_ok,
      responseMetadata_of_extension hext]
    simp only [kMaxMessageSize]
    constructor
    · rintro ⟨-, -, -, -, -, -, h⟩
      exact h
    · rintro ⟨h, rfl⟩
      refine ⟨?_, ?_, ?_, ?_, ?_, ?_, h, rfl⟩ <;> omega
  | false =>
    obtain ⟨htrace, -, hserializer⟩ := hasResponseExtension_eq_false.mp hext
    simp only [hext, Bool.false_eq_true, if_false] at hlen
    simp only [Bool.false_eq_true, if_false, encodeFrame_eq_ok,
      responseMetadata_of_no_extension hext]
    simp only [kMaxMessageSize, htrace, hserializer]
    constructor
    · rintro ⟨-, -, -, -, h⟩
      exact h
    · rintro ⟨h, rfl⟩
      refine ⟨?_, by decide, by decide, ?_, h, rfl⟩ <;> omega

theorem exists_encode_error_iff {encoded : Except LengthError ByteString} :
    (∃ error, encoded = .error error) ↔ ¬∃ frame, encoded = .ok frame := by
  cases encoded <;> simp

theorem encodeRequest_throws_iff (request : RpcRequest) :
    (∃ error, encodeRequest request = .error error) ↔
      kMaxMessageSize < (requestMetadata request).length + request.payload.length := by
  simp only [exists_encode_error_iff, encodeRequest_eq_ok, exists_and_left, exists_eq, and_true,
    Nat.not_le]

theorem encodeResponse_throws_iff (response : RpcResponse) :
    (∃ error, encodeResponse response = .error error) ↔
      kMaxMessageSize < (responseMetadata response).length + response.payload.length := by
  simp only [exists_encode_error_iff, encodeResponse_eq_ok, exists_and_left, exists_eq, and_true,
    Nat.not_le]

theorem readRequestMetadata_plain {frame : ParsedFrame} {serviceName methodName : ByteString}
    (hsize : frame.metadata.length ≤ kMaxMessageSize)
    (hmetadata : frame.metadata = prefixedBytes serviceName ++ prefixedBytes methodName) :
    readRequestMetadata frame = some { requestId := frame.requestId, serviceName, methodName } := by
  have hlen := congrArg List.length hmetadata
  simp only [List.length_append, length_prefixedBytes] at hlen
  simp only [kMaxMessageSize] at hsize
  rw [← List.append_nil (prefixedBytes methodName)] at hmetadata
  obtain ⟨hserviceLength, hservice, hafterService⟩ :=
    Remaining.prefixed (by omega) (Remaining.start hmetadata)
  obtain ⟨hmethodLength, hmethod, hafterMethod⟩ := Remaining.prefixed (by omega) hafterService
  simp only [readRequestMetadata, hserviceLength, hservice, hmethodLength, hmethod,
    Option.bind_eq_bind, Option.bind_some]
  rw [if_neg (by simpa using hafterMethod.offset_eq), Option.pure_def]

theorem readRequestMetadata_extended {frame : ParsedFrame}
    {serviceName methodName traceId serializer : ByteString} {timeoutMs : UInt64}
    {attempt : UInt32} (hsize : frame.metadata.length ≤ kMaxMessageSize)
    (hmetadata : frame.metadata =
      prefixedBytes serviceName ++ (prefixedBytes methodName ++ (extensionHeaderBytes ++
        (uint64Bytes timeoutMs ++ (uint32Bytes attempt ++ (prefixedBytes traceId ++
          prefixedBytes serializer)))))) :
    readRequestMetadata frame =
      some { requestId := frame.requestId, serviceName, methodName, timeoutMs, attempt, traceId
             serializer := serializerOrRaw serializer } := by
  have hlen := congrArg List.length hmetadata
  simp only [List.length_append, length_prefixedBytes] at hlen
  simp only [kMaxMessageSize] at hsize
  rw [← List.append_nil (prefixedBytes serializer)] at hmetadata
  obtain ⟨hserviceLength, hservice, hafterService⟩ :=
    Remaining.prefixed (by omega) (Remaining.start hmetadata)
  obtain ⟨hmethodLength, hmethod, hafterMethod⟩ := Remaining.prefixed (by omega) hafterService
  have hmore := hafterMethod.offset_ne (by simp only [List.length_append, length_uint64Bytes]; omega)
  have hheader := readExtensionHeader_eq hafterMethod
  have hafterHeader := hafterMethod.advance
  have htimeout := readMetadataUint64_eq hafterHeader
  have hafterTimeout := hafterHeader.advance
  have hattempt := readMetadataUint32_eq hafterTimeout
  have hafterAttempt := hafterTimeout.advance
  have htrace := Remaining.prefixedString (by omega) hafterAttempt
  have hafterTrace := (Remaining.prefixed (by omega) hafterAttempt).2.2
  have hserializer := Remaining.prefixedString (by omega) hafterTrace
  have hend := (Remaining.prefixed (by omega) hafterTrace).2.2.offset_eq
  simp only [length_extensionHeaderBytes, length_uint64Bytes, length_uint32Bytes] at *
  simp only [readRequestMetadata, hserviceLength, hservice, hmethodLength, hmethod,
    Option.bind_eq_bind, Option.bind_some]
  rw [if_pos hmore, hheader]
  simp only [Option.bind_some, htimeout, hattempt, htrace, hserializer, hend, guard, if_true,
    Option.pure_def]

theorem readRequestMetadata_requestMetadata (request : RpcRequest) (frame : ParsedFrame)
    (hsize : (requestMetadata request).length ≤ kMaxMessageSize)
    (hid : frame.requestId = request.requestId)
    (hmetadata : frame.metadata = requestMetadata request) :
    readRequestMetadata frame =
      some { request with payload := [], serializer := serializerOrRaw request.serializer } := by
  rw [← hmetadata] at hsize
  rw [requestMetadata] at hmetadata
  cases hext : hasRequestExtension request with
  | true =>
    rw [hext, if_pos rfl] at hmetadata
    rw [readRequestMetadata_extended hsize hmetadata, hid]
  | false =>
    obtain ⟨htimeout, htrace, hserializer, hattempt⟩ := hasRequestExtension_eq_false.mp hext
    rw [hext, if_neg Bool.false_ne_true, List.append_nil] at hmetadata
    rw [readRequestMetadata_plain hsize hmetadata, hid, htimeout, htrace, hserializer, hattempt,
      serializerOrRaw_raw]

theorem readResponseMetadata_plain {frame : ParsedFrame} {errorCode : UInt32}
    {errorMessage : ByteString} (hsize : frame.metadata.length ≤ kMaxMessageSize)
    (hmetadata : frame.metadata = uint32Bytes errorCode ++ prefixedBytes errorMessage) :
    readResponseMetadata frame =
      some { requestId := frame.requestId, errorMessage, errorCode := errorCode.toInt32 } := by
  have hlen := congrArg List.length hmetadata
  simp only [List.length_append, length_prefixedBytes] at hlen
  simp only [kMaxMessageSize] at hsize
  rw [← List.append_nil (prefixedBytes errorMessage)] at hmetadata
  have hstart := Remaining.start hmetadata
  have hcode := readMetadataUint32_eq hstart
  have hafterCode := hstart.advance
  simp only [length_uint32Bytes] at hafterCode
  obtain ⟨hmessageLength, hmessage, hafterMessage⟩ := Remaining.prefixed (by omega) hafterCode
  simp only [readResponseMetadata, hcode, hmessageLength, hmessage, Option.bind_eq_bind,
    Option.bind_some]
  rw [if_neg (by simpa using hafterMessage.offset_eq), Option.pure_def]

theorem readResponseMetadata_extended {frame : ParsedFrame} {errorCode : UInt32}
    {errorMessage traceId serializer : ByteString} {serverCostUs : UInt64}
    (hsize : frame.metadata.length ≤ kMaxMessageSize)
    (hmetadata : frame.metadata =
      uint32Bytes errorCode ++ (prefixedBytes errorMessage ++ (extensionHeaderBytes ++
        (uint64Bytes serverCostUs ++ (prefixedBytes traceId ++ prefixedBytes serializer))))) :
    readResponseMetadata frame =
      some { requestId := frame.requestId, errorMessage, serverCostUs, traceId
             errorCode := errorCode.toInt32, serializer := serializerOrRaw serializer } := by
  have hlen := congrArg List.length hmetadata
  simp only [List.length_append, length_prefixedBytes] at hlen
  simp only [kMaxMessageSize] at hsize
  rw [← List.append_nil (prefixedBytes serializer)] at hmetadata
  have hstart := Remaining.start hmetadata
  have hcode := readMetadataUint32_eq hstart
  have hafterCode := hstart.advance
  simp only [length_uint32Bytes] at hafterCode
  obtain ⟨hmessageLength, hmessage, hafterMessage⟩ := Remaining.prefixed (by omega) hafterCode
  have hmore := hafterMessage.offset_ne (by simp only [List.length_append, length_uint64Bytes]; omega)
  have hheader := readExtensionHeader_eq hafterMessage
  have hafterHeader := hafterMessage.advance
  have hcost := readMetadataUint64_eq hafterHeader
  have hafterCost := hafterHeader.advance
  have htrace := Remaining.prefixedString (by omega) hafterCost
  have hafterTrace := (Remaining.prefixed (by omega) hafterCost).2.2
  have hserializer := Remaining.prefixedString (by omega) hafterTrace
  have hend := (Remaining.prefixed (by omega) hafterTrace).2.2.offset_eq
  simp only [length_extensionHeaderBytes, length_uint64Bytes] at *
  simp only [readResponseMetadata, hcode, hmessageLength, hmessage, Option.bind_eq_bind,
    Option.bind_some]
  rw [if_pos hmore, hheader]
  simp only [Option.bind_some, hcost, htrace, hserializer, hend, guard, if_true, Option.pure_def]

theorem readResponseMetadata_responseMetadata (response : RpcResponse) (frame : ParsedFrame)
    (hsize : (responseMetadata response).length ≤ kMaxMessageSize)
    (hid : frame.requestId = response.requestId)
    (hmetadata : frame.metadata = responseMetadata response) :
    readResponseMetadata frame =
      some { response with payload := [], serializer := serializerOrRaw response.serializer } := by
  rw [← hmetadata] at hsize
  rw [responseMetadata] at hmetadata
  cases hext : hasResponseExtension response with
  | true =>
    rw [hext, if_pos rfl] at hmetadata
    rw [readResponseMetadata_extended hsize hmetadata, hid, Int32.toInt32_toUInt32]
  | false =>
    obtain ⟨htrace, hcost, hserializer⟩ := hasResponseExtension_eq_false.mp hext
    rw [hext, if_neg Bool.false_ne_true, List.append_nil] at hmetadata
    rw [readResponseMetadata_plain hsize hmetadata, hid, Int32.toInt32_toUInt32, htrace, hcost,
      hserializer, serializerOrRaw_raw]

theorem readHeader_headerBytes {data : ByteString} (h : kRpcHeaderSize ≤ data.length)
    {type : MessageType} {requestId : UInt64} {metadata body rest : ByteString}
    (hdata : data = headerBytes type requestId metadata body ++ rest) :
    readHeader data h =
      { magic := kRpcMagic
        version := kProtocolVersion
        messageType := type.toUInt16
        requestId := requestId
        metadataLength := UInt32.ofNat metadata.length
        bodyLength := UInt32.ofNat body.length } := by
  have hmagic := Remaining.start hdata
  simp only [headerBytes, List.append_assoc] at hmagic
  have hversion : Remaining data 4 _ := hmagic.advance
  have htype : Remaining data 6 _ := hversion.advance
  have hid : Remaining data 8 _ := htype.advance
  have hmetadata : Remaining data 16 _ := hid.advance
  have hbody : Remaining data 20 _ := hmetadata.advance
  rw [readHeader, readUint32_eq hmagic, readUint16_eq hversion, readUint16_eq htype,
    readUint64_eq hid, readUint32_eq hmetadata, readUint32_eq hbody]

theorem parseFrame_frameBytes {buffer : Buffer} {type : MessageType} {requestId : UInt64}
    {metadata body rest : ByteString} (frame : ParsedFrame)
    (hsize : metadata.length + body.length ≤ kMaxMessageSize)
    (hpeek : buffer.peek = frameBytes type requestId metadata body ++ rest) :
    parseFrame buffer type frame =
      (.complete,
        { requestId := requestId
          metadata := metadata
          body := body
          totalLength := (frameBytes type requestId metadata body).length }) := by
  have hlen := congrArg List.length hpeek
  simp only [Buffer.length_peek, List.length_append, length_frameBytes] at hlen
  rw [frameBytes, List.append_assoc] at hpeek
  have hmetadata : (UInt32.ofNat metadata.length).toNat = metadata.length :=
    toNat_ofNat_length (by simp only [kMaxMessageSize] at hsize; omega)
  have hbody : (UInt32.ofNat body.length).toNat = body.length :=
    toNat_ofNat_length (by simp only [kMaxMessageSize] at hsize; omega)
  have hcontent : buffer.peek.drop kRpcHeaderSize = metadata ++ (body ++ rest) := by
    rw [hpeek, ← length_headerBytes type requestId metadata body, List.drop_left, List.append_assoc]
  rw [parseFrame, dif_neg (by omega), readHeader_headerBytes _ hpeek]
  simp only [hmetadata, hbody, ne_eq, not_true_eq_false, or_self, if_false]
  rw [if_neg (by omega), if_neg (by omega), ← List.drop_drop, hcontent, List.take_left,
    List.drop_left, List.take_left, length_frameBytes]

theorem tryDecode_frameBytes {α : Type} {buffer : Buffer} {type : MessageType} {requestId : UInt64}
    {metadata body rest : ByteString} {readMessage : ParsedFrame → Option α} {decoded : α}
    (message : α) (hsize : metadata.length + body.length ≤ kMaxMessageSize)
    (hpeek : buffer.peek = frameBytes type requestId metadata body ++ rest)
    (hread : ∀ totalLength, readMessage ⟨requestId, metadata, body, totalLength⟩ = some decoded) :
    ∃ buffer', tryDecode type readMessage buffer message = (.complete, buffer', decoded) ∧
      buffer'.peek = rest := by
  have hlen := congrArg List.length hpeek
  simp only [Buffer.length_peek, List.length_append] at hlen
  have hfits : (frameBytes type requestId metadata body).length ≤ buffer.readableBytes := by omega
  obtain ⟨buffer', hretrieve, hrest⟩ := buffer.retrieve_eq_ok hfits
  refine ⟨buffer', ?_, by rw [hrest, hpeek, List.drop_left]⟩
  simp only [tryDecode, parseFrame_frameBytes {} hsize hpeek, hread, hretrieve]

theorem tryDecodeRequest_encodeRequest {request : RpcRequest} {frame rest : ByteString}
    {buffer : Buffer} (hencode : encodeRequest request = .ok frame)
    (hpeek : buffer.peek = frame ++ rest) (message : RpcRequest) :
    ∃ buffer', tryDecodeRequest buffer message =
        (.complete, buffer', { request with serializer := serializerOrRaw request.serializer }) ∧
      buffer'.peek = rest := by
  obtain ⟨hsize, rfl⟩ := encodeRequest_eq_ok.mp hencode
  apply tryDecode_frameBytes message hsize hpeek
  intro totalLength
  have hread := readRequestMetadata_requestMetadata request
    ⟨request.requestId, requestMetadata request, request.payload, totalLength⟩ (by omega) rfl rfl
  simp only [readRequest, hread, Option.map_some]

theorem tryDecodeResponse_encodeResponse {response : RpcResponse} {frame rest : ByteString}
    {buffer : Buffer} (hencode : encodeResponse response = .ok frame)
    (hpeek : buffer.peek = frame ++ rest) (message : RpcResponse) :
    ∃ buffer', tryDecodeResponse buffer message =
        (.complete, buffer', { response with serializer := serializerOrRaw response.serializer }) ∧
      buffer'.peek = rest := by
  obtain ⟨hsize, rfl⟩ := encodeResponse_eq_ok.mp hencode
  apply tryDecode_frameBytes message hsize hpeek
  intro totalLength
  have hread := readResponseMetadata_responseMetadata response
    ⟨response.requestId, responseMetadata response, response.payload, totalLength⟩ (by omega) rfl rfl
  simp only [readResponse, hread, Option.map_some]

theorem exists_tryDecodeRequest_eq {request : RpcRequest} (hserializer : request.serializer ≠ [])
    (hsize : (requestMetadata request).length + request.payload.length ≤ kMaxMessageSize) :
    ∃ buffer buffer', tryDecodeRequest buffer {} = (.complete, buffer', request) := by
  obtain ⟨buffer', hdecode, -⟩ := tryDecodeRequest_encodeRequest
    (encodeRequest_eq_ok.mpr ⟨hsize, rfl⟩)
    (show (Buffer.empty.append _).peek = _ ++ [] by rw [Buffer.peek_append, Buffer.peek_empty,
      List.nil_append, List.append_nil]) {}
  rw [serializerOrRaw_of_ne hserializer] at hdecode
  exact ⟨_, buffer', hdecode⟩

/-- An encoder throws exactly for a message over the size limit, and the bytes it otherwise
produces decode to that message, whatever follows them. -/
theorem encode_then_decode :
    (∀ request : RpcRequest,
      ((∃ error, encodeRequest request = .error error) ↔
        kMaxMessageSize < (requestMetadata request).length + request.payload.length) ∧
      ∀ frame, encodeRequest request = .ok frame → ∀ (buffer : Buffer) (rest : ByteString),
        buffer.peek = frame ++ rest → ∀ message, ∃ buffer',
          tryDecodeRequest buffer message =
              (.complete, buffer', { request with serializer := serializerOrRaw request.serializer }) ∧
            buffer'.peek = rest) ∧
    (∀ response : RpcResponse,
      ((∃ error, encodeResponse response = .error error) ↔
        kMaxMessageSize < (responseMetadata response).length + response.payload.length) ∧
      ∀ frame, encodeResponse response = .ok frame → ∀ (buffer : Buffer) (rest : ByteString),
        buffer.peek = frame ++ rest → ∀ message, ∃ buffer',
          tryDecodeResponse buffer message =
              (.complete, buffer',
                { response with serializer := serializerOrRaw response.serializer }) ∧
            buffer'.peek = rest) := by
  constructor
  · intro request
    refine ⟨encodeRequest_throws_iff request, ?_⟩
    intro frame hencode buffer rest hpeek message
    exact tryDecodeRequest_encodeRequest hencode hpeek message
  · intro response
    refine ⟨encodeResponse_throws_iff response, ?_⟩
    intro frame hencode buffer rest hpeek message
    exact tryDecodeResponse_encodeResponse hencode hpeek message

end RpcCodec

end UnixNotes.Rpc
