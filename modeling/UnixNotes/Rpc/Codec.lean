import UnixNotes.Reactor.Buffer
import UnixNotes.Rpc.Protocol

namespace UnixNotes.Rpc

open Reactor (Buffer)

def kMetadataExtensionMagic : UInt32 := 0x4d455441
def kMetadataExtensionVersion : UInt16 := 1

/-- `std::length_error` with its `what()`. -/
structure LengthError where
  what : ByteString
  deriving DecidableEq, Repr

inductive DecodeStatus where
  | complete | needMoreData | protocolError
  deriving DecidableEq, Repr

def appendUint16 (output : ByteString) (value : UInt16) : ByteString :=
  output ++ [(value >>> 8).toUInt8, value.toUInt8]

def appendUint32 (output : ByteString) (value : UInt32) : ByteString :=
  output ++ [(value >>> 24).toUInt8, (value >>> 16).toUInt8, (value >>> 8).toUInt8, value.toUInt8]

def appendUint64 (output : ByteString) (value : UInt64) : ByteString :=
  appendUint32 (appendUint32 output (value >>> 32).toUInt32) value.toUInt32

def checkStringLength (length : Nat) (field : String) : Except LengthError Unit :=
  if length > 0xffffffff then .error ⟨ascii field ++ ascii " is too long"⟩ else .ok ()

def appendMetadataString (output value : ByteString) (field : String) :
    Except LengthError ByteString := do
  checkStringLength value.length field
  return appendUint32 output (UInt32.ofNat value.length) ++ value

/-- The readers take a proof that the bytes they read lie inside `data`. -/
def readUint16 (data : ByteString) (offset : Nat) (h : offset + 2 ≤ data.length) : UInt16 :=
  (data[offset].toUInt16 <<< 8) ||| data[offset + 1].toUInt16

def readUint32 (data : ByteString) (offset : Nat) (h : offset + 4 ≤ data.length) : UInt32 :=
  (data[offset].toUInt32 <<< 24) ||| (data[offset + 1].toUInt32 <<< 16) |||
    (data[offset + 2].toUInt32 <<< 8) ||| data[offset + 3].toUInt32

def readUint64 (data : ByteString) (offset : Nat) (h : offset + 8 ≤ data.length) : UInt64 :=
  ((readUint32 data offset (by omega)).toUInt64 <<< 32) |||
    (readUint32 data (offset + 4) (by omega)).toUInt64

def encodeFrame (type : MessageType) (requestId : UInt64) (metadata body : ByteString) :
    Except LengthError ByteString := do
  checkStringLength metadata.length "metadata"
  checkStringLength body.length "body"
  if metadata.length > kMaxMessageSize ∨ body.length > kMaxMessageSize - metadata.length then
    throw ⟨ascii "RPC message exceeds the size limit"⟩
  let frame := appendUint32 [] kRpcMagic
  let frame := appendUint16 frame kProtocolVersion
  let frame := appendUint16 frame type.toUInt16
  let frame := appendUint64 frame requestId
  let frame := appendUint32 frame (UInt32.ofNat metadata.length)
  let frame := appendUint32 frame (UInt32.ofNat body.length)
  return frame ++ metadata ++ body

structure ParsedFrame where
  requestId : UInt64 := 0
  metadata : ByteString := []
  body : ByteString := []
  totalLength : Nat := 0

def readHeader (data : ByteString) (h : kRpcHeaderSize ≤ data.length) : RpcHeader :=
  have header : 24 ≤ data.length := by rwa [kRpcHeaderSize] at h
  { magic := readUint32 data 0 (by omega)
    version := readUint16 data 4 (by omega)
    messageType := readUint16 data 6 (by omega)
    requestId := readUint64 data 8 (by omega)
    metadataLength := readUint32 data 16 (by omega)
    bodyLength := readUint32 data 20 (by omega) }

def parseFrame (buffer : Buffer) (expectedType : MessageType) (frame : ParsedFrame) :
    DecodeStatus × ParsedFrame :=
  if h : buffer.readableBytes < kRpcHeaderSize then
    (.needMoreData, frame)
  else
    let header := readHeader buffer.peek (by rw [Buffer.length_peek]; omega)
    let metadataLength := header.metadataLength.toNat
    let bodyLength := header.bodyLength.toNat
    if header.magic ≠ kRpcMagic ∨ header.version ≠ kProtocolVersion ∨
        header.messageType ≠ expectedType.toUInt16 then
      (.protocolError, frame)
    else if metadataLength > kMaxMessageSize ∨ bodyLength > kMaxMessageSize - metadataLength then
      (.protocolError, frame)
    else
      let contentLength := metadataLength + bodyLength
      let totalLength := kRpcHeaderSize + contentLength
      if buffer.readableBytes < totalLength then
        (.needMoreData, frame)
      else
        (.complete,
          { requestId := header.requestId
            metadata := (buffer.peek.drop kRpcHeaderSize).take metadataLength
            body := (buffer.peek.drop (kRpcHeaderSize + metadataLength)).take bodyLength
            totalLength := totalLength })

/-- The metadata readers answer the value with the advanced offset, or `none` for `false`. -/
def readMetadataUint32 (metadata : ByteString) (offset : Nat) : Option (UInt32 × Nat) :=
  if h : offset > metadata.length ∨ metadata.length - offset < 4 then none
  else some (readUint32 metadata offset (by omega), offset + 4)

def readMetadataUint16 (metadata : ByteString) (offset : Nat) : Option (UInt16 × Nat) :=
  if h : offset > metadata.length ∨ metadata.length - offset < 2 then none
  else some (readUint16 metadata offset (by omega), offset + 2)

def readMetadataUint64 (metadata : ByteString) (offset : Nat) : Option (UInt64 × Nat) :=
  if h : offset > metadata.length ∨ metadata.length - offset < 8 then none
  else some (readUint64 metadata offset (by omega), offset + 8)

def readMetadataString (metadata : ByteString) (offset : Nat) (length : UInt32) :
    Option (ByteString × Nat) :=
  if offset > metadata.length ∨ length.toNat > metadata.length - offset then none
  else some ((metadata.drop offset).take length.toNat, offset + length.toNat)

def readLengthPrefixedString (metadata : ByteString) (offset : Nat) :
    Option (ByteString × Nat) := do
  let (length, offset) ← readMetadataUint32 metadata offset
  readMetadataString metadata offset length

def hasRequestExtension (request : RpcRequest) : Bool :=
  request.timeoutMs != 0 || !request.traceId.isEmpty || request.serializer != ascii "raw" ||
    request.attempt != 0

def hasResponseExtension (response : RpcResponse) : Bool :=
  !response.traceId.isEmpty || response.serverCostUs != 0 || response.serializer != ascii "raw"

def readExtensionHeader (metadata : ByteString) (offset : Nat) : Option Nat := do
  let (magic, offset) ← readMetadataUint32 metadata offset
  let (version, offset) ← readMetadataUint16 metadata offset
  guard (magic = kMetadataExtensionMagic ∧ version = kMetadataExtensionVersion)
  return offset

namespace RpcCodec

def encodeRequest (request : RpcRequest) : Except LengthError ByteString := do
  checkStringLength request.serviceName.length "service name"
  checkStringLength request.methodName.length "method name"
  checkStringLength request.traceId.length "trace id"
  checkStringLength request.serializer.length "serializer"
  let mut metadata ← appendMetadataString [] request.serviceName "service name"
  metadata ← appendMetadataString metadata request.methodName "method name"
  if hasRequestExtension request then
    metadata := appendUint32 metadata kMetadataExtensionMagic
    metadata := appendUint16 metadata kMetadataExtensionVersion
    metadata := appendUint64 metadata request.timeoutMs
    metadata := appendUint32 metadata request.attempt
    metadata ← appendMetadataString metadata request.traceId "trace id"
    metadata ← appendMetadataString metadata request.serializer "serializer"
  encodeFrame .request request.requestId metadata request.payload

def encodeResponse (response : RpcResponse) : Except LengthError ByteString := do
  checkStringLength response.errorMessage.length "error message"
  checkStringLength response.traceId.length "trace id"
  checkStringLength response.serializer.length "serializer"
  let mut metadata := appendUint32 [] response.errorCode.toUInt32
  metadata ← appendMetadataString metadata response.errorMessage "error message"
  if hasResponseExtension response then
    metadata := appendUint32 metadata kMetadataExtensionMagic
    metadata := appendUint16 metadata kMetadataExtensionVersion
    metadata := appendUint64 metadata response.serverCostUs
    metadata ← appendMetadataString metadata response.traceId "trace id"
    metadata ← appendMetadataString metadata response.serializer "serializer"
  encodeFrame .response response.requestId metadata response.payload

def readRequestMetadata (frame : ParsedFrame) : Option RpcRequest := do
  let decoded : RpcRequest := { requestId := frame.requestId }
  let (serviceLength, offset) ← readMetadataUint32 frame.metadata 0
  let (serviceName, offset) ← readMetadataString frame.metadata offset serviceLength
  let (methodLength, offset) ← readMetadataUint32 frame.metadata offset
  let (methodName, offset) ← readMetadataString frame.metadata offset methodLength
  let decoded := { decoded with serviceName, methodName }
  if offset ≠ frame.metadata.length then
    let offset ← readExtensionHeader frame.metadata offset
    let (timeoutMs, offset) ← readMetadataUint64 frame.metadata offset
    let (attempt, offset) ← readMetadataUint32 frame.metadata offset
    let (traceId, offset) ← readLengthPrefixedString frame.metadata offset
    let (serializer, offset) ← readLengthPrefixedString frame.metadata offset
    guard (offset = frame.metadata.length)
    return { decoded with timeoutMs, attempt, traceId, serializer := serializerOrRaw serializer }
  return decoded

def readResponseMetadata (frame : ParsedFrame) : Option RpcResponse := do
  let decoded : RpcResponse := { requestId := frame.requestId }
  let (errorCode, offset) ← readMetadataUint32 frame.metadata 0
  let (errorMessageLength, offset) ← readMetadataUint32 frame.metadata offset
  let (errorMessage, offset) ← readMetadataString frame.metadata offset errorMessageLength
  let decoded := { decoded with errorMessage, errorCode := errorCode.toInt32 }
  if offset ≠ frame.metadata.length then
    let offset ← readExtensionHeader frame.metadata offset
    let (serverCostUs, offset) ← readMetadataUint64 frame.metadata offset
    let (traceId, offset) ← readLengthPrefixedString frame.metadata offset
    let (serializer, offset) ← readLengthPrefixedString frame.metadata offset
    guard (offset = frame.metadata.length)
    return { decoded with serverCostUs, traceId, serializer := serializerOrRaw serializer }
  return decoded

/-- The frame of `tryDecodeRequest` and `tryDecodeResponse`: the buffer and the caller's message
change only when the whole frame is accepted. -/
def tryDecode (expectedType : MessageType) (readMessage : ParsedFrame → Option α)
    (buffer : Buffer) (message : α) : DecodeStatus × Buffer × α :=
  match parseFrame buffer expectedType {} with
  | (.complete, frame) =>
    match readMessage frame, buffer.retrieve frame.totalLength with
    | some decoded, .ok buffer => (.complete, buffer, decoded)
    | _, _ => (.protocolError, buffer, message)
  | (status, _) => (status, buffer, message)

def readRequest (frame : ParsedFrame) : Option RpcRequest :=
  (readRequestMetadata frame).map fun decoded => { decoded with payload := frame.body }

def readResponse (frame : ParsedFrame) : Option RpcResponse :=
  (readResponseMetadata frame).map fun decoded => { decoded with payload := frame.body }

def tryDecodeRequest : Buffer → RpcRequest → DecodeStatus × Buffer × RpcRequest :=
  tryDecode .request readRequest

def tryDecodeResponse : Buffer → RpcResponse → DecodeStatus × Buffer × RpcResponse :=
  tryDecode .response readResponse

end RpcCodec

end UnixNotes.Rpc
