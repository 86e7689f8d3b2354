import UnixNotes.Library.Bytes

namespace UnixNotes.Rpc

def kRpcMagic : UInt32 := 0x4D525043
def kProtocolVersion : UInt16 := 1
def kRpcHeaderSize : Nat := 24
def kMaxMessageSize : Nat := 16 * 1024 * 1024

inductive MessageType where
  | request | response
  deriving DecidableEq, Repr

def MessageType.toUInt16 : MessageType → UInt16
  | .request => 1
  | .response => 2

inductive RpcErrorCode where
  | ok | networkError | protocolError | timeout | cancelled | clientStopping | queueingTimeout
  | retryExhausted | serviceNotFound | methodNotFound | serverError | serializationError
  | deserializationError
  deriving DecidableEq, Repr

def RpcErrorCode.toInt32 : RpcErrorCode → Int32
  | .ok => 0
  | .networkError => 1001
  | .protocolError => 1002
  | .timeout => 1003
  | .cancelled => 1004
  | .clientStopping => 1005
  | .queueingTimeout => 1006
  | .retryExhausted => 1007
  | .serviceNotFound => 2001
  | .methodNotFound => 2002
  | .serverError => 3001
  | .serializationError => 4001
  | .deserializationError => 4002

structure RpcHeader where
  magic : UInt32 := kRpcMagic
  version : UInt16 := kProtocolVersion
  messageType : UInt16 := 0
  requestId : UInt64 := 0
  metadataLength : UInt32 := 0
  bodyLength : UInt32 := 0
  deriving DecidableEq, Repr

structure RpcRequest where
  requestId : UInt64 := 0
  serviceName : ByteString := []
  methodName : ByteString := []
  payload : ByteString := []
  timeoutMs : UInt64 := 0
  traceId : ByteString := []
  serializer : ByteString := ascii "raw"
  attempt : UInt32 := 0
  deriving DecidableEq, Repr

structure RpcResponse where
  requestId : UInt64 := 0
  errorCode : Int32 := 0
  errorMessage : ByteString := []
  payload : ByteString := []
  traceId : ByteString := []
  serverCostUs : UInt64 := 0
  serializer : ByteString := ascii "raw"
  deriving DecidableEq, Repr

/-- `serializer.empty() ? "raw" : serializer`. -/
def serializerOrRaw (serializer : ByteString) : ByteString :=
  if serializer = [] then ascii "raw" else serializer

@[simp] theorem serializerOrRaw_raw : serializerOrRaw (ascii "raw") = ascii "raw" := by decide

theorem serializerOrRaw_of_ne {serializer : ByteString} (h : serializer ≠ []) :
    serializerOrRaw serializer = serializer := if_neg h

@[simp] theorem serializerOrRaw_ne_nil (serializer : ByteString) :
    serializerOrRaw serializer ≠ [] := by
  rw [serializerOrRaw]
  split
  · decide
  · assumption

end UnixNotes.Rpc
