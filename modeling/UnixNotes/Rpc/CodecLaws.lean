import UnixNotes.Rpc.Codec

namespace UnixNotes.Rpc

open Reactor (Buffer)

def uint16Bytes (value : UInt16) : ByteString := appendUint16 [] value
def uint32Bytes (value : UInt32) : ByteString := appendUint32 [] value
def uint64Bytes (value : UInt64) : ByteString := appendUint64 [] value

/-- A string behind its 32-bit length. -/
def prefixedBytes (value : ByteString) : ByteString :=
  uint32Bytes (UInt32.ofNat value.length) ++ value

theorem appendUint16_eq (output : ByteString) (value : UInt16) :
    appendUint16 output value = output ++ uint16Bytes value := rfl

theorem appendUint32_eq (output : ByteString) (value : UInt32) :
    appendUint32 output value = output ++ uint32Bytes value := rfl

theorem appendUint64_eq (output : ByteString) (value : UInt64) :
    appendUint64 output value = output ++ uint64Bytes value := by
  simp [uint64Bytes, appendUint64, appendUint32]

@[simp] theorem length_uint16Bytes (value : UInt16) : (uint16Bytes value).length = 2 := rfl
@[simp] theorem length_uint32Bytes (value : UInt32) : (uint32Bytes value).length = 4 := rfl
@[simp] theorem length_uint64Bytes (value : UInt64) : (uint64Bytes value).length = 8 := rfl

@[simp] theorem length_prefixedBytes (value : ByteString) :
    (prefixedBytes value).length = 4 + value.length := by
  simp [prefixedBytes]

/-- `rest` is what `data` holds from `offset` on. -/
structure Remaining (data : ByteString) (offset : Nat) (rest : ByteString) : Prop where
  offset_le : offset ≤ data.length
  drop_eq : data.drop offset = rest

theorem Remaining.start {data rest : ByteString} (h : data = rest) : Remaining data 0 rest :=
  ⟨Nat.zero_le _, h⟩

theorem Remaining.length_eq {data rest : ByteString} {offset : Nat}
    (h : Remaining data offset rest) : data.length = offset + rest.length := by
  have := h.offset_le
  rw [← h.drop_eq, List.length_drop]
  omega

theorem Remaining.advance {data read rest : ByteString} {offset : Nat}
    (h : Remaining data offset (read ++ rest)) : Remaining data (offset + read.length) rest := by
  constructor
  · rw [h.length_eq, List.length_append]
    omega
  · rw [← List.drop_drop, h.drop_eq, List.drop_left]

theorem Remaining.getElem {data read rest : ByteString} {offset : Nat}
    (h : Remaining data offset (read ++ rest)) {i : Nat} (hi : offset + i < data.length)
    (hr : i < read.length) : data[offset + i] = read[i] := by
  have hrest : i < (read ++ rest).length := by rw [List.length_append]; omega
  calc
    data[offset + i] = (read ++ rest)[i] := by simp only [← h.drop_eq, List.getElem_drop]
    _ = read[i] := List.getElem_append_left hr

theorem Remaining.offset_eq {data : ByteString} {offset : Nat}
    (h : Remaining data offset []) : offset = data.length := by
  simpa using h.length_eq.symm

theorem Remaining.offset_ne {data rest : ByteString} {offset : Nat}
    (h : Remaining data offset rest) (hrest : 0 < rest.length) : offset ≠ data.length := by
  have := h.length_eq
  omega

theorem readUint16_eq {data rest : ByteString} {offset : Nat} {value : UInt16}
    (h : Remaining data offset (uint16Bytes value ++ rest)) (hb : offset + 2 ≤ data.length) :
    readUint16 data offset hb = value := by
  have h0 := h.getElem (i := 0) (by omega) (by simp)
  have h1 := h.getElem (i := 1) (by omega) (by simp)
  simp only [Nat.add_zero] at h0
  rw [readUint16, h0, h1]
  simp only [uint16Bytes, appendUint16, List.nil_append, List.getElem_cons_zero,
    List.getElem_cons_succ]
  apply UInt16.eq_of_toBitVec_eq
  ext i hi
  simp only [UInt16.toBitVec_or, UInt16.toBitVec_shiftLeft, UInt8.toBitVec_toUInt16,
    UInt16.toBitVec_toUInt8, UInt16.toBitVec_shiftRight, UInt16.toBitVec_ofNat, BitVec.getElem_or,
    BitVec.shiftLeft_eq', BitVec.getElem_shiftLeft, BitVec.getElem_setWidth,
    BitVec.getLsbD_setWidth]
  grind

theorem readUint32_eq {data rest : ByteString} {offset : Nat} {value : UInt32}
    (h : Remaining data offset (uint32Bytes value ++ rest)) (hb : offset + 4 ≤ data.length) :
    readUint32 data offset hb = value := by
  have h0 := h.getElem (i := 0) (by omega) (by simp)
  have h1 := h.getElem (i := 1) (by omega) (by simp)
  have h2 := h.getElem (i := 2) (by omega) (by simp)
  have h3 := h.getElem (i := 3) (by omega) (by simp)
  simp only [Nat.add_zero] at h0
  rw [readUint32, h0, h1, h2, h3]
  simp only [uint32Bytes, appendUint32, List.nil_append, List.getElem_cons_zero,
    List.getElem_cons_succ]
  apply UInt32.eq_of_toBitVec_eq
  ext i hi
  simp only [UInt32.toBitVec_or, UInt32.toBitVec_shiftLeft, UInt8.toBitVec_toUInt32,
    UInt32.toBitVec_toUInt8, UInt32.toBitVec_shiftRight, UInt32.toBitVec_ofNat, BitVec.getElem_or,
    BitVec.shiftLeft_eq', BitVec.getElem_shiftLeft, BitVec.getElem_setWidth,
    BitVec.getLsbD_setWidth]
  grind

theorem uint64Bytes_eq (value : UInt64) :
    uint64Bytes value =
      uint32Bytes (value >>> 32).toUInt32 ++ uint32Bytes value.toUInt32 := rfl

theorem readUint64_eq {data rest : ByteString} {offset : Nat} {value : UInt64}
    (h : Remaining data offset (uint64Bytes value ++ rest)) (hb : offset + 8 ≤ data.length) :
    readUint64 data offset hb = value := by
  rw [uint64Bytes_eq, List.append_assoc] at h
  have hlow : Remaining data (offset + 4) (uint32Bytes value.toUInt32 ++ rest) := h.advance
  rw [readUint64, readUint32_eq h, readUint32_eq hlow]
  apply UInt64.eq_of_toBitVec_eq
  ext i hi
  simp only [UInt64.toBitVec_or, UInt64.toBitVec_shiftLeft, UInt32.toBitVec_toUInt64,
    UInt64.toBitVec_toUInt32, UInt64.toBitVec_shiftRight, UInt64.toBitVec_ofNat, BitVec.getElem_or,
    BitVec.shiftLeft_eq', BitVec.getElem_shiftLeft, BitVec.getElem_setWidth,
    BitVec.getLsbD_setWidth]
  grind

section Metadata

variable {metadata rest : ByteString} {offset : Nat}

theorem readMetadataUint16_eq {value : UInt16}
    (h : Remaining metadata offset (uint16Bytes value ++ rest)) :
    readMetadataUint16 metadata offset = some (value, offset + 2) := by
  have hlen := h.length_eq
  simp only [List.length_append, length_uint16Bytes] at hlen
  rw [readMetadataUint16, dif_neg (by omega), readUint16_eq h]

theorem readMetadataUint32_eq {value : UInt32}
    (h : Remaining metadata offset (uint32Bytes value ++ rest)) :
    readMetadataUint32 metadata offset = some (value, offset + 4) := by
  have hlen := h.length_eq
  simp only [List.length_append, length_uint32Bytes] at hlen
  rw [readMetadataUint32, dif_neg (by omega), readUint32_eq h]

theorem readMetadataUint64_eq {value : UInt64}
    (h : Remaining metadata offset (uint64Bytes value ++ rest)) :
    readMetadataUint64 metadata offset = some (value, offset + 8) := by
  have hlen := h.length_eq
  simp only [List.length_append, length_uint64Bytes] at hlen
  rw [readMetadataUint64, dif_neg (by omega), readUint64_eq h]

theorem toNat_ofNat_length {value : ByteString} (h : value.length ≤ 0xffffffff) :
    (UInt32.ofNat value.length).toNat = value.length := by
  rw [UInt32.toNat_ofNat', Nat.mod_eq_of_lt (by omega)]

theorem readMetadataString_eq {value : ByteString} (hv : value.length ≤ 0xffffffff)
    (h : Remaining metadata offset (value ++ rest)) :
    readMetadataString metadata offset (UInt32.ofNat value.length) =
      some (value, offset + value.length) := by
  have hlen := h.length_eq
  simp only [List.length_append] at hlen
  rw [readMetadataString, toNat_ofNat_length hv, if_neg (by omega), h.drop_eq, List.take_left]

theorem Remaining.prefixed {value : ByteString} (hv : value.length ≤ 0xffffffff)
    (h : Remaining metadata offset (prefixedBytes value ++ rest)) :
    readMetadataUint32 metadata offset = some (UInt32.ofNat value.length, offset + 4) ∧
      readMetadataString metadata (offset + 4) (UInt32.ofNat value.length) =
        some (value, offset + 4 + value.length) ∧
      Remaining metadata (offset + 4 + value.length) rest := by
  rw [prefixedBytes, List.append_assoc] at h
  have hstring : Remaining metadata (offset + 4) (value ++ rest) := h.advance
  exact ⟨readMetadataUint32_eq h, readMetadataString_eq hv hstring, hstring.advance⟩

theorem Remaining.prefixedString {value : ByteString} (hv : value.length ≤ 0xffffffff)
    (h : Remaining metadata offset (prefixedBytes value ++ rest)) :
    readLengthPrefixedString metadata offset = some (value, offset + 4 + value.length) := by
  obtain ⟨hlength, hvalue, -⟩ := Remaining.prefixed hv h
  simp only [readLengthPrefixedString, hlength, Option.bind_eq_bind, Option.bind_some, hvalue]

def extensionHeaderBytes : ByteString :=
  uint32Bytes kMetadataExtensionMagic ++ uint16Bytes kMetadataExtensionVersion

@[simp] theorem length_extensionHeaderBytes : extensionHeaderBytes.length = 6 := rfl

theorem readExtensionHeader_eq
    (h : Remaining metadata offset (extensionHeaderBytes ++ rest)) :
    readExtensionHeader metadata offset = some (offset + 6) := by
  rw [extensionHeaderBytes, List.append_assoc] at h
  have hversion : Remaining metadata (offset + 4) (uint16Bytes kMetadataExtensionVersion ++ rest) :=
    h.advance
  simp [readExtensionHeader, readMetadataUint32_eq h, readMetadataUint16_eq hversion, guard]

end Metadata

def requestExtensionBytes (request : RpcRequest) : ByteString :=
  extensionHeaderBytes ++ (uint64Bytes request.timeoutMs ++ (uint32Bytes request.attempt ++
    (prefixedBytes request.traceId ++ prefixedBytes request.serializer)))

def requestMetadata (request : RpcRequest) : ByteString :=
  prefixedBytes request.serviceName ++ (prefixedBytes request.methodName ++
    if hasRequestExtension request then requestExtensionBytes request else [])

def responseExtensionBytes (response : RpcResponse) : ByteString :=
  extensionHeaderBytes ++ (uint64Bytes response.serverCostUs ++
    (prefixedBytes response.traceId ++ prefixedBytes response.serializer))

def responseMetadata (response : RpcResponse) : ByteString :=
  uint32Bytes response.errorCode.toUInt32 ++ (prefixedBytes response.errorMessage ++
    if hasResponseExtension response then responseExtensionBytes response else [])

def headerBytes (type : MessageType) (requestId : UInt64) (metadata body : ByteString) :
    ByteString :=
  uint32Bytes kRpcMagic ++ (uint16Bytes kProtocolVersion ++ (uint16Bytes type.toUInt16 ++
    (uint64Bytes requestId ++ (uint32Bytes (UInt32.ofNat metadata.length) ++
      uint32Bytes (UInt32.ofNat body.length)))))

def frameBytes (type : MessageType) (requestId : UInt64) (metadata body : ByteString) :
    ByteString :=
  headerBytes type requestId metadata body ++ (metadata ++ body)

@[simp] theorem length_headerBytes (type : MessageType) (requestId : UInt64)
    (metadata body : ByteString) :
    (headerBytes type requestId metadata body).length = kRpcHeaderSize := rfl

theorem length_frameBytes (type : MessageType) (requestId : UInt64) (metadata body : ByteString) :
    (frameBytes type requestId metadata body).length =
      kRpcHeaderSize + (metadata.length + body.length) := by
  simp [frameBytes]

theorem length_requestMetadata (request : RpcRequest) :
    (requestMetadata request).length =
      8 + request.serviceName.length + request.methodName.length +
        if hasRequestExtension request then
          26 + request.traceId.length + request.serializer.length
        else 0 := by
  simp only [requestMetadata, requestExtensionBytes, List.length_append, length_prefixedBytes]
  split <;> simp <;> omega

theorem length_responseMetadata (response : RpcResponse) :
    (responseMetadata response).length =
      8 + response.errorMessage.length +
        if hasResponseExtension response then
          22 + response.traceId.length + response.serializer.length
        else 0 := by
  simp only [responseMetadata, responseExtensionBytes, List.length_append, length_prefixedBytes]
  split <;> simp <;> omega

section Encode

variable {α : Type}

theorem checkStringLength_bind_eq_ok {length : Nat} {field : String}
    {next : Unit → Except LengthError α} {a : α} :
    (checkStringLength length field >>= next) = .ok a ↔
      length ≤ 0xffffffff ∧ next () = .ok a := by
  rw [checkStringLength]
  split <;> simp [bind, Except.bind] <;> omega

theorem appendMetadataString_bind_eq_ok {output value : ByteString} {field : String}
    {next : ByteString → Except LengthError α} {a : α} :
    (appendMetadataString output value field >>= next) = .ok a ↔
      value.length ≤ 0xffffffff ∧ next (output ++ prefixedBytes value) = .ok a := by
  simp only [appendMetadataString, bind_assoc, checkStringLength_bind_eq_ok, pure_bind,
    appendUint32_eq, prefixedBytes, List.append_assoc]

theorem encodeFrame_eq_ok {type : MessageType} {requestId : UInt64}
    {metadata body frame : ByteString} :
    encodeFrame type requestId metadata body = .ok frame ↔
      metadata.length + body.length ≤ kMaxMessageSize ∧
        frame = frameBytes type requestId metadata body := by
  have hframe : frameBytes type requestId metadata body =
      appendUint32 (appendUint32 (appendUint64 (appendUint16 (appendUint16
        (appendUint32 [] kRpcMagic) kProtocolVersion) type.toUInt16) requestId)
        (UInt32.ofNat metadata.length)) (UInt32.ofNat body.length) ++ metadata ++ body := by
    simp [frameBytes, headerBytes, appendUint16_eq, appendUint32_eq, appendUint64_eq]
  simp only [encodeFrame, checkStringLength_bind_eq_ok, ← hframe]
  split
  · rename_i h
    simp only [kMaxMessageSize] at h ⊢
    simp only [throw, throwThe, MonadExceptOf.throw, bind, Except.bind, reduceCtorEq, and_false,
      false_iff, not_and]
    omega
  · rename_i h
    simp only [kMaxMessageSize] at h ⊢
    simp only [pure, Except.pure, Except.ok.injEq, eq_comm (b := frame)]
    constructor
    · rintro ⟨-, -, rfl⟩
      exact ⟨by omega, rfl⟩
    · rintro ⟨-, rfl⟩
      exact ⟨by omega, by omega, rfl⟩

end Encode

end UnixNotes.Rpc
