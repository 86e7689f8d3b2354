import UnixNotes.Rpc.Grammar

namespace UnixNotes.Rpc.Pointer

open Reactor (Buffer)

/-- A read of the byte at `position`, which is not readable. -/
structure OutOfRange where
  position : Nat

/-- `peek()[position]`; `data` are the readable bytes. -/
def byteAt (data : ByteString) (position : Nat) : Except OutOfRange UInt8 :=
  match data[position]? with
  | some byte => .ok byte
  | none => .error ⟨position⟩

def bytesAt (data : ByteString) (position : Nat) : Nat → Except OutOfRange ByteString
  | 0 => .ok []
  | length + 1 => do
    let byte ← byteAt data position
    let bytes ← bytesAt data (position + 1) length
    return byte :: bytes

def readUint16 (data : ByteString) (position : Nat) : Except OutOfRange UInt16 := do
  let b0 ← byteAt data position
  let b1 ← byteAt data (position + 1)
  return (b0.toUInt16 <<< 8) ||| b1.toUInt16

def readUint32 (data : ByteString) (position : Nat) : Except OutOfRange UInt32 := do
  let b0 ← byteAt data position
  let b1 ← byteAt data (position + 1)
  let b2 ← byteAt data (position + 2)
  let b3 ← byteAt data (position + 3)
  return (b0.toUInt32 <<< 24) ||| (b1.toUInt32 <<< 16) ||| (b2.toUInt32 <<< 8) ||| b3.toUInt32

def readUint64 (data : ByteString) (position : Nat) : Except OutOfRange UInt64 := do
  let high ← readUint32 data position
  let low ← readUint32 data (position + 4)
  return (high.toUInt64 <<< 32) ||| low.toUInt64

/-- A `std::string_view` of the readable bytes. -/
structure StringView where
  position : Nat := 0
  size : Nat := 0

structure ParsedFrame where
  requestId : UInt64 := 0
  metadata : StringView := {}
  body : StringView := {}
  totalLength : Nat := 0

def parseFrame (buffer : Buffer) (expectedType : MessageType) (frame : ParsedFrame) :
    Except OutOfRange (DecodeStatus × ParsedFrame) :=
  if buffer.readableBytes < kRpcHeaderSize then
    return (.needMoreData, frame)
  else do
    let data := buffer.peek
    let magic ← readUint32 data 0
    let version ← readUint16 data 4
    let type ← readUint16 data 6
    let requestId ← readUint64 data 8
    let metadataLength ← readUint32 data 16
    let bodyLength ← readUint32 data 20
    if magic ≠ kRpcMagic ∨ version ≠ kProtocolVersion ∨ type ≠ expectedType.toUInt16 then
      return (.protocolError, frame)
    else if metadataLength.toNat > kMaxMessageSize ∨
        bodyLength.toNat > kMaxMessageSize - metadataLength.toNat then
      return (.protocolError, frame)
    else
      let contentLength := metadataLength.toNat + bodyLength.toNat
      let totalLength := kRpcHeaderSize + contentLength
      if buffer.readableBytes < totalLength then
        return (.needMoreData, frame)
      else
        return (.complete,
          { requestId := requestId
            metadata := ⟨kRpcHeaderSize, metadataLength.toNat⟩
            body := ⟨kRpcHeaderSize + metadataLength.toNat, bodyLength.toNat⟩
            totalLength := totalLength })

/-- A metadata reader answers `none` for `false`. -/
abbrev Reader := OptionT (Except OutOfRange)

def readMetadataUint32 (data : ByteString) (metadata : StringView) (offset : Nat) :
    Reader (UInt32 × Nat) :=
  if offset > metadata.size ∨ metadata.size - offset < 4 then failure
  else do
    let value ← liftM (readUint32 data (metadata.position + offset))
    return (value, offset + 4)

def readMetadataUint16 (data : ByteString) (metadata : StringView) (offset : Nat) :
    Reader (UInt16 × Nat) :=
  if offset > metadata.size ∨ metadata.size - offset < 2 then failure
  else do
    let value ← liftM (readUint16 data (metadata.position + offset))
    return (value, offset + 2)

def readMetadataUint64 (data : ByteString) (metadata : StringView) (offset : Nat) :
    Reader (UInt64 × Nat) :=
  if offset > metadata.size ∨ metadata.size - offset < 8 then failure
  else do
    let value ← liftM (readUint64 data (metadata.position + offset))
    return (value, offset + 8)

def readMetadataString (data : ByteString) (metadata : StringView) (offset : Nat)
    (length : UInt32) : Reader (ByteString × Nat) :=
  if offset > metadata.size ∨ length.toNat > metadata.size - offset then failure
  else do
    let value ← liftM (bytesAt data (metadata.position + offset) length.toNat)
    return (value, offset + length.toNat)

def readLengthPrefixedString (data : ByteString) (metadata : StringView) (offset : Nat) :
    Reader (ByteString × Nat) := do
  let (length, offset) ← readMetadataUint32 data metadata offset
  readMetadataString data metadata offset length

def readExtensionHeader (data : ByteString) (metadata : StringView) (offset : Nat) :
    Reader Nat := do
  let (magic, offset) ← readMetadataUint32 data metadata offset
  let (version, offset) ← readMetadataUint16 data metadata offset
  guard (magic = kMetadataExtensionMagic ∧ version = kMetadataExtensionVersion)
  return offset

def readRequest (data : ByteString) (frame : ParsedFrame) : Reader RpcRequest := do
  let metadata := frame.metadata
  let (serviceLength, offset) ← readMetadataUint32 data metadata 0
  let (serviceName, offset) ← readMetadataString data metadata offset serviceLength
  let (methodLength, offset) ← readMetadataUint32 data metadata offset
  let (methodName, offset) ← readMetadataString data metadata offset methodLength
  let decoded : RpcRequest := { requestId := frame.requestId, serviceName, methodName }
  let decoded ←
    if offset ≠ metadata.size then do
      let offset ← readExtensionHeader data metadata offset
      let (timeoutMs, offset) ← readMetadataUint64 data metadata offset
      let (attempt, offset) ← readMetadataUint32 data metadata offset
      let (traceId, offset) ← readLengthPrefixedString data metadata offset
      let (serializer, offset) ← readLengthPrefixedString data metadata offset
      guard (offset = metadata.size)
      pure { decoded with timeoutMs, attempt, traceId, serializer := serializerOrRaw serializer }
    else
      pure decoded
  let payload ← liftM (bytesAt data frame.body.position frame.body.size)
  return { decoded with payload }

def readResponse (data : ByteString) (frame : ParsedFrame) : Reader RpcResponse := do
  let metadata := frame.metadata
  let (errorCode, offset) ← readMetadataUint32 data metadata 0
  let (errorMessageLength, offset) ← readMetadataUint32 data metadata offset
  let (errorMessage, offset) ← readMetadataString data metadata offset errorMessageLength
  let decoded : RpcResponse := { requestId := frame.requestId, errorMessage }
  let decoded ←
    if offset ≠ metadata.size then do
      let offset ← readExtensionHeader data metadata offset
      let (serverCostUs, offset) ← readMetadataUint64 data metadata offset
      let (traceId, offset) ← readLengthPrefixedString data metadata offset
      let (serializer, offset) ← readLengthPrefixedString data metadata offset
      guard (offset = metadata.size)
      pure { decoded with serverCostUs, traceId, serializer := serializerOrRaw serializer }
    else
      pure decoded
  let payload ← liftM (bytesAt data frame.body.position frame.body.size)
  return { decoded with errorCode := errorCode.toInt32, payload }

def tryDecode (expectedType : MessageType) (readMessage : ByteString → ParsedFrame → Reader α)
    (buffer : Buffer) (message : α) : Except OutOfRange (DecodeStatus × Buffer × α) := do
  let (status, frame) ← parseFrame buffer expectedType {}
  if status = .complete then
    match ← (readMessage buffer.peek frame).run, buffer.retrieve frame.totalLength with
    | some decoded, .ok buffer => return (.complete, buffer, decoded)
    | _, _ => return (.protocolError, buffer, message)
  else
    return (status, buffer, message)

def tryDecodeRequest : Buffer → RpcRequest → Except OutOfRange (DecodeStatus × Buffer × RpcRequest) :=
  tryDecode .request readRequest

def tryDecodeResponse :
    Buffer → RpcResponse → Except OutOfRange (DecodeStatus × Buffer × RpcResponse) :=
  tryDecode .response readResponse

section Reads

variable {data : ByteString} {position : Nat}

theorem byteAt_eq (h : position < data.length) : byteAt data position = .ok data[position] := by
  simp [byteAt, h]

theorem bytesAt_eq {length : Nat} (h : position + length ≤ data.length) :
    bytesAt data position length = .ok ((data.drop position).take length) := by
  induction length generalizing position with
  | zero => rfl
  | succ length ih =>
    rw [bytesAt, byteAt_eq (by omega), ih (by omega),
      List.drop_eq_getElem_cons (i := position) (by omega), List.take_succ_cons]
    rfl

theorem readUint16_eq (h : position + 2 ≤ data.length) :
    readUint16 data position = .ok (Rpc.readUint16 data position h) := by
  rw [readUint16, byteAt_eq (by omega), byteAt_eq (by omega)]
  rfl

theorem readUint32_eq (h : position + 4 ≤ data.length) :
    readUint32 data position = .ok (Rpc.readUint32 data position h) := by
  rw [readUint32, byteAt_eq (by omega), byteAt_eq (by omega), byteAt_eq (by omega),
    byteAt_eq (by omega)]
  rfl

theorem readUint64_eq (h : position + 8 ≤ data.length) :
    readUint64 data position = .ok (Rpc.readUint64 data position h) := by
  rw [readUint64, readUint32_eq (by omega), readUint32_eq (by omega)]
  rfl

end Reads

def StringView.bytes (view : StringView) (data : ByteString) : ByteString :=
  (data.drop view.position).take view.size

def StringView.Inside (view : StringView) (data : ByteString) : Prop :=
  view.position + view.size ≤ data.length

theorem StringView.length_bytes {view : StringView} {data : ByteString} (h : view.Inside data) :
    (view.bytes data).length = view.size := by
  rw [Inside] at h
  rw [bytes, List.length_take, List.length_drop]
  omega

theorem StringView.readUint16_bytes {view : StringView} {data : ByteString} {offset : Nat}
    (h : offset + 2 ≤ (view.bytes data).length) (hb : view.position + offset + 2 ≤ data.length) :
    Rpc.readUint16 (view.bytes data) offset h = Rpc.readUint16 data (view.position + offset) hb := by
  simp only [Rpc.readUint16, bytes, List.getElem_take, List.getElem_drop, Nat.add_assoc]

theorem StringView.readUint32_bytes {view : StringView} {data : ByteString} {offset : Nat}
    (h : offset + 4 ≤ (view.bytes data).length) (hb : view.position + offset + 4 ≤ data.length) :
    Rpc.readUint32 (view.bytes data) offset h = Rpc.readUint32 data (view.position + offset) hb := by
  simp only [Rpc.readUint32, bytes, List.getElem_take, List.getElem_drop, Nat.add_assoc]

theorem StringView.readUint64_bytes {view : StringView} {data : ByteString} {offset : Nat}
    (h : offset + 8 ≤ (view.bytes data).length) (hb : view.position + offset + 8 ≤ data.length) :
    Rpc.readUint64 (view.bytes data) offset h = Rpc.readUint64 data (view.position + offset) hb := by
  rw [Rpc.readUint64, Rpc.readUint64, readUint32_bytes (by omega) (by omega),
    readUint32_bytes (by omega) (by omega)]
  rfl

/-- A reader that reads inside the region only. -/
def total {α : Type} (result : Option α) : Reader α := OptionT.mk (.ok result)

section Total

variable {α β : Type}

@[simp] theorem total_bind (result : Option α) (next : α → Option β) :
    (total result >>= fun a => total (next a)) = total (result >>= next) := by
  cases result <;> rfl

@[simp] theorem pure_eq_total (a : α) : (pure a : Reader α) = total (some a) := rfl

@[simp] theorem failure_eq_total : (failure : Reader α) = total none := rfl

@[simp] theorem liftM_eq_total (a : α) :
    (liftM (Except.ok a : Except OutOfRange α) : Reader α) = total (some a) := rfl

@[simp] theorem guard_eq_total (p : Prop) [Decidable p] :
    (guard p : Reader Unit) = total (guard p) := by
  rw [guard, guard]
  split <;> rfl

@[simp] theorem ite_total (p : Prop) [Decidable p] (a b : Option α) :
    (if p then total a else total b) = total (if p then a else b) := by
  split <;> rfl

end Total

section Metadata

variable {data : ByteString} {metadata : StringView} {offset : Nat} (h : metadata.Inside data)
include h

theorem readMetadataUint16_eq : readMetadataUint16 data metadata offset =
    total (Rpc.readMetadataUint16 (metadata.bytes data) offset) := by
  have hlen := StringView.length_bytes h
  rw [StringView.Inside] at h
  rw [readMetadataUint16, Rpc.readMetadataUint16]
  split
  · rw [dif_pos (by omega)]
    rfl
  · rw [dif_neg (by omega), readUint16_eq (by omega),
      StringView.readUint16_bytes (by omega) (by omega)]
    rfl

theorem readMetadataUint32_eq : readMetadataUint32 data metadata offset =
    total (Rpc.readMetadataUint32 (metadata.bytes data) offset) := by
  have hlen := StringView.length_bytes h
  rw [StringView.Inside] at h
  rw [readMetadataUint32, Rpc.readMetadataUint32]
  split
  · rw [dif_pos (by omega)]
    rfl
  · rw [dif_neg (by omega), readUint32_eq (by omega),
      StringView.readUint32_bytes (by omega) (by omega)]
    rfl

theorem readMetadataUint64_eq : readMetadataUint64 data metadata offset =
    total (Rpc.readMetadataUint64 (metadata.bytes data) offset) := by
  have hlen := StringView.length_bytes h
  rw [StringView.Inside] at h
  rw [readMetadataUint64, Rpc.readMetadataUint64]
  split
  · rw [dif_pos (by omega)]
    rfl
  · rw [dif_neg (by omega), readUint64_eq (by omega),
      StringView.readUint64_bytes (by omega) (by omega)]
    rfl

theorem readMetadataString_eq (length : UInt32) : readMetadataString data metadata offset length =
    total (Rpc.readMetadataString (metadata.bytes data) offset length) := by
  have hlen := StringView.length_bytes h
  rw [StringView.Inside] at h
  rw [readMetadataString, Rpc.readMetadataString, hlen]
  split
  · rfl
  · have hbytes : ((metadata.bytes data).drop offset).take length.toNat =
        (data.drop (metadata.position + offset)).take length.toNat := by
      rw [StringView.bytes, List.drop_take, List.take_take, List.drop_drop,
        Nat.min_eq_left (by omega)]
    rw [bytesAt_eq (by omega), hbytes]
    rfl

theorem readLengthPrefixedString_eq : readLengthPrefixedString data metadata offset =
    total (Rpc.readLengthPrefixedString (metadata.bytes data) offset) := by
  simp only [readLengthPrefixedString, Rpc.readLengthPrefixedString, readMetadataUint32_eq h,
    readMetadataString_eq h, total_bind]

theorem readExtensionHeader_eq : readExtensionHeader data metadata offset =
    total (Rpc.readExtensionHeader (metadata.bytes data) offset) := by
  simp only [readExtensionHeader, Rpc.readExtensionHeader, readMetadataUint32_eq h,
    readMetadataUint16_eq h, guard_eq_total, pure_eq_total, total_bind]
  rfl

end Metadata

def ParsedFrame.bytes (frame : ParsedFrame) (data : ByteString) : Rpc.ParsedFrame where
  requestId := frame.requestId
  metadata := frame.metadata.bytes data
  body := frame.body.bytes data
  totalLength := frame.totalLength

section Message

variable {data : ByteString} {frame : ParsedFrame} (hmetadata : frame.metadata.Inside data)
  (hbody : frame.body.Inside data)
include hmetadata hbody

theorem readRequest_eq :
    readRequest data frame = total (RpcCodec.readRequest (frame.bytes data)) := by
  have hlen := StringView.length_bytes hmetadata
  rw [StringView.Inside] at hbody
  simp only [readRequest, readMetadataUint32_eq hmetadata, readMetadataString_eq hmetadata,
    readExtensionHeader_eq hmetadata, readMetadataUint64_eq hmetadata,
    readLengthPrefixedString_eq hmetadata, bytesAt_eq hbody, liftM_eq_total, guard_eq_total,
    pure_eq_total, ite_total, total_bind]
  simp only [RpcCodec.readRequest, RpcCodec.readRequestMetadata, ParsedFrame.bytes, hlen,
    Option.bind_eq_bind, Option.map_bind, Function.comp_def, apply_ite (Option.map _),
    Option.bind_some, Option.pure_def, Option.map_some]
  rfl

theorem readResponse_eq :
    readResponse data frame = total (RpcCodec.readResponse (frame.bytes data)) := by
  have hlen := StringView.length_bytes hmetadata
  rw [StringView.Inside] at hbody
  simp only [readResponse, readMetadataUint32_eq hmetadata, readMetadataString_eq hmetadata,
    readExtensionHeader_eq hmetadata, readMetadataUint64_eq hmetadata,
    readLengthPrefixedString_eq hmetadata, bytesAt_eq hbody, liftM_eq_total, guard_eq_total,
    pure_eq_total, ite_total, total_bind]
  simp only [RpcCodec.readResponse, RpcCodec.readResponseMetadata, ParsedFrame.bytes, hlen,
    Option.bind_eq_bind, Option.map_bind, Function.comp_def, apply_ite (Option.map _),
    Option.bind_some, Option.pure_def, Option.map_some]
  rfl

end Message

theorem parseFrame_eq (buffer : Buffer) (expectedType : MessageType) :
    ∃ frame : ParsedFrame,
      parseFrame buffer expectedType {} = .ok ((Rpc.parseFrame buffer expectedType {}).1, frame) ∧
        ((Rpc.parseFrame buffer expectedType {}).1 = .complete →
          frame.metadata.Inside buffer.peek ∧ frame.body.Inside buffer.peek ∧
            (Rpc.parseFrame buffer expectedType {}).2 = frame.bytes buffer.peek) := by
  have hlen := buffer.length_peek
  rw [parseFrame, Rpc.parseFrame]
  split
  · exact ⟨{}, rfl, fun h => by cases h⟩
  · rename_i hshort
    have header_le : kRpcHeaderSize ≤ buffer.peek.length := by omega
    have hlong : 24 ≤ buffer.peek.length := header_le
    obtain ⟨header, hheader⟩ : ∃ header, readHeader buffer.peek header_le = header := ⟨_, rfl⟩
    have hmagic : readUint32 buffer.peek 0 = .ok header.magic := by
      rw [readUint32_eq (by omega), ← hheader, readHeader]
    have hversion : readUint16 buffer.peek 4 = .ok header.version := by
      rw [readUint16_eq (by omega), ← hheader, readHeader]
    have htype : readUint16 buffer.peek 6 = .ok header.messageType := by
      rw [readUint16_eq (by omega), ← hheader, readHeader]
    have hid : readUint64 buffer.peek 8 = .ok header.requestId := by
      rw [readUint64_eq (by omega), ← hheader, readHeader]
    have hmetadata : readUint32 buffer.peek 16 = .ok header.metadataLength := by
      rw [readUint32_eq (by omega), ← hheader, readHeader]
    have hbody : readUint32 buffer.peek 20 = .ok header.bodyLength := by
      rw [readUint32_eq (by omega), ← hheader, readHeader]
    simp only [hheader, hmagic, hversion, htype, hid, hmetadata, hbody, bind, Except.bind]
    split
    · exact ⟨{}, rfl, fun h => by cases h⟩
    · split
      · exact ⟨{}, rfl, fun h => by cases h⟩
      · split
        · exact ⟨{}, rfl, fun h => by cases h⟩
        · rename_i hlong
          refine ⟨_, rfl, fun _ => ⟨?_, ?_, rfl⟩⟩
          all_goals
            simp only [StringView.Inside]
            omega

section Decode

variable {α : Type} {type : MessageType} {readMessage : ByteString → ParsedFrame → Reader α}
  {readBytes : Rpc.ParsedFrame → Option α}

theorem tryDecode_eq (hread : ∀ {data frame}, frame.metadata.Inside data → frame.body.Inside data →
      readMessage data frame = total (readBytes (frame.bytes data))) (buffer : Buffer)
    (message : α) :
    tryDecode type readMessage buffer message =
      .ok (RpcCodec.tryDecode type readBytes buffer message) := by
  obtain ⟨frame, hparse, hcomplete⟩ := parseFrame_eq buffer type
  rw [tryDecode, RpcCodec.tryDecode, hparse]
  rcases hbytes : Rpc.parseFrame buffer type {} with ⟨status, parsed⟩
  rw [hbytes] at hcomplete
  cases status with
  | complete =>
    obtain ⟨hmetadata, hbody, hframe⟩ := hcomplete rfl
    simp only at hframe
    subst hframe
    have hrun : (readMessage buffer.peek frame).run = .ok (readBytes (frame.bytes buffer.peek)) :=
      congrArg OptionT.run (hread hmetadata hbody)
    simp only [bind, Except.bind, hrun, if_true, ParsedFrame.bytes]
    cases readBytes _ with
    | none => rfl
    | some decoded => cases buffer.retrieve frame.totalLength <;> rfl
  | needMoreData => rfl
  | protocolError => rfl

end Decode

/-- The decoders accept exactly the frames of the grammar, leave everything as it was unless they
do, and read readable bytes only. -/
theorem decodes_exactly (buffer : Buffer) :
    (∀ request,
      RpcCodec.DecodesExactly .request RequestGrammar RpcCodec.tryDecodeRequest buffer request ∧
        tryDecodeRequest buffer request = .ok (RpcCodec.tryDecodeRequest buffer request)) ∧
    ∀ response,
      RpcCodec.DecodesExactly .response ResponseGrammar RpcCodec.tryDecodeResponse buffer response ∧
        tryDecodeResponse buffer response = .ok (RpcCodec.tryDecodeResponse buffer response) :=
  ⟨fun request => ⟨RpcCodec.tryDecodeRequest_exact buffer request,
      tryDecode_eq readRequest_eq buffer request⟩,
    fun response => ⟨RpcCodec.tryDecodeResponse_exact buffer response,
      tryDecode_eq readResponse_eq buffer response⟩⟩

end UnixNotes.Rpc.Pointer
