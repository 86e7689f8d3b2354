import UnixNotes.Rpc.RoundTrip
import UnixNotes.Rpc.Streaming

namespace UnixNotes.Rpc

open Reactor (Buffer)

/-! ### The grammar -/

def lengthHeader (type : MessageType) (requestId : UInt64) (metadataLength bodyLength : UInt32) :
    ByteString :=
  uint32Bytes kRpcMagic ++ (uint16Bytes kProtocolVersion ++ (uint16Bytes type.toUInt16 ++
    (uint64Bytes requestId ++ (uint32Bytes metadataLength ++ uint32Bytes bodyLength))))

theorem headerBytes_eq (type : MessageType) (requestId : UInt64) (metadata body : ByteString) :
    headerBytes type requestId metadata body =
      lengthHeader type requestId (UInt32.ofNat metadata.length) (UInt32.ofNat body.length) := rfl

@[simp] theorem length_lengthHeader (type : MessageType) (requestId : UInt64)
    (metadataLength bodyLength : UInt32) :
    (lengthHeader type requestId metadataLength bodyLength).length = kRpcHeaderSize := rfl

/-- The metadata of a request: its mandatory fields, then at most one extension. -/
inductive RequestGrammar (requestId : UInt64) (body : ByteString) : ByteString → RpcRequest → Prop
  | plain {serviceName methodName : ByteString} :
    RequestGrammar requestId body (prefixedBytes serviceName ++ prefixedBytes methodName)
      { requestId, serviceName, methodName, payload := body }
  | extended {serviceName methodName traceId serializer : ByteString} {timeoutMs : UInt64}
      {attempt : UInt32} :
    RequestGrammar requestId body
      (prefixedBytes serviceName ++ (prefixedBytes methodName ++ (extensionHeaderBytes ++
        (uint64Bytes timeoutMs ++ (uint32Bytes attempt ++ (prefixedBytes traceId ++
          prefixedBytes serializer))))))
      { requestId, serviceName, methodName, timeoutMs, attempt, traceId
        payload := body, serializer := serializerOrRaw serializer }

/-- The metadata of a response: its mandatory fields, then at most one extension. -/
inductive ResponseGrammar (requestId : UInt64) (body : ByteString) :
    ByteString → RpcResponse → Prop
  | plain {errorCode : UInt32} {errorMessage : ByteString} :
    ResponseGrammar requestId body (uint32Bytes errorCode ++ prefixedBytes errorMessage)
      { requestId, errorMessage, errorCode := errorCode.toInt32, payload := body }
  | extended {errorCode : UInt32} {errorMessage traceId serializer : ByteString}
      {serverCostUs : UInt64} :
    ResponseGrammar requestId body
      (uint32Bytes errorCode ++ (prefixedBytes errorMessage ++ (extensionHeaderBytes ++
        (uint64Bytes serverCostUs ++ (prefixedBytes traceId ++ prefixedBytes serializer)))))
      { requestId, errorMessage, serverCostUs, traceId, errorCode := errorCode.toInt32
        payload := body, serializer := serializerOrRaw serializer }

/-- `data` starts with a frame whose message is `decoded`; `rest` follows it. -/
def FrameAt {α : Type} (type : MessageType)
    (Grammar : UInt64 → ByteString → ByteString → α → Prop) (data : ByteString) (decoded : α)
    (rest : ByteString) : Prop :=
  ∃ requestId metadata body, data = frameBytes type requestId metadata body ++ rest ∧
    metadata.length + body.length ≤ kMaxMessageSize ∧ Grammar requestId body metadata decoded

/-- `data` is too short for a header, or its header is valid and announces more than follows. -/
def Truncated (type : MessageType) (data : ByteString) : Prop :=
  data.length < kRpcHeaderSize ∨
    ∃ requestId metadataLength bodyLength rest,
      data = lengthHeader type requestId metadataLength bodyLength ++ rest ∧
        metadataLength.toNat + bodyLength.toNat ≤ kMaxMessageSize ∧
        rest.length < metadataLength.toNat + bodyLength.toNat

/-! ### What was read was there -/

theorem uint16Bytes_or (b0 b1 : UInt8) :
    uint16Bytes ((b0.toUInt16 <<< 8) ||| b1.toUInt16) = [b0, b1] := by
  simp only [uint16Bytes, appendUint16, List.nil_append, List.cons.injEq, and_true]
  constructor
  all_goals
    apply UInt8.eq_of_toBitVec_eq
    ext i hi
    simp only [UInt16.toBitVec_or, UInt16.toBitVec_shiftLeft, UInt8.toBitVec_toUInt16,
      UInt16.toBitVec_toUInt8, UInt16.toBitVec_shiftRight, UInt16.toBitVec_ofNat,
      BitVec.getElem_setWidth, BitVec.shiftLeft_eq', BitVec.getLsbD_or, BitVec.getLsbD_shiftLeft,
      BitVec.getLsbD_setWidth, BitVec.ushiftRight_eq', BitVec.getLsbD_ushiftRight]
    grind

theorem uint32Bytes_or (b0 b1 b2 b3 : UInt8) :
    uint32Bytes ((b0.toUInt32 <<< 24) ||| (b1.toUInt32 <<< 16) ||| (b2.toUInt32 <<< 8) |||
      b3.toUInt32) = [b0, b1, b2, b3] := by
  simp only [uint32Bytes, appendUint32, List.nil_append, List.cons.injEq, and_true]
  refine ⟨?_, ?_, ?_, ?_⟩
  all_goals
    apply UInt8.eq_of_toBitVec_eq
    ext i hi
    simp only [UInt32.toBitVec_or, UInt32.toBitVec_shiftLeft, UInt8.toBitVec_toUInt32,
      UInt32.toBitVec_toUInt8, UInt32.toBitVec_shiftRight, UInt32.toBitVec_ofNat,
      BitVec.getElem_setWidth, BitVec.shiftLeft_eq', BitVec.getLsbD_or, BitVec.getLsbD_shiftLeft,
      BitVec.getLsbD_setWidth, BitVec.ushiftRight_eq', BitVec.getLsbD_ushiftRight]
    grind

theorem uint64Bytes_or (high low : UInt32) :
    uint64Bytes ((high.toUInt64 <<< 32) ||| low.toUInt64) = uint32Bytes high ++ uint32Bytes low := by
  rw [uint64Bytes_eq]
  congr 2
  all_goals
    apply UInt32.eq_of_toBitVec_eq
    ext i hi
    simp only [UInt64.toBitVec_or, UInt64.toBitVec_shiftLeft, UInt32.toBitVec_toUInt64,
      UInt64.toBitVec_toUInt32, UInt64.toBitVec_shiftRight, UInt64.toBitVec_ofNat,
      BitVec.getElem_setWidth, BitVec.shiftLeft_eq', BitVec.getLsbD_or, BitVec.getLsbD_shiftLeft,
      BitVec.getLsbD_setWidth, BitVec.ushiftRight_eq', BitVec.getLsbD_ushiftRight]
    grind
theorem Remaining.readUint16 {data : ByteString} {offset : Nat} (h : offset + 2 ≤ data.length) :
    Remaining data offset
      (uint16Bytes (readUint16 data offset h) ++ data.drop (offset + 2)) := by
  refine ⟨by omega, ?_⟩
  rw [Rpc.readUint16, uint16Bytes_or, List.drop_eq_getElem_cons (i := offset) (by omega),
    List.drop_eq_getElem_cons (i := offset + 1) (by omega)]
  rfl

theorem Remaining.readUint32 {data : ByteString} {offset : Nat} (h : offset + 4 ≤ data.length) :
    Remaining data offset
      (uint32Bytes (readUint32 data offset h) ++ data.drop (offset + 4)) := by
  refine ⟨by omega, ?_⟩
  rw [Rpc.readUint32, uint32Bytes_or, List.drop_eq_getElem_cons (i := offset) (by omega),
    List.drop_eq_getElem_cons (i := offset + 1) (by omega),
    List.drop_eq_getElem_cons (i := offset + 1 + 1) (by omega),
    List.drop_eq_getElem_cons (i := offset + 1 + 1 + 1) (by omega)]
  rfl

theorem Remaining.readUint64 {data : ByteString} {offset : Nat} (h : offset + 8 ≤ data.length) :
    Remaining data offset
      (uint64Bytes (readUint64 data offset h) ++ data.drop (offset + 8)) := by
  have hhigh : Remaining data offset _ := .readUint32 (by omega)
  have hlow : Remaining data (offset + 4) _ := .readUint32 (by omega)
  refine ⟨by omega, ?_⟩
  rw [Rpc.readUint64, uint64Bytes_or, hhigh.drop_eq, hlow.drop_eq, List.append_assoc]

section Sound

variable {metadata : ByteString} {offset offset' : Nat}

theorem Remaining.unique {data rest rest' : ByteString} (h : Remaining data offset rest)
    (h' : Remaining data offset rest') : rest = rest' := h.drop_eq.symm.trans h'.drop_eq

theorem readMetadataUint32_sound {value : UInt32}
    (h : readMetadataUint32 metadata offset = some (value, offset')) :
    ∃ rest, Remaining metadata offset (uint32Bytes value ++ rest) ∧
      Remaining metadata offset' rest := by
  rw [readMetadataUint32] at h
  split at h <;> cases h
  exact ⟨_, .readUint32 (by omega), (Remaining.readUint32 (by omega)).advance⟩

theorem readMetadataUint16_sound {value : UInt16}
    (h : readMetadataUint16 metadata offset = some (value, offset')) :
    ∃ rest, Remaining metadata offset (uint16Bytes value ++ rest) ∧
      Remaining metadata offset' rest := by
  rw [readMetadataUint16] at h
  split at h <;> cases h
  exact ⟨_, .readUint16 (by omega), (Remaining.readUint16 (by omega)).advance⟩

theorem readMetadataUint64_sound {value : UInt64}
    (h : readMetadataUint64 metadata offset = some (value, offset')) :
    ∃ rest, Remaining metadata offset (uint64Bytes value ++ rest) ∧
      Remaining metadata offset' rest := by
  rw [readMetadataUint64] at h
  split at h <;> cases h
  exact ⟨_, .readUint64 (by omega), (Remaining.readUint64 (by omega)).advance⟩

theorem readMetadataString_sound {length : UInt32} {value : ByteString}
    (h : readMetadataString metadata offset length = some (value, offset')) :
    value.length = length.toNat ∧ ∃ rest, Remaining metadata offset (value ++ rest) ∧
      Remaining metadata offset' rest := by
  rw [readMetadataString] at h
  split at h <;> cases h
  refine ⟨by rw [List.length_take, List.length_drop]; omega, metadata.drop (offset + length.toNat),
    ⟨by omega, ?_⟩, ⟨by omega, rfl⟩⟩
  rw [← List.drop_drop, List.take_append_drop]

theorem prefixed_sound {start : Nat} {length : UInt32} {value : ByteString}
    (hlength : readMetadataUint32 metadata start = some (length, offset))
    (hvalue : readMetadataString metadata offset length = some (value, offset')) :
    ∃ rest, Remaining metadata start (prefixedBytes value ++ rest) ∧
      Remaining metadata offset' rest := by
  obtain ⟨tail, hstart, hoffset⟩ := readMetadataUint32_sound hlength
  obtain ⟨hlen, rest, hbytes, hrest⟩ := readMetadataString_sound hvalue
  refine ⟨rest, ?_, hrest⟩
  rw [prefixedBytes, hlen, UInt32.ofNat_toNat, List.append_assoc, hbytes.unique hoffset]
  exact hstart

theorem readLengthPrefixedString_sound {value : ByteString}
    (h : readLengthPrefixedString metadata offset = some (value, offset')) :
    ∃ rest, Remaining metadata offset (prefixedBytes value ++ rest) ∧
      Remaining metadata offset' rest := by
  obtain ⟨⟨length, middle⟩, hlength, hvalue⟩ := Option.bind_eq_some_iff.mp h
  exact prefixed_sound hlength hvalue

theorem readExtensionHeader_sound (h : readExtensionHeader metadata offset = some offset') :
    ∃ rest, Remaining metadata offset (extensionHeaderBytes ++ rest) ∧
      Remaining metadata offset' rest := by
  obtain ⟨⟨magic, middle⟩, hmagic, h⟩ := Option.bind_eq_some_iff.mp h
  obtain ⟨⟨version, last⟩, hversion, h⟩ := Option.bind_eq_some_iff.mp h
  simp only [guard] at h
  split at h <;> cases h
  rename_i hheader
  obtain ⟨rfl, rfl⟩ := hheader
  obtain ⟨tail, hstart, hmiddle⟩ := readMetadataUint32_sound hmagic
  obtain ⟨rest, hbytes, hrest⟩ := readMetadataUint16_sound hversion
  refine ⟨rest, ?_, hrest⟩
  rw [extensionHeaderBytes, List.append_assoc, hbytes.unique hmiddle]
  exact hstart

end Sound

/-- Reading up to `offset` has read the bytes `read`. -/
structure Consumed (data : ByteString) (offset : Nat) (read : ByteString) : Prop where
  offset_le : offset ≤ data.length
  eq_append : data = read ++ data.drop offset

theorem Consumed.start (data : ByteString) : Consumed data 0 [] := ⟨Nat.zero_le _, rfl⟩

theorem Consumed.next {data read bytes : ByteString} {offset offset' : Nat}
    (h : Consumed data offset read)
    (hread : ∃ rest, Remaining data offset (bytes ++ rest) ∧ Remaining data offset' rest) :
    Consumed data offset' (read ++ bytes) := by
  obtain ⟨rest, hbefore, hafter⟩ := hread
  refine ⟨hafter.offset_le, ?_⟩
  rw [hafter.drop_eq, List.append_assoc, ← hbefore.drop_eq]
  exact h.eq_append

theorem Consumed.readUint16 {data read : ByteString} {offset : Nat} (h : Consumed data offset read)
    (hb : offset + 2 ≤ data.length) :
    Consumed data (offset + 2) (read ++ uint16Bytes (readUint16 data offset hb)) :=
  h.next ⟨_, .readUint16 hb, (Remaining.readUint16 hb).advance⟩

theorem Consumed.readUint32 {data read : ByteString} {offset : Nat} (h : Consumed data offset read)
    (hb : offset + 4 ≤ data.length) :
    Consumed data (offset + 4) (read ++ uint32Bytes (readUint32 data offset hb)) :=
  h.next ⟨_, .readUint32 hb, (Remaining.readUint32 hb).advance⟩

theorem Consumed.readUint64 {data read : ByteString} {offset : Nat} (h : Consumed data offset read)
    (hb : offset + 8 ≤ data.length) :
    Consumed data (offset + 8) (read ++ uint64Bytes (readUint64 data offset hb)) :=
  h.next ⟨_, .readUint64 hb, (Remaining.readUint64 hb).advance⟩

theorem Consumed.all {data read : ByteString} {offset : Nat} (h : Consumed data offset read)
    (hend : offset = data.length) : data = read := by
  have := h.eq_append
  rwa [hend, List.drop_length, List.append_nil] at this

namespace RpcCodec

theorem readRequestMetadata_sound {frame : ParsedFrame} {decoded : RpcRequest}
    (h : readRequestMetadata frame = some decoded) :
    RequestGrammar frame.requestId frame.body frame.metadata
      { decoded with payload := frame.body } := by
  simp only [readRequestMetadata, Option.bind_eq_bind, Option.bind_eq_some_iff, Prod.exists] at h
  obtain ⟨serviceLength, o₁, hserviceLength, serviceName, o₂, hservice, methodLength, o₃,
    hmethodLength, methodName, o₄, hmethod, h⟩ := h
  have hnames := ((Consumed.start frame.metadata).next (prefixed_sound hserviceLength hservice)).next
    (prefixed_sound hmethodLength hmethod)
  split at h
  · simp only [Option.bind_eq_some_iff, Prod.exists, guard] at h
    obtain ⟨o₅, hheader, timeoutMs, o₆, htimeout, attempt, o₇, hattempt, traceId, o₈, htrace,
      serializer, o₉, hserializer, _, hend, h⟩ := h
    split at hend <;> cases hend
    rename_i hend
    cases h
    have hextension := ((((hnames.next (readExtensionHeader_sound hheader)).next
      (readMetadataUint64_sound htimeout)).next (readMetadataUint32_sound hattempt)).next
      (readLengthPrefixedString_sound htrace)).next (readLengthPrefixedString_sound hserializer)
    have hall := hextension.all hend
    simp only [List.nil_append, List.append_assoc] at hall
    rw [hall]
    exact .extended
  · rename_i hend
    cases h
    have hall := hnames.all (not_not.mp hend)
    rw [List.nil_append] at hall
    rw [hall]
    exact .plain

theorem readResponseMetadata_sound {frame : ParsedFrame} {decoded : RpcResponse}
    (h : readResponseMetadata frame = some decoded) :
    ResponseGrammar frame.requestId frame.body frame.metadata
      { decoded with payload := frame.body } := by
  simp only [readResponseMetadata, Option.bind_eq_bind, Option.bind_eq_some_iff, Prod.exists] at h
  obtain ⟨errorCode, o₁, hcode, messageLength, o₂, hmessageLength, errorMessage, o₃, hmessage,
    h⟩ := h
  have hfields := ((Consumed.start frame.metadata).next (readMetadataUint32_sound hcode)).next
    (prefixed_sound hmessageLength hmessage)
  split at h
  · simp only [Option.bind_eq_some_iff, Prod.exists, guard] at h
    obtain ⟨o₄, hheader, serverCostUs, o₅, hcost, traceId, o₆, htrace, serializer, o₇, hserializer,
      _, hend, h⟩ := h
    split at hend <;> cases hend
    rename_i hend
    cases h
    have hextension := (((hfields.next (readExtensionHeader_sound hheader)).next
      (readMetadataUint64_sound hcost)).next (readLengthPrefixedString_sound htrace)).next
      (readLengthPrefixedString_sound hserializer)
    have hall := hextension.all hend
    simp only [List.nil_append, List.append_assoc] at hall
    rw [hall]
    exact .extended
  · rename_i hend
    cases h
    have hall := hfields.all (not_not.mp hend)
    rw [List.nil_append] at hall
    rw [hall]
    exact .plain

theorem readRequest_iff {requestId : UInt64} {metadata body : ByteString} {totalLength : Nat}
    {request : RpcRequest} (hsize : metadata.length ≤ kMaxMessageSize) :
    readRequest ⟨requestId, metadata, body, totalLength⟩ = some request ↔
      RequestGrammar requestId body metadata request := by
  rw [readRequest, Option.map_eq_some_iff]
  constructor
  · rintro ⟨decoded, hread, rfl⟩
    exact readRequestMetadata_sound hread
  · rintro (_ | _)
    · exact ⟨_, readRequestMetadata_plain hsize rfl, rfl⟩
    · exact ⟨_, readRequestMetadata_extended hsize rfl, rfl⟩

theorem readResponse_iff {requestId : UInt64} {metadata body : ByteString} {totalLength : Nat}
    {response : RpcResponse} (hsize : metadata.length ≤ kMaxMessageSize) :
    readResponse ⟨requestId, metadata, body, totalLength⟩ = some response ↔
      ResponseGrammar requestId body metadata response := by
  rw [readResponse, Option.map_eq_some_iff]
  constructor
  · rintro ⟨decoded, hread, rfl⟩
    exact readResponseMetadata_sound hread
  · rintro (_ | _)
    · exact ⟨_, readResponseMetadata_plain hsize rfl, rfl⟩
    · exact ⟨_, readResponseMetadata_extended hsize rfl, rfl⟩

/-! ### Frames -/

theorem readHeader_sound {data : ByteString} (h : kRpcHeaderSize ≤ data.length) :
    data =
      (uint32Bytes (readHeader data h).magic ++ (uint16Bytes (readHeader data h).version ++
        (uint16Bytes (readHeader data h).messageType ++ (uint64Bytes (readHeader data h).requestId ++
          (uint32Bytes (readHeader data h).metadataLength ++
            uint32Bytes (readHeader data h).bodyLength))))) ++ data.drop kRpcHeaderSize := by
  have header : 24 ≤ data.length := by rwa [kRpcHeaderSize] at h
  have hmagic := (Consumed.start data).readUint32 (by omega)
  have hversion := hmagic.readUint16 (by omega)
  have htype := hversion.readUint16 (by omega)
  have hid := htype.readUint64 (by omega)
  have hmetadata := hid.readUint32 (by omega)
  have hfields := hmetadata.readUint32 (by omega)
  have hbytes := hfields.eq_append
  simp only [List.nil_append, List.append_assoc] at hbytes ⊢
  exact hbytes

theorem readHeader_lengthHeader {data : ByteString} (h : kRpcHeaderSize ≤ data.length)
    {type : MessageType} {requestId : UInt64} {metadataLength bodyLength : UInt32}
    {rest : ByteString}
    (hdata : data = lengthHeader type requestId metadataLength bodyLength ++ rest) :
    readHeader data h =
      { magic := kRpcMagic
        version := kProtocolVersion
        messageType := type.toUInt16
        requestId := requestId
        metadataLength := metadataLength
        bodyLength := bodyLength } := by
  have hmagic := Remaining.start hdata
  simp only [lengthHeader, List.append_assoc] at hmagic
  have hversion : Remaining data 4 _ := hmagic.advance
  have htype : Remaining data 6 _ := hversion.advance
  have hid : Remaining data 8 _ := htype.advance
  have hmetadata : Remaining data 16 _ := hid.advance
  have hbody : Remaining data 20 _ := hmetadata.advance
  rw [readHeader, readUint32_eq hmagic, readUint16_eq hversion, readUint16_eq htype,
    readUint64_eq hid, readUint32_eq hmetadata, readUint32_eq hbody]

/-- What `parseFrame` asks of a header. -/
structure ValidHeader (type : MessageType) (header : RpcHeader) : Prop where
  magic : header.magic = kRpcMagic
  version : header.version = kProtocolVersion
  messageType : header.messageType = type.toUInt16
  size : header.metadataLength.toNat + header.bodyLength.toNat ≤ kMaxMessageSize

theorem ValidHeader.starts {type : MessageType} {data : ByteString}
    {h : kRpcHeaderSize ≤ data.length} (hvalid : ValidHeader type (readHeader data h)) :
    data = lengthHeader type (readHeader data h).requestId (readHeader data h).metadataLength
      (readHeader data h).bodyLength ++ data.drop kRpcHeaderSize := by
  have hbytes := readHeader_sound h
  rw [hvalid.magic, hvalid.version, hvalid.messageType] at hbytes
  exact hbytes

theorem parseContent_cases (header : RpcHeader) (data : ByteString) (type : MessageType)
    (frame : ParsedFrame) :
    (¬ValidHeader type header ∧ parseContent header data type frame = (.protocolError, frame)) ∨
    ValidHeader type header ∧
      (data.length < kRpcHeaderSize + (header.metadataLength.toNat + header.bodyLength.toNat) ∧
        parseContent header data type frame = (.needMoreData, frame) ∨
      kRpcHeaderSize + (header.metadataLength.toNat + header.bodyLength.toNat) ≤ data.length ∧
        parseContent header data type frame =
          (.complete,
            { requestId := header.requestId
              metadata := (data.drop kRpcHeaderSize).take header.metadataLength.toNat
              body := (data.drop (kRpcHeaderSize + header.metadataLength.toNat)).take
                header.bodyLength.toNat
              totalLength :=
                kRpcHeaderSize + (header.metadataLength.toNat + header.bodyLength.toNat) })) := by
  simp only [parseContent]
  split
  · rename_i hwrong
    refine .inl ⟨fun hvalid => ?_, rfl⟩
    obtain hmagic | hversion | htype := hwrong
    · exact hmagic hvalid.magic
    · exact hversion hvalid.version
    · exact htype hvalid.messageType
  · rename_i hright
    simp only [not_or, not_not] at hright
    split
    · refine .inl ⟨fun hvalid => ?_, rfl⟩
      have := hvalid.size
      omega
    · refine .inr ⟨⟨hright.1, hright.2.1, hright.2.2, by omega⟩, ?_⟩
      split
      · exact .inl ⟨‹_›, rfl⟩
      · exact .inr ⟨Nat.not_lt.mp ‹_›, rfl⟩

theorem parseBytes_truncated {type : MessageType} {data : ByteString} (h : Truncated type data)
    (frame : ParsedFrame) : parseBytes data type frame = (.needMoreData, frame) := by
  by_cases hshort : data.length < kRpcHeaderSize
  · rw [parseBytes, dif_pos hshort]
  · obtain ⟨requestId, metadataLength, bodyLength, rest, hdata, hsize, hrest⟩ :=
      h.resolve_left hshort
    have hlen := congrArg List.length hdata
    rw [List.length_append, length_lengthHeader] at hlen
    rw [parseBytes, dif_neg hshort]
    have hheader := readHeader_lengthHeader (Nat.not_lt.mp hshort) hdata
    obtain ⟨hinvalid, -⟩ | ⟨-, ⟨-, hparse⟩ | ⟨hlong, -⟩⟩ :=
      parseContent_cases (readHeader data (Nat.not_lt.mp hshort)) data type frame
    · refine absurd ?_ hinvalid
      rw [hheader]
      exact ⟨rfl, rfl, rfl, hsize⟩
    · exact hparse
    · rw [hheader] at hlong
      simp only at hlong
      omega

theorem truncated_of_parseBytes {type : MessageType} {data : ByteString} {frame parsed : ParsedFrame}
    (h : parseBytes data type frame = (.needMoreData, parsed)) : Truncated type data := by
  by_cases hshort : data.length < kRpcHeaderSize
  · exact .inl hshort
  · rw [parseBytes, dif_neg hshort] at h
    obtain ⟨-, hparse⟩ | ⟨hvalid, ⟨hlong, -⟩ | ⟨-, hparse⟩⟩ :=
      parseContent_cases (readHeader data (Nat.not_lt.mp hshort)) data type frame
    · rw [hparse] at h
      cases h
    · refine .inr ⟨_, _, _, _, hvalid.starts, hvalid.size, ?_⟩
      rw [List.length_drop]
      omega
    · rw [hparse] at h
      cases h

theorem frame_of_parseBytes {type : MessageType} {data : ByteString} {frame parsed : ParsedFrame}
    (h : parseBytes data type frame = (.complete, parsed)) :
    ∃ rest, data = frameBytes type parsed.requestId parsed.metadata parsed.body ++ rest ∧
      parsed.metadata.length + parsed.body.length ≤ kMaxMessageSize := by
  by_cases hshort : data.length < kRpcHeaderSize
  · rw [parseBytes, dif_pos hshort] at h
    cases h
  · rw [parseBytes, dif_neg hshort] at h
    obtain ⟨-, hparse⟩ | ⟨hvalid, ⟨-, hparse⟩ | ⟨hfits, hparse⟩⟩ :=
      parseContent_cases (readHeader data (Nat.not_lt.mp hshort)) data type frame
    · rw [hparse] at h
      cases h
    · rw [hparse] at h
      cases h
    · rw [hparse] at h
      have hstarts := hvalid.starts
      have hsize := hvalid.size
      generalize readHeader data (Nat.not_lt.mp hshort) = header at *
      cases h
      have hmetadata : ((data.drop kRpcHeaderSize).take header.metadataLength.toNat).length =
          header.metadataLength.toNat := by
        rw [List.length_take, List.length_drop]
        omega
      have hbody : ((data.drop (kRpcHeaderSize + header.metadataLength.toNat)).take
          header.bodyLength.toNat).length = header.bodyLength.toNat := by
        rw [List.length_take, List.length_drop]
        omega
      refine ⟨data.drop (kRpcHeaderSize + (header.metadataLength.toNat + header.bodyLength.toNat)),
        ?_, ?_⟩
      · rw [frameBytes, headerBytes_eq, hmetadata, hbody, UInt32.ofNat_toNat, UInt32.ofNat_toNat,
          ← Nat.add_assoc, ← List.drop_drop (i := header.bodyLength.toNat), List.append_assoc,
          List.append_assoc, List.take_append_drop, ← List.drop_drop, List.take_append_drop]
        exact hstarts
      · rw [hmetadata, hbody]
        exact hsize

/-! ### The decoders accept the grammar and nothing else -/

/-- What the decoder does with the readable bytes of any buffer. -/
structure DecodesExactly {α : Type} (type : MessageType)
    (Grammar : UInt64 → ByteString → ByteString → α → Prop)
    (decode : Buffer → α → DecodeStatus × Buffer × α) (buffer : Buffer) (message : α) : Prop where
  complete : (decode buffer message).1 = .complete ↔
    ∃ decoded rest, FrameAt type Grammar buffer.peek decoded rest
  needMoreData : (decode buffer message).1 = .needMoreData ↔ Truncated type buffer.peek
  protocolError : (decode buffer message).1 = .protocolError ↔
    ¬(∃ decoded rest, FrameAt type Grammar buffer.peek decoded rest) ∧ ¬Truncated type buffer.peek
  accepted : ∀ decoded rest, FrameAt type Grammar buffer.peek decoded rest →
    (decode buffer message).2.2 = decoded ∧ (decode buffer message).2.1.peek = rest
  unchanged : (decode buffer message).1 ≠ .complete →
    (decode buffer message).2 = (buffer, message)

theorem truncated_of_tryDecode {α : Type} {type : MessageType} {readMessage : ParsedFrame → Option α}
    {buffer : Buffer} {message : α}
    (h : (tryDecode type readMessage buffer message).1 = .needMoreData) :
    Truncated type buffer.peek := by
  rw [tryDecode, parseFrame_eq] at h
  rcases hparse : parseBytes buffer.peek type {} with ⟨status, frame⟩
  rw [hparse] at h
  cases status with
  | needMoreData => exact truncated_of_parseBytes hparse
  | protocolError => cases h
  | complete =>
    simp only at h
    split at h <;> cases h

theorem tryDecode_unchanged {α : Type} {type : MessageType} {readMessage : ParsedFrame → Option α}
    (buffer : Buffer) (message : α)
    (h : (tryDecode type readMessage buffer message).1 ≠ .complete) :
    (tryDecode type readMessage buffer message).2 = (buffer, message) := by
  rw [tryDecode] at h ⊢
  split
  · split
    · simp_all
    · rfl
  · rfl

section Exact

variable {α : Type} {type : MessageType} {Grammar : UInt64 → ByteString → ByteString → α → Prop}
  {readMessage : ParsedFrame → Option α}
  (hread : ∀ {requestId metadata body totalLength decoded}, metadata.length ≤ kMaxMessageSize →
    (readMessage ⟨requestId, metadata, body, totalLength⟩ = some decoded ↔
      Grammar requestId body metadata decoded))
include hread

theorem tryDecode_of_frameAt {buffer : Buffer} {decoded : α} {rest : ByteString}
    (h : FrameAt type Grammar buffer.peek decoded rest) (message : α) :
    ∃ buffer', tryDecode type readMessage buffer message = (.complete, buffer', decoded) ∧
      buffer'.peek = rest := by
  obtain ⟨requestId, metadata, body, hpeek, hsize, hgrammar⟩ := h
  exact tryDecode_frameBytes message hsize hpeek fun _ => (hread (by omega)).mpr hgrammar

theorem frameAt_of_tryDecode {buffer : Buffer} {message : α}
    (h : (tryDecode type readMessage buffer message).1 = .complete) :
    ∃ decoded rest, FrameAt type Grammar buffer.peek decoded rest := by
  rw [tryDecode, parseFrame_eq] at h
  rcases hparse : parseBytes buffer.peek type {} with ⟨status, frame⟩
  rw [hparse] at h
  cases status with
  | needMoreData => cases h
  | protocolError => cases h
  | complete =>
    obtain ⟨rest, hdata, hsize⟩ := frame_of_parseBytes hparse
    cases hmessage : readMessage frame with
    | none => simp [hmessage] at h
    | some decoded =>
      exact ⟨decoded, rest, _, _, _, hdata, hsize, (hread (by omega)).mp hmessage⟩

theorem tryDecode_exact (buffer : Buffer) (message : α) :
    DecodesExactly type Grammar (tryDecode type readMessage) buffer message := by
  have hcomplete : (tryDecode type readMessage buffer message).1 = .complete ↔
      ∃ decoded rest, FrameAt type Grammar buffer.peek decoded rest := by
    refine ⟨frameAt_of_tryDecode hread, ?_⟩
    rintro ⟨decoded, rest, hframe⟩
    obtain ⟨buffer', hdecode, -⟩ := tryDecode_of_frameAt hread hframe message
    rw [hdecode]
  have hneed : (tryDecode type readMessage buffer message).1 = .needMoreData ↔
      Truncated type buffer.peek := by
    constructor
    · exact truncated_of_tryDecode
    · intro htruncated
      rw [tryDecode, parseFrame_eq, parseBytes_truncated htruncated]
  refine ⟨hcomplete, hneed, ?_, ?_, ?_⟩
  · rw [← hcomplete, ← hneed]
    cases (tryDecode type readMessage buffer message).1 <;> simp
  · intro decoded rest hframe
    obtain ⟨buffer', hdecode, hrest⟩ := tryDecode_of_frameAt hread hframe message
    rw [hdecode]
    exact ⟨rfl, hrest⟩
  · exact tryDecode_unchanged buffer message

end Exact

theorem tryDecodeRequest_exact (buffer : Buffer) (message : RpcRequest) :
    DecodesExactly .request RequestGrammar tryDecodeRequest buffer message :=
  tryDecode_exact readRequest_iff buffer message

theorem tryDecodeResponse_exact (buffer : Buffer) (message : RpcResponse) :
    DecodesExactly .response ResponseGrammar tryDecodeResponse buffer message :=
  tryDecode_exact readResponse_iff buffer message

end RpcCodec

end UnixNotes.Rpc
