import UnixNotes.Library.StreamDecoder
import UnixNotes.Rpc.RoundTrip

namespace UnixNotes.Rpc

open Reactor (Buffer)
open Library (Outcome StreamDecoder Drained)

theorem readUint16_append {data : ByteString} {offset : Nat} (h : offset + 2 ≤ data.length)
    (more : ByteString) (h' : offset + 2 ≤ (data ++ more).length) :
    readUint16 (data ++ more) offset h' = readUint16 data offset h := by
  simp only [readUint16]
  rw [List.getElem_append_left (by omega), List.getElem_append_left (by omega)]

theorem readUint32_append {data : ByteString} {offset : Nat} (h : offset + 4 ≤ data.length)
    (more : ByteString) (h' : offset + 4 ≤ (data ++ more).length) :
    readUint32 (data ++ more) offset h' = readUint32 data offset h := by
  simp only [readUint32]
  rw [List.getElem_append_left (by omega), List.getElem_append_left (by omega),
    List.getElem_append_left (by omega), List.getElem_append_left (by omega)]

theorem readHeader_append {data : ByteString} (h : kRpcHeaderSize ≤ data.length)
    (more : ByteString) (h' : kRpcHeaderSize ≤ (data ++ more).length) :
    readHeader (data ++ more) h' = readHeader data h := by
  have header : 24 ≤ data.length := by rwa [kRpcHeaderSize] at h
  simp only [readHeader, readUint64]
  rw [readUint32_append (by omega), readUint16_append (by omega), readUint16_append (by omega),
    readUint32_append (by omega), readUint32_append (by omega), readUint32_append (by omega),
    readUint32_append (by omega)]

/-- What `parseFrame` decides from a whole header and the readable bytes. -/
def parseContent (header : RpcHeader) (data : ByteString) (expectedType : MessageType)
    (frame : ParsedFrame) : DecodeStatus × ParsedFrame :=
  if header.magic ≠ kRpcMagic ∨ header.version ≠ kProtocolVersion ∨
      header.messageType ≠ expectedType.toUInt16 then
    (.protocolError, frame)
  else if header.metadataLength.toNat > kMaxMessageSize ∨
      header.bodyLength.toNat > kMaxMessageSize - header.metadataLength.toNat then
    (.protocolError, frame)
  else if data.length < kRpcHeaderSize + (header.metadataLength.toNat + header.bodyLength.toNat) then
    (.needMoreData, frame)
  else
    (.complete,
      { requestId := header.requestId
        metadata := (data.drop kRpcHeaderSize).take header.metadataLength.toNat
        body := (data.drop (kRpcHeaderSize + header.metadataLength.toNat)).take
          header.bodyLength.toNat
        totalLength :=
          kRpcHeaderSize + (header.metadataLength.toNat + header.bodyLength.toNat) })

def parseBytes (data : ByteString) (expectedType : MessageType) (frame : ParsedFrame) :
    DecodeStatus × ParsedFrame :=
  if h : data.length < kRpcHeaderSize then (.needMoreData, frame)
  else parseContent (readHeader data (Nat.not_lt.mp h)) data expectedType frame

theorem parseFrame_eq (buffer : Buffer) (expectedType : MessageType) (frame : ParsedFrame) :
    parseFrame buffer expectedType frame = parseBytes buffer.peek expectedType frame := by
  simp only [parseFrame, parseBytes, parseContent, Buffer.length_peek]

theorem parseContent_append {header : RpcHeader} {data : ByteString} {expectedType : MessageType}
    {frame : ParsedFrame} (more : ByteString)
    (h : (parseContent header data expectedType frame).1 ≠ .needMoreData) :
    parseContent header (data ++ more) expectedType frame =
      parseContent header data expectedType frame := by
  simp only [parseContent] at h ⊢
  split
  · rfl
  · split
    · rfl
    · by_cases hshort :
          data.length < kRpcHeaderSize + (header.metadataLength.toNat + header.bodyLength.toNat)
      · simp_all
      · rw [if_neg (by rw [List.length_append]; omega), if_neg hshort,
          List.drop_append_of_le_length (by omega), List.drop_append_of_le_length (by omega),
          List.take_append_of_le_length (by rw [List.length_drop]; omega),
          List.take_append_of_le_length (by rw [List.length_drop]; omega)]

theorem parseContent_complete {header : RpcHeader} {data : ByteString} {expectedType : MessageType}
    {frame parsed : ParsedFrame}
    (h : parseContent header data expectedType frame = (.complete, parsed)) :
    kRpcHeaderSize ≤ parsed.totalLength ∧ parsed.totalLength ≤ data.length := by
  simp only [parseContent] at h
  split at h
  · cases h
  · split at h
    · cases h
    · split at h
      · cases h
      · cases h
        exact ⟨Nat.le_add_right _ _, Nat.not_lt.mp ‹_›⟩

theorem parseBytes_append (data : ByteString) (expectedType : MessageType) (frame : ParsedFrame)
    (more : ByteString) (h : (parseBytes data expectedType frame).1 ≠ .needMoreData) :
    parseBytes (data ++ more) expectedType frame = parseBytes data expectedType frame := by
  by_cases hshort : data.length < kRpcHeaderSize
  · simp [parseBytes, hshort] at h
  · have hlonger : ¬(data ++ more).length < kRpcHeaderSize := by
      rw [List.length_append]; omega
    simp only [parseBytes, dif_neg hshort] at h
    simp only [parseBytes, dif_neg hshort, dif_neg hlonger]
    rw [readHeader_append (Nat.not_lt.mp hshort), parseContent_append more h]

theorem parseBytes_complete {data : ByteString} {expectedType : MessageType}
    {frame parsed : ParsedFrame} (h : parseBytes data expectedType frame = (.complete, parsed)) :
    kRpcHeaderSize ≤ parsed.totalLength ∧ parsed.totalLength ≤ data.length := by
  rw [parseBytes] at h
  split at h
  · cases h
  · exact parseContent_complete h

section Decoder

variable {α : Type} (expectedType : MessageType) (readMessage : ParsedFrame → Option α)

def decodeBytes (bytes : ByteString) : Outcome UInt8 α :=
  match parseBytes bytes expectedType {} with
  | (.needMoreData, _) => .needMore
  | (.protocolError, _) => .error
  | (.complete, frame) =>
    match readMessage frame with
    | none => .error
    | some decoded => .complete decoded (bytes.drop frame.totalLength)

theorem decodeBytes_append {bytes : ByteString}
    (h : decodeBytes expectedType readMessage bytes ≠ .needMore) (more : ByteString) :
    decodeBytes expectedType readMessage (bytes ++ more) =
      match decodeBytes expectedType readMessage bytes with
      | .needMore => .needMore
      | .error => .error
      | .complete decoded rest => .complete decoded (rest ++ more) := by
  simp only [decodeBytes] at h ⊢
  rcases hparse : parseBytes bytes expectedType {} with ⟨status, frame⟩
  have happend := parseBytes_append bytes expectedType {} more
  rw [hparse] at h happend
  cases status with
  | needMoreData => simp at h
  | protocolError => rw [happend (by simp)]
  | complete =>
    rw [happend (by simp)]
    cases hread : readMessage frame with
    | none => simp only [hread]
    | some decoded =>
      simp only [hread, List.drop_append_of_le_length (parseBytes_complete hparse).2]

def frameDecoder : StreamDecoder UInt8 α where
  decode := decodeBytes expectedType readMessage
  decode_nil := by
    simp [decodeBytes, parseBytes, kRpcHeaderSize]
  complete_append := by
    intro s m r h t
    rw [decodeBytes_append expectedType readMessage (by rw [h]; simp), h]
  error_append := by
    intro s h t
    rw [decodeBytes_append expectedType readMessage (by rw [h]; simp), h]
  consumes := by
    intro s m r h
    rw [decodeBytes] at h
    rcases hparse : parseBytes s expectedType {} with ⟨status, frame⟩
    rw [hparse] at h
    cases status with
    | needMoreData => cases h
    | protocolError => cases h
    | complete =>
      have hbound := parseBytes_complete hparse
      rw [kRpcHeaderSize] at hbound
      cases hread : readMessage frame with
      | none => simp [hread] at h
      | some decoded =>
        simp only [hread, Outcome.complete.injEq] at h
        rw [← h.2, List.length_drop]
        omega

end Decoder

section Loop

variable {α : Type}

/-- The messages one run of `for (;;)` hands on, its last status and the buffer it leaves; `none`
when `fuel` rounds were not enough. -/
def decodeLoop (tryDecode : Buffer → α → DecodeStatus × Buffer × α) (message : α) :
    Nat → Buffer → Option (List α × DecodeStatus × Buffer)
  | 0, _ => none
  | fuel + 1, buffer =>
    match tryDecode buffer message with
    | (.needMoreData, buffer, _) => some ([], .needMoreData, buffer)
    | (.protocolError, buffer, _) => some ([], .protocolError, buffer)
    | (.complete, buffer, decoded) =>
      (decodeLoop tryDecode message fuel buffer).map
        fun (messages, status, buffer) => (decoded :: messages, status, buffer)

/-- A connection as its receiver sees it. -/
structure Session (α : Type) where
  buffer : Buffer
  messages : List α
  status : DecodeStatus

def Session.start : Session α := ⟨Buffer.empty, [], .needMoreData⟩

/-- A chunk arrives: it is appended and the loop runs, unless an earlier run has closed the
connection. -/
def Session.receive (loop : Buffer → Option (List α × DecodeStatus × Buffer))
    (session : Session α) (chunk : ByteString) : Option (Session α) :=
  if session.status = .protocolError then
    some session
  else
    (loop (session.buffer.append chunk)).map
      fun (messages, status, buffer) => ⟨buffer, session.messages ++ messages, status⟩

def Session.receiveAll (loop : Buffer → Option (List α × DecodeStatus × Buffer))
    (chunks : List ByteString) : Option (Session α) :=
  chunks.foldlM (Session.receive loop) Session.start

variable (expectedType : MessageType) (readMessage : ParsedFrame → Option α) (message : α)

def statusOf (failed : Bool) : DecodeStatus := if failed then .protocolError else .needMoreData

theorem statusOf_injective {a b : Bool} (h : statusOf a = statusOf b) : a = b := by
  cases a <;> cases b <;> simp_all [statusOf]

theorem decodeLoop_eq_drain {fuel : Nat} {buffer : Buffer} (hfuel : buffer.readableBytes < fuel) :
    ∃ left, decodeLoop (RpcCodec.tryDecode expectedType readMessage) message fuel buffer =
        some (((frameDecoder expectedType readMessage).drain buffer.peek).messages,
          statusOf ((frameDecoder expectedType readMessage).drain buffer.peek).failed, left) ∧
      left.peek = ((frameDecoder expectedType readMessage).drain buffer.peek).rest := by
  induction fuel generalizing buffer with
  | zero => omega
  | succ fuel ih =>
    have hparse := parseFrame_eq buffer expectedType {}
    have hdecode : (frameDecoder expectedType readMessage).decode buffer.peek =
      decodeBytes expectedType readMessage buffer.peek := rfl
    rw [decodeBytes] at hdecode
    rcases hbytes : parseBytes buffer.peek expectedType {} with ⟨status, frame⟩
    rw [hbytes] at hdecode hparse
    cases status with
    | needMoreData =>
      rw [(frameDecoder expectedType readMessage).drain_needMore hdecode]
      exact ⟨buffer, by simp [decodeLoop, RpcCodec.tryDecode, hparse, statusOf], rfl⟩
    | protocolError =>
      rw [(frameDecoder expectedType readMessage).drain_error hdecode]
      exact ⟨buffer, by simp [decodeLoop, RpcCodec.tryDecode, hparse, statusOf], rfl⟩
    | complete =>
      have hbound := parseBytes_complete hbytes
      rw [Buffer.length_peek, kRpcHeaderSize] at hbound
      obtain ⟨next, hretrieve, hpeek⟩ := buffer.retrieve_eq_ok hbound.2
      cases hread : readMessage frame with
      | none =>
        simp only [hread] at hdecode
        rw [(frameDecoder expectedType readMessage).drain_error hdecode]
        exact ⟨buffer, by simp [decodeLoop, RpcCodec.tryDecode, hparse, hread, statusOf], rfl⟩
      | some decoded =>
        simp only [hread] at hdecode
        have hshorter : next.readableBytes < fuel := by
          rw [← Buffer.length_peek, hpeek, List.length_drop, Buffer.length_peek]
          omega
        obtain ⟨left, hloop, hleft⟩ := ih hshorter
        rw [hpeek] at hloop hleft
        rw [(frameDecoder expectedType readMessage).drain_complete hdecode]
        exact ⟨left, by simp [decodeLoop, RpcCodec.tryDecode, hparse, hread, hretrieve, hloop,
          Drained.prepend], hleft⟩

/-- The state of a connection whose stream has been drained to `d`. -/
structure Session.Holds (session : Session α) (d : Drained UInt8 α) : Prop where
  messages : session.messages = d.messages
  status : session.status = statusOf d.failed
  peek : session.buffer.peek = d.rest

theorem Session.receive_feed {session : Session α} {d : Drained UInt8 α} (h : session.Holds d)
    {fuel : Nat} {chunk : ByteString} (hfuel : d.rest.length + chunk.length < fuel) :
    ∃ next, session.receive
        (decodeLoop (RpcCodec.tryDecode expectedType readMessage) message fuel) chunk = some next ∧
      next.Holds ((frameDecoder expectedType readMessage).feed d chunk) := by
  rw [receive, StreamDecoder.feed, h.status]
  cases hf : d.failed with
  | true => exact ⟨session, by simp [statusOf], h⟩
  | false =>
    have hlength : (session.buffer.append chunk).readableBytes < fuel := by
      rw [← Buffer.length_peek, Buffer.peek_append, h.peek, List.length_append]
      exact hfuel
    obtain ⟨left, hloop, hleft⟩ := decodeLoop_eq_drain expectedType readMessage message
      hlength
    rw [Buffer.peek_append, h.peek] at hloop hleft
    simp only [statusOf, Bool.false_eq_true, if_false, reduceCtorEq, hloop, Option.map_some]
    exact ⟨_, rfl, by simp [h.messages, Drained.prepend], rfl, hleft⟩

theorem Session.foldlM_receive {fuel : Nat} (chunks : List ByteString) {session : Session α}
    {d : Drained UInt8 α} (h : session.Holds d)
    (hfuel : d.rest.length + chunks.flatten.length < fuel) :
    ∃ last, chunks.foldlM
        (Session.receive
          (decodeLoop (RpcCodec.tryDecode expectedType readMessage) message fuel)) session =
        some last ∧
      last.Holds (chunks.foldl (frameDecoder expectedType readMessage).feed d) := by
  induction chunks generalizing session d with
  | nil => exact ⟨session, rfl, h⟩
  | cons chunk chunks ih =>
    rw [List.flatten_cons, List.length_append] at hfuel
    have hfirst : d.rest.length + chunk.length < fuel := by omega
    obtain ⟨next, hnext, hholds⟩ := receive_feed expectedType readMessage message h
      hfirst
    have hrest := (frameDecoder expectedType readMessage).length_rest_feed d chunk
    obtain ⟨last, hlast, hholds⟩ := ih hholds (by omega)
    exact ⟨last, by simp [List.foldlM_cons, hnext, hlast], hholds⟩

theorem Session.receiveAll_drain {fuel : Nat} (chunks : List ByteString)
    (hfuel : chunks.flatten.length < fuel) :
    ∃ last, receiveAll
        (decodeLoop (RpcCodec.tryDecode expectedType readMessage) message fuel) chunks = some last ∧
      last.Holds (chunks.foldl (frameDecoder expectedType readMessage).feed Drained.start) :=
  foldlM_receive expectedType readMessage message chunks ⟨rfl, rfl, Buffer.peek_empty⟩ (by simpa [Drained.start] using hfuel)

/-- Two receivers that nobody can tell apart: the same messages and final status, and the same
unconsumed bytes while more input could still complete a message. -/
structure Session.SameOutcome (session other : Session α) : Prop where
  messages : session.messages = other.messages
  status : session.status = other.status
  unconsumed : other.status = .needMoreData → session.buffer.peek = other.buffer.peek

theorem Session.receiveAll_sameOutcome {fuel : Nat} (chunks : List ByteString)
    (hfuel : chunks.flatten.length < fuel) :
    ∃ split whole,
      receiveAll (decodeLoop (RpcCodec.tryDecode expectedType readMessage) message fuel) chunks =
        some split ∧
      receiveAll (decodeLoop (RpcCodec.tryDecode expectedType readMessage) message fuel)
        [chunks.flatten] = some whole ∧
      split.SameOutcome whole := by
  obtain ⟨split, hsplit, hsplitHolds⟩ := receiveAll_drain expectedType readMessage message chunks hfuel
  obtain ⟨whole, hwhole, hwholeHolds⟩ := receiveAll_drain expectedType readMessage message [chunks.flatten] (by simpa using hfuel)
  refine ⟨split, whole, hsplit, hwhole, ?_⟩
  have hagrees := (frameDecoder expectedType readMessage).feed_chunks_agrees chunks
  have hone : [chunks.flatten].foldl (frameDecoder expectedType readMessage).feed Drained.start =
      (frameDecoder expectedType readMessage).drain chunks.flatten := by
    simp [StreamDecoder.feed, Drained.start]
  rw [hone] at hwholeHolds
  constructor
  · rw [hsplitHolds.messages, hwholeHolds.messages, hagrees.messages]
  · rw [hsplitHolds.status, hwholeHolds.status, hagrees.failed]
  · intro hstatus
    rw [hwholeHolds.status] at hstatus
    rw [hsplitHolds.peek, hwholeHolds.peek, hagrees.rest (statusOf_injective hstatus)]

end Loop

def RpcServer.decodeLoop : Nat → Buffer → Option (List RpcRequest × DecodeStatus × Buffer) :=
  Rpc.decodeLoop RpcCodec.tryDecodeRequest {}

def RpcClient.decodeLoop : Nat → Buffer → Option (List RpcResponse × DecodeStatus × Buffer) :=
  Rpc.decodeLoop RpcCodec.tryDecodeResponse {}

/-- Every run of a decode loop ends within one round more than there are readable bytes, and a
stream cut into chunks is received like the stream in one piece. -/
theorem decodeLoop_chunks (chunks : List ByteString) {fuel : Nat}
    (hfuel : chunks.flatten.length < fuel) :
    ((∀ buffer : Buffer, buffer.readableBytes < fuel →
          (RpcServer.decodeLoop fuel buffer).isSome) ∧
      ∃ split whole,
        Session.receiveAll (RpcServer.decodeLoop fuel) chunks = some split ∧
        Session.receiveAll (RpcServer.decodeLoop fuel) [chunks.flatten] = some whole ∧
        split.SameOutcome whole) ∧
    ((∀ buffer : Buffer, buffer.readableBytes < fuel →
          (RpcClient.decodeLoop fuel buffer).isSome) ∧
      ∃ split whole,
        Session.receiveAll (RpcClient.decodeLoop fuel) chunks = some split ∧
        Session.receiveAll (RpcClient.decodeLoop fuel) [chunks.flatten] = some whole ∧
        split.SameOutcome whole) := by
  refine ⟨⟨?_, Session.receiveAll_sameOutcome .request RpcCodec.readRequest {} chunks hfuel⟩,
    ⟨?_, Session.receiveAll_sameOutcome .response RpcCodec.readResponse {} chunks hfuel⟩⟩
  · intro buffer hbuffer
    obtain ⟨left, hloop, -⟩ := decodeLoop_eq_drain .request RpcCodec.readRequest
      ({} : RpcRequest) hbuffer
    exact Option.isSome_of_eq_some hloop
  · intro buffer hbuffer
    obtain ⟨left, hloop, -⟩ := decodeLoop_eq_drain .response RpcCodec.readResponse
      ({} : RpcResponse) hbuffer
    exact Option.isSome_of_eq_some hloop

/-- The smallest request, cut into two, and the beginning of another. -/
def cutRequest : List ByteString :=
  [(frameBytes .request 7 (requestMetadata {}) []).take 10,
    (frameBytes .request 7 (requestMetadata {}) []).drop 10 ++ [77, 82]]

set_option maxRecDepth 10000 in
theorem decodeLoop_chunks_two :
    (Session.receiveAll (RpcServer.decodeLoop 35) cutRequest).map
        (fun session => session.messages.map (·.requestId)) = some [7] ∧
      ∃ split whole,
        Session.receiveAll (RpcServer.decodeLoop 35) cutRequest = some split ∧
        Session.receiveAll (RpcServer.decodeLoop 35) [cutRequest.flatten] = some whole ∧
        split.SameOutcome whole :=
  ⟨by decide, (decodeLoop_chunks cutRequest (by decide)).1.2⟩

end UnixNotes.Rpc
