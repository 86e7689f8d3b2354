import UnixNotes.Reactor.Buffer

namespace UnixNotes.Reactor

inductive BufferOp where
  | append (bytes : ByteString)
  | prepend (bytes : ByteString)
  | retrieve (length : Nat)
  | retrieveAll
  | retrieveAllAsString

/-- What an operation returns or throws, and the buffer after it; an exception is thrown before
anything is assigned. -/
def BufferOp.exec (b : Buffer) : BufferOp → Except BufferError ByteString × Buffer
  | .append bytes => (.ok [], b.append bytes)
  | .prepend bytes =>
    match b.prepend bytes with
    | .ok b' => (.ok [], b')
    | .error e => (.error e, b)
  | .retrieve length =>
    match b.retrieve length with
    | .ok b' => (.ok [], b')
    | .error e => (.error e, b)
  | .retrieveAll => (.ok [], b.retrieveAll)
  | .retrieveAllAsString => (.ok b.retrieveAllAsString.1, b.retrieveAllAsString.2)

def Buffer.run (b : Buffer) : List BufferOp → List (Except BufferError ByteString) × Buffer
  | [] => ([], b)
  | op :: ops =>
    let (result, b') := op.exec b
    let (results, b'') := b'.run ops
    (result :: results, b'')

/-- What a byte string does for an operation. Only the room in front of it is not a matter of the
string. -/
inductive BufferOp.Acts (m : ByteString) :
    BufferOp → Except BufferError ByteString → ByteString → Prop
  | append (bytes : ByteString) : Acts m (.append bytes) (.ok []) (m ++ bytes)
  | prepend (bytes : ByteString) : Acts m (.prepend bytes) (.ok []) (bytes ++ m)
  | noRoom (bytes : ByteString) :
    Acts m (.prepend bytes) (.error .notEnoughPrependableSpace) m
  | retrieve {length : Nat} (h : length ≤ m.length) :
    Acts m (.retrieve length) (.ok []) (m.drop length)
  | beyond {length : Nat} (h : m.length < length) :
    Acts m (.retrieve length) (.error .retrieveBeyondReadable) m
  | retrieveAll : Acts m .retrieveAll (.ok []) []
  | retrieveAllAsString : Acts m .retrieveAllAsString (.ok m) []

inductive BufferOp.ActsAll :
    ByteString → List BufferOp → List (Except BufferError ByteString) → ByteString → Prop
  | nil (m : ByteString) : ActsAll m [] [] m
  | cons {m m' m'' : ByteString} {op : BufferOp} {ops : List BufferOp}
    {result : Except BufferError ByteString} {results : List (Except BufferError ByteString)}
    (first : op.Acts m result m') (rest : ActsAll m' ops results m'') :
    ActsAll m (op :: ops) (result :: results) m''

namespace Buffer

variable {b b' : Buffer} {bytes : ByteString} {length : Nat}

theorem peek_of_prepend (h : b.prepend bytes = .ok b') : b'.peek = bytes ++ b.peek := by
  rw [prepend] at h
  split at h
  · cases h
  · rename_i hroom
    cases h
    have hreader := b.reader_le_writer
    have hwriter := b.writer_le_size
    have hfits : bytes.length ≤ b.readerIndex := Nat.not_lt.mp hroom
    have hfront : (b.data.take (b.readerIndex - bytes.length)).length =
        b.readerIndex - bytes.length := by
      rw [List.length_take]
      omega
    change ((memcpy b.data (b.readerIndex - bytes.length) bytes).take b.writerIndex).drop
      (b.readerIndex - bytes.length) = _
    rw [memcpy, Nat.sub_add_cancel hfits, List.append_assoc, List.drop_take]
    rw [List.drop_left' hfront, List.take_append, List.take_of_length_le (by omega), peek, List.drop_take]
    congr 2
    omega

theorem prepend_error {e : BufferError} (h : b.prepend bytes = .error e) :
    e = .notEnoughPrependableSpace := by
  rw [prepend] at h
  split at h
  · cases h
    rfl
  · cases h

theorem retrieve_error {e : BufferError} (h : b.retrieve length = .error e) :
    b.peek.length < length ∧ e = .retrieveBeyondReadable := by
  rw [retrieve] at h
  split at h
  · cases h
    exact ⟨by rwa [length_peek], rfl⟩
  · cases h

theorem retrieve_ok (h : b.retrieve length = .ok b') :
    length ≤ b.peek.length ∧ b'.peek = b.peek.drop length := by
  by_cases hlength : length ≤ b.readableBytes
  · obtain ⟨b'', hretrieve, hpeek⟩ := retrieve_eq_ok hlength
    cases hretrieve.symm.trans h
    exact ⟨by rwa [length_peek], hpeek⟩
  · rw [retrieve, dif_pos (Nat.not_le.mp hlength)] at h
    cases h

end Buffer

theorem BufferOp.acts_exec (b : Buffer) (op : BufferOp) :
    op.Acts b.peek (op.exec b).1 (op.exec b).2.peek := by
  cases op with
  | append bytes =>
    rw [exec, Buffer.peek_append]
    exact .append bytes
  | prepend bytes =>
    rw [exec]
    split
    · rename_i h
      rw [Buffer.peek_of_prepend h]
      exact .prepend bytes
    · rename_i h
      rw [Buffer.prepend_error h]
      exact .noRoom bytes
  | retrieve length =>
    rw [exec]
    split
    · rename_i h
      obtain ⟨hlength, hpeek⟩ := Buffer.retrieve_ok h
      rw [hpeek]
      exact .retrieve hlength
    · rename_i h
      obtain ⟨hlength, rfl⟩ := Buffer.retrieve_error h
      exact .beyond hlength
  | retrieveAll =>
    rw [exec, Buffer.peek_retrieveAll]
    exact .retrieveAll
  | retrieveAllAsString =>
    rw [exec, Buffer.retrieveAllAsString, Buffer.peek_retrieveAll]
    exact .retrieveAllAsString

theorem Buffer.actsAll_run (b : Buffer) (ops : List BufferOp) :
    BufferOp.ActsAll b.peek ops (b.run ops).1 (b.run ops).2.peek := by
  induction ops generalizing b with
  | nil => exact .nil b.peek
  | cons op ops ih => exact .cons (op.acts_exec b) (ih (op.exec b).2)

theorem BufferOp.exec_of_error {b : Buffer} {op : BufferOp} {e : BufferError}
    (h : (op.exec b).1 = .error e) : (op.exec b).2 = b := by
  cases op with
  | append => cases h
  | prepend bytes =>
    rw [exec] at h ⊢
    split at h
    · cases h
    · rfl
  | retrieve length =>
    rw [exec] at h ⊢
    split at h
    · cases h
    · rfl
  | retrieveAll => cases h
  | retrieveAllAsString => cases h

def Buffer.Slides (b : Buffer) (length : Nat) : Prop :=
  b.writableBytes < length ∧ length + kCheapPrepend ≤ b.writableBytes + b.prependableBytes

/-- Every copy of an operation reads and writes inside of the storage, and the one that copies the
storage onto itself goes towards the front, where it never overwrites what it still has to read. -/
def BufferOp.CopiesInside (b : Buffer) : BufferOp → Prop
  | .append bytes =>
    (b.Slides bytes.length → kCheapPrepend < b.readerIndex ∧
      kCheapPrepend + b.readableBytes ≤ b.data.length) ∧
    (b.ensureWritableBytes bytes.length).writerIndex + bytes.length ≤
      (b.ensureWritableBytes bytes.length).data.length
  | .prepend bytes => bytes.length ≤ b.prependableBytes → b.readerIndex ≤ b.data.length
  | .retrieveAllAsString => b.readerIndex + b.readableBytes ≤ b.data.length
  | _ => True

theorem Buffer.slide_inside (b : Buffer) {length : Nat} (h : b.Slides length) :
    kCheapPrepend < b.readerIndex ∧ kCheapPrepend + b.readableBytes ≤ b.data.length := by
  have hreader := b.reader_le_writer
  have hwriter := b.writer_le_size
  obtain ⟨hfull, hroom⟩ := h
  simp only [writableBytes, prependableBytes, readableBytes] at *
  omega

theorem BufferOp.copiesInside (b : Buffer) (op : BufferOp) : op.CopiesInside b := by
  have hreader := b.reader_le_writer
  have hwriter := b.writer_le_size
  cases op with
  | append bytes =>
    refine ⟨b.slide_inside, ?_⟩
    have hroom := b.le_writableBytes_ensureWritableBytes bytes.length
    have hinside := (b.ensureWritableBytes bytes.length).writer_le_size
    rw [Buffer.writableBytes] at hroom
    omega
  | prepend bytes => exact fun _ => Nat.le_trans hreader hwriter
  | retrieve length => trivial
  | retrieveAll => trivial
  | retrieveAllAsString =>
    change b.readerIndex + (b.writerIndex - b.readerIndex) ≤ _
    omega

theorem buffer_is_byteString (ops : List BufferOp) :
    BufferOp.ActsAll [] ops (Buffer.empty.run ops).1 (Buffer.empty.run ops).2.peek ∧
    (Buffer.empty.run ops).2.readerIndex ≤ (Buffer.empty.run ops).2.writerIndex ∧
    (Buffer.empty.run ops).2.writerIndex ≤ (Buffer.empty.run ops).2.data.length ∧
    ∀ op : BufferOp, op.CopiesInside (Buffer.empty.run ops).2 ∧
      ∀ e, (op.exec (Buffer.empty.run ops).2).1 = .error e →
        (op.exec (Buffer.empty.run ops).2).2 = (Buffer.empty.run ops).2 := by
  have hacts := Buffer.empty.actsAll_run ops
  rw [Buffer.peek_empty] at hacts
  exact ⟨hacts, (Buffer.empty.run ops).2.reader_le_writer,
    (Buffer.empty.run ops).2.writer_le_size,
    fun op => ⟨op.copiesInside _, fun e => BufferOp.exec_of_error⟩⟩

end UnixNotes.Reactor
