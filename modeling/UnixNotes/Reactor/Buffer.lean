import UnixNotes.Library.Bytes

namespace UnixNotes.Reactor

def kCheapPrepend : Nat := 8
def kInitialSize : Nat := 1024

/-- `std::copy` of `count` elements from `first` to `dest`, one at a time from the front. -/
def copyForward : Nat → Nat → Nat → ByteString → ByteString
  | 0, _, _, data => data
  | count + 1, first, dest, data =>
    copyForward count (first + 1) (dest + 1) (data.set dest (data.getD first 0))

@[simp] theorem length_copyForward (count first dest : Nat) (data : ByteString) :
    (copyForward count first dest data).length = data.length := by
  induction count generalizing first dest data with
  | zero => rfl
  | succ count ih => simp [copyForward, ih]

theorem getElem?_copyForward_below (count first dest : Nat) (data : ByteString) {i : Nat}
    (h : i < dest) : (copyForward count first dest data)[i]? = data[i]? := by
  induction count generalizing first dest data with
  | zero => rfl
  | succ count ih =>
    rw [copyForward, ih _ _ _ (Nat.lt_succ_of_lt h), List.getElem?_set_ne (by omega)]

theorem getElem?_copyForward (count first dest : Nat) (data : ByteString)
    (hdest : dest ≤ first) (hbound : first + count ≤ data.length) {i : Nat} (hi : i < count) :
    (copyForward count first dest data)[dest + i]? = data[first + i]? := by
  induction count generalizing first dest data i with
  | zero => omega
  | succ count ih =>
    rw [copyForward]
    cases i with
    | zero =>
      have hfirst : first < data.length := by omega
      have hd : dest < data.length := by omega
      rw [getElem?_copyForward_below _ _ _ _ (by omega)]
      simp [List.getD, hfirst, hd]
    | succ i =>
      have hlen : first + 1 + count ≤ (data.set dest (data.getD first 0)).length := by
        simp only [List.length_set]; omega
      rw [show dest + (i + 1) = dest + 1 + i by omega,
        ih (first + 1) (dest + 1) _ (by omega) hlen (by omega),
        List.getElem?_set_ne (by omega)]
      congr 1
      omega

/-- The storage of `Buffer` with the order of its two indices, which every operation keeps. -/
structure Buffer where
  data : ByteString
  readerIndex : Nat
  writerIndex : Nat
  cheapPrepend_le_size : kCheapPrepend ≤ data.length
  reader_le_writer : readerIndex ≤ writerIndex
  writer_le_size : writerIndex ≤ data.length

inductive BufferError where
  | notEnoughPrependableSpace
  | retrieveBeyondReadable
  deriving DecidableEq, Repr

namespace Buffer

def empty : Buffer where
  data := List.replicate (kCheapPrepend + kInitialSize) 0
  readerIndex := kCheapPrepend
  writerIndex := kCheapPrepend
  cheapPrepend_le_size := by simp
  reader_le_writer := Nat.le_refl _
  writer_le_size := by simp

def readableBytes (b : Buffer) : Nat := b.writerIndex - b.readerIndex
def writableBytes (b : Buffer) : Nat := b.data.length - b.writerIndex
def prependableBytes (b : Buffer) : Nat := b.readerIndex

def peek (b : Buffer) : ByteString := (b.data.take b.writerIndex).drop b.readerIndex

def retrieveAll (b : Buffer) : Buffer where
  data := b.data
  readerIndex := kCheapPrepend
  writerIndex := kCheapPrepend
  cheapPrepend_le_size := b.cheapPrepend_le_size
  reader_le_writer := Nat.le_refl _
  writer_le_size := b.cheapPrepend_le_size

def retrieve (b : Buffer) (length : Nat) : Except BufferError Buffer :=
  if h : length > b.readableBytes then
    .error .retrieveBeyondReadable
  else
    let advanced : Buffer :=
      { b with
        readerIndex := b.readerIndex + length
        reader_le_writer := by
          have := b.reader_le_writer
          simp only [readableBytes] at h
          omega }
    .ok (if advanced.readerIndex = advanced.writerIndex then advanced.retrieveAll else advanced)

def retrieveAllAsString (b : Buffer) : ByteString × Buffer := (b.peek, b.retrieveAll)

/-- `makeSpace` either grows the storage or moves the readable bytes to the front. -/
def makeSpace (b : Buffer) (length : Nat) (h : b.writableBytes < length) : Buffer :=
  if hgrow : b.writableBytes + b.prependableBytes < length + kCheapPrepend then
    { b with
      data := b.data ++ List.replicate (b.writerIndex + length - b.data.length) 0
      cheapPrepend_le_size := by
        have := b.cheapPrepend_le_size
        simp only [List.length_append]
        omega
      writer_le_size := by
        have := b.writer_le_size
        simp only [List.length_append]
        omega }
  else
    { data := copyForward b.readableBytes b.readerIndex kCheapPrepend b.data
      readerIndex := kCheapPrepend
      writerIndex := kCheapPrepend + b.readableBytes
      cheapPrepend_le_size := by simpa using b.cheapPrepend_le_size
      reader_le_writer := Nat.le_add_right _ _
      writer_le_size := by
        have := b.writer_le_size
        have := b.reader_le_writer
        simp only [writableBytes, prependableBytes] at h hgrow
        simp only [length_copyForward, readableBytes]
        omega }

def ensureWritableBytes (b : Buffer) (length : Nat) : Buffer :=
  if h : b.writableBytes < length then b.makeSpace length h else b

theorem le_writableBytes_ensureWritableBytes (b : Buffer) (length : Nat) :
    length ≤ (b.ensureWritableBytes length).writableBytes := by
  rw [ensureWritableBytes]
  split
  · rename_i h
    have := b.writer_le_size
    have := b.reader_le_writer
    rw [makeSpace]
    split
    · simp only [writableBytes, List.length_append, List.length_replicate] at h ⊢
      omega
    · rename_i hgrow
      simp only [writableBytes, prependableBytes] at h hgrow
      simp only [writableBytes, length_copyForward, readableBytes]
      omega
  · omega

/-- `memcpy` behind the writer index, which then moves past the copied bytes. -/
def write (b : Buffer) (bytes : ByteString) (h : bytes.length ≤ b.writableBytes) : Buffer :=
  have room : b.writerIndex + bytes.length ≤ b.data.length := by
    have := b.writer_le_size
    simp only [writableBytes] at h
    omega
  { data := memcpy b.data b.writerIndex bytes
    readerIndex := b.readerIndex
    writerIndex := b.writerIndex + bytes.length
    cheapPrepend_le_size := by rw [length_memcpy room]; exact b.cheapPrepend_le_size
    reader_le_writer := Nat.le_trans b.reader_le_writer (Nat.le_add_right _ _)
    writer_le_size := by rw [length_memcpy room]; exact room }

def append (b : Buffer) (bytes : ByteString) : Buffer :=
  (b.ensureWritableBytes bytes.length).write bytes
    (b.le_writableBytes_ensureWritableBytes bytes.length)

def prepend (b : Buffer) (bytes : ByteString) : Except BufferError Buffer :=
  if h : bytes.length > b.prependableBytes then
    .error .notEnoughPrependableSpace
  else
    have room : b.readerIndex - bytes.length + bytes.length ≤ b.data.length := by
      have := b.reader_le_writer
      have := b.writer_le_size
      simp only [prependableBytes] at h
      omega
    .ok
      { data := memcpy b.data (b.readerIndex - bytes.length) bytes
        readerIndex := b.readerIndex - bytes.length
        writerIndex := b.writerIndex
        cheapPrepend_le_size := by rw [length_memcpy room]; exact b.cheapPrepend_le_size
        reader_le_writer := Nat.le_trans (Nat.sub_le _ _) b.reader_le_writer
        writer_le_size := by rw [length_memcpy room]; exact b.writer_le_size }

@[simp] theorem length_peek (b : Buffer) : b.peek.length = b.readableBytes := by
  have := b.writer_le_size
  simp only [peek, readableBytes, List.length_drop, List.length_take]
  omega

@[simp] theorem peek_empty : empty.peek = [] := by
  apply List.eq_nil_of_length_eq_zero
  simp [readableBytes, empty]

@[simp] theorem peek_retrieveAll (b : Buffer) : b.retrieveAll.peek = [] := by
  apply List.eq_nil_of_length_eq_zero
  simp [readableBytes, retrieveAll]

theorem peek_makeSpace (b : Buffer) (length : Nat) (h : b.writableBytes < length) :
    (b.makeSpace length h).peek = b.peek := by
  have hw := b.writer_le_size
  have hr := b.reader_le_writer
  rw [makeSpace]
  split
  · simp only [peek, List.take_append_of_le_length hw]
  · rename_i hgrow
    simp only [writableBytes, prependableBytes] at h hgrow
    apply List.ext_getElem?
    intro i
    simp only [peek, List.getElem?_drop]
    by_cases hi : i < b.readableBytes
    · have hi' := hi
      simp only [readableBytes] at hi'
      rw [List.getElem?_take_of_lt (by omega), List.getElem?_take_of_lt (by omega)]
      exact getElem?_copyForward _ _ _ _ (by omega) (by simp only [readableBytes]; omega) hi
    · have hi' := hi
      simp only [readableBytes] at hi'
      rw [List.getElem?_eq_none (by simp only [List.length_take, length_copyForward]; omega),
        List.getElem?_eq_none (by simp only [List.length_take]; omega)]

theorem peek_ensureWritableBytes (b : Buffer) (length : Nat) :
    (b.ensureWritableBytes length).peek = b.peek := by
  rw [ensureWritableBytes]
  split
  · exact b.peek_makeSpace length _
  · rfl

theorem peek_write (b : Buffer) (bytes : ByteString) (h : bytes.length ≤ b.writableBytes) :
    (b.write bytes h).peek = b.peek ++ bytes := by
  have hw := b.writer_le_size
  have hr := b.reader_le_writer
  simp only [peek, write, memcpy]
  rw [List.take_append_of_le_length (by simp only [List.length_append, List.length_take]; omega),
    List.take_of_length_le (by simp only [List.length_append, List.length_take]; omega),
    List.drop_append_of_le_length (by simp only [List.length_take]; omega)]

@[simp] theorem peek_append (b : Buffer) (bytes : ByteString) :
    (b.append bytes).peek = b.peek ++ bytes := by
  rw [append, peek_write, peek_ensureWritableBytes]

theorem retrieve_eq_ok {b : Buffer} {length : Nat} (h : length ≤ b.readableBytes) :
    ∃ b', b.retrieve length = .ok b' ∧ b'.peek = b.peek.drop length := by
  rw [retrieve, dif_neg (Nat.not_lt.mpr h)]
  refine ⟨_, rfl, ?_⟩
  split
  · rename_i heq
    change b.readerIndex + length = b.writerIndex at heq
    rw [peek_retrieveAll, eq_comm, List.drop_eq_nil_iff, length_peek]
    simp only [readableBytes] at h ⊢
    omega
  · simp only [peek, List.drop_drop]

end Buffer

end UnixNotes.Reactor
