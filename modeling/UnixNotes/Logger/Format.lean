import UnixNotes.Logger.Record

namespace UnixNotes.Logger

def kFormattedLogRecordSize : Nat := 1024

def LogLevel.toText : LogLevel → ByteString
  | .trace => ascii "TRACE"
  | .debug => ascii "DEBUG"
  | .info => ascii "INFO"
  | .warn => ascii "WARN"
  | .error => ascii "ERROR"
  | .fatal => ascii "FATAL"

/-- What `%d`, `%llu` and the like print. -/
def decimal (n : Int) : ByteString := ascii (toString n)

/-- What `%06lld` prints for a width of 6. -/
def zeroPadded (width : Nat) (n : Int) : ByteString :=
  let sign := if n < 0 then ascii "-" else []
  let digits := decimal n.natAbs
  sign ++ List.replicate (width - sign.length - digits.length) 48 ++ digits

/-- What `%.*s` prints of a view, up to a null. -/
def printed (text : ByteString) : ByteString := text.takeWhile (· ≠ 0)

namespace LogRecord

/-- `to_time_t` of the timestamp, which counts nanoseconds. -/
def second (record : LogRecord) : Int := record.timestamp.tdiv 1000000000

def micros (record : LogRecord) : Int := (record.timestamp.tdiv 1000).tmod 1000000

/-- The line of a record, before it is cut to the size of the destination. -/
def text (record : LogRecord) (time : ByteString) : ByteString :=
  time ++ ascii "." ++ zeroPadded 6 record.micros ++ ascii " [" ++ record.level.toText ++
    ascii "] [tid=" ++ decimal record.threadId.toNat ++ ascii "] [" ++ printed record.file.val ++
    ascii ":" ++ decimal record.line.toInt ++ ascii " " ++ printed record.function.val ++
    ascii "] " ++ printed record.message.val ++ ascii "\n"

end LogRecord

/-- What `snprintf` leaves of a line in a destination of `capacity` bytes, with the newline put back
when the line is cut. -/
def fitLine (capacity : Nat) (line : ByteString) : ByteString :=
  if capacity ≤ line.length then line.take (capacity - 2) ++ ascii "\n" else line

theorem length_fitLine {capacity : Nat} (h : 2 ≤ capacity) (line : ByteString) :
    (fitLine capacity line).length < capacity := by
  rw [fitLine]
  split
  · have := List.length_take_le (capacity - 2) line
    rw [List.length_append]
    change _ + 1 < _
    omega
  · omega

end UnixNotes.Logger
