import UnixNotes.Library.Bytes

namespace UnixNotes.Logger

inductive LogLevel where
  | trace
  | debug
  | info
  | warn
  | error
  | fatal
  deriving DecidableEq

def LogLevel.toNat : LogLevel → Nat
  | .trace => 0
  | .debug => 1
  | .info => 2
  | .warn => 3
  | .error => 4
  | .fatal => 5

/-- The bytes that `view` shows of a `FixedText<Capacity>`. -/
def FixedText (capacity : Nat) : Type := { text : ByteString // text.length < capacity }

instance (capacity : Nat) : DecidableEq (FixedText capacity) :=
  inferInstanceAs (DecidableEq { text : ByteString // text.length < capacity })

def FixedText.assign {capacity : Nat} (h : 0 < capacity) (value : ByteString) :
    FixedText capacity :=
  ⟨value.take (capacity - 1), by
    have := List.length_take_le (capacity - 1) value
    omega⟩

def kMaxLogMessageSize : Nat := 512
def kMaxLogFileNameSize : Nat := 192
def kMaxLogFunctionNameSize : Nat := 128

structure LogRecord where
  timestamp : Int
  level : LogLevel
  threadId : UInt64
  file : FixedText kMaxLogFileNameSize
  line : Int32
  function : FixedText kMaxLogFunctionNameSize
  message : FixedText kMaxLogMessageSize
  sequence : UInt64
  deriving DecidableEq

/-- The arguments of `log`; a null pointer is `none`. -/
structure LogCall where
  level : LogLevel
  message : ByteString
  file : Option ByteString
  line : Int32
  function : Option ByteString
  deriving DecidableEq

def LogCall.record (call : LogCall) (timestamp : Int) (threadId sequence : UInt64) : LogRecord where
  timestamp := timestamp
  level := call.level
  threadId := threadId
  file := .assign (by decide) (call.file.getD [])
  line := call.line
  function := .assign (by decide) (call.function.getD [])
  message := .assign (by decide) call.message
  sequence := sequence

inductive OverflowPolicy where
  | block
  | dropNewest
  deriving DecidableEq

/-- The part of `LoggerConfig` that the threads read. -/
structure LoggerConfig where
  minLevel : LogLevel := .info
  maxQueueSize : UInt64 := 8192
  overflowPolicy : OverflowPolicy := .block
  flushOnError : Bool := false

end UnixNotes.Logger
