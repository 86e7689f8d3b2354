import UnixNotes.Logger.Record
import UnixNotes.Logger.RingBuffer

namespace UnixNotes.Logger.AsyncLogger

inductive State where
  | created
  | running
  | stopping
  | stopped
  | failed
  deriving DecidableEq

inductive Mutex where
  | lifecycle
  | wake
  | space
  | flush
  deriving DecidableEq

inductive Condition where
  | data
  | space
  | flush
  deriving DecidableEq

def Condition.mutex : Condition → Mutex
  | .data => .wake
  | .space => .space
  | .flush => .flush

/-- `buffer` has the records of the active buffer, `written` those that were written to the stream
and `flushed` how many of them the last flush of the stream covered. `accepted` has the position and
the record of every increment of `acceptedCount` and `returned` the records of the calls that have
returned true; no code reads these two. -/
structure Shared where
  config : LoggerConfig
  queue : MpscRingBuffer LogRecord
  state : State := .running
  owner : Mutex → Option Nat := fun _ => none
  /-- The threads that are parked on a condition variable and have not been notified. -/
  waiting : Condition → List Nat := fun _ => []
  pendingCount : UInt64 := 0
  activeProducers : UInt64 := 0
  nextSequence : UInt64 := 0
  acceptedCount : UInt64 := 0
  writtenCount : UInt64 := 0
  lastFlushedCount : UInt64 := 0
  flushTargetCount : UInt64 := 0
  flushRequested : Bool := false
  droppedCount : UInt64 := 0
  hasError : Bool := false
  workerFinished : Bool := false
  workerJoined : Bool := false
  outputOpen : Bool := true
  buffer : List (Option LogRecord) := []
  written : List (Option LogRecord) := []
  flushed : Nat := 0
  accepted : List (Nat × Option LogRecord) := []
  returned : List LogRecord := []

namespace Shared

def setOwner (s : Shared) (mutex : Mutex) (owner : Option Nat) : Shared :=
  { s with owner := Function.update s.owner mutex owner }

def setWaiting (s : Shared) (condition : Condition) (waiting : List Nat) : Shared :=
  { s with waiting := Function.update s.waiting condition waiting }

/-- `write_active_buffer()` when the stream takes the batch. -/
def writeActiveBuffer (s : Shared) : Shared :=
  { s with
    written := s.written ++ s.buffer
    writtenCount := s.writtenCount + UInt64.ofNat s.buffer.length
    buffer := [] }

/-- `flush_output()` when the stream takes it. -/
def flushOutput (s : Shared) : Shared := { s with flushed := s.written.length }

end Shared

/-- What a round of the worker has found out when it decides whether to write the batch. -/
structure Round where
  consumed : Bool
  current : State
  drained : Bool
  deriving DecidableEq

/-- Atomic steps of `log`, `flush`, `stop` and of the worker. What a step needs of the local variables
comes with it, and with the steps of `flush` the number of records that were accepted when it was
called, on which no step depends. -/
inductive Instr where
  /-- A thread that uses the logger. -/
  | user
  | log (call : LogCall)
  | loadRunning (call : LogCall)
  | enterProducer (call : LogCall)
  | reloadRunning (call : LogCall)
  | buildRecord (call : LogCall)
  | countPending (level : LogLevel) (record : Option LogRecord)
  | tryEnqueue (level : LogLevel) (passed : Option LogRecord) (previousPending : UInt64)
    (call : RingCall LogRecord)
  | uncountPending (level : LogLevel) (record : Option LogRecord)
  | countDropped
  | spaceState (level : LogLevel) (record : Option LogRecord)
  | spaceProduced (level : LogLevel) (record : Option LogRecord)
  | spaceConsumed (level : LogLevel) (record : Option LogRecord) (produced : UInt64)
  | spaceLeft (level : LogLevel) (record : Option LogRecord)
  | countAccepted (level : LogLevel) (passed : Option LogRecord) (previousPending : UInt64)
    (position : Nat)
  | finishProducer
  | finishState
  | logReturned (passed : Option LogRecord) (ok : Bool)
  | flush
  | flushCreated (called : Nat)
  | flushStopped (called : Nat)
  | flushFailed (called : Nat)
  | loadAccepted (called : Nat)
  | loadFlushTarget (called : Nat) (target : UInt64)
  | updateMax (called : Nat) (target current : UInt64)
  | requestFlush (called : Nat) (target : UInt64)
  | flushState (called : Nat) (target : UInt64)
  | flushReached (called : Nat) (target : UInt64) (state : State)
  | flushReturned (called : Nat)
  | stop
  | stopState
  | storeStopping
  | joinWorker
  | closeOutput
  | stopFailed
  | storeStopped
  | stopReturned
  | lock (mutex : Mutex)
  | unlock (mutex : Mutex)
  | notifyOne (condition : Condition)
  | notifyAll (condition : Condition)
  /-- Release the mutex and wait, in one step. -/
  | park (condition : Condition)
  | parked (condition : Condition)
  | iterate (consumed : Bool)
  | tryDequeue (consumed : Bool) (call : RingCall LogRecord)
  | uncountTaken (record : Option LogRecord)
  | appendRecord (record : Option LogRecord)
  | loadState (consumed : Bool)
  | loadPending (consumed : Bool)
  | loadProducers (consumed : Bool)
  | loadFlushRequested (round : Round)
  | writeActiveBuffer (round : Round)
  | flushOutput (round : Round)
  | loadWritten (round : Round)
  | storeLastFlushed (round : Round) (written : UInt64)
  | checkFlushTarget (round : Round) (written : UInt64)
  | clearFlushRequested (round : Round)
  | endRound (round : Round)
  | reloadPending
  | wakePending
  | wakeRequested
  | wakeState
  | parkTimed
  | parkedTimed
  | failWorker
  | storeFailed
  | finishWorker
  deriving DecidableEq

/-- What `append_record` does before it copies the record: nothing, write the batch for lack of room
or rotate the file; or where it throws. -/
inductive Append where
  | buffered
  | wroteBatch
  | rotated
  | formatFailed
  | writeFailed
  | rotationFailed
  deriving DecidableEq

/-- What the code leaves to its callers, the scheduler, the clock and the file. -/
inductive Choice where
  | next
  | log (call : LogCall)
  | flush
  | stop
  | record (timestamp : Int) (threadId : UInt64)
  /-- A weak `compare_exchange` fails, a wait ends without a notification. -/
  | spurious
  | notify (thread : Nat)
  | timeout
  /-- The periodic flush is due. -/
  | due
  | append (outcome : Append)
  | fails
  deriving DecidableEq

def Choice.isSpurious (x : Choice) : Bool := x = .spurious

end UnixNotes.Logger.AsyncLogger
