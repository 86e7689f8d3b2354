import UnixNotes.Library.Interleaving
import UnixNotes.Logger.RingHistory
import UnixNotes.Logger.State

namespace UnixNotes.Logger.AsyncLogger

open Library

def notifyWorker : List Instr := [.lock .wake, .notifyOne .data, .unlock .wake]

def stopRest : List Instr :=
  notifyWorker ++ [.notifyAll .space, .notifyAll .flush, .joinWorker]

def afterJoin : List Instr :=
  [.closeOutput, .stopFailed, .notifyAll .flush, .unlock .lifecycle, .stopReturned]

def Shared.appendRecord (s : Shared) (record : Option LogRecord) : Append → Shared × Instr
  | .buffered => ({ s with buffer := s.buffer ++ [record] }, .iterate true)
  | .wroteBatch => ({ s.writeActiveBuffer with buffer := [record] }, .iterate true)
  | .rotated => ({ s.writeActiveBuffer.flushOutput with buffer := [record] }, .iterate true)
  | .formatFailed => (s, .failWorker)
  | .writeFailed => ({ s with buffer := [] }, .failWorker)
  | .rotationFailed => (s.writeActiveBuffer, .failWorker)

def Instr.execLog (t : Nat) (i : Instr) (x : Choice) (s : Shared) : Option (Shared × List Instr) :=
  match i with
  | .log call =>
    if call.level.toNat < s.config.minLevel.toNat then some (s, [.logReturned none true])
    else some (s, [.loadRunning call])
  | .loadRunning call =>
    if s.state = .running then some (s, [.enterProducer call])
    else some (s, [.logReturned none false])
  | .enterProducer call =>
    some ({ s with activeProducers := s.activeProducers + 1 }, [.reloadRunning call])
  | .reloadRunning call =>
    if s.state = .running then some (s, [.buildRecord call])
    else some (s, [.finishProducer, .logReturned none false])
  | .buildRecord call =>
    match x with
    | .record timestamp threadId =>
      let record := call.record timestamp threadId (s.nextSequence + 1)
      some ({ s with nextSequence := s.nextSequence + 1 }, [.countPending call.level record])
    | _ => none
  | .countPending level record =>
    some ({ s with pendingCount := s.pendingCount + 1 },
      [.tryEnqueue level record s.pendingCount (.tryEnqueue record)])
  | .tryEnqueue level passed previousPending call =>
    match call.exec t x.isSpurious s.queue with
    | (queue, .running call) =>
      some ({ s with queue := queue }, [.tryEnqueue level passed previousPending call])
    | (queue, .returned (.tryEnqueue true _)) =>
      some ({ s with queue := queue }, [.countAccepted level passed previousPending
        ((call.writes.map UInt64.toNat).getD 0)])
    | (queue, .returned (.tryEnqueue false record)) =>
      some ({ s with queue := queue }, [.uncountPending level record])
    | (_, .returned (.tryDequeue _ _)) => none
  | .uncountPending level record =>
    some ({ s with pendingCount := s.pendingCount - 1 },
      match s.config.overflowPolicy with
      | .dropNewest => [.countDropped]
      | .block => [.lock .space, .spaceState level record])
  | .countDropped =>
    some ({ s with droppedCount := s.droppedCount + 1 }, [.finishProducer, .logReturned none false])
  | .spaceState level record =>
    if s.state = .running then some (s, [.spaceProduced level record])
    else some (s, [.spaceLeft level record])
  | .spaceProduced level record =>
    some (s, [.spaceConsumed level record s.queue.enqueuePosition])
  | .spaceConsumed level record produced =>
    if s.queue.full produced s.queue.dequeuePosition then
      some (s, [.park .space, .spaceState level record])
    else
      some (s, [.spaceLeft level record])
  | .spaceLeft level record =>
    if s.state = .running then some (s, [.unlock .space, .countPending level record])
    else some (s, [.finishProducer, .unlock .space, .logReturned none false])
  | .countAccepted level passed previousPending position =>
    some ({ s with
      acceptedCount := s.acceptedCount + 1
      accepted := s.accepted ++ [(position, passed)] },
      .finishProducer :: (if previousPending = 0 then notifyWorker else []) ++
        (if s.config.flushOnError ∧ LogLevel.error.toNat ≤ level.toNat then [.flush] else []) ++
        [.logReturned passed true])
  | .finishProducer =>
    some ({ s with activeProducers := s.activeProducers - 1 }, [.finishState])
  | .finishState => some (s, if s.state = .running then [] else notifyWorker)
  | .logReturned passed ok =>
    some ({ s with returned := s.returned ++ if ok then passed.toList else [] }, [])
  | _ => none

def Instr.execFlush (i : Instr) (x : Choice) (s : Shared) : Option (Shared × List Instr) :=
  match i with
  | .flush => some (s, [.flushCreated s.accepted.length])
  | .flushCreated called =>
    some (s, if s.state = .created then [.flushReturned called] else [.flushStopped called])
  | .flushStopped called =>
    some (s, if s.state = .stopped then [.flushReturned called] else [.flushFailed called])
  | .flushFailed called =>
    some (s, if s.state = .failed then [.flushReturned called] else [.loadAccepted called])
  | .loadAccepted called => some (s, [.loadFlushTarget called s.acceptedCount])
  | .loadFlushTarget called target => some (s, [.updateMax called target s.flushTargetCount])
  | .updateMax called target current =>
    if current < target then
      if s.flushTargetCount = current ∧ !x.isSpurious then
        some ({ s with flushTargetCount := target }, [.requestFlush called target])
      else
        some (s, [.updateMax called target s.flushTargetCount])
    else
      some (s, [.requestFlush called target])
  | .requestFlush called target =>
    some ({ s with flushRequested := true },
      notifyWorker ++ [.lock .flush, .flushState called target])
  | .flushState called target => some (s, [.flushReached called target s.state])
  | .flushReached called target state =>
    if target ≤ s.lastFlushedCount ∨ state = .failed ∨ state = .stopped then
      some (s, [.unlock .flush, .flushReturned called])
    else
      some (s, [.park .flush, .flushState called target])
  | .flushReturned _ => some (s, [])
  | _ => none

def Instr.execStop (i : Instr) (s : Shared) : Option (Shared × List Instr) :=
  match i with
  | .stop => some (s, [.lock .lifecycle, .stopState])
  | .stopState =>
    some (s, match s.state with
      | .created => [.storeStopped, .unlock .lifecycle, .stopReturned]
      | .stopped => [.unlock .lifecycle, .stopReturned]
      | .running => .storeStopping :: stopRest
      | _ => stopRest)
  | .storeStopping => some ({ s with state := .stopping }, [])
  | .joinWorker =>
    if s.workerJoined then some (s, afterJoin)
    else if s.workerFinished then some ({ s with workerJoined := true }, afterJoin)
    else none
  | .closeOutput => some ({ s with outputOpen := false }, [])
  | .stopFailed => some (s, if s.state = .failed then [] else [.storeStopped])
  | .storeStopped => some ({ s with state := .stopped }, [])
  | .stopReturned => some (s, [])
  | _ => none

def Instr.execSync (t : Nat) (i : Instr) (x : Choice) (s : Shared) : Option (Shared × List Instr) :=
  match i with
  | .lock mutex => if s.owner mutex = none then some (s.setOwner mutex (some t), []) else none
  | .unlock mutex => some (s.setOwner mutex none, [])
  | .notifyOne condition =>
    match s.waiting condition, x with
    | [], _ => some (s, [])
    | waiting, .notify thread =>
      if thread ∈ waiting then some (s.setWaiting condition (waiting.erase thread), []) else none
    | _, _ => none
  | .notifyAll condition => some (s.setWaiting condition [], [])
  | .park condition =>
    some ((s.setOwner condition.mutex none).setWaiting condition (t :: s.waiting condition),
      [.parked condition, .lock condition.mutex])
  | .parked condition =>
    if t ∉ s.waiting condition then some (s, [])
    else if x.isSpurious then some (s.setWaiting condition ((s.waiting condition).erase t), [])
    else none
  | _ => none

def Instr.execWorker (t : Nat) (i : Instr) (x : Choice) (s : Shared) :
    Option (Shared × List Instr) :=
  match i with
  | .iterate consumed => some (s, [.tryDequeue consumed .tryDequeue])
  | .tryDequeue consumed call =>
    match call.exec t x.isSpurious s.queue with
    | (queue, .running call) => some ({ s with queue := queue }, [.tryDequeue consumed call])
    | (queue, .returned (.tryDequeue true record)) =>
      some ({ s with queue := queue }, [.uncountTaken record])
    | (queue, .returned (.tryDequeue false _)) =>
      some ({ s with queue := queue }, [.loadState consumed])
    | (_, .returned (.tryEnqueue _ _)) => none
  | .uncountTaken record =>
    some ({ s with pendingCount := s.pendingCount - 1 },
      [.lock .space, .notifyOne .space, .unlock .space, .appendRecord record])
  | .appendRecord record =>
    match x with
    | .append outcome =>
      let result := s.appendRecord record outcome
      some (result.1, [result.2])
    | _ => none
  | .loadState consumed =>
    some (s, if s.state = .stopping then [.loadPending consumed]
      else [.loadFlushRequested ⟨consumed, s.state, false⟩])
  | .loadPending consumed =>
    some (s, if s.pendingCount = 0 then [.loadProducers consumed]
      else [.loadFlushRequested ⟨consumed, .stopping, false⟩])
  | .loadProducers consumed =>
    some (s, [.loadFlushRequested ⟨consumed, .stopping, s.activeProducers = 0⟩])
  | .loadFlushRequested round =>
    some (s, if s.flushRequested ∨ x = .due ∨ round.drained then [.writeActiveBuffer round]
      else [.endRound round])
  | .writeActiveBuffer round =>
    if x = .fails ∧ !s.buffer.isEmpty then some ({ s with buffer := [] }, [.failWorker])
    else some (s.writeActiveBuffer, [.flushOutput round])
  | .flushOutput round =>
    if x = .fails then some (s, [.failWorker])
    else some (s.flushOutput, [.loadWritten round])
  | .loadWritten round => some (s, [.storeLastFlushed round s.writtenCount])
  | .storeLastFlushed round written =>
    some ({ s with lastFlushedCount := written }, [.checkFlushTarget round written])
  | .checkFlushTarget round written =>
    some (s, if s.flushTargetCount ≤ written then [.clearFlushRequested round]
      else [.notifyAll .flush, .endRound round])
  | .clearFlushRequested round =>
    some ({ s with flushRequested := false }, [.notifyAll .flush, .endRound round])
  | .endRound round =>
    some (s, if round.drained ∨ round.current = .failed then [.finishWorker]
      else if round.consumed then [.iterate false] else [.reloadPending])
  | .reloadPending =>
    some (s, if s.pendingCount ≠ 0 then [.iterate false] else [.lock .wake, .wakePending])
  | .wakePending =>
    some (s, if s.pendingCount ≠ 0 then [.unlock .wake, .iterate false] else [.wakeRequested])
  | .wakeRequested =>
    some (s, if s.flushRequested then [.unlock .wake, .iterate false] else [.wakeState])
  | .wakeState =>
    some (s, if s.state ≠ .running then [.unlock .wake, .iterate false] else [.parkTimed])
  | .parkTimed =>
    some ((s.setOwner .wake none).setWaiting .data (t :: s.waiting .data), [.parkedTimed])
  | .parkedTimed =>
    if x = .timeout then
      some (s.setWaiting .data ((s.waiting .data).erase t),
        [.lock .wake, .unlock .wake, .iterate false])
    else if t ∉ s.waiting .data then some (s, [.lock .wake, .wakePending])
    else if x.isSpurious then
      some (s.setWaiting .data ((s.waiting .data).erase t), [.lock .wake, .wakePending])
    else none
  | .failWorker => some ({ s with hasError := true }, [.storeFailed])
  | .storeFailed =>
    some ({ s with state := .failed },
      notifyWorker ++ [.notifyAll .space, .notifyAll .flush, .finishWorker])
  | .finishWorker => some ({ s with workerFinished := true }, [])
  | _ => none

inductive Part where
  | user
  | log
  | flush
  | stop
  | sync
  | worker
  deriving DecidableEq

def Instr.part : Instr → Part
  | .user => .user
  | .log _ | .loadRunning _ | .enterProducer _ | .reloadRunning _ | .buildRecord _
  | .countPending _ _ | .tryEnqueue _ _ _ _ | .uncountPending _ _ | .countDropped
  | .spaceState _ _ | .spaceProduced _ _ | .spaceConsumed _ _ _ | .spaceLeft _ _
  | .countAccepted _ _ _ _ | .finishProducer | .finishState | .logReturned _ _ => .log
  | .flush | .flushCreated _ | .flushStopped _ | .flushFailed _ | .loadAccepted _
  | .loadFlushTarget _ _ | .updateMax _ _ _ | .requestFlush _ _ | .flushState _ _
  | .flushReached _ _ _ | .flushReturned _ => .flush
  | .stop | .stopState | .storeStopping | .joinWorker | .closeOutput | .stopFailed | .storeStopped
  | .stopReturned => .stop
  | .lock _ | .unlock _ | .notifyOne _ | .notifyAll _ | .park _ | .parked _ => .sync
  | _ => .worker

def Instr.exec (t : Nat) (i : Instr) (x : Choice) (s : Shared) : Option (Shared × List Instr) :=
  match i.part with
  | .user =>
    match x with
    | .log call => some (s, [.log call, .user])
    | .flush => some (s, [.flush, .user])
    | .stop => some (s, [.stop, .user])
    | _ => none
  | .log => i.execLog t x s
  | .flush => i.execFlush x s
  | .stop => i.execStop s
  | .sync => i.execSync t x s
  | .worker => i.execWorker t x s

abbrev Config := Library.Config Shared Instr

def machine : Machine Shared Instr Choice := ⟨fun t i x s => i.exec t x s⟩

/-- `start` has returned: the worker, thread 0, is at the beginning of its loop, and `n` threads are
about to use the logger. -/
def init (config : LoggerConfig) (n : Nat) : Config :=
  ⟨{ config := config, queue := .new config.maxQueueSize },
    [.iterate false] :: List.replicate n [.user]⟩

end UnixNotes.Logger.AsyncLogger
