import UnixNotes.Rpc.PointerDecode
import UnixNotes.Rpc.ServerReplies
import UnixNotes.Rpc.ServerMetrics
import UnixNotes.Rpc.Client.Deadline
import UnixNotes.Rpc.Client.Frames
import UnixNotes.Rpc.Client.Metrics
import UnixNotes.Logger.RingFifo
import UnixNotes.Logger.RingCapacity
import UnixNotes.Logger.Flush
import UnixNotes.Logger.StallWrap
import UnixNotes.Logger.RotationLaws
import UnixNotes.Queue.BoundedFifo
import UnixNotes.Queue.Wakeups
import UnixNotes.Queue.Throwing
import UnixNotes.Timer.Stop
import UnixNotes.Timer.Wrap
import UnixNotes.Timer.Failures
import UnixNotes.Reactor.EventLoop
import UnixNotes.Reactor.EventLoopThread
import UnixNotes.Reactor.LoopTimers
import UnixNotes.Reactor.SendOrder
import UnixNotes.Reactor.ConnectorSockets
import UnixNotes.Reactor.ClientStop
import UnixNotes.Reactor.LifetimeDispatch
import UnixNotes.Reactor.PollerLaws
import UnixNotes.Reactor.ReadingLaws
import UnixNotes.Reactor.ServerConnections
import UnixNotes.Timer.Spinning
import UnixNotes.Timer.Waking
import UnixNotes.Timer.Deadlines
import UnixNotes.Timer.Clocked
import UnixNotes.Timer.Punctual
import UnixNotes.Timer.Submissions
import UnixNotes.Reactor.MarshalledTimers
import UnixNotes.Reactor.TimerCancel
import UnixNotes.Reactor.TimerIds
import UnixNotes.Timer.Records
import UnixNotes.Reactor.ConnectorRequests
import UnixNotes.Logger.OutputBounds
import UnixNotes.Library.Logged
import UnixNotes.Logger.FormatLaws
import UnixNotes.Reactor.BufferLaws
import UnixNotes.Rpc.Reencoding
import UnixNotes.Rpc.Client.ReconnectCount
import UnixNotes.Rpc.Client.RetryCount
import UnixNotes.Logger.Ledger
import UnixNotes.Logger.LedgerWrap
import UnixNotes.ThreadPool.BoundedRingQueue
import UnixNotes.ThreadPool.Pool
import UnixNotes.ThreadPool.Effects
import UnixNotes.ThreadPool.Threads
import UnixNotes.ThreadPool.Tasks
import UnixNotes.ThreadPool.Shutdown
import UnixNotes.ThreadPool.Progress
import UnixNotes.ThreadPool.Completion
import UnixNotes.ThreadPool.Exceptions
import UnixNotes.ThreadPool.Ownership
import UnixNotes.ThreadPool.Wakeups
import UnixNotes.Reactor.LifetimeEvents
import UnixNotes.Rpc.FrameStream
