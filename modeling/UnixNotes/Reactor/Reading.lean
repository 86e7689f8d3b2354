import UnixNotes.Reactor.TcpConnection

namespace UnixNotes.Reactor.Reading

open TcpConnection (State)

abbrev Chunk := {data : ByteString // 0 < data.length ∧ data.length ≤ 4096}

inductive Exit where
  | wouldBlock
  | endOfFile
  | failed
  deriving DecidableEq

/-- What the message callback does: it takes bytes from the buffer, and may close the connection. -/
structure Response where
  retrieved : Nat := 0
  closes : Bool := false

/-- A call of `handleRead`: what `::read` returns, `none` for `EINTR`, up to the end of the loop. -/
structure Burst where
  reads : List (Option Chunk)
  exit : Exit
  response : Response := {}

/-- Bytes are numbered in the order in which they are read. `read` has the number of the first one,
`message` the number of the first one that is in the buffer. -/
inductive Event where
  | read (first : Nat) (data : ByteString)
  | message (first : Nat) (contents : ByteString)
  | closeCallback
  deriving DecidableEq

/-- `retrieved` counts the bytes that have been taken from the buffer. -/
structure Shared where
  state : State := .kConnected
  messageCallback : Bool := true
  inputBuffer : Buffer := .empty
  retrieved : Nat := 0
  log : List Event := []

namespace Shared

def record (s : Shared) (event : Event) : Shared := { s with log := s.log ++ [event] }

def handleClose (s : Shared) : Shared :=
  if s.state = .kDisconnected then s
  else { s.record .closeCallback with state := .kDisconnected }

/-- `Buffer::retrieve`; when it throws the buffer stays as it is. -/
def retrieve (s : Shared) (count : Nat) : Shared :=
  match s.inputBuffer.retrieve count with
  | .ok inputBuffer => { s with inputBuffer := inputBuffer, retrieved := s.retrieved + count }
  | .error _ => s

/-- `messageCallback_`, if it is set and there is something new. -/
def message (s : Shared) (receivedData : Bool) (response : Response) : Shared :=
  if receivedData && s.messageCallback then
    let s := (s.record (.message s.retrieved s.inputBuffer.peek)).retrieve response.retrieved
    if response.closes then s.handleClose else s
  else s

def append (s : Shared) (chunk : Chunk) : Shared :=
  { s.record (.read (s.retrieved + s.inputBuffer.readableBytes) chunk.val) with
    inputBuffer := s.inputBuffer.append chunk.val }

def readAll (s : Shared) (reads : List (Option Chunk)) : Shared :=
  reads.foldl (fun s read => read.elim s s.append) s

def handleRead (s : Shared) (burst : Burst) : Shared :=
  let received := burst.reads.any Option.isSome
  let s := s.readAll burst.reads
  match burst.exit with
  | .wouldBlock => s.message received burst.response
  | .endOfFile => (s.message received burst.response).handleClose
  | .failed => s.handleClose

end Shared

/-- `close` is an event or a call that leads to `handleClose` without a read, and `abandon` the
destructor of the client that owns the connection. -/
inductive Input where
  | readable (burst : Burst)
  | shutdown
  | close
  | abandon

def step (s : Shared) : Input → Shared
  | .readable burst => s.handleRead burst
  | .shutdown => if s.state = .kConnected then { s with state := .kDisconnecting } else s
  | .close => s.handleClose
  | .abandon => { s with messageCallback := false, state := .kDisconnected }

def run (s : Shared) (life : List Input) : Shared := life.foldl step s

def Event.Shows (first : Nat) (data : ByteString) : Event → Prop
  | .message start contents =>
    start ≤ first ∧ (contents.drop (first - start)).take data.length = data
  | _ => False

/-- Whatever is read is shown to the message callback, before the close callback runs. -/
def Delivered (log : List Event) : Prop :=
  ∀ before first data after, log = before ++ .read first data :: after →
    .closeCallback ∉ before ∧ ∃ between event rest, after = between ++ event :: rest ∧
      .closeCallback ∉ between ∧ event.Shows first data

/-- A call of `handleRead` that reads anything finds a message callback and an open connection, and
does not end with an error. -/
def Burst.Delivers (burst : Burst) (s : Shared) : Prop :=
  burst.reads.any Option.isSome = true →
    s.messageCallback = true ∧ s.state ≠ .kDisconnected ∧ burst.exit ≠ .failed

def AllDeliver (s : Shared) : List Input → Prop
  | [] => True
  | input :: life =>
    (∀ burst, input = .readable burst → burst.Delivers s) ∧ AllDeliver (step s input) life

end UnixNotes.Reactor.Reading
