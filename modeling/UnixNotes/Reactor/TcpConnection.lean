import UnixNotes.Library.Interleaving
import UnixNotes.Reactor.Buffer

namespace UnixNotes.Reactor.TcpConnection

open Library

inductive State where
  | kConnecting
  | kConnected
  | kDisconnecting
  | kDisconnected
  deriving DecidableEq

/-- `writing` is the write interest of the channel. `messages` has the bytes of the messages that
`sendInLoop` has got while the state was `kConnected`, `accepted` those that the kernel has taken. -/
structure Shared where
  state : State := .kConnecting
  writing : Bool := false
  outputBuffer : Buffer := .empty
  messages : ByteString := []
  accepted : ByteString := []

/-- What `::send` returns. `failed` is `0` or an error other than `EINTR` and `EAGAIN`. -/
inductive Sent where
  | bytes (count : Nat)
  | interrupted
  | wouldBlock
  | failed
  deriving DecidableEq

inductive Instr where
  /-- The loop, between two events of the connection. -/
  | loop
  /-- A callback of the user or of the owner of the connection. -/
  | callback
  | connectEstablished
  | connectDestroyed
  | sendInLoop (message : ByteString)
  /-- `::send` of what remains of a message. -/
  | sendDirect (data : ByteString)
  | appendOutput (data : ByteString)
  | shutdownInLoop
  | shutdownWrite
  | forceCloseInLoop
  | handleRead
  | handleWrite
  /-- The loop of `handleWrite`. -/
  | writeOutput
  | handleClose
  deriving DecidableEq

inductive Choice where
  | next
  | establish
  | send (message : ByteString)
  | shutdown
  | forceClose
  | destroy
  | readable
  | writable
  /-- `EPOLLHUP` or `EPOLLERR`. -/
  | hangup
  | read (received closed : Bool)
  | kernel (result : Sent)

namespace Shared

/-- `handleClose`, up to the callback. -/
def close (s : Shared) : Shared := { s with state := .kDisconnected, writing := false }

end Shared

namespace Instr

/-- The calls that the loop makes for other threads, and that callbacks make themselves. -/
def call (x : Choice) (s : Shared) : Option Instr :=
  match x with
  | .establish => if s.state = .kConnecting then some .connectEstablished else none
  | .send message => some (.sendInLoop message)
  | .shutdown => some .shutdownInLoop
  | .forceClose => some .forceCloseInLoop
  | .destroy => some .connectDestroyed
  | _ => none

def exec (_ : Nat) (i : Instr) (x : Choice) (s : Shared) : Option (Shared × List Instr) :=
  match i, x with
  | .loop, .readable => some (s, [.handleRead, .loop])
  | .loop, .writable => some (s, [.handleWrite, .loop])
  | .loop, .hangup => some (s, [.handleClose, .loop])
  | .loop, x => (call x s).map fun j => (s, [j, .loop])
  | .callback, .next => some (s, [])
  | .callback, x => (call x s).map fun j => (s, [j, .callback])
  | .connectEstablished, .next => some ({ s with state := .kConnected }, [.callback])
  | .connectDestroyed, .next =>
    some (if s.state = .kDisconnected then s else s.close, [.callback])
  | .sendInLoop message, .next =>
    if s.state ≠ .kConnected ∨ message = [] then some (s, [])
    else some ({ s with messages := s.messages ++ message },
      if s.writing = false ∧ s.outputBuffer.readableBytes = 0 then [.sendDirect message]
      else [.appendOutput message])
  | .sendDirect data, .kernel result =>
    match result with
    | .bytes count =>
      if 0 < count ∧ count ≤ data.length then
        some ({ s with accepted := s.accepted ++ data.take count },
          if data.drop count = [] then [] else [.sendDirect (data.drop count)])
      else none
    | .interrupted => some (s, [.sendDirect data])
    | .wouldBlock => some (s, [.appendOutput data])
    | .failed => some (s, [.handleClose])
  | .appendOutput data, .next =>
    some ({ s with outputBuffer := s.outputBuffer.append data, writing := true }, [])
  | .shutdownInLoop, .next =>
    if s.state = .kConnected then
      some ({ s with state := .kDisconnecting }, if s.writing then [] else [.shutdownWrite])
    else some (s, [])
  | .shutdownWrite, .next => some (s, [])
  | .forceCloseInLoop, .next =>
    some (s, if s.state = .kConnected ∨ s.state = .kDisconnecting then [.handleClose] else [])
  | .handleRead, .read received closed =>
    some (s, (if received then [.callback] else []) ++ if closed then [.handleClose] else [])
  | .handleWrite, .next => some (s, if s.writing then [.writeOutput] else [])
  | .writeOutput, .next =>
    if s.outputBuffer.readableBytes = 0 then
      some ({ s with writing := false },
        if s.state = .kDisconnecting then [.shutdownWrite] else [])
    else none
  | .writeOutput, .kernel result =>
    if s.outputBuffer.readableBytes = 0 then none
    else match result with
      | .bytes count =>
        if 0 < count then
          match s.outputBuffer.retrieve count with
          | .ok rest =>
            some ({ s with
              outputBuffer := rest
              accepted := s.accepted ++ s.outputBuffer.peek.take count }, [.writeOutput])
          | .error _ => none
        else none
      | .interrupted => some (s, [.writeOutput])
      | .wouldBlock => some (s, [])
      | .failed => some (s, [.handleClose])
  | .handleClose, .next =>
    if s.state = .kDisconnected then some (s, []) else some (s.close, [.callback])
  | _, _ => none

def immediate : Instr → Prop
  | .connectEstablished | .sendDirect _ | .appendOutput _ | .writeOutput | .shutdownWrite => True
  | _ => False

/-- Nothing that the connection has been told to do is in progress. -/
def idle : Instr → Prop
  | .loop | .callback => True
  | _ => False

end Instr

abbrev Config := Library.Config Shared Instr

def machine : Library.Machine Shared Instr Choice := ⟨Instr.exec⟩

def init : Config := ⟨{}, [[.loop]]⟩

inductive Moves (s : Shared) : Instr → Shared → List Instr → Prop
  | event {i j : Instr} (idle : i.idle)
      (call : ¬j.immediate ∨ j = .connectEstablished ∧ s.state = .kConnecting) : Moves s i s [j, i]
  | returned : Moves s .callback s []
  | established : Moves s .connectEstablished { s with state := .kConnected } [.callback]
  | destroyed (closed : s.state = .kDisconnected) : Moves s .connectDestroyed s [.callback]
  | destroy : Moves s .connectDestroyed s.close [.callback]
  | refused (message : ByteString) : Moves s (.sendInLoop message) s []
  | direct (message : ByteString) (connected : s.state = .kConnected) (nonempty : message ≠ [])
      (idle : s.writing = false) (empty : s.outputBuffer.readableBytes = 0) :
      Moves s (.sendInLoop message) { s with messages := s.messages ++ message }
        [.sendDirect message]
  | behind (message : ByteString) (connected : s.state = .kConnected) (nonempty : message ≠ []) :
      Moves s (.sendInLoop message) { s with messages := s.messages ++ message }
        [.appendOutput message]
  | sentAll (data : ByteString) (count : Nat) (all : data.drop count = []) :
      Moves s (.sendDirect data) { s with accepted := s.accepted ++ data.take count } []
  | sentSome (data : ByteString) (count : Nat) (rest : data.drop count ≠ []) :
      Moves s (.sendDirect data) { s with accepted := s.accepted ++ data.take count }
        [.sendDirect (data.drop count)]
  | sendAgain (data : ByteString) : Moves s (.sendDirect data) s [.sendDirect data]
  | buffer (data : ByteString) : Moves s (.sendDirect data) s [.appendOutput data]
  | sendFailed (data : ByteString) : Moves s (.sendDirect data) s [.handleClose]
  | appendOutput (data : ByteString) :
      Moves s (.appendOutput data)
        { s with outputBuffer := s.outputBuffer.append data, writing := true } []
  | shutdownLater (connected : s.state = .kConnected) (writing : s.writing = true) :
      Moves s .shutdownInLoop { s with state := .kDisconnecting } []
  | shutdownNow (connected : s.state = .kConnected) (idle : s.writing = false) :
      Moves s .shutdownInLoop { s with state := .kDisconnecting } [.shutdownWrite]
  | skipShutdown : Moves s .shutdownInLoop s []
  | shutdownWrite : Moves s .shutdownWrite s []
  | forceClose : Moves s .forceCloseInLoop s [.handleClose]
  | skipForceClose : Moves s .forceCloseInLoop s []
  | handleRead (received closed : Bool) :
      Moves s .handleRead s
        ((if received then [.callback] else []) ++ if closed then [.handleClose] else [])
  | handleWrite (writing : s.writing = true) : Moves s .handleWrite s [.writeOutput]
  | skipWrite : Moves s .handleWrite s []
  | wroteAll (empty : s.outputBuffer.readableBytes = 0) (shuts : s.state = .kDisconnecting) :
      Moves s .writeOutput { s with writing := false } [.shutdownWrite]
  | wroteOut (empty : s.outputBuffer.readableBytes = 0) :
      Moves s .writeOutput { s with writing := false } []
  | wrote (count : Nat) (rest : Buffer) (retrieved : s.outputBuffer.retrieve count = .ok rest) :
      Moves s .writeOutput
        { s with outputBuffer := rest, accepted := s.accepted ++ s.outputBuffer.peek.take count }
        [.writeOutput]
  | writeAgain : Moves s .writeOutput s [.writeOutput]
  | wouldBlock (nonempty : s.outputBuffer.readableBytes ≠ 0) : Moves s .writeOutput s []
  | writeFailed : Moves s .writeOutput s [.handleClose]
  | closed (closed : s.state = .kDisconnected) : Moves s .handleClose s []
  | close : Moves s .handleClose s.close [.callback]

theorem not_immediate_of_call {x : Choice} {s : Shared} {j : Instr} (h : Instr.call x s = some j) :
    ¬j.immediate ∨ j = .connectEstablished ∧ s.state = .kConnecting := by
  cases x with
  | establish =>
    simp only [Instr.call] at h
    split at h <;> cases h
    exact .inr ⟨rfl, ‹_›⟩
  | send | shutdown | forceClose | destroy => cases h; exact .inl id
  | _ => cases h

theorem moves_of_call {x : Choice} {s s' : Shared} {i : Instr} {pushed : List Instr}
    (hidle : i.idle) (h : (Instr.call x s).map (fun j => (s, [j, i])) = some (s', pushed)) :
    Moves s i s' pushed := by
  obtain ⟨j, hcall, heq⟩ := Option.map_eq_some_iff.mp h
  cases heq
  exact .event hidle (not_immediate_of_call hcall)

theorem moves_of_exec {t : Nat} {x : Choice} {s s' : Shared} {i : Instr} {pushed : List Instr}
    (h : i.exec t x s = some (s', pushed)) : Moves s i s' pushed := by
  cases i with
  | loop =>
    cases x with
    | readable | writable | hangup => cases h; exact .event trivial (.inl id)
    | establish => exact moves_of_call (x := .establish) trivial h
    | send message => exact moves_of_call (x := .send message) trivial h
    | shutdown => exact moves_of_call (x := .shutdown) trivial h
    | forceClose => exact moves_of_call (x := .forceClose) trivial h
    | destroy => exact moves_of_call (x := .destroy) trivial h
    | _ => cases h
  | callback =>
    cases x with
    | next => cases h; exact .returned
    | establish => exact moves_of_call (x := .establish) trivial h
    | send message => exact moves_of_call (x := .send message) trivial h
    | shutdown => exact moves_of_call (x := .shutdown) trivial h
    | forceClose => exact moves_of_call (x := .forceClose) trivial h
    | destroy => exact moves_of_call (x := .destroy) trivial h
    | _ => cases h
  | connectEstablished => cases x <;> cases h; exact .established
  | connectDestroyed =>
    cases x <;> cases h
    split
    · exact .destroyed ‹_›
    · exact .destroy
  | sendInLoop message =>
    cases x with
    | next =>
      simp only [Instr.exec] at h
      split at h <;> cases h
      · exact .refused message
      · rename_i hsends
        rw [not_or, not_not] at hsends
        split
        · rename_i hdirect
          exact .direct message hsends.1 hsends.2 hdirect.1 hdirect.2
        · exact .behind message hsends.1 hsends.2
    | _ => cases h
  | sendDirect data =>
    cases x with
    | kernel result =>
      cases result with
      | bytes count =>
        simp only [Instr.exec] at h
        split at h <;> cases h
        split
        · exact .sentAll data count ‹_›
        · exact .sentSome data count ‹_›
      | interrupted => cases h; exact .sendAgain data
      | wouldBlock => cases h; exact .buffer data
      | failed => cases h; exact .sendFailed data
    | _ => cases h
  | appendOutput data => cases x <;> cases h; exact .appendOutput data
  | shutdownInLoop =>
    cases x with
    | next =>
      simp only [Instr.exec] at h
      split at h <;> cases h
      · split
        · exact .shutdownLater ‹_› ‹_›
        · exact .shutdownNow ‹_› (Bool.eq_false_iff.mpr ‹_›)
      · exact .skipShutdown
    | _ => cases h
  | shutdownWrite => cases x <;> cases h; exact .shutdownWrite
  | forceCloseInLoop =>
    cases x <;> cases h
    split
    · exact .forceClose
    · exact .skipForceClose
  | handleRead => cases x <;> cases h; exact .handleRead _ _
  | handleWrite =>
    cases x <;> cases h
    split
    · exact .handleWrite ‹_›
    · exact .skipWrite
  | writeOutput =>
    cases x with
    | next =>
      simp only [Instr.exec] at h
      split at h <;> cases h
      split
      · exact .wroteAll ‹_› ‹_›
      · exact .wroteOut ‹_›
    | kernel result =>
      simp only [Instr.exec] at h
      split at h
      · cases h
      · rename_i hnonempty
        cases result with
        | bytes count =>
          simp only at h
          split at h
          · split at h <;> cases h
            exact .wrote count _ ‹_›
          · cases h
        | interrupted => cases h; exact .writeAgain
        | wouldBlock => cases h; exact .wouldBlock hnonempty
        | failed => cases h; exact .writeFailed
    | _ => cases h
  | handleClose =>
    cases x with
    | next =>
      simp only [Instr.exec] at h
      split at h <;> cases h
      · exact .closed ‹_›
      · exact .close
    | _ => cases h

end UnixNotes.Reactor.TcpConnection
