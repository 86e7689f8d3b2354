import UnixNotes.Library.Interleaving

namespace UnixNotes.Reactor.Connector

open Library

inductive State where
  | kDisconnected
  | kConnecting
  | kConnected
  deriving DecidableEq

/-- Sockets are numbered in the order of their creation, as a descriptor is used again once it has
been closed. `functors` has the calls to `startInLoop` (`true`) and `stopInLoop` that are queued in
the loop, and `calls` counts those to `start` and `stop` that are in progress in other threads. -/
structure Shared where
  connectRequested : Bool := false
  state : State := .kDisconnected
  socketFd : Option Nat := none
  channel : Option Nat := none
  newConnectionCallback : Bool := false
  errorCallback : Bool := false
  functors : List Bool := []
  calls : Nat := 0
  alive : Bool := true
  aborted : Bool := false
  created : Nat := 0
  closed : List Nat := []
  handed : List Nat := []

/-- What `::connect` says. `inProgress` is `EINPROGRESS`, `EINTR` or `EISCONN`. -/
inductive Connected where
  | done
  | inProgress
  | failed
  deriving DecidableEq

/-- Thread `0` is the one of the loop. -/
inductive Instr where
  /-- The loop, between two events. -/
  | loop
  | user
  /-- A callback of the user. -/
  | callback
  /-- `start` and `stop`. -/
  | storeRequested (requested : Bool)
  | runInLoop (requested : Bool)
  | startInLoop
  | createSocket
  | connect (socketFd : Nat)
  | testDelivery (socketFd : Nat)
  | closeAndReset (socketFd : Nat)
  | handOver (socketFd : Nat)
  | stopInLoop
  | handleWrite
  | testSocket (socketFd : Nat)
  | testRequested (socketFd : Nat)
  | handleError
  | close (socketFd : Nat)
  /-- The end of `reportError`. -/
  | testError
  deriving DecidableEq

inductive Choice where
  | next
  | start
  | stop
  | setNewConnectionCallback (set : Bool)
  | setErrorCallback (set : Bool)
  | functor
  | writable
  /-- `EPOLLERR` or `EPOLLHUP`. -/
  | error
  | destroy
  | socket (created : Bool)
  | connect (result : Connected)
  | socketError (failed : Bool)

namespace Shared

def removeAndResetChannel (s : Shared) : Shared := { s with channel := none, socketFd := none }

def close (s : Shared) (socketFd : Nat) : Shared := { s with closed := s.closed ++ [socketFd] }

/-- The destructor closes a socket that the connector still has. -/
def destroy (s : Shared) : Shared :=
  { s with
    alive := false
    closed := s.closed ++ s.socketFd.toList
    socketFd := none
    state := .kDisconnected }

end Shared

namespace Instr

def inLoop (requested : Bool) : Instr := if requested then .startInLoop else .stopInLoop

/-- What the thread of the loop does with the connector, in `i`. -/
def call (i : Instr) (x : Choice) (s : Shared) : Option (Shared × List Instr) :=
  match x with
  | .start => some (s, [.storeRequested true, i])
  | .stop => some (s, [.storeRequested false, i])
  | .setNewConnectionCallback set => some ({ s with newConnectionCallback := set }, [i])
  | .setErrorCallback set => some ({ s with errorCallback := set }, [i])
  | _ => none

def act (t : Nat) (i : Instr) (x : Choice) (s : Shared) : Option (Shared × List Instr) :=
  match i, x with
  | .loop, .functor =>
    match s.functors with
    | [] => none
    | requested :: functors => some ({ s with functors := functors }, [inLoop requested, .loop])
  | .loop, .writable => some (s, [.handleWrite, .loop])
  | .loop, .error => some (s, [.handleError, .loop])
  | .loop, .destroy =>
    if s.calls = 0 ∧ s.functors = [] then
      -- `assert(channel_ == nullptr)`
      if s.channel = none then some (s.destroy, []) else some ({ s with aborted := true }, [])
    else none
  | .loop, x => call .loop x s
  | .callback, .next => some (s, [])
  | .callback, x => call .callback x s
  | .user, .start =>
    if s.alive then some ({ s with calls := s.calls + 1 }, [.storeRequested true, .user]) else none
  | .user, .stop =>
    if s.alive then some ({ s with calls := s.calls + 1 }, [.storeRequested false, .user]) else none
  | .storeRequested requested, .next =>
    some ({ s with connectRequested := requested }, [.runInLoop requested])
  | .runInLoop requested, .next =>
    if t = 0 then some (s, [inLoop requested])
    else some ({ s with functors := s.functors ++ [requested], calls := s.calls - 1 }, [])
  | .startInLoop, .next =>
    some (s, if s.connectRequested ∧ s.state = .kDisconnected then [.createSocket] else [])
  | .createSocket, .socket created =>
    if created then some ({ s with created := s.created + 1 }, [.connect s.created])
    else some (s, if s.errorCallback then [.callback] else [])
  | .connect socketFd, .connect result =>
    match result with
    | .done => some ({ s with state := .kConnected }, [.testDelivery socketFd])
    | .inProgress =>
      some ({ s with state := .kConnecting, socketFd := socketFd, channel := socketFd }, [])
    | .failed => some (s, [.close socketFd, .testError])
  | .testDelivery socketFd, .next =>
    some (s, if s.connectRequested ∧ s.newConnectionCallback then [.handOver socketFd]
      else [.closeAndReset socketFd])
  | .closeAndReset socketFd, .next =>
    some ({ s.close socketFd with state := .kDisconnected }, [])
  | .handOver socketFd, .next => some ({ s with handed := s.handed ++ [socketFd] }, [.callback])
  | .stopInLoop, .next =>
    match s.state with
    | .kConnecting =>
      some ({ s.removeAndResetChannel with state := .kDisconnected }, s.socketFd.toList.map .close)
    | .kConnected => some ({ s with state := .kDisconnected }, [])
    | .kDisconnected => some (s, [])
  | .handleWrite, .next =>
    if s.state = .kConnecting then
      some (s.removeAndResetChannel, s.socketFd.toList.map .testSocket)
    else some (s, [])
  | .testSocket socketFd, .socketError failed =>
    if failed then some ({ s with state := .kDisconnected }, [.close socketFd, .testError])
    else some (s, [.testRequested socketFd])
  | .testRequested socketFd, .next =>
    if s.connectRequested then
      some ({ s with state := .kConnected },
        if s.newConnectionCallback then [.handOver socketFd] else [.closeAndReset socketFd])
    else some ({ s with state := .kDisconnected }, [.close socketFd])
  | .handleError, .next =>
    if s.state = .kConnecting then
      some ({ s.removeAndResetChannel with state := .kDisconnected },
        s.socketFd.toList.map .close ++ [.testError])
    else some (s, [])
  | .close socketFd, .next => some (s.close socketFd, [])
  | .testError, .next =>
    some (s, if s.connectRequested ∧ s.errorCallback then [.callback] else [])
  | _, _ => none

/-- An abort ends all threads. -/
def exec (t : Nat) (i : Instr) (x : Choice) (s : Shared) : Option (Shared × List Instr) :=
  if s.aborted then none else i.act t x s

/-- The socket that a function of the connector has in a variable of its own. -/
def carries : Instr → Option Nat
  | .connect fd | .testDelivery fd | .closeAndReset fd | .handOver fd | .testSocket fd
  | .testRequested fd | .close fd => some fd
  | _ => none

end Instr

abbrev Config := Library.Config Shared Instr

def machine : Library.Machine Shared Instr Choice := ⟨Instr.exec⟩

def init (users : Nat) : Config := ⟨{}, [.loop] :: List.replicate users [.user]⟩

def held (c : Config) : List Nat :=
  c.shared.socketFd.toList ++ c.shared.channel.toList ++ (c.stack 0).filterMap Instr.carries

inductive Moves (t : Nat) (s : Shared) : Instr → Shared → List Instr → Prop
  | functor (requested : Bool) (functors : List Bool) :
      Moves t s .loop { s with functors := functors } [Instr.inLoop requested, .loop]
  | writable : Moves t s .loop s [.handleWrite, .loop]
  | error : Moves t s .loop s [.handleError, .loop]
  | destroy (free : s.channel = none) : Moves t s .loop s.destroy []
  | abort (connecting : s.channel ≠ none) : Moves t s .loop { s with aborted := true } []
  | call (requested : Bool) {i : Instr} (idle : i = .loop ∨ i = .callback) :
      Moves t s i s [.storeRequested requested, i]
  | setNewConnectionCallback (set : Bool) {i : Instr} (idle : i = .loop ∨ i = .callback) :
      Moves t s i { s with newConnectionCallback := set } [i]
  | setErrorCallback (set : Bool) {i : Instr} (idle : i = .loop ∨ i = .callback) :
      Moves t s i { s with errorCallback := set } [i]
  | returned : Moves t s .callback s []
  | user (requested : Bool) :
      Moves t s .user { s with calls := s.calls + 1 } [.storeRequested requested, .user]
  | storeRequested (requested : Bool) :
      Moves t s (.storeRequested requested) { s with connectRequested := requested }
        [.runInLoop requested]
  | runInLoop (requested : Bool) (here : t = 0) :
      Moves t s (.runInLoop requested) s [Instr.inLoop requested]
  | queueInLoop (requested : Bool) :
      Moves t s (.runInLoop requested)
        { s with functors := s.functors ++ [requested], calls := s.calls - 1 } []
  | startInLoop (requested : s.connectRequested = true) (disconnected : s.state = .kDisconnected) :
      Moves t s .startInLoop s [.createSocket]
  | skipStart : Moves t s .startInLoop s []
  | createSocket :
      Moves t s .createSocket { s with created := s.created + 1 } [.connect s.created]
  | reportSocket : Moves t s .createSocket s [.callback]
  | skipSocket : Moves t s .createSocket s []
  | connected (socketFd : Nat) :
      Moves t s (.connect socketFd) { s with state := .kConnected } [.testDelivery socketFd]
  | connecting (socketFd : Nat) :
      Moves t s (.connect socketFd)
        { s with state := .kConnecting, socketFd := socketFd, channel := socketFd } []
  | refused (socketFd : Nat) : Moves t s (.connect socketFd) s [.close socketFd, .testError]
  | deliver (socketFd : Nat) : Moves t s (.testDelivery socketFd) s [.handOver socketFd]
  | skipDelivery (socketFd : Nat) :
      Moves t s (.testDelivery socketFd) s [.closeAndReset socketFd]
  | closeAndReset (socketFd : Nat) :
      Moves t s (.closeAndReset socketFd) { s.close socketFd with state := .kDisconnected } []
  | handOver (socketFd : Nat) :
      Moves t s (.handOver socketFd) { s with handed := s.handed ++ [socketFd] } [.callback]
  | cancel (connecting : s.state = .kConnecting) :
      Moves t s .stopInLoop { s.removeAndResetChannel with state := .kDisconnected }
        (s.socketFd.toList.map .close)
  | reset (connected : s.state = .kConnected) :
      Moves t s .stopInLoop { s with state := .kDisconnected } []
  | skipStop (disconnected : s.state = .kDisconnected) : Moves t s .stopInLoop s []
  | handleWrite (connecting : s.state = .kConnecting) :
      Moves t s .handleWrite s.removeAndResetChannel (s.socketFd.toList.map .testSocket)
  | skipWrite : Moves t s .handleWrite s []
  | socketFailed (socketFd : Nat) :
      Moves t s (.testSocket socketFd) { s with state := .kDisconnected }
        [.close socketFd, .testError]
  | socketConnected (socketFd : Nat) : Moves t s (.testSocket socketFd) s [.testRequested socketFd]
  | requested (socketFd : Nat) :
      Moves t s (.testRequested socketFd) { s with state := .kConnected } [.handOver socketFd]
  | noCallback (socketFd : Nat) :
      Moves t s (.testRequested socketFd) { s with state := .kConnected }
        [.closeAndReset socketFd]
  | notRequested (socketFd : Nat) :
      Moves t s (.testRequested socketFd) { s with state := .kDisconnected } [.close socketFd]
  | handleError (connecting : s.state = .kConnecting) :
      Moves t s .handleError { s.removeAndResetChannel with state := .kDisconnected }
        (s.socketFd.toList.map .close ++ [.testError])
  | skipError : Moves t s .handleError s []
  | close (socketFd : Nat) : Moves t s (.close socketFd) (s.close socketFd) []
  | reportError : Moves t s .testError s [.callback]
  | skipReport : Moves t s .testError s []

theorem moves_of_call {t : Nat} {x : Choice} {s s' : Shared} {i : Instr} {pushed : List Instr}
    (hidle : i = .loop ∨ i = .callback) (h : i.call x s = some (s', pushed)) :
    Moves t s i s' pushed := by
  cases x with
  | start => cases h; exact .call true hidle
  | stop => cases h; exact .call false hidle
  | setNewConnectionCallback set => cases h; exact .setNewConnectionCallback set hidle
  | setErrorCallback set => cases h; exact .setErrorCallback set hidle
  | _ => cases h

theorem moves_of_act {t : Nat} {x : Choice} {s s' : Shared} {i : Instr} {pushed : List Instr}
    (h : i.act t x s = some (s', pushed)) : Moves t s i s' pushed := by
  cases i with
  | loop =>
    cases x with
    | functor =>
      simp only [Instr.act] at h
      split at h <;> cases h
      exact .functor _ _
    | writable => cases h; exact .writable
    | error => cases h; exact .error
    | destroy =>
      simp only [Instr.act] at h
      split at h
      · split at h <;> cases h
        · exact .destroy ‹_›
        · exact .abort ‹_›
      · cases h
    | start | stop | setNewConnectionCallback | setErrorCallback =>
      simp only [Instr.act] at h
      exact moves_of_call (.inl rfl) h
    | _ => cases h
  | callback =>
    cases x with
    | next => cases h; exact .returned
    | start | stop | setNewConnectionCallback | setErrorCallback =>
      simp only [Instr.act] at h
      exact moves_of_call (.inr rfl) h
    | _ => cases h
  | user =>
    cases x with
    | start | stop =>
      simp only [Instr.act] at h
      split at h <;> cases h
      exact .user _
    | _ => cases h
  | storeRequested requested => cases x <;> cases h; exact .storeRequested requested
  | runInLoop requested =>
    cases x with
    | next =>
      simp only [Instr.act] at h
      split at h <;> cases h
      · exact .runInLoop requested ‹_›
      · exact .queueInLoop requested
    | _ => cases h
  | startInLoop =>
    cases x <;> cases h
    split
    · exact .startInLoop (And.left ‹_›) (And.right ‹_›)
    · exact .skipStart
  | createSocket =>
    cases x with
    | socket created =>
      cases created <;> cases h
      · split
        · exact .reportSocket
        · exact .skipSocket
      · exact .createSocket
    | _ => cases h
  | connect socketFd =>
    cases x with
    | connect result =>
      cases result <;> cases h
      · exact .connected socketFd
      · exact .connecting socketFd
      · exact .refused socketFd
    | _ => cases h
  | testDelivery socketFd =>
    cases x <;> cases h
    split
    · exact .deliver socketFd
    · exact .skipDelivery socketFd
  | closeAndReset socketFd => cases x <;> cases h; exact .closeAndReset socketFd
  | handOver socketFd => cases x <;> cases h; exact .handOver socketFd
  | stopInLoop =>
    cases x with
    | next =>
      simp only [Instr.act] at h
      split at h <;> cases h
      · exact .cancel ‹_›
      · exact .reset ‹_›
      · exact .skipStop ‹_›
    | _ => cases h
  | handleWrite =>
    cases x with
    | next =>
      simp only [Instr.act] at h
      split at h <;> cases h
      · exact .handleWrite ‹_›
      · exact .skipWrite
    | _ => cases h
  | testSocket socketFd =>
    cases x with
    | socketError failed =>
      cases failed <;> cases h
      · exact .socketConnected socketFd
      · exact .socketFailed socketFd
    | _ => cases h
  | testRequested socketFd =>
    cases x with
    | next =>
      simp only [Instr.act] at h
      split at h <;> cases h
      · split
        · exact .requested socketFd
        · exact .noCallback socketFd
      · exact .notRequested socketFd
    | _ => cases h
  | handleError =>
    cases x with
    | next =>
      simp only [Instr.act] at h
      split at h <;> cases h
      · exact .handleError ‹_›
      · exact .skipError
    | _ => cases h
  | close socketFd => cases x <;> cases h; exact .close socketFd
  | testError =>
    cases x <;> cases h
    split
    · exact .reportError
    · exact .skipReport

theorem act_of_exec {t : Nat} {x : Choice} {s s' : Shared} {i : Instr} {pushed : List Instr}
    (h : i.exec t x s = some (s', pushed)) :
    i.act t x s = some (s', pushed) ∧ s.aborted = false := by
  rw [Instr.exec] at h
  split at h
  · cases h
  · exact ⟨h, Bool.not_eq_true _ ▸ ‹_›⟩

theorem moves_of_exec {t : Nat} {x : Choice} {s s' : Shared} {i : Instr} {pushed : List Instr}
    (h : i.exec t x s = some (s', pushed)) : Moves t s i s' pushed :=
  moves_of_act (act_of_exec h).1

end UnixNotes.Reactor.Connector
