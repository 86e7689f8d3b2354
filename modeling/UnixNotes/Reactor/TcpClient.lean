import UnixNotes.Reactor.Connector
import UnixNotes.Reactor.TcpConnection

namespace UnixNotes.Reactor.TcpClient

open Library

/-- The functors that `connect` and `stop` queue. `stopInLoop` has the number of its `stop`. -/
inductive Functor where
  | startInLoop
  | stopInLoop (id : Nat)
  | forceCloseInLoop (connection : Nat)
  deriving DecidableEq

/-- Connections are numbered in the order of their creation. The calls to `stop` are numbered too:
`stopping` has those that have cleared `connectRequested` since a call to `connect` has last set
it, and `returned` those that have returned. -/
structure Shared where
  connector : Connector.Shared := { newConnectionCallback := true, errorCallback := true }
  connections : List TcpConnection.State := []
  connection : Option Nat := none
  functors : List Functor := []
  stops : Nat := 0
  stopping : List Nat := []
  returned : List Nat := []

/-- Thread `0` is the one of the loop. -/
inductive Instr where
  | loop
  | user
  /-- `connect`. -/
  | storeStart
  | queueStart
  /-- `stop`. -/
  | storeStop (id : Nat)
  | queueStop (id : Nat)
  | snapshot (id : Nat)
  | forceClose (id connection : Nat)
  | connector (i : Connector.Instr)
  | newConnection (socketFd : Nat)
  | publish (connection : Nat)
  | removeConnection (connection : Nat)
  | connectDestroyed (connection : Nat)
  deriving DecidableEq

inductive Choice where
  | next
  | connect
  | stop
  | functor
  | writable
  | error
  | close (connection : Nat)
  | connector (x : Connector.Choice)

namespace Shared

def established (s : Shared) (k : Nat) : Prop := s.connections[k]? = some .kConnected

instance (s : Shared) (k : Nat) : Decidable (s.established k) :=
  inferInstanceAs (Decidable (_ = _))

/-- `handleClose`, which only the thread of the loop runs, up to the callback. -/
def close (s : Shared) (k : Nat) : Shared :=
  { s with connections := s.connections.set k .kDisconnected }

end Shared

namespace Instr

/-- The callback for a new connection is `newConnection`. -/
def ofConnector (i : Connector.Instr) (pushed : List Connector.Instr) : List Instr :=
  match i with
  | .handOver socketFd => [.newConnection socketFd]
  | _ => pushed.map .connector

def execConnector (i : Connector.Instr) (x : Connector.Choice) (s : Shared) :
    Option (Shared × List Instr) :=
  (i.exec 0 x s.connector).map fun r => ({ s with connector := r.1 }, ofConnector i r.2)

def closeInLoop (s : Shared) (k : Nat) : Shared × List Instr :=
  if s.established k then (s.close k, [.removeConnection k]) else (s, [])

def runFunctor (f : Functor) (s : Shared) : Option (Shared × List Instr) :=
  match f with
  | .startInLoop => execConnector .startInLoop .next s
  | .stopInLoop _ => execConnector .stopInLoop .next s
  | .forceCloseInLoop k => some (closeInLoop s k)

def exec (_ : Nat) (i : Instr) (x : Choice) (s : Shared) : Option (Shared × List Instr) :=
  match i, x with
  | .user, .connect => some (s, [.storeStart, .user])
  | .user, .stop => some ({ s with stops := s.stops + 1 }, [.storeStop s.stops, .user])
  | .storeStart, .next =>
    some ({ s with connector.connectRequested := true, stopping := [] }, [.queueStart])
  | .queueStart, .next => some ({ s with functors := s.functors ++ [.startInLoop] }, [])
  | .storeStop id, .next =>
    some ({ s with connector.connectRequested := false, stopping := id :: s.stopping },
      [.queueStop id])
  | .queueStop id, .next =>
    some ({ s with functors := s.functors ++ [.stopInLoop id] }, [.snapshot id])
  | .snapshot id, .next =>
    match s.connection with
    | none => some ({ s with returned := id :: s.returned }, [])
    | some k => some (s, [.forceClose id k])
  | .forceClose id k, .next =>
    some ({ s with
      functors := s.functors ++ [.forceCloseInLoop k]
      returned := id :: s.returned }, [])
  | .loop, .functor =>
    match s.functors with
    | [] => none
    | f :: functors =>
      (runFunctor f { s with functors := functors }).map fun r => (r.1, r.2 ++ [.loop])
  | .loop, .writable => some (s, [.connector .handleWrite, .loop])
  | .loop, .error => some (s, [.connector .handleError, .loop])
  | .loop, .close k => some ((closeInLoop s k).1, (closeInLoop s k).2 ++ [.loop])
  -- the error callback does not come back to the client
  | .connector .callback, .connector .next => some (s, [])
  | .connector .callback, _ => none
  | .connector i, .connector x => execConnector i x s
  | .newConnection _, .next =>
    some ({ s with connections := s.connections ++ [.kConnecting] },
      [.publish s.connections.length])
  -- `connectEstablished` sets the state that only this thread looks at
  | .publish k, .next =>
    some ({ s with connection := k, connections := s.connections.set k .kConnected }, [])
  | .removeConnection k, .next =>
    some ({ s with connection := if s.connection = some k then none else s.connection },
      [.connector (.storeRequested false), .connectDestroyed k])
  | .connectDestroyed k, .next => some (s.close k, [])
  | _, _ => none

def amidStop : Instr → Prop
  | .snapshot _ | .forceClose _ _ => True
  | _ => False

instance : DecidablePred amidStop := fun i => by
  cases i <;> first | exact .isTrue trivial | exact .isFalse id

end Instr

abbrev Config := Library.Config Shared Instr

def machine : Library.Machine Shared Instr Choice := ⟨Instr.exec⟩

def init (users : Nat) : Config := ⟨{}, [.loop] :: List.replicate users [.user]⟩

def Functor.stop? : Functor → Option Nat
  | .stopInLoop id => some id
  | _ => none

/-- A connection is published only when every `stop` with a `stopInLoop` in the queue has yet to
look for one, and `connect` does not queue `startInLoop` between the two functors of a `stop`. -/
def StopsApart (c : Config) (_ : Nat) : Instr → Prop
  | .publish _ =>
    ∀ id ∈ c.shared.functors.filterMap Functor.stop?, ∃ t, c.Active t (.snapshot id)
  | .queueStart => ¬∃ t j, c.Active t j ∧ j.amidStop
  | _ => True

instance (c : Config) (t : Nat) (i : Instr) : Decidable (StopsApart c t i) := by
  unfold StopsApart
  split <;> infer_instance

/-- A call to `stop` that no call to `connect` follows has returned, the loop has drained its queue
and has nothing else to do. -/
def Drained (c : Config) : Prop :=
  (∃ id ∈ c.shared.stopping, id ∈ c.shared.returned) ∧ c.shared.functors = [] ∧
    c.stack 0 = [.loop]

instance (c : Config) : Decidable (Drained c) := inferInstanceAs (Decidable (_ ∧ _ ∧ _))

inductive Moves (s : Shared) : Instr → Shared → List Instr → Prop
  | connect : Moves s .user s [.storeStart, .user]
  | stop : Moves s .user { s with stops := s.stops + 1 } [.storeStop s.stops, .user]
  | storeStart :
      Moves s .storeStart { s with connector.connectRequested := true, stopping := [] }
        [.queueStart]
  | queueStart : Moves s .queueStart { s with functors := s.functors ++ [.startInLoop] } []
  | storeStop (id : Nat) :
      Moves s (.storeStop id)
        { s with connector.connectRequested := false, stopping := id :: s.stopping }
        [.queueStop id]
  | queueStop (id : Nat) :
      Moves s (.queueStop id) { s with functors := s.functors ++ [.stopInLoop id] } [.snapshot id]
  | sawNone (id : Nat) (none : s.connection = none) :
      Moves s (.snapshot id) { s with returned := id :: s.returned } []
  | sawSome (id k : Nat) (some : s.connection = some k) :
      Moves s (.snapshot id) s [.forceClose id k]
  | forceClose (id k : Nat) :
      Moves s (.forceClose id k)
        { s with
          functors := s.functors ++ [.forceCloseInLoop k]
          returned := id :: s.returned } []
  | startInLoop (functors : List Functor) (queue : s.functors = .startInLoop :: functors)
      (requested : s.connector.connectRequested = true)
      (disconnected : s.connector.state = .kDisconnected) :
      Moves s .loop { s with functors := functors } [.connector .createSocket, .loop]
  | skipStart (functors : List Functor) (queue : s.functors = .startInLoop :: functors) :
      Moves s .loop { s with functors := functors } [.loop]
  | stopInLoop (id : Nat) (functors : List Functor) (connector : Connector.Shared)
      (fds : List Nat) (queue : s.functors = .stopInLoop id :: functors)
      (state : connector.state = .kDisconnected)
      (requested : connector.connectRequested = s.connector.connectRequested) :
      Moves s .loop { s with functors := functors, connector := connector }
        ((fds.map fun fd => .connector (.close fd)) ++ [.loop])
  | forceCloseInLoop (k : Nat) (functors : List Functor)
      (queue : s.functors = .forceCloseInLoop k :: functors) (established : s.established k) :
      Moves s .loop { s.close k with functors := functors } [.removeConnection k, .loop]
  | skipForceClose (k : Nat) (functors : List Functor)
      (queue : s.functors = .forceCloseInLoop k :: functors) (closed : ¬s.established k) :
      Moves s .loop { s with functors := functors } [.loop]
  | event (i : Connector.Instr) (event : i = .handleWrite ∨ i = .handleError) :
      Moves s .loop s [.connector i, .loop]
  | close (k : Nat) (established : s.established k) :
      Moves s .loop (s.close k) [.removeConnection k, .loop]
  | skipClose : Moves s .loop s [.loop]
  | callback : Moves s (.connector .callback) s []
  | connector {i : Connector.Instr} {connector : Connector.Shared} {pushed : List Connector.Instr}
      (called : i ≠ .callback) (moves : Connector.Moves 0 s.connector i connector pushed) :
      Moves s (.connector i) { s with connector := connector } (Instr.ofConnector i pushed)
  | newConnection (socketFd : Nat) :
      Moves s (.newConnection socketFd)
        { s with connections := s.connections ++ [.kConnecting] } [.publish s.connections.length]
  | publish (k : Nat) :
      Moves s (.publish k)
        { s with connection := k, connections := s.connections.set k .kConnected } []
  | removeConnection (k : Nat) :
      Moves s (.removeConnection k)
        { s with connection := if s.connection = some k then none else s.connection }
        [.connector (.storeRequested false), .connectDestroyed k]
  | connectDestroyed (k : Nat) : Moves s (.connectDestroyed k) (s.close k) []

theorem moves_of_execConnector {i : Connector.Instr} {x : Connector.Choice} {s s' : Shared}
    {pushed : List Instr} (h : Instr.execConnector i x s = some (s', pushed)) :
    ∃ connector after, Connector.Moves 0 s.connector i connector after ∧
      s' = { s with connector := connector } ∧ pushed = Instr.ofConnector i after := by
  rw [Instr.execConnector] at h
  obtain ⟨⟨connector, after⟩, hexec, heq⟩ := Option.map_eq_some_iff.mp h
  cases heq
  exact ⟨connector, after, Connector.moves_of_exec hexec, rfl, rfl⟩

theorem moves_of_functor {f : Functor} {functors : List Functor} {s s' : Shared}
    {pushed : List Instr} (hqueue : s.functors = f :: functors)
    (h : Instr.runFunctor f { s with functors := functors } = some (s', pushed)) :
    Moves s .loop s' (pushed ++ [.loop]) := by
  cases f with
  | startInLoop =>
    obtain ⟨connector, after, hmoves, rfl, rfl⟩ := moves_of_execConnector h
    cases hmoves with
    | startInLoop requested disconnected => exact .startInLoop functors hqueue requested disconnected
    | skipStart => exact .skipStart functors hqueue
    | call _ idle | setNewConnectionCallback _ idle | setErrorCallback _ idle =>
      rcases idle with heq | heq <;> cases heq
  | stopInLoop id =>
    obtain ⟨connector, after, hmoves, rfl, rfl⟩ := moves_of_execConnector h
    cases hmoves with
    | cancel =>
      have := Moves.stopInLoop (s := s) id functors
        { s.connector.removeAndResetChannel with state := .kDisconnected }
        s.connector.socketFd.toList hqueue rfl rfl
      simpa [Instr.ofConnector, Function.comp_def] using this
    | reset => exact .stopInLoop id functors _ [] hqueue rfl rfl
    | skipStop disconnected => exact .stopInLoop id functors _ [] hqueue disconnected rfl
    | call _ idle | setNewConnectionCallback _ idle | setErrorCallback _ idle =>
      rcases idle with heq | heq <;> cases heq
  | forceCloseInLoop k =>
    simp only [Instr.runFunctor, Instr.closeInLoop, Option.some.injEq] at h
    split at h <;> cases h
    · exact .forceCloseInLoop k functors hqueue ‹_›
    · exact .skipForceClose k functors hqueue ‹_›

theorem moves_of_exec {t : Nat} {x : Choice} {s s' : Shared} {i : Instr} {pushed : List Instr}
    (h : i.exec t x s = some (s', pushed)) : Moves s i s' pushed := by
  cases i with
  | user =>
    cases x with
    | connect => cases h; exact .connect
    | stop => cases h; exact .stop
    | _ => cases h
  | loop =>
    cases x with
    | functor =>
      simp only [Instr.exec] at h
      split at h
      · cases h
      · rename_i f functors hqueue
        obtain ⟨⟨s₁, pushed⟩, hrun, heq⟩ := Option.map_eq_some_iff.mp h
        cases heq
        exact moves_of_functor hqueue hrun
    | writable => cases h; exact .event _ (.inl rfl)
    | error => cases h; exact .event _ (.inr rfl)
    | close k =>
      simp only [Instr.exec, Instr.closeInLoop, Option.some.injEq] at h
      split at h <;> cases h
      · exact .close k ‹_›
      · exact .skipClose
    | _ => cases h
  | snapshot id =>
    cases x with
    | next =>
      simp only [Instr.exec] at h
      split at h <;> cases h
      · exact .sawNone id ‹_›
      · exact .sawSome id _ ‹_›
    | _ => cases h
  | connector i =>
    by_cases hcallback : i = .callback
    · subst hcallback
      cases x with
      | connector x => cases x <;> cases h; exact .callback
      | _ => cases h
    · cases x with
      | connector x =>
        have hexec : Instr.execConnector i x s = some (s', pushed) := by
          cases i <;> first | exact h | exact absurd rfl hcallback
        obtain ⟨connector, after, hmoves, rfl, rfl⟩ := moves_of_execConnector hexec
        exact .connector hcallback hmoves
      | _ => cases i <;> cases h
  | storeStart => cases x <;> cases h; exact .storeStart
  | queueStart => cases x <;> cases h; exact .queueStart
  | storeStop id => cases x <;> cases h; exact .storeStop id
  | queueStop id => cases x <;> cases h; exact .queueStop id
  | forceClose id k => cases x <;> cases h; exact .forceClose id k
  | newConnection socketFd => cases x <;> cases h; exact .newConnection socketFd
  | publish k => cases x <;> cases h; exact .publish k
  | removeConnection k => cases x <;> cases h; exact .removeConnection k
  | connectDestroyed k => cases x <;> cases h; exact .connectDestroyed k

end UnixNotes.Reactor.TcpClient
