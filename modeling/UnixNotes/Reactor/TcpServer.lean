import Mathlib
import UnixNotes.Library.Interleaving
import UnixNotes.Reactor.TcpConnection

namespace UnixNotes.Reactor.TcpServer

open Library
open TcpConnection (State)

/-- `int`, whose increment wraps. -/
abbrev ConnectionId := BitVec 32

def connectionName (id : ConnectionId) : String := "connection-" ++ id.toInt.repr

theorem connectionName_inj {a b : ConnectionId} : connectionName a = connectionName b ↔ a = b := by
  rw [connectionName, connectionName, String.append_right_inj, Int.repr_inj, BitVec.toInt_inj]

structure Connection where
  name : String
  loop : Nat
  state : State := .kConnecting

/-- Connections are numbered in the order in which they are accepted. -/
inductive Functor where
  | connectEstablished (k : Nat)
  | shutdownInLoop (k : Nat)
  | forceCloseInLoop (k : Nat)
  | removeConnectionInLoop (k : Nat)
  | connectDestroyed (k : Nat)
  deriving DecidableEq

/-- `made` has the connections that have been accepted, `functors` those of all loops with the loop
that they are queued in, and `removed` the connections for which `removeConnectionInLoop` has run.
Loop `0` is the one of the server. -/
structure Shared where
  nextConnectionId : ConnectionId := 1
  connections : AList fun _ : String => Nat := ∅
  made : List Connection := []
  next : Nat := 0
  functors : List (Nat × Functor) := []
  removed : List Nat := []

inductive Instr where
  | loop
  /-- A thread without a loop. -/
  | user
  /-- A callback of the user. -/
  | callback
  | newConnection
  | call (f : Functor)
  | queueInLoop (target : Nat) (f : Functor)
  | running (functors : List Functor)
  | handleClose (k : Nat)
  /-- `removeConnection`. -/
  | closeCallback (k : Nat)
  deriving DecidableEq

inductive Choice where
  | next
  | accept
  | functors
  /-- An event or a failure of the connection that leads to `handleClose`. -/
  | event (k : Nat)
  | message
  /-- `shutdown` or `forceClose`. -/
  | request (k : Nat) (force : Bool)

namespace Shared

def state (s : Shared) (k : Nat) : Option State := s.made[k]?.map Connection.state

def setState (s : Shared) (k : Nat) (state : State) : Shared :=
  { s with made := s.made.modify k fun connection => { connection with state := state } }

/-- `getNextLoop`, with `workers` loops beside the one of the server. -/
def getNextLoop (s : Shared) (workers : Nat) : Nat := if workers = 0 then 0 else s.next + 1

/-- `map::emplace`, which keeps what is there. -/
def emplace (s : Shared) (name : String) (k : Nat) : AList fun _ : String => Nat :=
  if name ∈ s.connections then s.connections else s.connections.insert name k

def newConnection (s : Shared) (workers : Nat) : Shared :=
  let name := connectionName s.nextConnectionId
  { s with
    nextConnectionId := s.nextConnectionId + 1
    next := (s.next + 1) % workers
    made := s.made ++ [⟨name, s.getNextLoop workers, .kConnecting⟩]
    connections := s.emplace name s.made.length }

end Shared

def runInLoop (t target : Nat) (f : Functor) : Instr :=
  if t = target then .call f else .queueInLoop target f

namespace Instr

def execCall (f : Functor) (s : Shared) : Shared × List Instr :=
  match f with
  | .connectEstablished k => (s.setState k .kConnected, [.callback])
  | .shutdownInLoop k =>
    (if s.state k = some .kConnected then s.setState k .kDisconnecting else s, [])
  | .forceCloseInLoop k =>
    (s, if s.state k = some .kConnected ∨ s.state k = some .kDisconnecting then [.handleClose k]
      else [])
  | .removeConnectionInLoop k =>
    let removed := { s with removed := k :: s.removed }
    match s.made[k]? with
    | none => (removed, [])
    | some connection =>
      if connection.name ∈ s.connections then
        ({ removed with connections := s.connections.erase connection.name },
          [.queueInLoop connection.loop (.connectDestroyed k)])
      else (removed, [])
  | .connectDestroyed k => (s.setState k .kDisconnected, [.callback])

/-- The calls that a thread makes from `i`. -/
def request (t : Nat) (i : Instr) (x : Choice) (s : Shared) : Option (Shared × List Instr) :=
  match x with
  | .request k force => s.made[k]?.map fun connection =>
      (s, [runInLoop t connection.loop (if force then .forceCloseInLoop k else .shutdownInLoop k), i])
  | _ => none

def exec (workers t : Nat) (i : Instr) (x : Choice) (s : Shared) :
    Option (Shared × List Instr) :=
  match i, x with
  | .loop, .accept => if t = 0 then some (s, [.newConnection, .loop]) else none
  | .loop, .event k =>
    if s.made[k]?.any (fun connection => connection.loop = t ∧ connection.state ≠ .kConnecting) then
      some (s, [.handleClose k, .loop])
    else none
  | .loop, .message => some (s, [.callback, .loop])
  | .loop, .functors =>
    some ({ s with functors := s.functors.filter fun f => f.1 ≠ t },
      [.running ((s.functors.filter fun f => f.1 = t).map Prod.snd), .loop])
  | .user, x => request t .user x s
  | .callback, .next => some (s, [])
  | .callback, x => request t .callback x s
  | .newConnection, .next =>
    some (s.newConnection workers,
      [runInLoop t (s.getNextLoop workers) (.connectEstablished s.made.length)])
  | .call f, .next => some (execCall f s)
  | .queueInLoop target f, .next => some ({ s with functors := s.functors ++ [(target, f)] }, [])
  | .running [], .next => some (s, [])
  | .running (f :: functors), .next => some (s, [.call f, .running functors])
  | .handleClose k, .next =>
    if s.state k = some .kDisconnected then some (s, [])
    else some (s.setState k .kDisconnected, [.closeCallback k])
  | .closeCallback k, .next =>
    some (s, [.queueInLoop 0 (.removeConnectionInLoop k)])
  | _, _ => none

end Instr

abbrev Config := Library.Config Shared Instr

def machine (workers : Nat) : Library.Machine Shared Instr Choice := ⟨Instr.exec workers⟩

def init (workers users : Nat) : Config :=
  ⟨{}, List.replicate (workers + 1) [.loop] ++ List.replicate users [.user]⟩

inductive Moves (workers t : Nat) (s : Shared) : Instr → Shared → List Instr → Prop
  | accept (base : t = 0) : Moves workers t s .loop s [.newConnection, .loop]
  | event (k : Nat) {connection : Connection} (made : s.made[k]? = some connection)
      (established : connection.state ≠ .kConnecting) :
      Moves workers t s .loop s [.handleClose k, .loop]
  | message : Moves workers t s .loop s [.callback, .loop]
  | functors :
      Moves workers t s .loop { s with functors := s.functors.filter fun f => f.1 ≠ t }
        [.running ((s.functors.filter fun f => f.1 = t).map Prod.snd), .loop]
  | request {i : Instr} (hi : i = .user ∨ i = .callback) {j : Instr} {target k : Nat} {f : Functor}
      (hf : f = .shutdownInLoop k ∨ f = .forceCloseInLoop k)
      (hj : j = .call f ∨ j = .queueInLoop target f) : Moves workers t s i s [j, i]
  | returned : Moves workers t s .callback s []
  | newConnection {j : Instr} (hj : j = .call (.connectEstablished s.made.length) ∨
      j = .queueInLoop (s.getNextLoop workers) (.connectEstablished s.made.length)) :
      Moves workers t s .newConnection (s.newConnection workers) [j]
  | established (k : Nat) :
      Moves workers t s (.call (.connectEstablished k)) (s.setState k .kConnected) [.callback]
  | shutdown {k : Nat} (connected : s.state k = some .kConnected) :
      Moves workers t s (.call (.shutdownInLoop k)) (s.setState k .kDisconnecting) []
  | skipShutdown (k : Nat) : Moves workers t s (.call (.shutdownInLoop k)) s []
  | forceClose {k : Nat} (live : s.state k = some .kConnected ∨ s.state k = some .kDisconnecting) :
      Moves workers t s (.call (.forceCloseInLoop k)) s [.handleClose k]
  | skipForceClose (k : Nat) : Moves workers t s (.call (.forceCloseInLoop k)) s []
  | remove {k : Nat} {connection : Connection} (made : s.made[k]? = some connection)
      (found : connection.name ∈ s.connections) :
      Moves workers t s (.call (.removeConnectionInLoop k))
        { s with
          removed := k :: s.removed
          connections := s.connections.erase connection.name }
        [.queueInLoop connection.loop (.connectDestroyed k)]
  | removeNothing {k : Nat}
      (missing : ∀ connection, s.made[k]? = some connection → connection.name ∉ s.connections) :
      Moves workers t s (.call (.removeConnectionInLoop k)) { s with removed := k :: s.removed } []
  | destroyed (k : Nat) :
      Moves workers t s (.call (.connectDestroyed k)) (s.setState k .kDisconnected) [.callback]
  | queueInLoop (target : Nat) (f : Functor) :
      Moves workers t s (.queueInLoop target f)
        { s with functors := s.functors ++ [(target, f)] } []
  | ran : Moves workers t s (.running []) s []
  | run (f : Functor) (functors : List Functor) :
      Moves workers t s (.running (f :: functors)) s [.call f, .running functors]
  | closed (k : Nat) : Moves workers t s (.handleClose k) s []
  | close (k : Nat) (live : s.state k ≠ some .kDisconnected) :
      Moves workers t s (.handleClose k) (s.setState k .kDisconnected) [.closeCallback k]
  | closeCallback (k : Nat) :
      Moves workers t s (.closeCallback k) s [.queueInLoop 0 (.removeConnectionInLoop k)]

theorem eq_of_runInLoop (t target : Nat) (f : Functor) :
    runInLoop t target f = .call f ∨ runInLoop t target f = .queueInLoop target f := by
  rw [runInLoop]
  split
  · exact .inl rfl
  · exact .inr rfl

section Exec

variable {workers t : Nat} {x : Choice} {s s' : Shared} {pushed : List Instr}

theorem moves_of_request {i : Instr} (hi : i = .user ∨ i = .callback)
    (h : i.request t x s = some (s', pushed)) : Moves workers t s i s' pushed := by
  cases x with
  | request k force =>
    obtain ⟨connection, -, heq⟩ := Option.map_eq_some_iff.mp h
    cases heq
    cases force with
    | true => exact .request hi (.inr rfl) (eq_of_runInLoop ..)
    | false => exact .request hi (.inl rfl) (eq_of_runInLoop ..)
  | _ => cases h

theorem moves_of_execCall {f : Functor} (h : Instr.execCall f s = (s', pushed)) :
    Moves workers t s (.call f) s' pushed := by
  cases f with
  | connectEstablished k => cases h; exact .established k
  | shutdownInLoop k =>
    cases h
    split
    · exact .shutdown ‹_›
    · exact .skipShutdown k
  | forceCloseInLoop k =>
    cases h
    split
    · exact .forceClose ‹_›
    · exact .skipForceClose k
  | removeConnectionInLoop k =>
    simp only [Instr.execCall] at h
    split at h
    · rename_i hnone
      cases h
      exact .removeNothing fun connection hmade => by rw [hnone] at hmade; cases hmade
    · rename_i connection hmade
      split at h <;> cases h
      · exact .remove hmade ‹_›
      · rename_i hmissing
        refine .removeNothing fun other hother => ?_
        obtain rfl := Option.some.inj (hmade.symm.trans hother)
        exact hmissing
  | connectDestroyed k => cases h; exact .destroyed k

theorem moves_of_exec {i : Instr} (h : i.exec workers t x s = some (s', pushed)) :
    Moves workers t s i s' pushed := by
  cases i with
  | loop =>
    cases x with
    | accept =>
      simp only [Instr.exec] at h
      split at h <;> cases h
      exact .accept ‹_›
    | event k =>
      simp only [Instr.exec] at h
      split at h <;> cases h
      rename_i hany
      obtain ⟨connection, hmade, hevent⟩ := (Option.any_eq_true _ _).mp hany
      exact .event k hmade (of_decide_eq_true hevent).2
    | message => cases h; exact .message
    | functors => cases h; exact .functors
    | _ => cases h
  | user => exact moves_of_request (.inl rfl) h
  | callback =>
    cases x with
    | next => cases h; exact .returned
    | request k force =>
      exact moves_of_request (x := .request k force) (.inr rfl) h
    | _ => cases h
  | newConnection => cases x <;> cases h; exact .newConnection (eq_of_runInLoop ..)
  | call f =>
    cases x with
    | next => exact moves_of_execCall (Option.some.inj h)
    | _ => cases h
  | queueInLoop target f => cases x <;> cases h; exact .queueInLoop target f
  | running functors =>
    cases x with
    | next =>
      cases functors with
      | nil => cases h; exact .ran
      | cons f functors => cases h; exact .run f functors
    | _ => cases functors <;> cases h
  | handleClose k =>
    cases x with
    | next =>
      simp only [Instr.exec] at h
      split at h <;> cases h
      · exact .closed k
      · exact .close k ‹_›
    | _ => cases h
  | closeCallback k => cases x <;> cases h; exact .closeCallback k

end Exec

/-- No connection that is still stored was accepted a multiple of 2 ^ 32 connections before. -/
abbrev Turnover (c : Config) (_ : Nat) (i : Instr) : Prop :=
  i = .newConnection →
    ∀ stored ∈ c.shared.connections.entries, (c.shared.made.length - stored.2) % 2 ^ 32 ≠ 0

end UnixNotes.Reactor.TcpServer
