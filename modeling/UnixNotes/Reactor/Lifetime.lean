import UnixNotes.Reactor.TcpConnection

namespace UnixNotes.Reactor.Lifetime

open Library

inductive Owner where
  | client
  | server (base : Nat)
  deriving DecidableEq

/-- Who owns the connection, and the thread of its loop. -/
structure Site where
  owner : Owner
  io : Nat

def Site.home (site : Site) : Nat :=
  match site.owner with
  | .client => site.io
  | .server base => base

/-- The functors that capture a `shared_ptr` to the connection. -/
inductive Functor where
  | connectEstablished
  | sendInLoop (message : ByteString)
  | shutdownInLoop
  | forceCloseInLoop
  | removeConnectionInLoop
  | connectDestroyed
  deriving DecidableEq

/-- `readable` is `EPOLLIN`, and `urgent` is `EPOLLPRI` or `EPOLLRDHUP`. -/
structure Revents where
  hangup : Bool := false
  error : Bool := false
  readable : Bool := false
  urgent : Bool := false
  writable : Bool := false
  deriving DecidableEq

/-- `owned` is the reference in `connection_` or in `connections_`, `copies` counts those that the
user keeps, the ones in the timers of `forceCloseWithDelay` among them, and `uses` is the
`use_count`. The functors are by the thread of their loop. -/
structure Shared where
  connection : TcpConnection.Shared := {}
  owned : Bool := true
  gone : Bool := false
  callbacks : Bool := true
  copies : Nat := 0
  functors : Nat → List Functor := fun _ => []
  uses : Nat := 2

inductive Instr where
  | loop
  /-- Channels that a loop has polled, other than the one of the connection. -/
  | batch
  /-- Code of the user that has not been handed the connection. -/
  | user
  /-- The channel of the connection, which has been polled. -/
  | handleEvent (revents : Revents)
  | handling (writable : Bool)
  | connection (i : TcpConnection.Instr)
  /-- A callback of the user, with its argument. -/
  | callback
  | closeCallback
  /-- `newConnection`, for another connection of the owner. -/
  | newConnection
  /-- The reset of `connection_` in `TcpClient::removeConnection`. -/
  | reset
  /-- A `shared_ptr` in the frame of a call. -/
  | temporary
  | queueInLoop (target : Nat) (f : Functor)
  | doPendingFunctors (functors left : List Functor)
  | removeConnectionInLoop
  | drop
  /-- The destructor of the owner. -/
  | destroy
  deriving DecidableEq

inductive Choice where
  | next
  | functors
  | others
  | poll (revents : Revents)
  | user
  | accept
  | connection (x : TcpConnection.Choice)
  | copy
  | drop
  | call (f : Functor)
  | destroy

/-- The channel is in the epoll set from `enableReading` to `disableAll`. -/
def polled (s : TcpConnection.Shared) : Prop := s.state = .kConnected ∨ s.state = .kDisconnecting

instance (s : TcpConnection.Shared) : Decidable (polled s) :=
  inferInstanceAs (Decidable (_ ∨ _))

namespace Functor

def instr : Functor → Instr
  | .connectEstablished => .connection .connectEstablished
  | .sendInLoop message => .connection (.sendInLoop message)
  | .shutdownInLoop => .connection .shutdownInLoop
  | .forceCloseInLoop => .connection .forceCloseInLoop
  | .removeConnectionInLoop => .removeConnectionInLoop
  | .connectDestroyed => .connection .connectDestroyed

/-- What `send`, `shutdown` and `forceClose` run in the loop. -/
def requested : Functor → Bool
  | .sendInLoop _ | .shutdownInLoop | .forceCloseInLoop => true
  | _ => false

end Functor

def Site.runInLoop (site : Site) (t : Nat) (f : Functor) : List Instr :=
  if t = site.io then [f.instr, .temporary] else [.queueInLoop site.io f]

/-- `Channel::handleEvent`; every callback of the channel is set. -/
def Revents.dispatch (revents : Revents) : List Instr :=
  if revents.hangup ∧ ¬revents.readable then [.connection .handleClose, .handling false]
  -- `handleError` only logs before it calls `handleClose`
  else if revents.error then [.connection .handleClose, .handling false]
  else if revents.readable ∨ revents.urgent then
    [.connection .handleRead, .handling revents.writable]
  else [.handling revents.writable]

namespace Instr

def holds : Instr → Nat
  | .callback | .closeCallback | .temporary | .queueInLoop _ _ => 1
  | .doPendingFunctors functors _ => functors.length
  | _ => 0

def ofConnection (callbacks : Bool) (i j : TcpConnection.Instr) : List Instr :=
  match j with
  | .callback => if callbacks then [if i = .handleClose then .closeCallback else .callback] else []
  | j => [.connection j]

/-- What the user can do. `i` is the frame of its code, and `reached` that it has a reference. -/
def act (site : Site) (t : Nat) (i : Instr) (reached : Prop) [Decidable reached] (x : Choice)
    (s : Shared) : Option (Shared × List Instr) :=
  match x with
  | .copy =>
    if reached then some ({ s with copies := s.copies + 1, uses := s.uses + 1 }, [i]) else none
  | .drop => some (s, [.drop, i])
  | .call f =>
    if reached ∧ f.requested = true then
      some ({ s with uses := s.uses + 1 }, site.runInLoop t f ++ [i])
    else none
  -- `connect`, when the socket is connected at once
  | .accept => if t = site.home then some (s, [.newConnection, i]) else none
  | .destroy => if t = site.home then some (s, [.destroy, i]) else none
  | _ => none

def exec (site : Site) (t : Nat) (i : Instr) (x : Choice) (s : Shared) :
    Option (Shared × List Instr) :=
  match i, x with
  | .loop, .functors =>
    some ({ s with functors := Function.update s.functors t [] },
      [.doPendingFunctors (s.functors t) (s.functors t), .loop])
  | .loop, .others => some (s, [.batch, .loop])
  -- the kernel forgets a descriptor that has been closed
  | .loop, .poll revents =>
    if t = site.io ∧ polled s.connection ∧ 0 < s.uses then
      some (s, [.batch, .handleEvent revents, .loop])
    else none
  | .batch, .next => some (s, [])
  | .batch, .user => some (s, [.user, .batch])
  | .batch, .accept => if t = site.home then some (s, [.newConnection, .batch]) else none
  | .newConnection, .next =>
    if s.gone then some (s, [])
    else match site.owner with
      | .client => some ({ s with owned := false, uses := s.uses - s.owned.toNat }, [])
      | .server _ => some (s, [])
  | .handleEvent revents, .next => some (s, revents.dispatch)
  | .handling writable, .next =>
    some (s, if writable then [.connection .handleWrite, .handling false] else [])
  | .connection i, .connection x =>
    (i.exec t x s.connection).map fun r =>
      let pushed := r.2.flatMap (ofConnection s.callbacks i)
      ({ s with connection := r.1, uses := s.uses + Config.weigh holds pushed }, pushed)
  | .user, .next => some (s, [])
  | .user, x => act site t .user (0 < s.copies ∨ site.owner = .client ∧ s.owned = true) x s
  | .callback, .next => some ({ s with uses := s.uses - 1 }, [])
  | .callback, x => act site t .callback True x s
  -- the callback has the address of its owner
  | .closeCallback, .next =>
    if s.gone then none
    else match site.owner with
      | .client => some (s, [.reset, .connection .connectDestroyed, .temporary])
      | .server base =>
        some ({ s with uses := s.uses + 1 },
          [.queueInLoop base .removeConnectionInLoop, .temporary])
  | .reset, .next => some ({ s with owned := false, uses := s.uses - s.owned.toNat }, [])
  | .temporary, .next => some ({ s with uses := s.uses - 1 }, [])
  | .queueInLoop target f, .next =>
    some ({ s with functors := Function.update s.functors target (s.functors target ++ [f]) }, [])
  | .doPendingFunctors functors (f :: left), .next =>
    some (s, [f.instr, .doPendingFunctors functors left])
  | .doPendingFunctors functors [], .next =>
    some ({ s with uses := s.uses - functors.length }, [])
  | .removeConnectionInLoop, .next =>
    if s.gone then none
    else some (if s.owned then ({ s with owned := false }, [.queueInLoop site.io .connectDestroyed])
      else (s, []))
  | .drop, .next =>
    some (if 0 < s.copies then { s with copies := s.copies - 1, uses := s.uses - 1 } else s, [])
  | .destroy, .next =>
    if s.gone then some (s, [])
    else if site.owner = .client ∧ s.owned = true then
      some ({ s with owned := false, gone := true, callbacks := false },
        [.connection .forceCloseInLoop, .connection .connectDestroyed, .temporary])
    else some ({ s with owned := false, gone := true, uses := s.uses - s.owned.toNat }, [])
  | _, _ => none

end Instr

abbrev Config := Library.Config Shared Instr

def machine (site : Site) : Library.Machine Shared Instr Choice := ⟨Instr.exec site⟩

def Site.start (site : Site) (t : Nat) : List Instr :=
  if t = site.home then site.runInLoop t .connectEstablished ++ [.batch, .loop]
  else if t = site.io then [.loop]
  else [.user]

/-- `newConnection` has made the connection and stored the reference of the owner. -/
def init (site : Site) (users : Nat) : Config :=
  ⟨{}, (List.range (site.home + site.io + 1 + users)).map site.start⟩

inductive Ref where
  | owner
  | user (copy : Nat)
  | functor (loop : Nat) (f : Functor)
  | frame (thread : Nat) (i : Instr)

def Ref.Held (c : Config) : Ref → Prop
  | .owner => c.shared.owned = true
  | .user copy => copy < c.shared.copies
  | .functor loop f => f ∈ c.shared.functors loop
  | .frame thread i => c.Active thread i ∧ 0 < i.holds

def references (c : Config) : Set Ref := {r | r.Held c}

/-- While the loop is in `handleEvent`, the frames of its thread that have references are those of
calls inside. -/
def Ref.temporary (site : Site) : Ref → Prop
  | .frame thread _ => thread = site.io
  | _ => False

def Dispatching (site : Site) (c : Config) : Prop :=
  ∃ writable, c.Active site.io (.handling writable)

namespace Instr

def acts : Instr → Prop
  | .user | .callback => True
  | _ => False

end Instr

inductive Moves (site : Site) (t : Nat) (s : Shared) : Instr → Shared → List Instr → Prop
  | functors : Moves site t s .loop { s with functors := Function.update s.functors t [] }
      [.doPendingFunctors (s.functors t) (s.functors t), .loop]
  | others : Moves site t s .loop s [.batch, .loop]
  | poll (revents : Revents) (io : t = site.io) (polled : polled s.connection)
      (alive : 0 < s.uses) : Moves site t s .loop s [.batch, .handleEvent revents, .loop]
  | ask {i j : Instr} (hi : i = .batch ∨ i.acts)
      (hj : j = .user ∨ j = .drop ∨ (j = .newConnection ∨ j = .destroy) ∧ t = site.home) :
      Moves site t s i s [j, i]
  | skip {i : Instr} (hi : i = .batch ∨ i = .user ∨ i = .newConnection ∨ i = .handling false ∨
      i = .removeConnectionInLoop ∨ i = .drop ∨ i = .destroy) : Moves site t s i s []
  | letGo {i : Instr} (hi : i = .newConnection ∧ site.owner = .client ∨ i = .reset) :
      Moves site t s i { s with owned := false, uses := s.uses - s.owned.toNat } []
  | handleEvent (revents : Revents) : Moves site t s (.handleEvent revents) s revents.dispatch
  | handleWritable :
      Moves site t s (.handling true) s [.connection .handleWrite, .handling false]
  | connection {i : TcpConnection.Instr} {x : TcpConnection.Choice}
      {connection : TcpConnection.Shared} {pushed : List TcpConnection.Instr}
      (exec : i.exec t x s.connection = some (connection, pushed)) :
      Moves site t s (.connection i)
        { s with
          connection := connection
          uses := s.uses +
            Config.weigh Instr.holds (pushed.flatMap (Instr.ofConnection s.callbacks i)) }
        (pushed.flatMap (Instr.ofConnection s.callbacks i))
  | returned {i : Instr} (hi : i = .callback ∨ i = .temporary) :
      Moves site t s i { s with uses := s.uses - 1 } []
  | copy {i : Instr} (hi : i.acts) :
      Moves site t s i { s with copies := s.copies + 1, uses := s.uses + 1 } [i]
  | call {i : Instr} (hi : i.acts) (f : Functor) (requested : f.requested = true) :
      Moves site t s i { s with uses := s.uses + 1 } (site.runInLoop t f ++ [i])
  | drop (copies : 0 < s.copies) :
      Moves site t s .drop { s with copies := s.copies - 1, uses := s.uses - 1 } []
  | destroyClient (client : site.owner = .client) (owned : s.owned = true) :
      Moves site t s .destroy { s with owned := false, gone := true, callbacks := false }
        [.connection .forceCloseInLoop, .connection .connectDestroyed, .temporary]
  | destroy :
      Moves site t s .destroy
        { s with owned := false, gone := true, uses := s.uses - s.owned.toNat } []
  | closeClient (client : site.owner = .client) :
      Moves site t s .closeCallback s [.reset, .connection .connectDestroyed, .temporary]
  | closeServer {base : Nat} (server : site.owner = .server base) :
      Moves site t s .closeCallback { s with uses := s.uses + 1 }
        [.queueInLoop base .removeConnectionInLoop, .temporary]
  | queue (target : Nat) (f : Functor) :
      Moves site t s (.queueInLoop target f)
        { s with functors := Function.update s.functors target (s.functors target ++ [f]) } []
  | run (functors : List Functor) (f : Functor) (left : List Functor) :
      Moves site t s (.doPendingFunctors functors (f :: left)) s
        [f.instr, .doPendingFunctors functors left]
  | ran (functors : List Functor) :
      Moves site t s (.doPendingFunctors functors [])
        { s with uses := s.uses - functors.length } []
  | remove (owned : s.owned = true) :
      Moves site t s .removeConnectionInLoop { s with owned := false }
        [.queueInLoop site.io .connectDestroyed]

theorem moves_of_act {site : Site} {t : Nat} {x : Choice} {s s' : Shared} {i : Instr}
    (reached : Prop) [Decidable reached] {pushed : List Instr} (hi : i.acts)
    (h : i.act site t reached x s = some (s', pushed)) : Moves site t s i s' pushed := by
  cases x with
  | copy =>
    simp only [Instr.act] at h
    split at h <;> cases h
    exact .copy hi
  | drop => cases h; exact .ask (.inr hi) (.inr (.inl rfl))
  | call f =>
    simp only [Instr.act] at h
    split at h <;> cases h
    rename_i hcall
    exact .call hi f hcall.2
  | accept =>
    simp only [Instr.act] at h
    split at h <;> cases h
    exact .ask (.inr hi) (.inr (.inr ⟨.inl rfl, ‹_›⟩))
  | destroy =>
    simp only [Instr.act] at h
    split at h <;> cases h
    exact .ask (.inr hi) (.inr (.inr ⟨.inr rfl, ‹_›⟩))
  | _ => cases h

theorem moves_of_exec {site : Site} {t : Nat} {x : Choice} {s s' : Shared} {i : Instr}
    {pushed : List Instr} (h : i.exec site t x s = some (s', pushed)) :
    Moves site t s i s' pushed := by
  cases i with
  | loop =>
    cases x with
    | functors => cases h; exact .functors
    | others => cases h; exact .others
    | poll revents =>
      simp only [Instr.exec] at h
      split at h <;> cases h
      rename_i hpoll
      exact .poll revents hpoll.1 hpoll.2.1 hpoll.2.2
    | _ => cases h
  | batch =>
    cases x with
    | next => cases h; exact .skip (.inl rfl)
    | user => cases h; exact .ask (.inl rfl) (.inl rfl)
    | accept =>
      simp only [Instr.exec] at h
      split at h <;> cases h
      exact .ask (.inl rfl) (.inr (.inr ⟨.inl rfl, ‹_›⟩))
    | _ => cases h
  | user =>
    let reached := 0 < s.copies ∨ site.owner = .client ∧ s.owned = true
    cases x with
    | next => cases h; exact .skip (.inr (.inl rfl))
    | copy => exact moves_of_act reached (x := .copy) trivial h
    | drop => exact moves_of_act reached (x := .drop) trivial h
    | call f => exact moves_of_act reached (x := .call f) trivial h
    | accept => exact moves_of_act reached (x := .accept) trivial h
    | destroy => exact moves_of_act reached (x := .destroy) trivial h
    | _ => cases h
  | handleEvent revents => cases x <;> cases h; exact .handleEvent revents
  | handling writable =>
    cases x <;> cases h
    cases writable with
    | true => exact .handleWritable
    | false => exact .skip (.inr (.inr (.inr (.inl rfl))))
  | connection i =>
    cases x with
    | connection x =>
      obtain ⟨r, hexec, heq⟩ := Option.map_eq_some_iff.mp h
      cases heq
      exact .connection hexec
    | _ => cases h
  | callback =>
    cases x with
    | next => cases h; exact .returned (.inl rfl)
    | copy => exact moves_of_act True (x := .copy) trivial h
    | drop => exact moves_of_act True (x := .drop) trivial h
    | call f => exact moves_of_act True (x := .call f) trivial h
    | accept => exact moves_of_act True (x := .accept) trivial h
    | destroy => exact moves_of_act True (x := .destroy) trivial h
    | _ => cases h
  | closeCallback =>
    cases x with
    | next =>
      simp only [Instr.exec] at h
      split at h
      · cases h
      · split at h <;> cases h
        · exact .closeClient ‹_›
        · exact .closeServer ‹_›
    | _ => cases h
  | newConnection =>
    cases x with
    | next =>
      simp only [Instr.exec] at h
      split at h
      · cases h; exact .skip (.inr (.inr (.inl rfl)))
      · split at h <;> cases h
        · exact .letGo (.inl ⟨rfl, ‹_›⟩)
        · exact .skip (.inr (.inr (.inl rfl)))
    | _ => cases h
  | reset => cases x <;> cases h; exact .letGo (.inr rfl)
  | temporary => cases x <;> cases h; exact .returned (.inr rfl)
  | queueInLoop target f => cases x <;> cases h; exact .queue target f
  | doPendingFunctors functors left =>
    cases x with
    | next =>
      cases left with
      | nil => cases h; exact .ran functors
      | cons f left => cases h; exact .run functors f left
    | _ => cases left <;> cases h
  | removeConnectionInLoop =>
    cases x with
    | next =>
      simp only [Instr.exec] at h
      split at h
      · cases h
      · split at h <;> cases h
        · exact .remove ‹_›
        · exact .skip (.inr (.inr (.inr (.inr (.inl rfl)))))
    | _ => cases h
  | drop =>
    cases x <;> cases h
    split
    · exact .drop ‹_›
    · exact .skip (.inr (.inr (.inr (.inr (.inr (.inl rfl))))))
  | destroy =>
    cases x with
    | next =>
      simp only [Instr.exec] at h
      split at h
      · cases h; exact .skip (.inr (.inr (.inr (.inr (.inr (.inr rfl))))))
      · split at h <;> cases h
        · rename_i howned
          exact .destroyClient howned.1 howned.2
        · exact .destroy
    | _ => cases h

end UnixNotes.Reactor.Lifetime
