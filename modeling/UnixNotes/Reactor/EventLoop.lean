import UnixNotes.Library.Interleaving
import Mathlib.Data.List.Range

namespace UnixNotes.Reactor.EventLoop

open Library

/-- Functors are numbered in the order in which they are queued; `queued` counts them and `ran` has
those that have been called. `eventfd` is the counter of `wakeupFd_`. -/
structure Shared where
  quit : Bool := false
  pendingFunctors : List Nat := []
  callingPendingFunctors : Bool := false
  eventfd : Nat := 0
  queued : Nat := 0
  ran : List Nat := []

/-- What `poll` reports: the channel of the eventfd, or one of a user. -/
inductive Event where
  | wakeup
  | channel
  deriving DecidableEq

/-- Thread `0` is the one that the loop belongs to. -/
inductive Instr where
  /-- The thread of the loop, outside `loop`. -/
  | owner
  | user
  /-- Code of the user that the thread of the loop runs. -/
  | callback
  | queueInLoop
  | testThread
  | queueWakeup
  /-- `quit`. -/
  | storeQuit
  | testQuitThread
  | quitWakeup
  /-- `loop`. -/
  | testQuit
  | poll
  | handleEvents (channels : List Event)
  | handleWakeupRead
  | doPendingFunctors
  | swapFunctors
  | runFunctors (functors : List Nat)
  /-- The vector of functors goes out of scope. -/
  | destroyFunctors
  deriving DecidableEq

inductive Choice where
  | next
  | queue
  | quit
  | run
  | loop
  | ready (channels : List Event)

namespace Shared

def maxCounter : Nat := 2 ^ 64 - 2

/-- A write that would pass the largest value fails with `EAGAIN`. -/
def wakeup (s : Shared) : Shared := { s with eventfd := min (s.eventfd + 1) maxCounter }

def push (s : Shared) : Shared :=
  { s with pendingFunctors := s.pendingFunctors ++ [s.queued], queued := s.queued + 1 }

theorem wakeup_signals (s : Shared) : s.wakeup.eventfd ≠ 0 := by
  simp only [wakeup, maxCounter]
  omega

end Shared

namespace Instr

def exec (t : Nat) (i : Instr) (x : Choice) (s : Shared) : Option (Shared × List Instr) :=
  match i, x with
  | .user, .queue | .user, .run => some (s, [.queueInLoop, .user])
  | .user, .quit => some (s, [.storeQuit, .user])
  | .owner, .loop => some (s, [.testQuit])
  | .owner, .queue | .callback, .queue | .destroyFunctors, .queue => some (s, [.queueInLoop, i])
  | .owner, .quit | .callback, .quit | .destroyFunctors, .quit => some (s, [.storeQuit, i])
  | .owner, .run | .callback, .run | .destroyFunctors, .run => some (s, [.callback, i])
  | .callback, .next => some (s, [])
  | .queueInLoop, .next => some (s.push, [.testThread])
  | .testThread, .next =>
    some (s, if t ≠ 0 ∨ s.callingPendingFunctors then [.queueWakeup] else [])
  | .queueWakeup, .next | .quitWakeup, .next => some (s.wakeup, [])
  | .storeQuit, .next => some ({ s with quit := true }, [.testQuitThread])
  | .testQuitThread, .next => some (s, if t ≠ 0 then [.quitWakeup] else [])
  | .testQuit, .next => some (s, if s.quit then [.owner] else [.poll])
  | .poll, .ready channels =>
    if .wakeup ∈ channels → s.eventfd ≠ 0 then some (s, [.handleEvents channels]) else none
  | .handleEvents (.wakeup :: channels), .next =>
    some (s, [.handleWakeupRead, .handleEvents channels])
  | .handleEvents (.channel :: channels), .next => some (s, [.callback, .handleEvents channels])
  | .handleEvents [], .next => some (s, [.doPendingFunctors])
  | .handleWakeupRead, .next =>
    if s.eventfd = 0 then some (s, []) else some ({ s with eventfd := 0 }, [.handleWakeupRead])
  | .doPendingFunctors, .next =>
    some ({ s with callingPendingFunctors := true }, [.swapFunctors])
  | .swapFunctors, .next => some ({ s with pendingFunctors := [] }, [.runFunctors s.pendingFunctors])
  | .runFunctors (functor :: functors), .next =>
    some ({ s with ran := s.ran ++ [functor] }, [.callback, .runFunctors functors])
  | .runFunctors [], .next => some ({ s with callingPendingFunctors := false }, [.destroyFunctors])
  | .destroyFunctors, .next => some (s, [.testQuit])
  | _, _ => none

def control : Instr → Prop
  | .owner | .testQuit | .poll | .handleEvents _ | .doPendingFunctors | .swapFunctors
  | .runFunctors _ | .destroyFunctors => True
  | _ => False

def inLoop : Instr → Prop
  | .callback | .handleWakeupRead => True
  | i => i.control

def queueing : Instr → Prop
  | .queueInLoop | .testThread | .queueWakeup => True
  | _ => False

def handling : Instr → Prop
  | .handleEvents _ => True
  | _ => False

/-- The pending functors are run before the loop is back in `poll`. -/
def drains : Instr → Prop
  | .handleEvents _ | .doPendingFunctors | .swapFunctors => True
  | _ => False

/-- The eventfd is still to be written, by a call to `queueInLoop` of thread `t`. -/
def signals (t : Nat) (s : Shared) : Instr → Prop
  | .queueInLoop => t ≠ 0
  | .testThread => t ≠ 0 ∨ s.callingPendingFunctors = true
  | .queueWakeup => True
  | _ => False

instance : DecidablePred queueing := fun i => by
  cases i <;> first | exact .isTrue trivial | exact .isFalse id

instance : DecidablePred handling := fun i => by
  cases i <;> first | exact .isTrue trivial | exact .isFalse id

def functors : Instr → List Nat
  | .runFunctors functors => functors
  | _ => []

end Instr

abbrev Config := Library.Config Shared Instr

def machine : Library.Machine Shared Instr Choice := ⟨Instr.exec⟩

def init (users : Nat) : Config := ⟨{}, [.owner] :: List.replicate users [.user]⟩

/-- The loop sleeps although a functor is pending. -/
def Asleep (c : Config) : Prop :=
  (c.stack 0).head? = some .poll ∧ c.shared.pendingFunctors ≠ [] ∧ c.shared.eventfd = 0 ∧
    ¬∃ t i, c.Active t i ∧ i.queueing

instance (c : Config) : Decidable (Asleep c) := inferInstanceAs (Decidable (_ ∧ _ ∧ _ ∧ _))

/-- The thread of the loop queues from the handler of an event or from a functor that is being run,
or else the eventfd is signalled, or another thread is still to signal it, or `quit` has been
called. -/
abbrev QueuesAwake (c : Config) (t : Nat) (i : Instr) : Prop :=
  t = 0 → i = .queueInLoop →
    c.shared.callingPendingFunctors = true ∨ (∃ t' j, c.Active t' j ∧ j.handling) ∨
      c.shared.eventfd ≠ 0 ∨ c.shared.quit = true ∨
      ∃ t' < c.threads.length, t' ≠ 0 ∧ ∃ j ∈ c.stack t', j.queueing

inductive Moves (t : Nat) (s : Shared) : Instr → Shared → List Instr → Prop
  | user {i : Instr} (calls : i = .queueInLoop ∨ i = .storeQuit) : Moves t s .user s [i, .user]
  | loop : Moves t s .owner s [.testQuit]
  | calls {i j : Instr} (code : i = .owner ∨ i = .callback ∨ i = .destroyFunctors)
      (calls : j = .queueInLoop ∨ j = .storeQuit ∨ j = .callback) : Moves t s i s [j, i]
  | returned : Moves t s .callback s []
  | queueInLoop : Moves t s .queueInLoop s.push [.testThread]
  | testThread (wakes : t ≠ 0 ∨ s.callingPendingFunctors = true) :
      Moves t s .testThread s [.queueWakeup]
  | skipWakeup (skips : ¬(t ≠ 0 ∨ s.callingPendingFunctors = true)) : Moves t s .testThread s []
  | queueWakeup : Moves t s .queueWakeup s.wakeup []
  | storeQuit : Moves t s .storeQuit { s with quit := true } [.testQuitThread]
  | testQuitThread : Moves t s .testQuitThread s [.quitWakeup]
  | skipQuitWakeup : Moves t s .testQuitThread s []
  | quitWakeup : Moves t s .quitWakeup s.wakeup []
  | leave (quits : s.quit = true) : Moves t s .testQuit s [.owner]
  | sleep (runs : s.quit = false) : Moves t s .testQuit s [.poll]
  | ready (channels : List Event) : Moves t s .poll s [.handleEvents channels]
  | handleWakeup (channels : List Event) :
      Moves t s (.handleEvents (.wakeup :: channels)) s [.handleWakeupRead, .handleEvents channels]
  | handleChannel (channels : List Event) :
      Moves t s (.handleEvents (.channel :: channels)) s [.callback, .handleEvents channels]
  | handled : Moves t s (.handleEvents []) s [.doPendingFunctors]
  | readAgain : Moves t s .handleWakeupRead s []
  | read : Moves t s .handleWakeupRead { s with eventfd := 0 } [.handleWakeupRead]
  | doPendingFunctors :
      Moves t s .doPendingFunctors { s with callingPendingFunctors := true } [.swapFunctors]
  | swapFunctors :
      Moves t s .swapFunctors { s with pendingFunctors := [] } [.runFunctors s.pendingFunctors]
  | runFunctor (functor : Nat) (functors : List Nat) :
      Moves t s (.runFunctors (functor :: functors)) { s with ran := s.ran ++ [functor] }
        [.callback, .runFunctors functors]
  | ranFunctors :
      Moves t s (.runFunctors []) { s with callingPendingFunctors := false } [.destroyFunctors]
  | destroyedFunctors : Moves t s .destroyFunctors s [.testQuit]

theorem moves_of_exec {t : Nat} {x : Choice} {s s' : Shared} {i : Instr} {pushed : List Instr}
    (h : i.exec t x s = some (s', pushed)) : Moves t s i s' pushed := by
  cases i with
  | owner =>
    cases x with
    | loop => cases h; exact .loop
    | queue | quit | run => cases h; exact .calls (by simp) (by simp)
    | _ => cases h
  | user =>
    cases x with
    | queue | quit | run => cases h; exact .user (by simp)
    | _ => cases h
  | callback =>
    cases x with
    | next => cases h; exact .returned
    | queue | quit | run => cases h; exact .calls (by simp) (by simp)
    | _ => cases h
  | destroyFunctors =>
    cases x with
    | next => cases h; exact .destroyedFunctors
    | queue | quit | run => cases h; exact .calls (by simp) (by simp)
    | _ => cases h
  | poll =>
    cases x with
    | ready channels =>
      simp only [Instr.exec] at h
      split at h <;> cases h
      exact .ready channels
    | _ => cases h
  | testThread =>
    cases x with
    | next =>
      cases h
      split
      · exact .testThread ‹_›
      · exact .skipWakeup ‹_›
    | _ => cases h
  | testQuitThread =>
    cases x with
    | next =>
      cases h
      split
      · exact .testQuitThread
      · exact .skipQuitWakeup
    | _ => cases h
  | testQuit =>
    cases x with
    | next =>
      cases h
      split
      · exact .leave ‹_›
      · exact .sleep (Bool.eq_false_iff.mpr ‹_›)
    | _ => cases h
  | handleWakeupRead =>
    cases x with
    | next =>
      simp only [Instr.exec] at h
      split at h <;> cases h
      · exact .readAgain
      · exact .read
    | _ => cases h
  | handleEvents channels =>
    cases x with
    | next =>
      cases channels with
      | nil => cases h; exact .handled
      | cons event channels =>
        cases event <;> cases h
        · exact .handleWakeup channels
        · exact .handleChannel channels
    | _ => rcases channels with _ | ⟨_ | _, channels⟩ <;> cases h
  | runFunctors functors =>
    cases x with
    | next =>
      cases functors with
      | nil => cases h; exact .ranFunctors
      | cons functor functors => cases h; exact .runFunctor functor functors
    | _ => cases functors <;> cases h
  | _ =>
    cases x with
    | next =>
      cases h
      first
        | exact .queueInLoop | exact .queueWakeup | exact .storeQuit | exact .quitWakeup
        | exact .doPendingFunctors | exact .swapFunctors
    | _ => cases h

structure Placed (c : Config) : Prop where
  control : c.LastOnly Instr.control
  poll : c.HeadOnly (· = .poll)
  inLoop : ∀ t i, c.Active t i → i.inLoop → t = 0
  reading : ∀ t, c.Active t .handleWakeupRead → ∃ i, c.Active t i ∧ i.handling

namespace Placed

variable {c c' : Config} {t : Nat} {i : Instr} {rest pushed : List Instr} {s : Shared}

theorem active_init {users : Nat} (h : (init users).Active t i) : i = .owner ∧ t = 0 ∨ i = .user := by
  cases t with
  | zero => exact .inl ⟨List.mem_singleton.mp h, rfl⟩
  | succ t => exact .inr (Config.eq_of_active_replicate h)

theorem init (users : Nat) : Placed (init users) := by
  have hlength : ∀ stack ∈ (EventLoop.init users).threads, stack.length ≤ 1 := by
    simp [EventLoop.init]
  refine ⟨.of_length hlength, .of_length hlength, fun t i h hloop => ?_, fun t h => ?_⟩
  · obtain ⟨-, ht⟩ | rfl := active_init h
    · exact ht
    · exact hloop.elim
  · obtain ⟨heq, -⟩ | heq := active_init h <;> cases heq

theorem replace (h : Placed c) (htop : c.stack t = i :: rest)
    (hlast : ∀ j ∈ pushed.dropLast, ¬j.control)
    (hcontrol : i.control ∨ ∀ j ∈ pushed, ¬j.control)
    (hpoll : ∀ j ∈ pushed.tail, j ≠ .poll) (hloop : ∀ j ∈ pushed, j.inLoop → t = 0)
    (hreading : .handleWakeupRead ∈ pushed → i = .handleWakeupRead ∨ ∃ j ∈ pushed, j.handling) :
    Placed (c.replace t s (pushed ++ rest)) := by
  refine ⟨h.control.replace htop hlast hcontrol, h.poll.replace htop hpoll,
    fun t' j hj hinLoop => ?_, fun t' hj => ?_⟩
  · obtain ⟨rfl, hmem⟩ | hold := Config.active_of_replace htop hj
    · exact hloop j hmem hinLoop
    · exact h.inLoop t' j hold hinLoop
  · have hkept : c.Active t' .handleWakeupRead →
        ∃ j, (c.replace t s (pushed ++ rest)).Active t' j ∧ j.handling := fun hold => by
      obtain ⟨j, hactive, hhandling⟩ := h.reading t' hold
      obtain ⟨rfl, rfl⟩ | hnew := Config.active_replace htop s pushed hactive
      · have hcontrol : j.control := by cases j <;> trivial
        rw [Config.Active, htop, h.control.rest_eq_nil htop hcontrol] at hold
        cases List.mem_singleton.mp hold
        exact hhandling.elim
      · exact ⟨j, hnew, hhandling⟩
    obtain ⟨rfl, hmem⟩ | hold := Config.active_of_replace htop hj
    · obtain rfl | ⟨j, hpushed, hhandling⟩ := hreading hmem
      · exact hkept (Config.active_of_top htop)
      · exact ⟨j, Config.active_replace_of_pushed htop s hpushed, hhandling⟩
    · exact hkept hold

theorem step (h : Placed c) (hstep : machine.Step c t i c') : Placed c' := by
  obtain @⟨rest, x, s, pushed, htop, hexec⟩ := hstep
  have hloop := h.inLoop t i (Config.active_of_top htop)
  cases moves_of_exec (t := t) hexec with
  | user calls =>
    obtain rfl | rfl := calls <;>
      exact h.replace htop (by simp [Instr.control]) (by simp [Instr.control]) (by simp)
        (by simp [Instr.inLoop, Instr.control]) (by simp)
  | calls code calls =>
    obtain rfl | rfl | rfl := code <;> obtain rfl | rfl | rfl := calls <;>
      exact h.replace htop (by simp [Instr.control]) (by simp [Instr.control]) (by simp)
        (fun _ _ _ => hloop trivial) (by simp)
  | loop | returned | leave | sleep | ready | handleWakeup | handleChannel | handled | readAgain
  | read | doPendingFunctors | swapFunctors | runFunctor | ranFunctors | destroyedFunctors =>
    exact h.replace htop (by simp [Instr.control]) (by simp [Instr.control]) (by simp)
      (fun _ _ _ => hloop trivial) (by simp [Instr.handling])
  | queueInLoop | testThread | skipWakeup | queueWakeup | storeQuit | testQuitThread
  | skipQuitWakeup | quitWakeup =>
    exact h.replace htop (by simp [Instr.control]) (by simp [Instr.control]) (by simp)
      (by simp [Instr.inLoop, Instr.control]) (by simp)

theorem not_drains (h : Placed c) (hpoll : (c.stack 0).head? = some .poll) {j : Instr}
    (hj : c.Active t j) : ¬j.drains := by
  intro hdrains
  have hloop : j.inLoop ∧ j ≠ .poll := by cases j <;> first | exact hdrains.elim | exact ⟨trivial, nofun⟩
  obtain rfl := h.inLoop t j hj hloop.1
  obtain ⟨rest, htop⟩ := List.head?_eq_some_iff.mp hpoll
  rw [Config.Active, htop, h.control.rest_eq_nil htop trivial] at hj
  exact hloop.2 (List.mem_singleton.mp hj)

end Placed

def inHand (c : Config) : List Nat := (c.stack 0).flatMap Instr.functors

theorem inHand_replace {c : Config} {t : Nat} {i : Instr} {rest pushed : List Instr} {s : Shared}
    (htop : c.stack t = i :: rest) (hsame : t = 0 → pushed.flatMap Instr.functors = i.functors) :
    inHand (c.replace t s (pushed ++ rest)) = inHand c := by
  by_cases ht : t = 0
  · subst ht
    rw [inHand, inHand, Config.stack_replace_self htop, htop, List.flatMap_append, hsame rfl,
      List.flatMap_cons]
  · rw [inHand, Config.stack_replace_ne _ _ _ (Ne.symm ht), inHand]

def Ordered (c : Config) : Prop :=
  c.shared.ran ++ inHand c ++ c.shared.pendingFunctors = List.range c.shared.queued

namespace Ordered

variable {c c' : Config} {t : Nat} {i : Instr} {rest pushed : List Instr} {s : Shared}

theorem keep (h : Ordered c) (htop : c.stack t = i :: rest)
    (hsame : pushed.flatMap Instr.functors = i.functors) (hran : s.ran = c.shared.ran)
    (hpending : s.pendingFunctors = c.shared.pendingFunctors)
    (hqueued : s.queued = c.shared.queued) : Ordered (c.replace t s (pushed ++ rest)) := by
  rw [Ordered, inHand_replace htop fun _ => hsame, Config.shared_replace, hran, hpending, hqueued]
  exact h

theorem step (h : Ordered c) (hplaced : Placed c) (hstep : machine.Step c t i c') :
    Ordered c' := by
  obtain @⟨rest, x, s, pushed, htop, hexec⟩ := hstep
  have hloop := hplaced.inLoop t i (Config.active_of_top htop)
  cases moves_of_exec (t := t) hexec with
  | queueInLoop =>
    rw [Ordered, inHand_replace htop fun _ => rfl, Config.shared_replace]
    simp only [Shared.push]
    rw [← List.append_assoc, List.range_succ]
    exact congrArg (· ++ [c.shared.queued]) h
  | swapFunctors =>
    obtain rfl := hloop trivial
    obtain rfl := hplaced.control.rest_eq_nil htop trivial
    rw [Ordered, inHand, Config.stack_replace_self htop, Config.shared_replace]
    rw [Ordered, inHand, htop] at h
    simpa [Instr.functors] using h
  | runFunctor functor functors =>
    obtain rfl := hloop trivial
    rw [Ordered, inHand, Config.stack_replace_self htop, Config.shared_replace]
    rw [Ordered, inHand, htop] at h
    simpa [Instr.functors] using h
  | user calls => exact h.keep htop (by obtain rfl | rfl := calls <;> rfl) rfl rfl rfl
  | calls code calls =>
    refine h.keep htop ?_ rfl rfl rfl
    obtain rfl | rfl | rfl := code <;> obtain rfl | rfl | rfl := calls <;> rfl
  | _ => exact h.keep htop rfl rfl rfl rfl

end Ordered

inductive Covered (c : Config) : Prop
  | empty (empty : c.shared.pendingFunctors = [])
  | signalled (signalled : c.shared.eventfd ≠ 0)
  | queueing (t : Nat) (i : Instr) (active : c.Active t i) (signals : i.signals t c.shared)
  | draining (t : Nat) (i : Instr) (active : c.Active t i) (drains : i.drains)
  | stopping (quits : c.shared.quit = true) (awake : ∀ t, ¬c.Active t .poll)

namespace Covered

variable {c c' : Config} {t : Nat} {i : Instr} {rest pushed : List Instr} {s : Shared}

theorem replace (h : Covered c) (htop : c.stack t = i :: rest)
    (hpending : c.shared.pendingFunctors = [] → s.pendingFunctors = [])
    (heventfd : c.shared.eventfd ≠ 0 → s.eventfd ≠ 0) (hquit : c.shared.quit = true → s.quit = true)
    (hcalling : ∀ t' j, c.Active t' j → j.signals t' c.shared → j.signals t' s)
    (hsignals : ¬i.signals t c.shared) (hdrains : ¬i.drains)
    (hpoll : .poll ∈ pushed → c.shared.quit = false) :
    Covered (c.replace t s (pushed ++ rest)) := by
  cases h with
  | empty empty => exact .empty (hpending empty)
  | signalled signalled => exact .signalled (heventfd signalled)
  | queueing t' j hactive hj =>
    obtain ⟨rfl, rfl⟩ | hnew := Config.active_replace htop s pushed hactive
    · exact absurd hj hsignals
    · exact .queueing t' j hnew (hcalling t' j hactive hj)
  | draining t' j hactive hj =>
    obtain ⟨rfl, rfl⟩ | hnew := Config.active_replace htop s pushed hactive
    · exact absurd hj hdrains
    · exact .draining t' j hnew hj
  | stopping quits awake =>
    refine .stopping (hquit quits) fun t' hj => ?_
    obtain ⟨-, hmem⟩ | hold := Config.active_of_replace htop hj
    · rw [hpoll hmem] at quits
      cases quits
    · exact awake t' hold

theorem keep (h : Covered c) (htop : c.stack t = i :: rest) (hsignals : ¬i.signals t c.shared)
    (hdrains : ¬i.drains) (hpoll : .poll ∈ pushed → c.shared.quit = false) :
    Covered (c.replace t c.shared (pushed ++ rest)) :=
  h.replace htop id id id (fun _ _ _ => id) hsignals hdrains hpoll

theorem queue (hplaced : Placed c) (hok : QueuesAwake c t .queueInLoop)
    (htop : c.stack t = .queueInLoop :: rest) :
    Covered (c.replace t c.shared.push ([Instr.testThread] ++ rest)) := by
  have htest : (c.replace t c.shared.push ([Instr.testThread] ++ rest)).Active t .testThread :=
    Config.active_replace_of_pushed htop _ (List.mem_singleton_self _)
  by_cases ht : t = 0
  · subst ht
    obtain hcalling | ⟨t', j, hj, hhandling⟩ | hsignalled | hquit | ⟨t', -, ht', j, hj, hqueueing⟩ :=
      hok rfl rfl
    · exact .queueing 0 _ htest (.inr hcalling)
    · refine .draining t' j (Config.active_replace_of_ne htop _ _ hj ?_) ?_
      · rintro rfl
        exact hhandling
      · cases j <;> trivial
    · exact .signalled hsignalled
    · refine .stopping hquit fun t' hpoll => ?_
      obtain ⟨-, hmem⟩ | hold := Config.active_of_replace htop hpoll
      · cases List.mem_singleton.mp hmem
      · obtain rfl := hplaced.inLoop t' _ hold trivial
        cases hplaced.poll.eq_top htop hold rfl
    · refine .queueing t' j ?_ ?_
      · rw [Config.Active, Config.stack_replace_ne _ _ _ ht']
        exact hj
      · cases j <;> first | exact ht' | exact .inl ht' | trivial
  · exact .queueing t _ htest (.inl ht)

theorem step (h : Covered c) (hplaced : Placed c) (hok : QueuesAwake c t i)
    (hstep : machine.Step c t i c') : Covered c' := by
  obtain @⟨rest, x, s, pushed, htop, hexec⟩ := hstep
  have hloop := hplaced.inLoop t i (Config.active_of_top htop)
  cases moves_of_exec (t := t) hexec with
  | queueInLoop => exact .queue hplaced hok htop
  | testThread =>
    exact .queueing t .queueWakeup
      (Config.active_replace_of_pushed htop _ (List.mem_singleton_self _)) trivial
  | queueWakeup | quitWakeup => exact .signalled c.shared.wakeup_signals
  | read =>
    obtain ⟨j, hj, hhandling⟩ := hplaced.reading t (Config.active_of_top htop)
    refine .draining t j (Config.active_replace_of_ne htop _ _ hj ?_) ?_
    · rintro rfl
      exact hhandling
    · cases j <;> trivial
  | ready channels | handleWakeup channels | handleChannel channels =>
    exact .draining t (.handleEvents channels)
      (Config.active_replace_of_pushed htop _ (by simp)) trivial
  | handled =>
    exact .draining t .doPendingFunctors
      (Config.active_replace_of_pushed htop _ (List.mem_singleton_self _)) trivial
  | doPendingFunctors =>
    exact .draining t .swapFunctors
      (Config.active_replace_of_pushed htop _ (List.mem_singleton_self _)) trivial
  | swapFunctors => exact .empty rfl
  | ranFunctors =>
    obtain rfl := hloop trivial
    refine h.replace htop id id id (fun t' j hj hsignals => ?_) id id (by simp)
    cases j with
    | testThread =>
      refine .inl fun ht => ?_
      rw [ht, Config.Active, htop, hplaced.control.rest_eq_nil htop trivial] at hj
      cases List.mem_singleton.mp hj
    | _ => exact hsignals
  | storeQuit => exact h.replace htop id id (fun _ => rfl) (fun _ _ _ => id) id id (by simp)
  | runFunctor => exact h.replace htop id id id (fun _ _ _ => id) id id (by simp)
  | skipWakeup skips => exact h.keep htop skips id (by simp)
  | sleep runs => exact h.keep htop id id fun _ => runs
  | user calls => exact h.keep htop id id (by obtain rfl | rfl := calls <;> simp)
  | calls code calls =>
    obtain rfl | rfl | rfl := code <;> obtain rfl | rfl | rfl := calls <;>
      exact h.keep htop id id (by simp)
  | _ => exact h.keep htop id id (by simp)

theorem not_asleep (h : Covered c) (hplaced : Placed c) : ¬Asleep c := by
  rintro ⟨hpoll, hpending, heventfd, hqueueing⟩
  cases h with
  | empty empty => exact hpending empty
  | signalled signalled => exact signalled heventfd
  | queueing t i hactive hsignals =>
    refine hqueueing ⟨t, i, hactive, ?_⟩
    cases i <;> first | exact hsignals.elim | trivial
  | draining t i hactive hdrains => exact hplaced.not_drains hpoll hactive hdrains
  | stopping quits awake =>
    obtain ⟨rest, htop⟩ := List.head?_eq_some_iff.mp hpoll
    exact awake 0 (Config.active_of_top htop)

end Covered

/-- The functors that have been called are the first ones that were queued, in the same order. -/
theorem functors_awake {users : Nat} {c : Config} (hrun : machine.Run QueuesAwake (init users) c) :
    ¬Asleep c ∧ c.shared.ran <+: List.range c.shared.queued := by
  have h := hrun.invariant (I := fun c => Placed c ∧ Ordered c ∧ Covered c)
    ⟨.init users, rfl, .empty rfl⟩ fun hc hok hstep =>
      ⟨hc.1.step hstep, hc.2.1.step hc.1 hstep, hc.2.2.step hc.1 hok hstep⟩
  refine ⟨h.2.2.not_asleep h.1, inHand c ++ c.shared.pendingFunctors, ?_⟩
  rw [← List.append_assoc]
  exact h.2.1

def awoken : List (Nat × Choice) :=
  [(0, .loop), (0, .next), (1, .queue), (1, .next), (1, .next), (1, .next),
    (0, .ready [.wakeup]), (0, .next), (0, .next), (0, .next), (0, .next), (0, .next), (0, .next),
    (0, .next), (0, .queue), (0, .next)]

theorem functors_awake_awoken : ¬Asleep (machine.follow (init 1) awoken) ∧
    (machine.follow (init 1) awoken).shared.ran <+:
      List.range (machine.follow (init 1) awoken).shared.queued :=
  functors_awake (Machine.run_follow (by decide))

/-- The thread of the loop queues a functor and then enters `loop`. -/
def queuedBefore : List (Nat × Choice) :=
  [(0, .queue), (0, .next), (0, .next), (0, .loop), (0, .next)]

theorem functor_asleep : ∃ c, machine.Reaches (init 0) c ∧ Asleep c :=
  ⟨_, Machine.reaches_follow queuedBefore, by decide⟩

end UnixNotes.Reactor.EventLoop
