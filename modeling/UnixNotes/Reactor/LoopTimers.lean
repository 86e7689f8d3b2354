import UnixNotes.Library.Interleaving

namespace UnixNotes.Reactor.LoopTimers

open Library

/-- How far the destruction of the `EventLoop` is with its members. -/
inductive Lifetime where
  | alive
  | releasing
  | destroyed
  deriving DecidableEq

/-- `timers` has the timers of `TimerManager` that can still be submitted, and whether they repeat.
`timerAlive` is the flag that the callbacks share with the loop. -/
structure Shared where
  timerAlive : Bool := true
  timerIds : List Nat := []
  lifetime : Lifetime := .alive
  timers : List (Nat × Bool) := []
  nextId : Nat := 1
  pendingFunctors : Nat := 0
  signalled : Bool := false

/-- Steps of the owner of the loop and of the workers of the pool of `TimerManager`. -/
inductive Instr where
  | owner
  /-- `runAfter` or `runEvery`, when the timer has been scheduled. -/
  | insertId (id : Nat)
  | cancelTimer (id : Nat)
  /-- The destructor. -/
  | storeAlive
  | swapIds
  | cancelIds (ids : List Nat)
  | release
  | destroyMembers
  | poolWorker
  /-- The callback that is handed to `TimerManager`. -/
  | loadAlive
  | queueInLoop
  | wakeup
  deriving DecidableEq

inductive Choice where
  | next
  | run (repeated : Bool)
  | cancel (id : Nat)
  | destroy
  | fire (index : Nat)

def Shared.cancel (s : Shared) (id : Nat) : Shared :=
  { s with timers := s.timers.filter fun timer => timer.1 ≠ id }

namespace Instr

def exec (_ : Nat) (i : Instr) (x : Choice) (s : Shared) : Option (Shared × List Instr) :=
  match i, x with
  | .owner, .run repeated =>
    some ({ s with nextId := s.nextId + 1, timers := (s.nextId, repeated) :: s.timers },
      [.insertId s.nextId, .owner])
  | .insertId id, .next => some ({ s with timerIds := s.timerIds.insert id }, [])
  | .owner, .cancel id =>
    some ({ s with timerIds := s.timerIds.erase id }, [.cancelTimer id, .owner])
  | .cancelTimer id, .next => some (s.cancel id, [])
  | .owner, .destroy => some (s, [.storeAlive])
  | .storeAlive, .next => some ({ s with timerAlive := false }, [.swapIds])
  | .swapIds, .next => some ({ s with timerIds := [] }, [.cancelIds s.timerIds])
  | .cancelIds (id :: ids), .next => some (s.cancel id, [.cancelIds ids])
  | .cancelIds [], .next => some (s, [.release])
  | .release, .next => some ({ s with lifetime := .releasing }, [.destroyMembers])
  | .destroyMembers, .next => some ({ s with lifetime := .destroyed }, [])
  | .poolWorker, .fire index =>
    s.timers[index]?.map fun timer =>
      (if timer.2 then s else s.cancel timer.1, [.loadAlive, .poolWorker])
  | .loadAlive, .next => some (s, if s.timerAlive then [.queueInLoop] else [])
  | .queueInLoop, .next => some ({ s with pendingFunctors := s.pendingFunctors + 1 }, [.wakeup])
  | .wakeup, .next => some ({ s with signalled := true }, [])
  | _, _ => none

def touches : Instr → Prop
  | .queueInLoop | .wakeup => True
  | _ => False

instance : DecidablePred touches := fun i => by
  cases i <;> first | exact .isTrue trivial | exact .isFalse id

def destroying : Instr → Prop
  | .swapIds | .cancelIds _ | .release | .destroyMembers => True
  | _ => False

end Instr

abbrev Config := Library.Config Shared Instr

def machine : Library.Machine Shared Instr Choice := ⟨Instr.exec⟩

def init (poolThreads : Nat) : Config := ⟨{}, [.owner] :: List.replicate poolThreads [.poolWorker]⟩

/-- When the destructor clears the flag, no callback is between its load of the flag and the end of
`queueInLoop`. -/
abbrev ClearsBetween (c : Config) (_ : Nat) (i : Instr) : Prop :=
  i = .storeAlive → ¬∃ t j, c.Active t j ∧ j.touches

inductive Moves (s : Shared) : Instr → Shared → List Instr → Prop
  | run (repeated : Bool) :
      Moves s .owner { s with nextId := s.nextId + 1, timers := (s.nextId, repeated) :: s.timers }
        [.insertId s.nextId, .owner]
  | insertId (id : Nat) : Moves s (.insertId id) { s with timerIds := s.timerIds.insert id } []
  | cancel (id : Nat) :
      Moves s .owner { s with timerIds := s.timerIds.erase id } [.cancelTimer id, .owner]
  | cancelTimer (id : Nat) : Moves s (.cancelTimer id) (s.cancel id) []
  | destroy : Moves s .owner s [.storeAlive]
  | storeAlive : Moves s .storeAlive { s with timerAlive := false } [.swapIds]
  | swapIds : Moves s .swapIds { s with timerIds := [] } [.cancelIds s.timerIds]
  | cancelIds (id : Nat) (ids : List Nat) :
      Moves s (.cancelIds (id :: ids)) (s.cancel id) [.cancelIds ids]
  | cancelled : Moves s (.cancelIds []) s [.release]
  | release : Moves s .release { s with lifetime := .releasing } [.destroyMembers]
  | destroyMembers : Moves s .destroyMembers { s with lifetime := .destroyed } []
  | fire (id : Nat) : Moves s .poolWorker (s.cancel id) [.loadAlive, .poolWorker]
  | fireRepeated : Moves s .poolWorker s [.loadAlive, .poolWorker]
  | loadAlive (alive : s.timerAlive = true) : Moves s .loadAlive s [.queueInLoop]
  | loadDead : Moves s .loadAlive s []
  | queueInLoop : Moves s .queueInLoop { s with pendingFunctors := s.pendingFunctors + 1 } [.wakeup]
  | wakeup : Moves s .wakeup { s with signalled := true } []

theorem moves_of_exec {t : Nat} {x : Choice} {s s' : Shared} {i : Instr} {pushed : List Instr}
    (h : i.exec t x s = some (s', pushed)) : Moves s i s' pushed := by
  cases i with
  | owner =>
    cases x with
    | run repeated => cases h; exact .run repeated
    | cancel id => cases h; exact .cancel id
    | destroy => cases h; exact .destroy
    | _ => cases h
  | cancelIds ids =>
    cases x with
    | next =>
      cases ids with
      | nil => cases h; exact .cancelled
      | cons id ids => cases h; exact .cancelIds id ids
    | _ => cases ids <;> cases h
  | poolWorker =>
    cases x with
    | fire index =>
      obtain ⟨⟨id, repeated⟩, -, heq⟩ := Option.map_eq_some_iff.mp h
      cases repeated with
      | true => cases heq; exact .fireRepeated
      | false => cases heq; exact .fire id
    | _ => cases h
  | loadAlive =>
    cases x with
    | next =>
      simp only [Instr.exec] at h
      split at h <;> cases h
      · exact .loadAlive ‹_›
      · exact .loadDead
    | _ => cases h
  | insertId id =>
    cases x with
    | next => cases h; exact .insertId id
    | _ => cases h
  | cancelTimer id =>
    cases x with
    | next => cases h; exact .cancelTimer id
    | _ => cases h
  | _ =>
    cases x with
    | next =>
      cases h
      first
        | exact .storeAlive | exact .swapIds | exact .release | exact .destroyMembers
        | exact .queueInLoop | exact .wakeup
    | _ => cases h

structure Guarded (c : Config) : Prop where
  touching : c.shared.timerAlive = false → ∀ t i, c.Active t i → ¬i.touches
  destroying : ∀ t i, c.Active t i → i.destroying → c.shared.timerAlive = false
  releasing : c.shared.lifetime ≠ .alive → c.shared.timerAlive = false

namespace Guarded

variable {c c' : Config} {t : Nat} {i : Instr} {rest pushed : List Instr} {s : Shared}

theorem init (poolThreads : Nat) : Guarded (init poolThreads) := by
  refine ⟨nofun, fun t i hactive hdestroying => ?_, fun h => absurd rfl h⟩
  obtain ⟨stack, hstack, hi⟩ := Config.mem_threads hactive
  rw [LoopTimers.init, List.mem_cons, List.mem_replicate] at hstack
  obtain rfl | ⟨-, rfl⟩ := hstack
  all_goals
    obtain rfl := List.mem_singleton.mp hi
    exact hdestroying.elim

theorem replace (h : Guarded c) (htop : c.stack t = i :: rest)
    (halive : c.shared.timerAlive = false → s.timerAlive = false)
    (htouching : s.timerAlive = false → c.shared.timerAlive = false ∧
      ∀ j ∈ pushed, ¬j.touches)
    (hdestroying : ∀ j ∈ pushed, j.destroying → s.timerAlive = false)
    (hlifetime : s.lifetime ≠ .alive → s.timerAlive = false) :
    Guarded (c.replace t s (pushed ++ rest)) := by
  refine ⟨fun hdead t' j hactive => ?_, fun t' j hactive hj => ?_, hlifetime⟩
  · obtain ⟨hbefore, hpushed⟩ := htouching hdead
    obtain ⟨-, hmem⟩ | hold := Config.active_of_replace htop hactive
    · exact hpushed j hmem
    · exact h.touching hbefore t' j hold
  · obtain ⟨-, hmem⟩ | hold := Config.active_of_replace htop hactive
    · exact hdestroying j hmem hj
    · exact halive (h.destroying t' j hold hj)

theorem keep (h : Guarded c) (htop : c.stack t = i :: rest)
    (halive : s.timerAlive = c.shared.timerAlive) (hlifetime : s.lifetime = c.shared.lifetime)
    (hpushed : c.shared.timerAlive = false → ∀ j ∈ pushed, ¬j.touches)
    (hdestroying : ∀ j ∈ pushed, j.destroying → c.shared.timerAlive = false) :
    Guarded (c.replace t s (pushed ++ rest)) := by
  refine h.replace htop halive.trans (fun hdead => ?_) (fun j hj hdestroys => ?_) fun hends => ?_
  · rw [halive] at hdead
    exact ⟨hdead, hpushed hdead⟩
  · rw [halive]
    exact hdestroying j hj hdestroys
  · rw [hlifetime] at hends
    exact halive.trans (h.releasing hends)

theorem step (h : Guarded c) (hok : ClearsBetween c t i) (hstep : machine.Step c t i c') :
    Guarded c' := by
  obtain @⟨rest, x, s, pushed, htop, hexec⟩ := hstep
  have hactive := Config.active_of_top htop
  cases moves_of_exec (t := t) hexec with
  | storeAlive =>
    refine ⟨fun _ t' j hj htouches => ?_, fun _ _ _ _ => rfl, fun _ => rfl⟩
    obtain ⟨-, hmem⟩ | hold := Config.active_of_replace htop hj
    · obtain rfl := List.mem_singleton.mp hmem
      exact htouches
    · exact hok rfl ⟨t', j, hold, htouches⟩
  | swapIds | cancelIds | cancelled =>
    have hdead := h.destroying t _ hactive trivial
    refine h.keep htop rfl rfl (fun _ j hj => ?_) fun _ _ _ => hdead
    obtain rfl := List.mem_singleton.mp hj
    exact id
  | release =>
    have hdead := h.destroying t _ hactive trivial
    refine h.replace htop id (fun _ => ⟨hdead, fun j hj => ?_⟩) (fun _ _ _ => hdead) fun _ => hdead
    obtain rfl := List.mem_singleton.mp hj
    exact id
  | destroyMembers =>
    have hdead := h.destroying t _ hactive trivial
    exact h.replace htop id (fun _ => ⟨hdead, nofun⟩) nofun fun _ => hdead
  | loadAlive alive =>
    refine h.keep htop rfl rfl (fun hdead => ?_) fun j hj hdestroys => ?_
    · rw [alive] at hdead
      cases hdead
    · obtain rfl := List.mem_singleton.mp hj
      exact hdestroys.elim
  | queueInLoop =>
    refine h.keep htop rfl rfl (fun hdead => ?_) fun j hj hdestroys => ?_
    · exact absurd trivial (h.touching hdead t _ hactive)
    · obtain rfl := List.mem_singleton.mp hj
      exact hdestroys.elim
  | destroy =>
    refine h.keep htop rfl rfl (fun _ j hj => ?_) fun j hj hdestroys => ?_
    all_goals obtain rfl := List.mem_singleton.mp hj
    · exact id
    · exact hdestroys.elim
  | insertId | cancelTimer | loadDead | wakeup =>
    exact h.keep htop rfl rfl (fun _ => nofun) nofun
  | run | cancel | fire | fireRepeated =>
    refine h.keep htop rfl rfl (fun _ j hj => ?_) fun j hj hdestroys => ?_
    all_goals
      simp only [List.mem_cons, List.not_mem_nil, or_false] at hj
      obtain rfl | rfl := hj
    · exact id
    · exact id
    · exact hdestroys.elim
    · exact hdestroys.elim

end Guarded

theorem touched_alive {poolThreads : Nat} {c : Config}
    (hrun : machine.Run ClearsBetween (init poolThreads) c) {t : Nat} {i : Instr}
    (hactive : c.Active t i) (htouches : i.touches) : c.shared.lifetime = .alive := by
  have h : Guarded c := hrun.invariant (.init poolThreads) fun hc hok hstep => hc.step hok hstep
  by_contra hends
  exact h.touching (h.releasing hends) t i hactive htouches

def touching : List (Nat × Choice) :=
  [(0, .run true), (0, .next), (0, .destroy), (1, .fire 0), (1, .next), (2, .fire 0), (1, .next)]

theorem touched_alive_touching : (machine.follow (init 2) touching).shared.lifetime = .alive :=
  touched_alive (i := .wakeup) (t := 1) (Machine.run_follow (by decide))
    (by decide) trivial

/-- The destructor overtakes a callback that has found the flag set. -/
def overtaken : List (Nat × Choice) :=
  [(0, .run false), (0, .next), (1, .fire 0), (1, .next), (0, .destroy), (0, .next), (0, .next),
    (0, .next), (0, .next), (0, .next), (0, .next)]

theorem touched_destroyed : ∃ c t, machine.Reaches (init 1) c ∧ c.Active t .queueInLoop ∧
    c.shared.lifetime = .destroyed :=
  ⟨_, 1, Machine.reaches_follow overtaken, by decide, by decide⟩

end UnixNotes.Reactor.LoopTimers
