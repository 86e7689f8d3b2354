import UnixNotes.Timer.Heap
import UnixNotes.Timer.Stop

namespace UnixNotes.Timer.Waking

open Library

/-- `parked` is set while the scheduler's thread is blocked on `cv` and has not been notified. -/
structure Shared where
  scheduler : Timer.Shared := {}
  parked : Bool := false

inductive Instr where
  | scheduler (i : Timer.Instr)
  /-- `notify_one` or `notify_all` on `cv`, where only the scheduler's thread waits. -/
  | notify
  deriving DecidableEq

inductive Choice where
  | next
  | scheduler (x : Timer.Choice)
  /-- A wait ends at its deadline, or for no reason. -/
  | wake
  /-- The predicate is false, and the wait goes on. -/
  | park

namespace Instr

def blocks : Timer.Instr → Bool
  | .waitTasks | .waitUntil .. => true
  | _ => false

def waits (i : Timer.Instr) (s : Timer.Shared) : Bool :=
  match i with
  | .waitTasks => s.schedulerState = .running && s.tasks.isEmpty
  | .waitUntil waitingId expiration => !s.interrupted waitingId expiration
  | _ => false

def needWakeup (expiration : Int) : List TimerTask → Bool
  | [] => true
  | top :: _ => expiration < top.expiration

/-- The section under the mutex sets `need_wakeup`, or `need_notify`. -/
def notifies (i : Timer.Instr) (x : Timer.Choice) (s : Timer.Shared) : Bool :=
  match i, x with
  | .schedule expiration .., _ =>
    s.schedulerState = .running && needWakeup expiration s.tasks
  | .call (.cancel id) _, _ =>
    (s.states id).any (· ≠ .cancelled) && s.tasks.head?.any (·.id = id)
  | .requestStop _, _ => s.schedulerState = .running
  | .leave w, .clock now =>
    s.states w.task.id = some .executing && w.task.repeated && s.schedulerState = .running &&
      needWakeup (plus now w.task.interval) s.tasks
  | _, _ => false

def exec (t : Nat) (i : Instr) (x : Choice) (s : Shared) : Option (Shared × List Instr) :=
  match i, x with
  | .scheduler i, .scheduler x =>
    if s.parked && blocks i then none
    else (i.exec t x s.scheduler).map fun r =>
      (⟨r.1, s.parked || r.2.any blocks⟩,
        (if notifies i x s.scheduler then [.notify] else []) ++ r.2.map .scheduler)
  | .scheduler i, .wake =>
    if s.parked && blocks i then some ({ s with parked := false }, [.scheduler i]) else none
  | .scheduler i, .park =>
    if s.parked || s.scheduler.locked || !waits i s.scheduler then none
    else some ({ s with parked := true }, [.scheduler i])
  | .notify, .next => some ({ s with parked := false }, [])
  | _, _ => none

def toScheduler : Instr → List Timer.Instr
  | .scheduler i => [i]
  | .notify => []

def notifying : Instr → Nat
  | .notify => 1
  | .scheduler _ => 0

end Instr

abbrev Config := Library.Config Shared Instr

def machine : Library.Machine Shared Instr Choice := ⟨Instr.exec⟩

def init (poolThreads threads : Nat) : Config :=
  ⟨{}, (Timer.init poolThreads threads).threads.map (·.map .scheduler)⟩

def toScheduler (c : Config) : Timer.Config := c.project Shared.scheduler Instr.toScheduler

inductive Moves (s : Shared) : Instr → Shared → List Instr → Prop
  | scheduler {t : Nat} {i : Timer.Instr} {x : Timer.Choice} {scheduler : Timer.Shared}
      {pushed : List Timer.Instr} (awake : ¬(s.parked = true ∧ Instr.blocks i = true))
      (exec : i.exec t x s.scheduler = some (scheduler, pushed)) :
      Moves s (.scheduler i) ⟨scheduler, s.parked || pushed.any Instr.blocks⟩
        ((if Instr.notifies i x s.scheduler then [.notify] else []) ++ pushed.map .scheduler)
  | wake (i : Timer.Instr) : Moves s (.scheduler i) { s with parked := false } [.scheduler i]
  | park {i : Timer.Instr} (waits : Instr.waits i s.scheduler = true) :
      Moves s (.scheduler i) { s with parked := true } [.scheduler i]
  | notify : Moves s .notify { s with parked := false } []

theorem moves_of_exec {t : Nat} {i : Instr} {x : Choice} {s s' : Shared} {pushed : List Instr}
    (h : i.exec t x s = some (s', pushed)) : Moves s i s' pushed := by
  cases i with
  | scheduler i =>
    cases x with
    | scheduler x =>
      obtain ⟨hawake, h⟩ := Option.ite_none_left_eq_some.mp h
      obtain ⟨r, hexec, heq⟩ := Option.map_eq_some_iff.mp h
      cases heq
      exact .scheduler (by simpa using hawake) hexec
    | wake =>
      obtain ⟨-, heq⟩ := Option.ite_none_right_eq_some.mp h
      cases heq
      exact .wake i
    | park =>
      obtain ⟨hwaits, heq⟩ := Option.ite_none_left_eq_some.mp h
      cases heq
      simp only [Bool.or_eq_true, Bool.not_eq_true', not_or, Bool.not_eq_false] at hwaits
      exact .park hwaits.2
    | next => cases h
  | notify =>
    cases x with
    | next => cases h; exact .notify
    | _ => cases h

end UnixNotes.Timer.Waking
