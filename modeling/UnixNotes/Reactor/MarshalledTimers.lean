import Mathlib.Data.Finset.Insert
import UnixNotes.Timer.Carriers

namespace UnixNotes.Reactor.MarshalledTimers

open Library Timer

inductive Functor where
  | firing (task : TimerTask)
  | other
  deriving DecidableEq

/-- `ran` is logged when the loop runs a firing, `cancelled` when a call of `cancel` on the loop
thread, for a timer that had been given out, returns. -/
inductive Event where
  | scheduled (id : TimerId)
  | cancelled (id : TimerId)
  | ran (id : TimerId)
  deriving DecidableEq

/-- An `EventLoop` and the scheduler of `TimerManager`. `startLocked` stands for `startMutex_`. The
destructor of the loop, which clears `timerAlive`, is in `LoopTimers`. `log` has what has happened,
last event first; no code reads it. -/
structure Shared where
  timers : Timer.Shared := {}
  startLocked : Bool := false
  started : Bool := false
  timerAlive : Bool := true
  timerIds : Finset TimerId := ∅
  pendingFunctors : List Functor := []
  log : List Event := []

def Shared.given (s : Shared) (id : TimerId) : Bool := .scheduled id ∈ s.log

inductive Operation where
  | runAfter (delay : Int)
  | runEvery (interval : Int)
  | cancel (id : TimerId)
  | queueInLoop
  deriving DecidableEq

/-- Steps of the scheduler's thread and the workers of its pool, of the loop thread and of other
threads that use the loop. A poll may return at any time, so the wake-ups are left out; a loop that
quits takes no more steps. -/
inductive Instr where
  | timers (i : Timer.Instr)
  | user
  | ensureStarted
  | setStarted
  /-- The call of the scheduler. -/
  | ask (operation : Timer.Operation)
  | insertId (id : TimerId)
  | eraseId (id : TimerId)
  | cancelReturned (id : TimerId)
  | queue (functor : Functor)
  /-- The callback that is handed to `TimerManager`. -/
  | loadAlive (task : TimerTask)
  /-- The loop thread, in the callbacks of the channels. -/
  | poll
  | doPendingFunctors
  | functors (functors : List Functor)
  | running (functor : Functor)
  | completed (functor : Functor)
  deriving DecidableEq

inductive Choice where
  | next
  | timers (x : Timer.Choice)
  | call (operation : Operation)

namespace Instr

/-- `logged` are the timers whose cancellation is logged. -/
def expand (logged : TimerId → Bool) : Operation → List Instr
  | .runAfter delay => [.ensureStarted, .ask (.scheduleAfter delay (some 0))]
  | .runEvery interval => [.ensureStarted, .ask (.scheduleEvery interval (some 0))]
  | .cancel id => [.eraseId id, .ask (.cancel id)] ++ if logged id then [.cancelReturned id] else []
  | .queueInLoop => [.queue .other]

/-- What the loop adds to a step of the scheduler. -/
def wrap : Timer.Instr → List Timer.Instr → List Instr
  | .returned (.scheduled id), _ => [.insertId id]
  | .startCallback w, pushed => .loadAlive w.task :: pushed.map .timers
  | _, pushed => pushed.map .timers

def events : Timer.Instr → List Timer.Instr → List Event
  | .schedule .., [.returned (.scheduled id)] => [.scheduled id]
  | _, _ => []

/-- The callbacks make no calls of the scheduler, and its thread can be created. -/
def allows (i : Timer.Instr) (x : Timer.Choice) : Bool :=
  match i, x with
  | .user, _ | .runCallback _, .call _ | .call .start _, .fails => false
  | _, _ => true

def exec (t : Nat) (i : Instr) (x : Choice) (s : Shared) : Option (Shared × List Instr) :=
  match i, x with
  | .timers i, .timers x =>
    if allows i x then
      (i.exec t x s.timers).map fun r =>
        ({ s with timers := r.1, log := events i r.2 ++ s.log }, wrap i r.2)
    else none
  | .user, .call operation => some (s, expand (fun _ => false) operation ++ [.user])
  | .ensureStarted, .next =>
    if s.startLocked then none
    else if s.started then some (s, [])
    else some ({ s with startLocked := true }, [.timers (.call .start false), .setStarted])
  | .setStarted, .next => some ({ s with startLocked := false, started := true }, [])
  | .ask operation, .next => some (s, [.timers (.call operation false)])
  | .insertId id, .next => some ({ s with timerIds := insert id s.timerIds }, [])
  | .eraseId id, .next => some ({ s with timerIds := s.timerIds.erase id }, [])
  | .cancelReturned id, .next => some ({ s with log := .cancelled id :: s.log }, [])
  | .queue functor, .next => some ({ s with pendingFunctors := s.pendingFunctors ++ [functor] }, [])
  | .loadAlive task, .next => some (s, if s.timerAlive then [.queue (.firing task)] else [])
  | .poll, .call operation => some (s, expand s.given operation ++ [.poll])
  | .poll, .next => some (s, [.doPendingFunctors, .poll])
  | .doPendingFunctors, .next =>
    some ({ s with pendingFunctors := [] }, [.functors s.pendingFunctors])
  | .functors [], .next => some (s, [])
  | .functors (.firing task :: fs), .next =>
    some ({ s with log := .ran task.id :: s.log }, [.running (.firing task), .functors fs])
  | .functors (.other :: fs), .next => some (s, [.running .other, .functors fs])
  | .running functor, .call operation => some (s, expand s.given operation ++ [.running functor])
  | .running functor, .next => some (s, [.completed functor])
  | .completed _, .next => some (s, [])
  | _, _ => none

/-- As an instruction of the scheduler; whoever uses the loop is one of its users. -/
def toTimers : Instr → List Timer.Instr
  | .timers i => [i]
  | .user | .poll => [.user]
  | _ => []

end Instr

abbrev Config := Library.Config Shared Instr

def machine : Library.Machine Shared Instr Choice := ⟨Instr.exec⟩

def init (poolThreads threads : Nat) : Config :=
  ⟨{}, [.timers .worker] :: (List.replicate poolThreads [.timers .poolWorker] ++
    [.poll] :: List.replicate threads [.user])⟩

def toTimers (c : Config) : Timer.Config := c.project Shared.timers Instr.toTimers

inductive Moves (s : Shared) : Instr → Shared → List Instr → Prop
  | timers {t : Nat} {i : Timer.Instr} {x : Timer.Choice} {timers : Timer.Shared}
      {pushed : List Timer.Instr} (allowed : Instr.allows i x = true)
      (exec : i.exec t x s.timers = some (timers, pushed)) :
      Moves s (.timers i) { s with timers := timers, log := Instr.events i pushed ++ s.log }
        (Instr.wrap i pushed)
  | call (operation : Operation) : Moves s .user s (Instr.expand (fun _ => false) operation ++ [.user])
  | isStarted : Moves s .ensureStarted s []
  | start : Moves s .ensureStarted { s with startLocked := true }
      [.timers (.call .start false), .setStarted]
  | setStarted : Moves s .setStarted { s with startLocked := false, started := true } []
  | ask (operation : Timer.Operation) :
      Moves s (.ask operation) s [.timers (.call operation false)]
  | insertId (id : TimerId) : Moves s (.insertId id) { s with timerIds := insert id s.timerIds } []
  | eraseId (id : TimerId) : Moves s (.eraseId id) { s with timerIds := s.timerIds.erase id } []
  | cancelReturned (id : TimerId) :
      Moves s (.cancelReturned id) { s with log := .cancelled id :: s.log } []
  | queue (functor : Functor) :
      Moves s (.queue functor) { s with pendingFunctors := s.pendingFunctors ++ [functor] } []
  | loadAlive (task : TimerTask) (alive : s.timerAlive = true) :
      Moves s (.loadAlive task) s [.queue (.firing task)]
  | loadDead (task : TimerTask) (dead : s.timerAlive = false) : Moves s (.loadAlive task) s []
  | callOnLoop (operation : Operation) : Moves s .poll s (Instr.expand s.given operation ++ [.poll])
  | polled : Moves s .poll s [.doPendingFunctors, .poll]
  | doPendingFunctors :
      Moves s .doPendingFunctors { s with pendingFunctors := [] } [.functors s.pendingFunctors]
  | functorsDone : Moves s (.functors []) s []
  | run (task : TimerTask) (fs : List Functor) :
      Moves s (.functors (.firing task :: fs)) { s with log := .ran task.id :: s.log }
        [.running (.firing task), .functors fs]
  | runOther (fs : List Functor) :
      Moves s (.functors (.other :: fs)) s [.running .other, .functors fs]
  | callInFunctor (functor : Functor) (operation : Operation) :
      Moves s (.running functor) s (Instr.expand s.given operation ++ [.running functor])
  | functorEnds (functor : Functor) : Moves s (.running functor) s [.completed functor]
  | completed (functor : Functor) : Moves s (.completed functor) s []

theorem moves_of_exec {t : Nat} {i : Instr} {x : Choice} {s s' : Shared} {pushed : List Instr}
    (h : i.exec t x s = some (s', pushed)) : Moves s i s' pushed := by
  cases i with
  | timers i =>
    cases x with
    | timers x =>
      obtain ⟨hallowed, h⟩ := Option.ite_none_right_eq_some.mp h
      obtain ⟨r, hexec, heq⟩ := Option.map_eq_some_iff.mp h
      cases heq
      exact .timers hallowed hexec
    | _ => cases i <;> cases h
  | user =>
    cases x with
    | call operation => cases h; exact .call operation
    | _ => cases h
  | ensureStarted =>
    cases x with
    | next =>
      simp only [Instr.exec] at h
      (repeat' split at h) <;> cases h
      · exact .isStarted
      · exact .start
    | _ => cases h
  | loadAlive task =>
    cases x with
    | next =>
      simp only [Instr.exec, Option.some.injEq] at h
      split at h <;> cases h
      · exact .loadAlive task ‹_›
      · exact .loadDead task (Bool.eq_false_iff.mpr ‹_›)
    | _ => cases h
  | functors fs =>
    cases x with
    | next =>
      cases fs with
      | nil => cases h; exact .functorsDone
      | cons functor fs =>
        cases functor with
        | firing task => cases h; exact .run task fs
        | other => cases h; exact .runOther fs
    | _ => rcases fs with _ | ⟨_ | _, fs⟩ <;> cases h
  | poll =>
    cases x with
    | next => cases h; exact .polled
    | call operation => cases h; exact .callOnLoop operation
    | timers x => cases h
  | running functor =>
    cases x with
    | next => cases h; exact .functorEnds functor
    | call operation => cases h; exact .callInFunctor functor operation
    | _ => cases h
  | setStarted => cases x <;> cases h; exact .setStarted
  | ask operation => cases x <;> cases h; exact .ask operation
  | insertId id => cases x <;> cases h; exact .insertId id
  | eraseId id => cases x <;> cases h; exact .eraseId id
  | cancelReturned id => cases x <;> cases h; exact .cancelReturned id
  | queue functor => cases x <;> cases h; exact .queue functor
  | doPendingFunctors => cases x <;> cases h; exact .doPendingFunctors
  | completed functor => cases x <;> cases h; exact .completed functor

end UnixNotes.Reactor.MarshalledTimers
