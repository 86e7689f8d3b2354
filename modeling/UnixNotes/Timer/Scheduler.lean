import Mathlib.Data.List.Sort
import Mathlib.Logic.Function.Basic
import UnixNotes.Library.Interleaving

namespace UnixNotes.Timer

abbrev TimerId := UInt64

/-- The sum of a `time_point` and a `duration`, both of 64 bits; it wraps. -/
def plus (time duration : Int) : Int := (time + duration).bmod (2 ^ 64)

inductive SchedulerState where
  | created
  | running
  | stopping
  | stopped
  deriving DecidableEq

inductive TimerState where
  | pending
  | submitted
  | executing
  | cancelled
  deriving DecidableEq

/-- `callback` stands for the closure, which is never empty. -/
structure TimerTask where
  id : TimerId
  expiration : Int
  interval : Int
  repeated : Bool
  callback : Nat
  deriving DecidableEq

/-- `a` comes off the heap no later than `b`, by `TimerTaskCompare`. -/
def TimerTask.Before (a b : TimerTask) : Prop :=
  a.expiration < b.expiration ∨ a.expiration = b.expiration ∧ a.id ≤ b.id

instance : DecidableRel TimerTask.Before := fun a b =>
  inferInstanceAs (Decidable (a.expiration < b.expiration ∨ a.expiration = b.expiration ∧ a.id ≤ b.id))

/-- The closure that is handed to the executor, with the number of the `completion` it shares. -/
structure Wrapper where
  task : TimerTask
  completion : Nat
  deriving DecidableEq

abbrev States := TimerId → Option TimerState

namespace States

def set (states : States) (id : TimerId) (state : TimerState) : States :=
  Function.update states id (some state)

def erase (states : States) (id : TimerId) : States := Function.update states id none

/-- `unordered_map::emplace`, which keeps what is there. -/
def emplace (states : States) (id : TimerId) (state : TimerState) : States :=
  if (states id).isSome then states else states.set id state

def cancelPending (states : States) : States := fun id =>
  if states id = some .pending then some .cancelled else states id

end States

inductive WorkerThread where
  | absent
  | running
  | exited
  | joined
  deriving DecidableEq

/-- `tasks` is the heap, first to expire first. `locked` is set while the scheduler's thread keeps the
mutex from one step to the next. `pool` has the wrappers that the executor has accepted and not begun,
and `completions` a number for each reference to a `completion`. `issued` counts the timers that
were scheduled, `cancelled` has the ids for which `cancel` returned true and `started` those whose
callback was started; no code reads these three. -/
structure Shared where
  tasks : List TimerTask := []
  states : States := fun _ => none
  schedulerState : SchedulerState := .created
  nextId : TimerId := 1
  inFlight : Nat := 0
  locked : Bool := false
  worker : WorkerThread := .absent
  pool : List Wrapper := []
  completions : List Nat := []
  submissions : Nat := 0
  issued : Nat := 0
  cancelled : List TimerId := []
  started : List TimerId := []

/-- A call of the public interface; an empty function is `none`. -/
inductive Operation where
  | start
  | scheduleAfter (delay : Int) (task : Option Nat)
  | scheduleEvery (interval : Int) (task : Option Nat)
  | cancel (id : TimerId)
  | requestStop
  | wait
  | stop
  deriving DecidableEq

inductive Drain where
  | wait
  | stop
  deriving DecidableEq

inductive Reply where
  | done
  | scheduled (id : TimerId)
  | cancelled (ok : Bool)
  | drained (drain : Drain) (inside : Bool)
  | threw (what : String)
  deriving DecidableEq

/-- Steps of the calls, of the scheduler's thread and of the workers of the executor; `inside` says
that the thread is in a callback of the scheduler. A section under the mutex is one step, except in
`worker_loop`. Waits may end at any time, so the notifications are left out. -/
inductive Instr where
  /-- A thread that uses the scheduler. -/
  | user
  | call (operation : Operation) (inside : Bool)
  | schedule (expiration interval : Int) (repeated : Bool) (callback : Nat)
  /-- `request_stop`, as part of `stop` or on its own. -/
  | requestStop (stop : Option Bool)
  | joinWorker (drain : Drain) (inside : Bool)
  | awaitFinished (drain : Drain)
  | returned (reply : Reply)
  /-- The scheduler's thread, before it is started. -/
  | worker
  | lockLoop
  | loop
  | waitTasks
  | waitUntil (waitingId : TimerId) (expiration : Int)
  | popCancelled
  | batch (ready : List TimerTask)
  | submit (task : TimerTask)
  | rejected (task : TimerTask) (completion : Nat)
  | dropCompletion (completion : Nat)
  | finishInFlight
  /-- A worker of the executor. -/
  | poolWorker
  | enter (wrapper : Wrapper)
  | startCallback (wrapper : Wrapper)
  | runCallback (wrapper : Wrapper)
  | leave (wrapper : Wrapper)
  deriving DecidableEq

inductive Choice where
  | next
  | call (operation : Operation)
  | clock (now : Int)
  | fails
  | reject
  | run (index : Nat)

namespace Shared

def interrupted (s : Shared) (waitingId : TimerId) (expiration : Int) : Bool :=
  s.schedulerState ≠ .running ||
    match s.tasks with
    | [] => true
    | top :: _ =>
      top.id ≠ waitingId || decide (top.expiration < expiration) ||
        s.states waitingId = none || s.states waitingId = some .cancelled

def push (s : Shared) (task : TimerTask) : Shared :=
  { s with tasks := s.tasks.orderedInsert TimerTask.Before task }

end Shared

def dropCancelled : List TimerTask → States → List TimerTask × States
  | [], states => ([], states)
  | top :: tasks, states =>
    if states top.id = some .cancelled then dropCancelled tasks (states.erase top.id)
    else (top :: tasks, states)

/-- The loop that takes what has expired off the heap: what is ready, what is left and the records. -/
def collect (now : Int) : List TimerTask → States → List TimerTask × List TimerTask × States
  | [], states => ([], [], states)
  | top :: tasks, states =>
    if top.expiration ≤ now then
      match states top.id with
      | some .pending =>
        let (ready, left, states) := collect now tasks (states.set top.id .submitted)
        (top :: ready, left, states)
      | some .cancelled => collect now tasks (states.erase top.id)
      | _ => collect now tasks states
    else ([], top :: tasks, states)

namespace Instr

def execSchedule (expiration interval : Int) (repeated : Bool) (callback : Nat) (s : Shared) :
    Shared × List Instr :=
  if s.schedulerState ≠ .running then (s, [.returned (.threw "TimerScheduler is not running")])
  else
    let id := s.nextId
    ({ s with
        nextId := id + 1
        states := s.states.emplace id .pending
        issued := s.issued + 1 }.push ⟨id, expiration, interval, repeated, callback⟩,
      [.returned (.scheduled id)])

def execCancel (id : TimerId) (s : Shared) : Shared × List Instr :=
  match s.states id with
  | none | some .cancelled => (s, [.returned (.cancelled false)])
  | some _ =>
    ({ s with states := s.states.set id .cancelled, cancelled := id :: s.cancelled },
      [.returned (.cancelled true)])

def execRequestStop (s : Shared) : Shared :=
  match s.schedulerState with
  | .created => { s with schedulerState := .stopped }
  | .running => { s with schedulerState := .stopping, states := s.states.cancelPending }
  | .stopping | .stopped => s

def execCall (operation : Operation) (inside : Bool) (x : Choice) (s : Shared) :
    Option (Shared × List Instr) :=
  match operation, x with
  | .start, .next =>
    if s.locked then none
    else if s.schedulerState ≠ .created then
      some (s, [.returned (.threw "TimerScheduler can only be started once")])
    else some ({ s with schedulerState := .running, worker := .running }, [.returned .done])
  | .start, .fails =>
    if s.locked || s.schedulerState ≠ .created then none
    else some (s, [.returned (.threw "thread")])
  | .scheduleAfter delay task, .clock now =>
    if delay < 0 then some (s, [.returned (.threw "Timer delay cannot be negative")])
    else
      match task with
      | none => some (s, [.returned (.threw "Timer callback cannot be empty")])
      | some callback => some (s, [.schedule (plus now delay) 0 false callback])
  | .scheduleEvery interval task, .clock now =>
    if interval ≤ 0 then some (s, [.returned (.threw "Timer interval must be positive")])
    else
      match task with
      | none => some (s, [.returned (.threw "Timer callback cannot be empty")])
      | some callback => some (s, [.schedule (plus now interval) interval true callback])
  | .cancel id, .next => if s.locked then none else some (execCancel id s)
  | .requestStop, .next => some (s, [.requestStop none])
  | .wait, .next => some (s, [.joinWorker .wait inside])
  | .stop, .next => some (s, [.requestStop (some inside)])
  | _, _ => none

/-- `join_worker()`; other threads that want to join wait as well, at the mutex `join_mutex_`. -/
def execJoinWorker (drain : Drain) (inside : Bool) (s : Shared) : Option (Shared × List Instr) :=
  let next := if inside then [.returned (.drained drain true)] else [.awaitFinished drain]
  match s.worker with
  | .running => none
  | .exited => some ({ s with worker := .joined }, next)
  | .absent | .joined => some (s, next)

def execAwaitFinished (drain : Drain) (s : Shared) : Option (Shared × List Instr) :=
  if s.locked || s.inFlight ≠ 0 then none
  else some ({ s with tasks := [], states := fun _ => none, schedulerState := .stopped },
    [.returned (.drained drain false)])

def execLoop (s : Shared) : Shared × List Instr :=
  if s.schedulerState ≠ .running then ({ s with locked := false, worker := .exited }, [])
  else
    match s.tasks with
    | [] => ({ s with locked := false }, [.waitTasks])
    | top :: _ =>
      if s.interrupted top.id top.expiration then (s, [.popCancelled])
      else ({ s with locked := false }, [.waitUntil top.id top.expiration])

def execExpired (now : Int) (s : Shared) : Shared × List Instr :=
  match s.tasks with
  | [] => ({ s with locked := true }, [.loop])
  | top :: _ =>
    if top.expiration > now then ({ s with locked := true }, [.loop])
    else
      let (ready, left, states) := collect now s.tasks s.states
      ({ s with tasks := left, states := states }, [.batch ready])

def execWaitUntil (waitingId : TimerId) (expiration : Int) (x : Choice) (s : Shared) :
    Option (Shared × List Instr) :=
  if s.locked then none
  else if s.interrupted waitingId expiration then
    match x with
    | .next => some ({ s with locked := true }, [.popCancelled])
    | _ => none
  else
    match x with
    | .clock now => some (execExpired now s)
    | _ => none

def execBatch (task : TimerTask) (rest : List TimerTask) (s : Shared) : Shared × List Instr :=
  match s.states task.id with
  | none => (s, [.batch rest])
  | some state =>
    if state = .cancelled || s.schedulerState ≠ .running then
      ({ s with states := s.states.erase task.id }, [.batch rest])
    else if state ≠ .submitted then (s, [.batch rest])
    else ({ s with inFlight := s.inFlight + 1 }, [.submit task, .batch rest])

/-- The completion, the wrapper and `try_post`, which destroys the wrapper if it does not take it. -/
def execSubmit (task : TimerTask) (x : Choice) (s : Shared) : Option (Shared × List Instr) :=
  let completion := s.submissions
  match x with
  | .next =>
    some ({ s with
        submissions := s.submissions + 1
        completions := completion :: completion :: s.completions
        pool := s.pool ++ [⟨task, completion⟩] },
      [.dropCompletion completion])
  | .reject =>
    some ({ s with
        submissions := s.submissions + 1
        completions := completion :: s.completions },
      [.rejected task completion])
  | _ => none

/-- A reference to a completion is gone; the last one runs `finish_in_flight`. -/
def execDropCompletion (completion : Nat) (s : Shared) : Shared × List Instr :=
  ({ s with completions := s.completions.erase completion },
    if completion ∈ s.completions.erase completion then [] else [.finishInFlight])

/-- The first section of the wrapper; the mutex is free again when the callback is called. -/
def execEnter (wrapper : Wrapper) (s : Shared) : Shared × List Instr :=
  let id := wrapper.task.id
  match s.states id with
  | some .submitted =>
    ({ s with states := s.states.set id .executing }, [.startCallback wrapper])
  | some .cancelled =>
    ({ s with states := s.states.erase id }, [.dropCompletion wrapper.completion])
  | _ => (s, [.dropCompletion wrapper.completion])

def execLeave (wrapper : Wrapper) (now : Int) (s : Shared) : Shared × List Instr :=
  let id := wrapper.task.id
  match s.states id with
  | none => (s, [.dropCompletion wrapper.completion])
  | some .executing =>
    if wrapper.task.repeated && s.schedulerState = .running then
      ({ s with states := s.states.set id .pending }.push
          { wrapper.task with expiration := plus now wrapper.task.interval, repeated := true },
        [.dropCompletion wrapper.completion])
    else ({ s with states := s.states.erase id }, [.dropCompletion wrapper.completion])
  | some _ => ({ s with states := s.states.erase id }, [.dropCompletion wrapper.completion])

def exec (_ : Nat) (i : Instr) (x : Choice) (s : Shared) : Option (Shared × List Instr) :=
  match i, x with
  | .user, .call operation => some (s, [.call operation false, .user])
  | .call operation inside, x => execCall operation inside x s
  | .schedule expiration interval repeated callback, .next =>
    if s.locked then none else some (execSchedule expiration interval repeated callback s)
  | .requestStop stop, .next =>
    if s.locked then none
    else some (execRequestStop s,
      match stop with
      | none => [.returned .done]
      | some inside => [.joinWorker .stop inside])
  | .joinWorker drain inside, .next => execJoinWorker drain inside s
  | .awaitFinished drain, .next => execAwaitFinished drain s
  | .returned _, .next => some (s, [])
  | .worker, .next => if s.worker = .running then some (s, [.lockLoop]) else none
  | .lockLoop, .next => if s.locked then none else some ({ s with locked := true }, [.loop])
  | .loop, .next => some (execLoop s)
  | .waitTasks, .next =>
    if s.locked || (s.schedulerState = .running && s.tasks = []) then none
    else some ({ s with locked := true }, [.loop])
  | .waitUntil waitingId expiration, x => execWaitUntil waitingId expiration x s
  | .popCancelled, .next =>
    let (tasks, states) := dropCancelled s.tasks s.states
    some ({ s with tasks := tasks, states := states }, [.loop])
  | .batch [], .next => some (s, [.lockLoop])
  | .batch (task :: rest), .next => if s.locked then none else some (execBatch task rest s)
  | .submit task, x => execSubmit task x s
  | .rejected task completion, .next =>
    if s.locked then none
    else some ({ s with states := s.states.erase task.id }, [.dropCompletion completion])
  | .dropCompletion completion, .next => some (execDropCompletion completion s)
  | .finishInFlight, .next =>
    if s.locked then none else some ({ s with inFlight := s.inFlight - 1 }, [])
  | .poolWorker, .run index =>
    s.pool[index]?.map fun wrapper =>
      ({ s with pool := s.pool.eraseIdx index }, [.enter wrapper, .poolWorker])
  | .enter wrapper, .next => if s.locked then none else some (execEnter wrapper s)
  | .startCallback wrapper, .next =>
    some ({ s with started := wrapper.task.id :: s.started }, [.runCallback wrapper])
  | .runCallback wrapper, .call operation => some (s, [.call operation true, .runCallback wrapper])
  | .runCallback wrapper, .next => some (s, [.leave wrapper])
  | .leave wrapper, .clock now => if s.locked then none else some (execLeave wrapper now s)
  | _, _ => none

end Instr

abbrev Config := Library.Config Shared Instr

def machine : Library.Machine Shared Instr Choice := ⟨Instr.exec⟩

def init (poolThreads threads : Nat) : Config :=
  ⟨{}, [.worker] :: (List.replicate poolThreads [.poolWorker] ++ List.replicate threads [.user])⟩

end UnixNotes.Timer
