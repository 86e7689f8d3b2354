import UnixNotes.Library.Interleaving
import UnixNotes.ThreadPool.BoundedRingQueue

namespace UnixNotes.ThreadPool

open Library

inductive RejectPolicy where
  | abort
  | callerRuns
  | discard
  deriving DecidableEq

structure Settings where
  workerCount : Nat
  queueCapacity : Nat
  rejectPolicy : RejectPolicy := .abort
  workerCount_pos : 0 < workerCount
  queueCapacity_pos : 0 < queueCapacity

structure Worker where
  pool : Nat
  index : Nat
  deriving DecidableEq

inductive Operation where
  | tryPost
  | postWait
  | postFor
  | submit
  deriving DecidableEq

/-- Tasks are numbered in the order of the calls that submit them. The exceptions of a packaged task
go to its future. -/
structure Task where
  id : Nat
  packaged : Bool
  deriving DecidableEq

/-- `runner` is the pool whose queue has got the task, and `none` where the caller runs it. -/
structure Submission where
  pool : Nat
  runner : Option Nat
  id : Nat
  deriving DecidableEq

/-- `locked` is set while a worker keeps the mutex from one step to the next, and `parked` has the
workers that wait on `not_empty` and have not been notified. In `tasks`, `none` is the empty
function. -/
structure Pool where
  tasks : BoundedRingQueue (Option Task)
  localQueues : List (List Task)
  stopping : Bool := false
  locked : Bool := false
  parked : List Nat := []
  exited : List Nat := []
  destroyed : Bool := false

/-- `threw` is set when a queue throws where a pool uses it. `accepted` has the submissions that were
not refused and `executed` the tasks that were started, each with its runner; no code reads these. -/
structure Shared where
  pools : Nat → Pool
  issued : Nat := 0
  terminated : Bool := false
  threw : Bool := false
  accepted : List Submission := []
  refused : List Nat := []
  executed : List (Option Nat × Nat) := []

/-- `self` is the worker that the thread is, if it is one: `tls_local`. -/
inductive Instr where
  /-- A thread that is no worker. -/
  | user
  | submit (self : Option Worker) (op : Operation) (pool : Nat) (task : Task)
  | notify (pool : Nat)
  | start (self : Option Worker) (task : Task)
  /-- The code of a task. -/
  | body (self : Option Worker) (task : Task)
  | throwing (self : Option Worker) (task : Task)
  | popOwner (self : Worker)
  | popGlobal (self : Worker)
  | steal (self : Worker) (offset : Nat)
  | lockWait (self : Worker)
  /-- The predicate of the wait on `not_empty`, and its loop over the local queues. -/
  | evaluate (self : Worker)
  | look (self : Worker) (offset : Nat)
  | park (self : Worker)
  | parked (self : Worker)
  | testExit (self : Worker)
  | testLocal (self : Worker) (index : Nat)
  | destroy (pool : Nat)
  | notifyAll (pool : Nat)
  | join (pool : Nat)
  deriving DecidableEq

inductive Choice where
  | next
  | submit (op : Operation) (pool : Nat)
  | destroy (pool : Nat)
  | throws
  | timeout
  | wake (index : Nat)
  | spurious
  deriving DecidableEq

namespace Pool

def queue (pool : Pool) (index : Nat) : List Task := pool.localQueues.getD index []

def setQueue (pool : Pool) (index : Nat) (queue : List Task) : Pool :=
  { pool with localQueues := pool.localQueues.set index queue }

def setTasks (pool : Pool) (tasks : BoundedRingQueue (Option Task)) : Pool :=
  { pool with tasks := tasks }

end Pool

namespace Shared

def set (s : Shared) (p : Nat) (pool : Pool) : Shared :=
  { s with pools := Function.update s.pools p pool }

def accept (s : Shared) (pool : Nat) (runner : Option Nat) (id : Nat) : Shared :=
  { s with accepted := ⟨pool, runner, id⟩ :: s.accepted }

def refuse (s : Shared) (id : Nat) : Shared := { s with refused := id :: s.refused }

end Shared

namespace Instr

def execCall (i : Instr) (self : Option Worker) (op : Operation) (p : Nat) (s : Shared) :
    Shared × List Instr :=
  ({ s with issued := s.issued + 1 }, [.submit self op p ⟨s.issued, op = .submit⟩, i])

/-- Into the global queue, whose `full` is false. -/
def pushGlobal (p : Nat) (task : Task) (s : Shared) : Shared × List Instr :=
  let pool := s.pools p
  match pool.tasks.push (some task) with
  | .ok tasks =>
    ((s.set p (pool.setTasks tasks)).accept p (some p) task.id, [.notify p])
  | .error _ => ({ s.refuse task.id with threw := true }, [])

/-- A submission by a thread without a local queue. A full queue keeps `post_wait` and `post_for`
waiting. -/
def execSubmit (settings : Nat → Settings) (op : Operation) (p : Nat) (task : Task) (x : Choice)
    (s : Shared) : Option (Shared × List Instr) :=
  let pool := s.pools p
  if pool.locked then none
  else
    match x with
    | .next =>
      if pool.stopping then some (s.refuse task.id, [])
      else if pool.tasks.full then
        match op with
        | .tryPost => some (s.refuse task.id, [])
        | .postWait | .postFor => none
        | .submit =>
          match (settings p).rejectPolicy with
          | .abort | .discard => some (s.refuse task.id, [])
          | .callerRuns => some (s.accept p none task.id, [.start none task])
      else some (pushGlobal p task s)
    | .timeout =>
      if op = .postFor ∧ pool.stopping = false ∧ pool.tasks.full then
        some (s.refuse task.id, [])
      else none
    | _ => none

/-- `PushOwner`. -/
def execPushOwner (w : Worker) (p : Nat) (task : Task) (s : Shared) : Shared × List Instr :=
  let pool := s.pools w.pool
  ((s.set w.pool (pool.setQueue w.index (task :: pool.queue w.index))).accept p (some w.pool) task.id,
    [.notify p])

/-- `notify_one` of `not_empty`. -/
def execNotify (p : Nat) (x : Choice) (s : Shared) : Option (Shared × List Instr) :=
  let pool := s.pools p
  match x with
  | .wake index =>
    if index ∈ pool.parked then
      some (s.set p { pool with parked := pool.parked.erase index }, [])
    else none
  | .next => if pool.parked = [] then some (s, []) else none
  | _ => none

def execPopOwner (w : Worker) (s : Shared) : Shared × List Instr :=
  let pool := s.pools w.pool
  match pool.queue w.index with
  | [] => (s, [.popGlobal w])
  | task :: queue => (s.set w.pool (pool.setQueue w.index queue), [.start (some w) task])

def execPopGlobal (w : Worker) (s : Shared) : Shared × List Instr :=
  let pool := s.pools w.pool
  if pool.tasks.empty then (s, [.steal w 1])
  else
    match pool.tasks.pop with
    | .ok (some task, tasks) => (s.set w.pool (pool.setTasks tasks), [.start (some w) task])
    | .ok (none, tasks) =>
      ({ s.set w.pool (pool.setTasks tasks) with terminated := true }, [])
    | .error _ => ({ s with threw := true, terminated := true }, [])

/-- `TrySteal`. -/
def execSteal (count : Nat) (w : Worker) (offset : Nat) (s : Shared) : Shared × List Instr :=
  let pool := s.pools w.pool
  let victim := (w.index + offset) % count
  if offset < count then
    match (pool.queue victim).getLast? with
    | none => (s, [.steal w (offset + 1)])
    | some task =>
      (s.set w.pool (pool.setQueue victim (pool.queue victim).dropLast), [.start (some w) task])
  else (s, [.lockWait w])

/-- The part of the predicate that needs no local queue. -/
def execEvaluate (w : Worker) (s : Shared) : Shared × List Instr :=
  let pool := s.pools w.pool
  (s, if pool.stopping || !pool.tasks.empty then [.testExit w] else [.look w 0])

def execLook (count : Nat) (w : Worker) (offset : Nat) (s : Shared) : Shared × List Instr :=
  (s, if offset < count then
      if (s.pools w.pool).queue ((w.index + offset) % count) = [] then [.look w (offset + 1)]
      else [.testExit w]
    else [.park w])

def execParked (w : Worker) (x : Choice) (s : Shared) : Option (Shared × List Instr) :=
  let pool := s.pools w.pool
  match x with
  | .next =>
    if pool.locked || w.index ∈ pool.parked then none
    else some (s.set w.pool { pool with locked := true }, [.evaluate w])
  | .spurious =>
    if w.index ∈ pool.parked then
      some (s.set w.pool { pool with parked := pool.parked.erase w.index }, [.parked w])
    else none
  | _ => none

def execTestExit (w : Worker) (s : Shared) : Shared × List Instr :=
  let pool := s.pools w.pool
  if pool.stopping && pool.tasks.empty then (s, [.testLocal w 0])
  else (s.set w.pool { pool with locked := false }, [.popOwner w])

/-- `AllLocalEmpty`. -/
def execTestLocal (count : Nat) (w : Worker) (index : Nat) (s : Shared) : Shared × List Instr :=
  let pool := s.pools w.pool
  if index < count then
    if pool.queue index = [] then (s, [.testLocal w (index + 1)])
    else (s.set w.pool { pool with locked := false }, [.popOwner w])
  else (s.set w.pool { pool with locked := false, exited := w.index :: pool.exited }, [])

/-- An exception leaves the task: to its future, or out of `WorkerLoop`. -/
def execThrowing (self : Option Worker) (task : Task) (s : Shared) : Shared × List Instr :=
  if task.packaged then (s, (self.map Instr.popOwner).toList)
  else ({ s with terminated := true }, [])

/-- Pools `0` to `count - 1` exist. They are destroyed by threads that are no workers. -/
def exec (count : Nat) (settings : Nat → Settings) (_ : Nat) (i : Instr) (x : Choice) (s : Shared) :
    Option (Shared × List Instr) :=
  if s.terminated then none
  else
    match i, x with
    | .user, .next => some (s, [])
    | .user, .submit op p => if p < count then some (execCall .user none op p s) else none
    | .user, .destroy p => if p < count then some (s, [.destroy p, .user]) else none
    | .submit (some w) _ p task, .next => some (execPushOwner w p task s)
    | .submit none op p task, x => execSubmit settings op p task x s
    | .notify p, x => execNotify p x s
    | .start self task, .next =>
      some ({ s with executed := (self.map Worker.pool, task.id) :: s.executed },
        [.body self task])
    | .body self _, .next => some (s, (self.map Instr.popOwner).toList)
    | .body self task, .throws => some (s, [.throwing self task])
    | .body self task, .submit op p =>
      if p < count then some (execCall (.body self task) self op p s) else none
    | .throwing self task, .next => some (execThrowing self task s)
    | .popOwner w, .next => some (execPopOwner w s)
    | .popGlobal w, .next => if (s.pools w.pool).locked then none else some (execPopGlobal w s)
    | .steal w offset, .next => some (execSteal (settings w.pool).workerCount w offset s)
    | .lockWait w, .next =>
      if (s.pools w.pool).locked then none
      else some (s.set w.pool { s.pools w.pool with locked := true }, [.evaluate w])
    | .evaluate w, .next => some (execEvaluate w s)
    | .look w offset, .next => some (execLook (settings w.pool).workerCount w offset s)
    | .park w, .next =>
      let pool := s.pools w.pool
      some (s.set w.pool { pool with locked := false, parked := w.index :: pool.parked },
        [.parked w])
    | .parked w, x => execParked w x s
    | .testExit w, .next => some (execTestExit w s)
    | .testLocal w index, .next => some (execTestLocal (settings w.pool).workerCount w index s)
    | .destroy p, .next =>
      let pool := s.pools p
      if pool.locked || pool.stopping then none
      else some (s.set p { pool with stopping := true }, [.notifyAll p, .join p])
    | .notifyAll p, .next => some (s.set p { s.pools p with parked := [] }, [])
    | .join p, .next =>
      if ∀ index < (settings p).workerCount, index ∈ (s.pools p).exited then
        some (s.set p { s.pools p with destroyed := true }, [])
      else none
    | _, _ => none

end Instr

abbrev Config := Library.Config Shared Instr

structure Process where
  count : Nat
  settings : Nat → Settings

namespace Process

def machine (P : Process) : Machine Shared Instr Choice := ⟨Instr.exec P.count P.settings⟩

def pool (P : Process) (p : Nat) : Pool :=
  { tasks := .new (P.settings p).queueCapacity
    localQueues := List.replicate (P.settings p).workerCount [] }

def workers (P : Process) : List Worker :=
  (List.range P.count).flatMap fun p =>
    (List.range (P.settings p).workerCount).map fun index => ⟨p, index⟩

def init (P : Process) (users : Nat) : Config :=
  ⟨{ pools := P.pool }, P.workers.map (fun w => [.popOwner w]) ++ List.replicate users [.user]⟩

end Process

end UnixNotes.ThreadPool
