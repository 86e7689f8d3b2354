import Mathlib.Data.Finset.Basic
import UnixNotes.Library.Interleaving
import UnixNotes.Queue.RingBuffer

namespace UnixNotes.Queue

structure BlockingQueue (α : Type) where
  capacity : Nat
  buffer : RingBuffer α
  closed : Bool := false
  deriving DecidableEq

inductive Condition where
  | notEmpty
  | notFull
  deriving DecidableEq

def Condition.other : Condition → Condition
  | .notEmpty => .notFull
  | .notFull => .notEmpty

inductive Notice where
  | one (condition : Condition)
  | all (condition : Condition)
  deriving DecidableEq

inductive Observer where
  | closed
  | empty
  | full
  | size
  deriving DecidableEq

/-- A call with its arguments: for `pop` what the caller's variable holds, for `pop_batch` what the
output span holds. `pushMove` and the like are the overloads for an rvalue. -/
inductive Operation (α : Type) where
  | push (value : α)
  | pushMove (value : α)
  | emplace (value : α)
  | pop (value : α)
  | tryPush (value : α)
  | tryPushMove (value : α)
  | tryEmplace (value : α)
  | pushFor (value : α)
  | pushForMove (value : α)
  | emplaceFor (value : α)
  | tryPop (value : α)
  | popFor (value : α)
  | pushBatch (values : List α)
  | popBatch (output : List α)
  | close
  | observe (observer : Observer)
  deriving DecidableEq

/-- What a call returns and what its arguments hold after it; a value that was moved away is
`none`. -/
inductive Reply (α : Type) where
  | pushed (ok : Bool) (value : Option α)
  | popped (ok : Bool) (value : α)
  | pushedBatch (count : Nat)
  | poppedBatch (count : Nat) (output : List α)
  | closed
  | flag (value : Bool)
  | number (value : Nat)
  deriving DecidableEq

/-- What a call does while it holds the mutex, and whom it notifies after that. -/
structure Effect (α : Type) where
  queue : BlockingQueue α
  reply : Reply α
  notices : List Notice := []

namespace BlockingQueue

variable {α : Type}

def make (capacity : Nat) : Except String (BlockingQueue α) := do
  let buffer ← RingBuffer.make capacity
  if capacity = 0 then .error "BlockingQueue capacity must be greater than 0"
  else .ok { capacity := capacity, buffer := buffer }

def notFullReady (q : BlockingQueue α) : Bool := q.closed || !q.buffer.full

def notEmptyReady (q : BlockingQueue α) : Bool := q.closed || !q.buffer.empty

def pushBatchReady (values : List α) (q : BlockingQueue α) : Bool :=
  q.closed || values.isEmpty || decide (q.buffer.size < q.buffer.capacity)

def popBatchReady (output : List α) (q : BlockingQueue α) : Bool :=
  q.closed || output.isEmpty || !q.buffer.empty

/-- `buffer_.emplace(...)`, and `left` in the caller's variable. -/
def accept (value : α) (left : Option α) (q : BlockingQueue α) : Except Fault (Effect α) := do
  let buffer ← q.buffer.emplace value
  return ⟨{ q with buffer := buffer }, .pushed true left, [.one .notEmpty]⟩

def refuse (value : α) (q : BlockingQueue α) : Except Fault (Effect α) :=
  .ok { queue := q, reply := .pushed false (some value) }

/-- `value = std::move(buffer_.front()); buffer_.pop_front()`. -/
def take (q : BlockingQueue α) : Except Fault (Effect α) := do
  let value ← q.buffer.front
  let buffer ← q.buffer.popFront
  return ⟨{ q with buffer := buffer }, .popped true value, [.one .notFull]⟩

def noValue (value : α) (q : BlockingQueue α) : Except Fault (Effect α) :=
  .ok { queue := q, reply := .popped false value }

/-! The functions below are what is left to do after the wait, which has ended with `ready`. -/

def push (value : α) (q : BlockingQueue α) : Except Fault (Effect α) :=
  if q.closed then q.refuse value else q.accept value (some value)

def pushMove (value : α) (q : BlockingQueue α) : Except Fault (Effect α) :=
  if q.closed then q.refuse value else q.accept value none

def emplace (value : α) (q : BlockingQueue α) : Except Fault (Effect α) :=
  if q.closed then q.refuse value else q.accept value none

def pop (value : α) (q : BlockingQueue α) : Except Fault (Effect α) :=
  if q.buffer.empty then q.noValue value else q.take

def tryPush (value : α) (q : BlockingQueue α) : Except Fault (Effect α) :=
  if q.closed || q.buffer.full then q.refuse value else q.accept value (some value)

def tryPushMove (value : α) (q : BlockingQueue α) : Except Fault (Effect α) :=
  if q.closed || q.buffer.full then q.refuse value else q.accept value none

def tryEmplace (value : α) (q : BlockingQueue α) : Except Fault (Effect α) :=
  if q.closed || q.buffer.full then q.refuse value else q.accept value none

def pushFor (value : α) (ready : Bool) (q : BlockingQueue α) : Except Fault (Effect α) :=
  if ready && !q.closed then q.accept value (some value) else q.refuse value

def pushForMove (value : α) (ready : Bool) (q : BlockingQueue α) : Except Fault (Effect α) :=
  if ready && !q.closed then q.accept value none else q.refuse value

def emplaceFor (value : α) (ready : Bool) (q : BlockingQueue α) : Except Fault (Effect α) :=
  if ready && !q.closed then q.accept value none else q.refuse value

def tryPop (value : α) (q : BlockingQueue α) : Except Fault (Effect α) :=
  if q.buffer.empty then q.noValue value else q.take

def popFor (value : α) (ready : Bool) (q : BlockingQueue α) : Except Fault (Effect α) :=
  if ready && !q.buffer.empty then q.take else q.noValue value

def pushBatch (values : List α) (q : BlockingQueue α) : Except Fault (Effect α) :=
  if values.isEmpty || q.closed then .ok { queue := q, reply := .pushedBatch 0 }
  else
    let (pushed, buffer) := q.buffer.pushBatch values
    .ok ⟨{ q with buffer := buffer }, .pushedBatch pushed,
      if pushed > 0 then [.one .notEmpty] else []⟩

def popBatch (output : List α) (q : BlockingQueue α) : Except Fault (Effect α) :=
  if output.isEmpty then .ok { queue := q, reply := .poppedBatch 0 output }
  else do
    let (popped, output, buffer) ← q.buffer.popBatch output
    return ⟨{ q with buffer := buffer }, .poppedBatch popped output,
      if popped > 0 then [.one .notFull] else []⟩

def close (q : BlockingQueue α) : Except Fault (Effect α) :=
  if q.closed then .ok { queue := q, reply := .closed }
  else .ok ⟨{ q with closed := true }, .closed, [.all .notEmpty, .all .notFull]⟩

def observe (observer : Observer) (q : BlockingQueue α) : Except Fault (Effect α) :=
  match observer with
  | .closed => .ok { queue := q, reply := .flag q.closed }
  | .empty => .ok { queue := q, reply := .flag q.buffer.empty }
  | .full => .ok { queue := q, reply := .flag q.buffer.full }
  | .size => .ok { queue := q, reply := .number q.buffer.size }

end BlockingQueue

structure Wait where
  condition : Condition
  timed : Bool

namespace Operation

variable {α : Type}

def wait : Operation α → Option Wait
  | .push _ | .pushMove _ | .emplace _ | .pushBatch _ => some ⟨.notFull, false⟩
  | .pushFor _ | .pushForMove _ | .emplaceFor _ => some ⟨.notFull, true⟩
  | .pop _ | .popBatch _ => some ⟨.notEmpty, false⟩
  | .popFor _ => some ⟨.notEmpty, true⟩
  | _ => none

def ready (q : BlockingQueue α) : Operation α → Bool
  | .push _ | .pushMove _ | .emplace _ | .pushFor _ | .pushForMove _ | .emplaceFor _ =>
    q.notFullReady
  | .pop _ | .popFor _ => q.notEmptyReady
  | .pushBatch values => q.pushBatchReady values
  | .popBatch output => q.popBatchReady output
  | _ => true

def attempt (ready : Bool) (q : BlockingQueue α) : Operation α → Except Fault (Effect α)
  | .push value => q.push value
  | .pushMove value => q.pushMove value
  | .emplace value => q.emplace value
  | .pop value => q.pop value
  | .tryPush value => q.tryPush value
  | .tryPushMove value => q.tryPushMove value
  | .tryEmplace value => q.tryEmplace value
  | .pushFor value => q.pushFor value ready
  | .pushForMove value => q.pushForMove value ready
  | .emplaceFor value => q.emplaceFor value ready
  | .tryPop value => q.tryPop value
  | .popFor value => q.popFor value ready
  | .pushBatch values => q.pushBatch values
  | .popBatch output => q.popBatch output
  | .close => q.close
  | .observe observer => q.observe observer

def given : Operation α → Reply α → List α
  | .push value, .pushed true _ | .pushMove value, .pushed true _ | .emplace value, .pushed true _
  | .tryPush value, .pushed true _ | .tryPushMove value, .pushed true _
  | .tryEmplace value, .pushed true _ | .pushFor value, .pushed true _
  | .pushForMove value, .pushed true _ | .emplaceFor value, .pushed true _ => [value]
  | .pushBatch values, .pushedBatch count => values.take count
  | _, _ => []

end Operation

def Reply.taken {α : Type} : Reply α → List α
  | .popped true value => [value]
  | .poppedBatch count output => output.take count
  | _ => []

/-- `waiting` has the threads that are parked on a condition variable and have not been notified.
`pushed` and `popped` have the values of all calls so far, in the order of their critical sections;
no code reads these two. -/
structure Shared (α : Type) where
  queue : BlockingQueue α
  waiting : Condition → Finset Nat := fun _ => ∅
  pushed : List α := []
  popped : List α := []

namespace Shared

variable {α : Type}

def setWaiting (s : Shared α) (condition : Condition) (waiting : Finset Nat) : Shared α :=
  { s with waiting := Function.update s.waiting condition waiting }

def park (s : Shared α) (condition : Condition) (t : Nat) : Shared α :=
  s.setWaiting condition (insert t (s.waiting condition))

def unpark (s : Shared α) (condition : Condition) (t : Nat) : Shared α :=
  s.setWaiting condition ((s.waiting condition).erase t)

end Shared

/-- A step of a call: everything from taking the mutex to giving it back, by `unlock` or by a wait,
is one. -/
inductive Instr (α : Type) where
  /-- A thread that uses the queue. -/
  | user
  /-- To take the mutex, at first or after a wait, of which the deadline may have passed. -/
  | acquire (operation : Operation α) (expired : Bool)
  | parked (operation : Operation α)
  | notify (notice : Notice)
  | returned (reply : Reply α)
  | threw (fault : Fault)
  deriving DecidableEq

inductive Choice (α : Type) where
  | next
  | call (operation : Operation α)
  /-- A wait ends without a notification. -/
  | spurious
  | timeout
  | notify (thread : Nat)

namespace Instr

variable {α : Type}

def finish (operation : Operation α) (s : Shared α) : Option (Shared α × List (Instr α)) :=
  match operation.attempt (operation.ready s.queue) s.queue with
  | .ok effect =>
    some ({ s with
        queue := effect.queue
        pushed := s.pushed ++ operation.given effect.reply
        popped := s.popped ++ effect.reply.taken },
      effect.notices.map notify ++ [.returned effect.reply])
  | .error fault => some (s, [.threw fault])

def execAcquire (t : Nat) (operation : Operation α) (expired : Bool) (s : Shared α) :
    Option (Shared α × List (Instr α)) :=
  match operation.wait with
  | some wait =>
    if operation.ready s.queue || expired then finish operation s
    else some (s.park wait.condition t, [.parked operation])
  | none => finish operation s

/-- The return from a wait, which still has to take the mutex. -/
def execParked (t : Nat) (operation : Operation α) (x : Choice α) (s : Shared α) :
    Option (Shared α × List (Instr α)) :=
  match operation.wait with
  | some wait =>
    if t ∈ s.waiting wait.condition then
      match x with
      | .spurious => some (s.unpark wait.condition t, [.acquire operation false])
      | .timeout =>
        if wait.timed then some (s.unpark wait.condition t, [.acquire operation true]) else none
      | _ => none
    else
      match x with
      | .next => some (s, [.acquire operation false])
      | .timeout => if wait.timed then some (s, [.acquire operation true]) else none
      | _ => none
  | none => none

def execNotify (notice : Notice) (x : Choice α) (s : Shared α) :
    Option (Shared α × List (Instr α)) :=
  match notice, x with
  | .one condition, .notify t =>
    if t ∈ s.waiting condition then some (s.unpark condition t, []) else none
  | .one condition, .next => if s.waiting condition = ∅ then some (s, []) else none
  | .all condition, .next => some (s.setWaiting condition ∅, [])
  | _, _ => none

def exec (t : Nat) (i : Instr α) (x : Choice α) (s : Shared α) :
    Option (Shared α × List (Instr α)) :=
  match i, x with
  | .user, .call operation => some (s, [.acquire operation false, .user])
  | .acquire operation expired, .next => execAcquire t operation expired s
  | .parked operation, x => execParked t operation x s
  | .notify notice, x => execNotify notice x s
  | .returned _, .next => some (s, [])
  | _, _ => none

end Instr

abbrev Config (α : Type) := Library.Config (Shared α) (Instr α)

def machine (α : Type) : Library.Machine (Shared α) (Instr α) (Choice α) := ⟨Instr.exec⟩

def init {α : Type} (queue : BlockingQueue α) (threads : Nat) : Config α :=
  ⟨{ queue := queue }, List.replicate threads [.user]⟩

def small : BlockingQueue Nat :=
  { capacity := 2, buffer := { buffer := [none, none], capacity := 2 } }

theorem make_two : BlockingQueue.make 2 = .ok small := rfl

end UnixNotes.Queue
