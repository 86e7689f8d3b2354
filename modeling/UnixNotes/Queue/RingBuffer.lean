import UnixNotes.Library.Circular

namespace UnixNotes.Queue

/-- What `RingBuffer` throws as a `logic_error`, and the access to an `optional` without a value. -/
inductive Fault where
  | full
  | empty
  | disengaged
  deriving DecidableEq

structure RingBuffer (α : Type) where
  buffer : List (Option α)
  capacity : Nat
  head : Nat := 0
  tail : Nat := 0
  size : Nat := 0
  deriving DecidableEq

namespace RingBuffer

variable {α : Type}

def make (capacity : Nat) : Except String (RingBuffer α) :=
  if capacity = 0 then .error "RingBuffer capacity must be greater than 0"
  else .ok { buffer := List.replicate capacity none, capacity := capacity }

def empty (r : RingBuffer α) : Bool := r.size = 0

def full (r : RingBuffer α) : Bool := r.size = r.capacity

def nextIndex (r : RingBuffer α) (index : Nat) : Nat := (index + 1) % r.capacity

/-- `buffer_[tail_].emplace(value); tail_ = next_index(tail_)`. -/
def fill (r : RingBuffer α) (value : α) : RingBuffer α :=
  { r with buffer := r.buffer.set r.tail (some value), tail := r.nextIndex r.tail }

/-- `*buffer_[head_]`. -/
def headValue (r : RingBuffer α) : Except Fault α :=
  match r.buffer[r.head]? with
  | some (some value) => .ok value
  | _ => .error .disengaged

/-- `buffer_[head_].reset(); head_ = next_index(head_)`. -/
def reset (r : RingBuffer α) : RingBuffer α :=
  { r with buffer := r.buffer.set r.head none, head := r.nextIndex r.head }

def emplace (r : RingBuffer α) (value : α) : Except Fault (RingBuffer α) :=
  if r.full then .error .full
  else .ok { r.fill value with size := r.size + 1 }

def front (r : RingBuffer α) : Except Fault α :=
  if r.empty then .error .empty else r.headValue

def popFront (r : RingBuffer α) : Except Fault (RingBuffer α) :=
  if r.empty then .error .empty else .ok { r.reset with size := r.size - 1 }

def pop (r : RingBuffer α) : Except Fault (α × RingBuffer α) := do
  let value ← r.front
  let r ← r.popFront
  return (value, r)

def pushBatch (r : RingBuffer α) (values : List α) : Nat × RingBuffer α :=
  let available := r.capacity - r.size
  let pushed := if values.length ≤ available then values.length else available
  (pushed, { (values.take pushed).foldl fill r with size := r.size + pushed })

def takeValues : Nat → RingBuffer α → Except Fault (List α × RingBuffer α)
  | 0, r => .ok ([], r)
  | n + 1, r => do
    let value ← r.headValue
    let (values, r) ← takeValues n r.reset
    return (value :: values, r)

def popBatch (r : RingBuffer α) (output : List α) :
    Except Fault (Nat × List α × RingBuffer α) := do
  let popped := if output.length ≤ r.size then output.length else r.size
  let (values, taken) ← takeValues popped r
  return (popped, values ++ output.drop popped, { taken with size := taken.size - popped })

end RingBuffer

end UnixNotes.Queue
