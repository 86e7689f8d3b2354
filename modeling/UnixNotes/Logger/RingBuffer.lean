import Mathlib.Data.UInt
import UnixNotes.Library.Interleaving

namespace UnixNotes.Logger

/-- A value that has been moved away, or of which only a part has been assigned, is `none`. -/
structure Cell (α : Type) where
  sequence : UInt64
  value : Option α

/-- `claimed` has the thread and the value of every successful `compare_exchange_weak`, `dequeued`
the values that were read and `released` the number of cells that were handed back; no code reads
these three. -/
structure MpscRingBuffer (α : Type) where
  capacity : UInt64
  cells : Nat → Cell α
  enqueuePosition : UInt64 := 0
  dequeuePosition : UInt64 := 0
  claimed : List (Nat × Option α) := []
  dequeued : List (Option α) := []
  released : Nat := 0

/-- `tryEnqueue` with what the caller's variable then holds, or `tryDequeue` with the value. -/
inductive RingResult (α : Type) where
  | tryEnqueue (ok : Bool) (value : Option α)
  | tryDequeue (ok : Bool) (value : Option α)
  deriving DecidableEq

/-- A call that is in progress, by the atomic step it takes next. Assignments of a value are not
atomic. -/
inductive RingCall (α : Type) where
  | tryEnqueue (value : Option α)
  | loadSequence (value : Option α) (position : UInt64)
  | compareExchange (value : Option α) (position : UInt64)
  | beginWrite (value : Option α) (position : UInt64)
  | endWrite (value : Option α) (position : UInt64)
  | publish (position : UInt64)
  | tryDequeue
  | loadPublished (position : UInt64)
  | beginRead (position : UInt64)
  | endRead (position : UInt64) (value : Option α)
  | releaseCell (position : UInt64) (value : Option α)
  | advance (position : UInt64) (value : Option α)
  deriving DecidableEq

inductive RingNext (α : Type) where
  | running (call : RingCall α)
  | returned (result : RingResult α)

namespace MpscRingBuffer

variable {α : Type}

def new (capacity : UInt64) : MpscRingBuffer α :=
  { capacity := capacity, cells := fun index => ⟨UInt64.ofNat index, none⟩ }

def make (capacity : UInt64) : Except String (MpscRingBuffer α) :=
  if capacity = 0 then .error "MpscRingBuffer capacity must be positive" else .ok (new capacity)

theorem eq_new {capacity : UInt64} {ring : MpscRingBuffer α} (h : make capacity = .ok ring) :
    ring = new capacity := by
  rw [make] at h
  split at h
  · cases h
  · cases h
    rfl

theorem positive_of_make {capacity : UInt64} {ring : MpscRingBuffer α}
    (h : make capacity = .ok ring) : 0 < capacity.toNat := by
  rw [make] at h
  split at h
  · cases h
  · rename_i hne
    exact Nat.pos_of_ne_zero fun heq => hne (UInt64.toNat_inj.mp heq)

def index (ring : MpscRingBuffer α) (position : UInt64) : Nat :=
  (position % ring.capacity).toNat

def cell (ring : MpscRingBuffer α) (position : UInt64) : Cell α := ring.cells (ring.index position)

def setCell (ring : MpscRingBuffer α) (position : UInt64) (cell : Cell α) : MpscRingBuffer α :=
  { ring with cells := Function.update ring.cells (ring.index position) cell }

def setValue (ring : MpscRingBuffer α) (position : UInt64) (value : Option α) : MpscRingBuffer α :=
  ring.setCell position { ring.cell position with value := value }

def setSequence (ring : MpscRingBuffer α) (position sequence : UInt64) : MpscRingBuffer α :=
  ring.setCell position { ring.cell position with sequence := sequence }

def claim (ring : MpscRingBuffer α) (t : Nat) (value : Option α) (position : UInt64) :
    MpscRingBuffer α :=
  { ring with enqueuePosition := position + 1, claimed := ring.claimed ++ [(t, value)] }

def take (ring : MpscRingBuffer α) (position : UInt64) (value : Option α) : MpscRingBuffer α :=
  { ring.setValue position none with dequeued := ring.dequeued ++ [value] }

def release (ring : MpscRingBuffer α) (position : UInt64) : MpscRingBuffer α :=
  { ring.setSequence position (position + ring.capacity) with released := ring.released + 1 }

def advance (ring : MpscRingBuffer α) (position : UInt64) : MpscRingBuffer α :=
  { ring with dequeuePosition := position + 1 }

def difference (sequence position : UInt64) : Int64 := sequence.toInt64 - position.toInt64

theorem difference_eq_zero {sequence position : UInt64} :
    difference sequence position = 0 ↔ sequence = position := by
  rw [difference, Int64.sub_eq_iff_eq_add, Int64.zero_add]
  constructor
  · intro h
    rw [← UInt64.toUInt64_toInt64 sequence, h, UInt64.toUInt64_toInt64]
  · rintro rfl
    rfl

theorem toInt_toInt64 {n : UInt64} (h : n.toNat < 2 ^ 63) : n.toInt64.toInt = n.toNat := by
  rw [← Int64.toInt_toBitVec, UInt64.toBitVec_toInt64, BitVec.toInt_eq_toNat_of_lt]
  · rw [UInt64.toNat_toBitVec]
  · rw [UInt64.toNat_toBitVec]
    omega

theorem difference_neg {sequence position : UInt64} (hsequence : sequence.toNat < 2 ^ 63)
    (hposition : position.toNat < 2 ^ 63) :
    difference sequence position < 0 ↔ sequence.toNat < position.toNat := by
  rw [Int64.lt_iff_toInt_lt, difference, Int64.toInt_sub, toInt_toInt64 hsequence,
    toInt_toInt64 hposition, Int.bmod_eq_of_le (by omega) (by omega), Int64.toInt_zero]
  omega

def full (ring : MpscRingBuffer α) (produced consumed : UInt64) : Bool :=
  ring.capacity ≤ produced - consumed

end MpscRingBuffer

/-- One atomic step of a call of thread `t`. A weak `compare_exchange` may fail spuriously. -/
def RingCall.exec {α : Type} (t : Nat) (weakFails : Bool) (ring : MpscRingBuffer α) :
    RingCall α → MpscRingBuffer α × RingNext α
  | .tryEnqueue value => (ring, .running (.loadSequence value ring.enqueuePosition))
  | .loadSequence value position =>
    let difference := MpscRingBuffer.difference (ring.cell position).sequence position
    if difference = 0 then
      (ring, .running (.compareExchange value position))
    else if difference < 0 then
      (ring, .returned (.tryEnqueue false value))
    else
      (ring, .running (.tryEnqueue value))
  | .compareExchange value position =>
    if ring.enqueuePosition = position ∧ !weakFails then
      (ring.claim t value position, .running (.beginWrite value position))
    else
      (ring, .running (.loadSequence value ring.enqueuePosition))
  | .beginWrite value position => (ring.setValue position none, .running (.endWrite value position))
  | .endWrite value position => (ring.setValue position value, .running (.publish position))
  | .publish position =>
    (ring.setSequence position (position + 1), .returned (.tryEnqueue true none))
  | .tryDequeue => (ring, .running (.loadPublished ring.dequeuePosition))
  | .loadPublished position =>
    if (ring.cell position).sequence = position + 1 then
      (ring, .running (.beginRead position))
    else
      (ring, .returned (.tryDequeue false none))
  | .beginRead position => (ring, .running (.endRead position (ring.cell position).value))
  | .endRead position value =>
    let read := value.bind fun _ => (ring.cell position).value
    (ring.take position read, .running (.releaseCell position read))
  | .releaseCell position value =>
    (ring.release position, .running (.advance position value))
  | .advance position value =>
    (ring.advance position, .returned (.tryDequeue true value))

end UnixNotes.Logger
