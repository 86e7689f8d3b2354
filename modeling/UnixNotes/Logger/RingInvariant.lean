import UnixNotes.Library.Counter
import UnixNotes.Logger.RingBuffer

namespace UnixNotes.Logger

variable {α : Type}

def RingNext.call? : RingNext α → Option (RingCall α)
  | .running call => some call
  | .returned _ => none

namespace RingCall

/-- The position whose cell belongs to the call, a `tryEnqueue` that has claimed it. -/
def writes : RingCall α → Option UInt64
  | .beginWrite _ position => some position
  | .endWrite _ position => some position
  | .publish position => some position
  | _ => none

def dequeues : RingCall α → Bool
  | .tryDequeue => true
  | .loadPublished _ => true
  | .beginRead _ => true
  | .endRead _ _ => true
  | .releaseCell _ _ => true
  | .advance _ _ => true
  | _ => false

end RingCall

/-- The calls of the threads on one ring. Thread 0 is the consumer. -/
abbrev RingCalls (α : Type) := Nat → Option (RingCall α)

namespace RingCalls

def Writes (calls : RingCalls α) (t p : Nat) : Prop :=
  ∃ call ∈ calls t, ∃ position ∈ call.writes, position.toNat = p

variable {calls : RingCalls α} {t t' p : Nat}

theorem writes_update_self {call? : Option (RingCall α)} :
    Writes (Function.update calls t call?) t p ↔
      ∃ call ∈ call?, ∃ position ∈ call.writes, position.toNat = p := by
  rw [Writes, Function.update_self]

theorem writes_update_ne {call? : Option (RingCall α)} (h : t' ≠ t) :
    Writes (Function.update calls t call?) t' p ↔ Writes calls t' p := by
  rw [Writes, Function.update_of_ne h, Writes]

end RingCalls

namespace MpscRingBuffer

def Claimed (ring : MpscRingBuffer α) (t : Nat) (value : Option α) (position : UInt64) : Prop :=
  ring.released ≤ position.toNat ∧ ring.claimed[position.toNat]? = some (t, value)

def Published (ring : MpscRingBuffer α) (calls : RingCalls α) (p : Nat) : Prop :=
  p < ring.claimed.length ∧ ∀ t, ¬calls.Writes t p

/-- The cell of position `p`, one of the `capacity` positions that come after the released ones. -/
structure CellOk (ring : MpscRingBuffer α) (calls : RingCalls α) (p : Nat) : Prop where
  published : ring.Published calls p →
    (ring.cells (p % ring.capacity.toNat)).sequence.toNat = p + 1
  free : ¬ring.Published calls p → (ring.cells (p % ring.capacity.toNat)).sequence.toNat = p
  value : ring.Published calls p → ring.dequeued.length ≤ p →
    ring.claimed[p]?.map Prod.snd = some (ring.cells (p % ring.capacity.toNat)).value

structure Idle (ring : MpscRingBuffer α) : Prop where
  position : ring.dequeuePosition.toNat = ring.released
  dequeued : ring.dequeued.length = ring.released

structure Found (ring : MpscRingBuffer α) (calls : RingCalls α) (position : UInt64) : Prop where
  loaded : position = ring.dequeuePosition
  position : ring.dequeuePosition.toNat = ring.released
  published : ring.Published calls ring.released

end MpscRingBuffer

def RingCall.Ok (ring : MpscRingBuffer α) (calls : RingCalls α) (t : Nat) : RingCall α → Prop
  | .tryEnqueue _ => True
  | .loadSequence _ position => position.toNat ≤ ring.claimed.length
  | .compareExchange _ position => position.toNat ≤ ring.claimed.length ∧
      (position.toNat = ring.claimed.length →
        ring.claimed.length < ring.released + ring.capacity.toNat)
  | .beginWrite value position => ring.Claimed t value position
  | .endWrite value position => ring.Claimed t value position
  | .publish position => ring.Claimed t (ring.cell position).value position
  | .tryDequeue => ring.Idle
  | .loadPublished position => ring.Idle ∧ position = ring.dequeuePosition
  | .beginRead position => ring.Found calls position ∧ ring.dequeued.length = ring.released
  | .endRead position value => ring.Found calls position ∧ ring.dequeued.length = ring.released ∧
      ring.claimed[ring.released]?.map Prod.snd = some value
  | .releaseCell position _ =>
      ring.Found calls position ∧ ring.dequeued.length = ring.released + 1
  | .advance position _ => position = ring.dequeuePosition ∧
      ring.dequeuePosition.toNat + 1 = ring.released ∧ ring.dequeued.length = ring.released

structure RingInv (ring : MpscRingBuffer α) (calls : RingCalls α) : Prop where
  position : ring.enqueuePosition.toNat = ring.claimed.length
  released : ring.released ≤ ring.claimed.length
  room : ring.claimed.length ≤ ring.released + ring.capacity.toNat
  dequeued : ring.dequeued = (ring.claimed.map Prod.snd).take ring.dequeued.length
  role : ∀ t, ∀ call ∈ calls t, call.dequeues = true ↔ t = 0
  idle : calls 0 = none → ring.Idle
  ok : ∀ t, ∀ call ∈ calls t, call.Ok ring calls t
  cells : ∀ p, ring.released ≤ p → p < ring.released + ring.capacity.toNat → ring.CellOk calls p

namespace MpscRingBuffer

variable {ring ring' : MpscRingBuffer α} {calls calls' : RingCalls α} {t p q : Nat}

theorem index_eq (position : UInt64) :
    ring.index position = position.toNat % ring.capacity.toNat :=
  UInt64.toNat_mod position ring.capacity

theorem cells_setCell_self (ring : MpscRingBuffer α) (position : UInt64) (cell : Cell α) :
    (ring.setCell position cell).cells (position.toNat % ring.capacity.toNat) = cell := by
  simp only [setCell, index_eq, Function.update_self]

theorem cells_setCell_ne {position : UInt64} (cell : Cell α)
    (h : p % ring.capacity.toNat ≠ position.toNat % ring.capacity.toNat) :
    (ring.setCell position cell).cells (p % ring.capacity.toNat) =
      ring.cells (p % ring.capacity.toNat) := by
  simp only [setCell, index_eq, Function.update_of_ne h]

theorem eq_of_mod_eq {n : Nat} (hp : ring.released ≤ p) (hp' : p < ring.released + n)
    (hq : ring.released ≤ q) (hq' : q < ring.released + n) (h : p % n = q % n) : p = q :=
  Nat.ModEq.eq_of_abs_lt h (by rw [abs_lt]; omega)

theorem cell_eq (position : UInt64) :
    ring.cell position = ring.cells (position.toNat % ring.capacity.toNat) := by
  rw [cell, index_eq]

theorem cell_setCell_ne {position other : UInt64} (cell : Cell α)
    (h : other.toNat % ring.capacity.toNat ≠ position.toNat % ring.capacity.toNat) :
    (ring.setCell position cell).cell other = ring.cell other := by
  rw [cell_eq, cell_eq]
  exact cells_setCell_ne cell h

theorem Claimed.lt {value : Option α} {position : UInt64} (h : ring.Claimed t value position) :
    position.toNat < ring.claimed.length :=
  (List.getElem?_eq_some_iff.mp h.2).1

theorem CellOk.of_cell (h : ring.CellOk calls p) (hcapacity : ring'.capacity = ring.capacity)
    (hcell : ring'.cells (p % ring.capacity.toNat) = ring.cells (p % ring.capacity.toNat))
    (hpublished : ring'.Published calls' p ↔ ring.Published calls p)
    (hdequeued : ring.dequeued.length ≤ ring'.dequeued.length)
    (hclaimed : ring.claimed <+: ring'.claimed) : ring'.CellOk calls' p := by
  refine ⟨?_, ?_, ?_⟩
  · intro hpub
    rw [hcapacity, hcell]
    exact h.published (hpublished.mp hpub)
  · intro hpub
    rw [hcapacity, hcell]
    exact h.free fun hpub' => hpub (hpublished.mpr hpub')
  · intro hpub hle
    have hpub' := hpublished.mp hpub
    rw [hcapacity, hcell, ← h.value hpub' (by omega), List.getElem?_eq_getElem hpub'.1,
      hclaimed.getElem hpub'.1, List.getElem?_eq_getElem hpub.1]

end MpscRingBuffer

section Step

variable {ring ring' : MpscRingBuffer α} {calls calls' : RingCalls α} {t : Nat}
  {call : RingCall α} {call? : Option (RingCall α)}

theorem RingCalls.writes_iff (hcall : calls t = some call)
    (h : call?.bind RingCall.writes = call.writes) (t' p : Nat) :
    RingCalls.Writes (Function.update calls t call?) t' p ↔ calls.Writes t' p := by
  by_cases ht : t' = t
  · subst ht
    rw [writes_update_self, Writes, hcall]
    simp only [Option.mem_def, Option.some.injEq, exists_eq_left', ← h, Option.bind_eq_some_iff]
    exact ⟨fun ⟨call, hcall, position, hposition, hp⟩ => ⟨position, ⟨call, hcall, hposition⟩, hp⟩,
      fun ⟨position, ⟨call, hcall, hposition⟩, hp⟩ => ⟨call, hcall, position, hposition, hp⟩⟩
  · exact writes_update_ne ht

theorem getElem?_of_prefix {l l' : List α} (h : l <+: l') {i : Nat} {x : α}
    (hget : l[i]? = some x) : l'[i]? = some x := by
  obtain ⟨more, rfl⟩ := h
  rw [List.getElem?_append_left (List.getElem?_eq_some_iff.mp hget).1, hget]

/-- A step of another thread than the consumer, as the consumer sees it. -/
structure KeepsConsumer (ring : MpscRingBuffer α) (calls : RingCalls α) (ring' : MpscRingBuffer α)
    (calls' : RingCalls α) : Prop where
  position : ring'.dequeuePosition = ring.dequeuePosition
  released : ring'.released = ring.released
  dequeued : ring'.dequeued = ring.dequeued
  published : ring.Published calls ring.released → ring'.Published calls' ring.released

theorem MpscRingBuffer.Idle.keep (h : ring.Idle) (hkeep : KeepsConsumer ring calls ring' calls') :
    ring'.Idle :=
  ⟨by rw [hkeep.position, hkeep.released, h.position],
    by rw [hkeep.dequeued, hkeep.released, h.dequeued]⟩

theorem MpscRingBuffer.Found.keep {position : UInt64} (h : ring.Found calls position)
    (hkeep : KeepsConsumer ring calls ring' calls') : ring'.Found calls' position :=
  ⟨by rw [hkeep.position, h.loaded], by rw [hkeep.position, hkeep.released, h.position],
    by rw [hkeep.released]; exact hkeep.published h.published⟩

theorem RingCall.Ok.frame (h : call.Ok ring calls t) (hcapacity : ring'.capacity = ring.capacity)
    (hclaimed : ring.claimed <+: ring'.claimed) (hreleased : ring.released ≤ ring'.released)
    (hwrites : ∀ position ∈ call.writes, ring'.released ≤ position.toNat ∧
      (ring'.cell position).value = (ring.cell position).value)
    (hkeep : call.dequeues = true → KeepsConsumer ring calls ring' calls') :
    call.Ok ring' calls' t := by
  have hlength := hclaimed.length_le
  cases call with
  | tryEnqueue value => trivial
  | loadSequence value position => exact Nat.le_trans h hlength
  | compareExchange value position =>
    obtain ⟨hle, hfree⟩ := h
    refine ⟨Nat.le_trans hle hlength, fun heq => ?_⟩
    have := hfree (by omega)
    rw [hcapacity]
    omega
  | beginWrite value position => exact ⟨(hwrites position rfl).1, getElem?_of_prefix hclaimed h.2⟩
  | endWrite value position => exact ⟨(hwrites position rfl).1, getElem?_of_prefix hclaimed h.2⟩
  | publish position =>
    obtain ⟨hle, hvalue⟩ := hwrites position rfl
    refine ⟨hle, ?_⟩
    rw [hvalue]
    exact getElem?_of_prefix hclaimed h.2
  | tryDequeue => exact MpscRingBuffer.Idle.keep h (hkeep rfl)
  | loadPublished position =>
    obtain ⟨hidle, heq⟩ := h
    exact ⟨hidle.keep (hkeep rfl), by rw [(hkeep rfl).position, heq]⟩
  | beginRead position =>
    obtain ⟨hfound, hlen⟩ := h
    exact ⟨hfound.keep (hkeep rfl), by rw [(hkeep rfl).dequeued, (hkeep rfl).released, hlen]⟩
  | endRead position value =>
    obtain ⟨hfound, hlen, hvalue⟩ := h
    refine ⟨hfound.keep (hkeep rfl), by rw [(hkeep rfl).dequeued, (hkeep rfl).released, hlen], ?_⟩
    obtain ⟨entry, hget, hentry⟩ := Option.map_eq_some_iff.mp hvalue
    rw [(hkeep rfl).released, getElem?_of_prefix hclaimed hget, Option.map_some, hentry]
  | releaseCell position value =>
    obtain ⟨hfound, hlen⟩ := h
    exact ⟨hfound.keep (hkeep rfl), by rw [(hkeep rfl).dequeued, (hkeep rfl).released, hlen]⟩
  | advance position value =>
    obtain ⟨heq, hnext, hlen⟩ := h
    exact ⟨by rw [(hkeep rfl).position, heq],
      by rw [(hkeep rfl).position, (hkeep rfl).released, hnext],
      by rw [(hkeep rfl).dequeued, (hkeep rfl).released, hlen]⟩

end Step

end UnixNotes.Logger
