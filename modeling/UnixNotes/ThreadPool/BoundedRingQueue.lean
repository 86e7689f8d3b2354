import UnixNotes.Library.Circular

namespace UnixNotes.ThreadPool

/-- The default value of `α` stands for `T()`. -/
structure BoundedRingQueue (α : Type) where
  buffer : List α
  capacity : Nat
  head : Nat := 0
  tail : Nat := 0
  size : Nat := 0
  deriving DecidableEq

namespace BoundedRingQueue

open Library

variable {α : Type} [Inhabited α]

def new (capacity : Nat) : BoundedRingQueue α :=
  { buffer := List.replicate capacity default, capacity := capacity }

def make (capacity : Nat) : Except String (BoundedRingQueue α) :=
  if capacity = 0 then .error "queue capacity must be greater than 0" else .ok (new capacity)

omit [Inhabited α] in
def empty (q : BoundedRingQueue α) : Bool := q.size = 0

omit [Inhabited α] in
def full (q : BoundedRingQueue α) : Bool := q.size = q.capacity

omit [Inhabited α] in
/-- `push` where there is room. -/
def append (q : BoundedRingQueue α) (value : α) : BoundedRingQueue α :=
  { q with
    buffer := q.buffer.set q.tail value
    tail := (q.tail + 1) % q.capacity
    size := q.size + 1 }

omit [Inhabited α] in
def push (q : BoundedRingQueue α) (value : α) : Except String (BoundedRingQueue α) :=
  if q.full then .error "queue is full" else .ok (q.append value)

/-- `pop` where there is a value. -/
def remove (q : BoundedRingQueue α) : BoundedRingQueue α :=
  { q with
    buffer := q.buffer.set q.head default
    head := (q.head + 1) % q.capacity
    size := q.size - 1 }

def pop (q : BoundedRingQueue α) : Except String (α × BoundedRingQueue α) :=
  if q.empty then .error "queue is empty" else .ok (q.buffer.getD q.head default, q.remove)

theorem size_lt_of_pop {q q' : BoundedRingQueue α} {value : α} (h : q.pop = .ok (value, q')) :
    q'.size < q.size := by
  rw [pop, empty] at h
  split at h
  · cases h
  · rename_i hne
    cases h
    exact Nat.sub_one_lt (by simpa using hne)

def clear (q : BoundedRingQueue α) : Except String (BoundedRingQueue α) :=
  if q.empty then .ok q
  else
    match _h : q.pop with
    | .error message => .error message
    | .ok (_, q') => q'.clear
termination_by q.size
decreasing_by exact size_lt_of_pop ‹_›

def contents (q : BoundedRingQueue α) : List α := (q.buffer.rotate q.head).take q.size

structure Represents (q : BoundedRingQueue α) (xs : List α) : Prop where
  length_eq : q.buffer.length = q.capacity
  head_lt : q.head < q.capacity
  tail_eq : q.tail = (q.head + xs.length) % q.capacity
  size_eq : q.size = xs.length
  slots : Circular.Stores default q.buffer q.head xs

theorem represents_new {capacity : Nat} (h : 0 < capacity) :
    (new capacity : BoundedRingQueue α).Represents [] :=
  ⟨List.length_replicate, h, (Nat.zero_mod _).symm, rfl, Circular.stores_replicate _ _⟩

namespace Represents

variable {q : BoundedRingQueue α} {x : α} {xs : List α}

theorem contents_eq (h : q.Represents xs) : q.contents = xs := by
  rw [contents, h.size_eq]
  exact h.slots.values_eq

theorem length_le (h : q.Represents xs) : xs.length ≤ q.capacity := by
  rw [← h.length_eq]
  exact h.slots.fits

theorem empty_eq (h : q.Represents xs) : q.empty = xs.isEmpty := by
  rw [empty, h.size_eq]
  cases xs <;> simp

theorem full_eq (h : q.Represents xs) : q.full = decide (xs.length = q.capacity) := by
  rw [full, h.size_eq]

theorem push_eq (h : q.Represents xs) (hroom : xs.length < q.capacity) (x : α) :
    ∃ q', q.push x = .ok q' ∧ q'.Represents (xs ++ [x]) ∧ q'.capacity = q.capacity := by
  have hfull : q.full = false := by simp [h.full_eq, Nat.ne_of_lt hroom]
  have hslots := h.slots.push (by rwa [h.length_eq]) x
  rw [h.length_eq, ← h.tail_eq] at hslots
  refine ⟨q.append x, by rw [push, hfull]; rfl, ⟨?_, h.head_lt, ?_, ?_, hslots⟩, rfl⟩
  · rw [append, List.length_set]
    exact h.length_eq
  · rw [append, h.tail_eq, Nat.mod_add_mod, List.length_append]
    rfl
  · rw [append, h.size_eq, List.length_append]
    rfl

theorem push_full (h : q.Represents xs) (hfull : xs.length = q.capacity) (x : α) :
    q.push x = .error "queue is full" := by
  rw [push, if_pos (by simpa [h.full_eq] using hfull)]

theorem pop_eq (h : q.Represents (x :: xs)) :
    ∃ q', q.pop = .ok (x, q') ∧ q'.Represents xs ∧ q'.capacity = q.capacity ∧
      q'.buffer[q.head]? = some default := by
  have hempty : q.empty = false := by simp [h.empty_eq]
  have hhead : q.head < q.buffer.length := by
    rw [h.length_eq]
    exact h.head_lt
  have hslots := h.slots.pop hhead
  rw [h.length_eq] at hslots
  have hvalue : q.buffer.getD q.head default = x := by
    rw [List.getD_eq_getElem?_getD, h.slots.head_eq hhead, Option.getD_some]
  refine ⟨q.remove, by rw [pop, hempty, hvalue]; rfl, ⟨?_, ?_, ?_, ?_, hslots⟩, rfl, ?_⟩
  · rw [remove, List.length_set]
    exact h.length_eq
  · exact Nat.mod_lt _ (Nat.zero_lt_of_lt h.head_lt)
  · rw [remove, h.tail_eq, Nat.mod_add_mod, List.length_cons]
    congr 1
    omega
  · rw [remove, h.size_eq]
    rfl
  · exact List.getElem?_set_self hhead

theorem pop_nil (h : q.Represents []) : q.pop = .error "queue is empty" := by
  rw [pop, if_pos (by rw [h.empty_eq]; rfl)]

theorem clear_eq (h : q.Represents xs) :
    ∃ q', q.clear = .ok q' ∧ q'.Represents [] ∧ q'.capacity = q.capacity := by
  induction xs generalizing q with
  | nil => exact ⟨q, by rw [clear, if_pos (by rw [h.empty_eq]; rfl)], h, rfl⟩
  | cons x xs ih =>
    obtain ⟨q₁, hpop, hrep, hcapacity, -⟩ := h.pop_eq
    obtain ⟨q₂, hclear, hempty, hcapacity'⟩ := ih hrep
    refine ⟨q₂, ?_, hempty, hcapacity'.trans hcapacity⟩
    rw [clear, if_neg (by simp [h.empty_eq])]
    split
    · rename_i message heq
      rw [hpop] at heq
      cases heq
    · rename_i value q' heq
      rw [hpop] at heq
      cases heq
      exact hclear

theorem slot_of_pop (h : q.Represents xs) {value : α} {q' : BoundedRingQueue α}
    (hpop : q.pop = .ok (value, q')) : q'.buffer[q.head]? = some default := by
  cases xs with
  | nil =>
    rw [h.pop_nil] at hpop
    cases hpop
  | cons x xs =>
    obtain ⟨rest, heq, -, -, hslot⟩ := h.pop_eq
    rw [heq] at hpop
    cases hpop
    exact hslot

end Represents

end BoundedRingQueue

inductive QueueOp (α : Type) where
  | push (value : α)
  | pop
  | clear

variable {α : Type} [Inhabited α]

namespace QueueOp

/-- What the caller gets, and the queue after it: as it was, where the operation throws. -/
def exec (q : BoundedRingQueue α) : QueueOp α → Except String (Option α) × BoundedRingQueue α
  | .push value =>
    match q.push value with
    | .ok q' => (.ok none, q')
    | .error message => (.error message, q)
  | .pop =>
    match q.pop with
    | .ok (value, q') => (.ok (some value), q')
    | .error message => (.error message, q)
  | .clear =>
    match q.clear with
    | .ok q' => (.ok none, q')
    | .error message => (.error message, q)

omit [Inhabited α] in
def act (capacity : Nat) (xs : List α) : QueueOp α → Except String (Option α) × List α
  | .push value =>
    if xs.length = capacity then (.error "queue is full", xs) else (.ok none, xs ++ [value])
  | .pop =>
    match xs with
    | [] => (.error "queue is empty", [])
    | value :: xs => (.ok (some value), xs)
  | .clear => (.ok none, [])

def execAll (q : BoundedRingQueue α) :
    List (QueueOp α) → List (Except String (Option α)) × BoundedRingQueue α
  | [] => ([], q)
  | op :: ops =>
    let (result, q) := op.exec q
    let (results, q) := execAll q ops
    (result :: results, q)

omit [Inhabited α] in
def actAll (capacity : Nat) (xs : List α) :
    List (QueueOp α) → List (Except String (Option α)) × List α
  | [] => ([], xs)
  | op :: ops =>
    let (result, xs) := op.act capacity xs
    let (results, xs) := actAll capacity xs ops
    (result :: results, xs)

end QueueOp

namespace BoundedRingQueue

variable {q : BoundedRingQueue α} {xs : List α}

theorem Represents.exec (h : q.Represents xs) (op : QueueOp α) :
    (op.exec q).1 = (op.act q.capacity xs).1 ∧
      (op.exec q).2.Represents (op.act q.capacity xs).2 ∧ (op.exec q).2.capacity = q.capacity := by
  cases op with
  | push value =>
    by_cases hfull : xs.length = q.capacity
    · simp only [QueueOp.exec, QueueOp.act, h.push_full hfull, if_pos hfull]
      exact ⟨trivial, h, trivial⟩
    · obtain ⟨q', hpush, hrep, hcapacity⟩ :=
        h.push_eq (Nat.lt_of_le_of_ne h.length_le hfull) value
      simp only [QueueOp.exec, QueueOp.act, hpush, if_neg hfull]
      exact ⟨trivial, hrep, hcapacity⟩
  | pop =>
    cases xs with
    | nil =>
      simp only [QueueOp.exec, QueueOp.act, h.pop_nil]
      exact ⟨trivial, h, trivial⟩
    | cons x xs =>
      obtain ⟨q', hpop, hrep, hcapacity, -⟩ := h.pop_eq
      simp only [QueueOp.exec, QueueOp.act, hpop]
      exact ⟨trivial, hrep, hcapacity⟩
  | clear =>
    obtain ⟨q', hclear, hrep, hcapacity⟩ := h.clear_eq
    simp only [QueueOp.exec, QueueOp.act, hclear]
    exact ⟨trivial, hrep, hcapacity⟩

theorem Represents.execAll (h : q.Represents xs) (ops : List (QueueOp α)) :
    (QueueOp.execAll q ops).1 = (QueueOp.actAll q.capacity xs ops).1 ∧
      (QueueOp.execAll q ops).2.Represents (QueueOp.actAll q.capacity xs ops).2 ∧
        (QueueOp.execAll q ops).2.capacity = q.capacity := by
  induction ops generalizing q xs with
  | nil => exact ⟨rfl, h, rfl⟩
  | cons op ops ih =>
    obtain ⟨hresult, hrep, hcapacity⟩ := h.exec op
    obtain ⟨hresults, hrep', hcapacity'⟩ := ih hrep
    rw [hcapacity] at hresults hrep' hcapacity'
    exact ⟨congrArg₂ List.cons hresult hresults, hrep', hcapacity'⟩

end BoundedRingQueue

end UnixNotes.ThreadPool
