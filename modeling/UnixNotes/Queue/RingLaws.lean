import UnixNotes.Queue.RingBuffer

namespace UnixNotes.Queue.RingBuffer

open Library

variable {α : Type}

def contents (r : RingBuffer α) : List α := (r.buffer.rotate r.head).reduceOption

/-- What holds between the steps of a batch, where `size` is behind. -/
structure Holds (r : RingBuffer α) (xs : List α) : Prop where
  length_eq : r.buffer.length = r.capacity
  head_lt : r.head < r.capacity
  tail_eq : r.tail = (r.head + xs.length) % r.capacity
  cells : Circular.Holds r.buffer r.head xs

structure Represents (r : RingBuffer α) (xs : List α) : Prop extends Holds r xs where
  size_eq : r.size = xs.length

@[simp] theorem capacity_fill (r : RingBuffer α) (value : α) :
    (r.fill value).capacity = r.capacity := rfl

@[simp] theorem capacity_reset (r : RingBuffer α) : r.reset.capacity = r.capacity := rfl

@[simp] theorem size_fill (r : RingBuffer α) (value : α) : (r.fill value).size = r.size := rfl

@[simp] theorem size_reset (r : RingBuffer α) : r.reset.size = r.size := rfl

theorem represents_of_make {capacity : Nat} {r : RingBuffer α} (h : make capacity = .ok r) :
    r.Represents [] ∧ r.capacity = capacity := by
  rw [make] at h
  split at h
  · cases h
  · rename_i hne
    cases h
    exact ⟨⟨⟨List.length_replicate, Nat.pos_of_ne_zero hne, (Nat.zero_mod _).symm,
      Circular.holds_replicate capacity⟩, rfl⟩, rfl⟩

namespace Holds

variable {r : RingBuffer α} {x : α} {xs : List α}

theorem contents_eq (h : r.Holds xs) : r.contents = xs := h.cells.values_eq

theorem length_le (h : r.Holds xs) : xs.length ≤ r.capacity := by
  rw [← h.length_eq]
  exact h.cells.fits

theorem fill (h : r.Holds xs) (hroom : xs.length < r.capacity) (x : α) :
    (r.fill x).Holds (xs ++ [x]) where
  length_eq := by
    rw [RingBuffer.fill, List.length_set]
    exact h.length_eq
  head_lt := h.head_lt
  tail_eq := by
    rw [RingBuffer.fill, nextIndex, h.tail_eq, Nat.mod_add_mod, List.length_append]
    rfl
  cells := by
    have hcells := h.cells.push (by rwa [h.length_eq]) x
    rw [h.length_eq, ← h.tail_eq] at hcells
    exact hcells

theorem headValue_eq (h : r.Holds (x :: xs)) : r.headValue = .ok x := by
  rw [headValue, h.cells.head_eq (by rw [h.length_eq]; exact h.head_lt)]

theorem reset (h : r.Holds (x :: xs)) : r.reset.Holds xs where
  length_eq := by
    rw [RingBuffer.reset, List.length_set]
    exact h.length_eq
  head_lt := Nat.mod_lt _ (Nat.zero_lt_of_lt h.head_lt)
  tail_eq := by
    rw [RingBuffer.reset, nextIndex, h.tail_eq, Nat.mod_add_mod, List.length_cons]
    congr 1
    omega
  cells := by
    have hcells := h.cells.pop (by rw [h.length_eq]; exact h.head_lt)
    rw [h.length_eq] at hcells
    exact hcells

theorem foldl_fill (h : r.Holds xs) {values : List α}
    (hroom : xs.length + values.length ≤ r.capacity) :
    (values.foldl RingBuffer.fill r).Holds (xs ++ values) ∧
      (values.foldl RingBuffer.fill r).capacity = r.capacity ∧
        (values.foldl RingBuffer.fill r).size = r.size := by
  induction values generalizing r xs with
  | nil => exact ⟨by simpa using h, rfl, rfl⟩
  | cons value values ih =>
    rw [List.length_cons] at hroom
    have hfill := h.fill (by omega) value
    obtain ⟨hholds, hcapacity, hsize⟩ := ih hfill (by simp; omega)
    exact ⟨by simpa using hholds, hcapacity, hsize⟩

theorem takeValues_eq {taken : List α} (h : r.Holds (taken ++ xs)) :
    ∃ r', r.takeValues taken.length = .ok (taken, r') ∧ r'.Holds xs ∧
      r'.capacity = r.capacity ∧ r'.size = r.size := by
  induction taken generalizing r with
  | nil => exact ⟨r, rfl, h, rfl, rfl⟩
  | cons x taken ih =>
    obtain ⟨r', htake, hholds, hcapacity, hsize⟩ := ih h.reset
    refine ⟨r', ?_, hholds, hcapacity, hsize⟩
    rw [List.length_cons, takeValues, h.headValue_eq]
    simp only [bind, Except.bind, htake, pure, Except.pure]

theorem represents (h : r.Holds xs) {size : Nat} (hsize : size = xs.length) :
    ({ r with size := size } : RingBuffer α).Represents xs :=
  ⟨⟨h.length_eq, h.head_lt, h.tail_eq, h.cells⟩, hsize⟩

end Holds

namespace Represents

variable {r : RingBuffer α} {x : α} {xs : List α}

theorem empty_eq (h : r.Represents xs) : r.empty = xs.isEmpty := by
  rw [empty, h.size_eq]
  cases xs <;> simp

theorem full_eq (h : r.Represents xs) : r.full = decide (xs.length = r.capacity) := by
  rw [full, h.size_eq]

theorem emplace_eq (h : r.Represents xs) (hroom : xs.length < r.capacity) (x : α) :
    ∃ r', r.emplace x = .ok r' ∧ r'.Represents (xs ++ [x]) ∧ r'.capacity = r.capacity := by
  have hfull : r.full = false := by simp [h.full_eq, Nat.ne_of_lt hroom]
  refine ⟨{ r.fill x with size := r.size + 1 }, ?_, ?_, rfl⟩
  · simp [emplace, hfull]
  · exact (h.toHolds.fill hroom x).represents (by simp [h.size_eq])

theorem front_eq (h : r.Represents (x :: xs)) : r.front = .ok x := by
  rw [front, h.empty_eq, List.isEmpty_cons]
  exact h.toHolds.headValue_eq

theorem popFront_eq (h : r.Represents (x :: xs)) :
    ∃ r', r.popFront = .ok r' ∧ r'.Represents xs ∧ r'.capacity = r.capacity := by
  refine ⟨{ r.reset with size := r.size - 1 }, ?_, ?_, rfl⟩
  · simp [popFront, h.empty_eq]
  · exact h.toHolds.reset.represents (by simp [h.size_eq])

theorem pop_eq (h : r.Represents (x :: xs)) :
    ∃ r', r.pop = .ok (x, r') ∧ r'.Represents xs ∧ r'.capacity = r.capacity := by
  obtain ⟨r', hpop, hr'⟩ := h.popFront_eq
  refine ⟨r', ?_, hr'⟩
  simp only [pop, bind, Except.bind, h.front_eq, hpop, pure, Except.pure]

theorem pushBatch_eq (h : r.Represents xs) (values : List α) :
    let pushed := min values.length (r.capacity - xs.length)
    ∃ r', r.pushBatch values = (pushed, r') ∧ r'.Represents (xs ++ values.take pushed) ∧
      r'.capacity = r.capacity := by
  intro pushed
  have hle := h.toHolds.length_le
  have hpushed : (if values.length ≤ r.capacity - r.size then values.length
      else r.capacity - r.size) = pushed := by
    rw [h.size_eq]
    simp only [pushed]
    split <;> omega
  have hroom : xs.length + (values.take pushed).length ≤ r.capacity := by
    rw [List.length_take]
    omega
  obtain ⟨hholds, hcapacity, -⟩ := h.toHolds.foldl_fill hroom
  refine ⟨{ (values.take pushed).foldl fill r with size := r.size + pushed }, ?_, ?_, hcapacity⟩
  · simp only [pushBatch, hpushed]
  · refine hholds.represents ?_
    rw [List.length_append, List.length_take, h.size_eq]
    omega

theorem popBatch_eq (h : r.Represents xs) (output : List α) :
    let popped := min output.length xs.length
    ∃ r', r.popBatch output = .ok (popped, xs.take popped ++ output.drop popped, r') ∧
      r'.Represents (xs.drop popped) ∧ r'.capacity = r.capacity := by
  intro popped
  have hpopped : (if output.length ≤ r.size then output.length else r.size) = popped := by
    rw [h.size_eq]
    simp only [popped]
    split <;> omega
  have hlength : (xs.take popped).length = popped := by
    rw [List.length_take]
    omega
  have hsplit : r.Holds (xs.take popped ++ xs.drop popped) := by
    rw [List.take_append_drop]
    exact h.toHolds
  obtain ⟨taken, htake, hholds, hcapacity, hsize⟩ := hsplit.takeValues_eq
  rw [hlength] at htake
  refine ⟨{ taken with size := taken.size - popped }, ?_, ?_, hcapacity⟩
  · simp only [popBatch, hpopped, bind, Except.bind, htake, pure, Except.pure]
  · exact hholds.represents (by simp [hsize, h.size_eq])

theorem popBatch_nil (h : r.Represents []) (output : List α) :
    r.popBatch output = .ok (0, output, r) := by
  have hpopped : (if output.length ≤ r.size then output.length else r.size) = 0 := by
    rw [h.size_eq]
    split
    · rename_i hle
      exact Nat.le_zero.mp hle
    · rfl
  simp only [popBatch, hpopped, takeValues, bind, Except.bind, pure, Except.pure]
  rfl

end Represents

end UnixNotes.Queue.RingBuffer
