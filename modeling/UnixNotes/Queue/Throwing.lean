import UnixNotes.Queue.RingLaws

namespace UnixNotes.Queue.RingBuffer

open Library

variable {α : Type}

/-- Where the moves of `pop` throw: out of the front, which is left as it says, or into the
result. -/
inductive PopThrow (α : Type) where
  | front (left : α)
  | result
  deriving DecidableEq

/-- An operation, and where constructing, copying or moving a value throws in it. -/
inductive Call (α : Type) where
  | emplace (value : α) (throws : Bool)
  | front
  | popFront
  | pop (throws : Option (PopThrow α))
  | pushBatch (values : List α) (throwsAt : Option Nat)
  | popBatch (count : Nat) (throwsAt : Option (Nat × α))
  deriving DecidableEq

inductive Outcome (α : Type) where
  | done (values : List α)
  | threw
  | fault (fault : Fault)
  deriving DecidableEq

/-- `buffer_[tail_].emplace(..)` when the constructor throws. -/
def vacate (r : RingBuffer α) : RingBuffer α := { r with buffer := r.buffer.set r.tail none }

/-- A move out of `*buffer_[head_]` throws, and leaves this behind. -/
def leave (r : RingBuffer α) (left : α) : RingBuffer α :=
  { r with buffer := r.buffer.set r.head (some left) }

/-- The loop of `push_batch`, and whether it comes to its end. -/
def fillUntil : List α → Option Nat → RingBuffer α → Bool × RingBuffer α
  | [], _, r => (true, r)
  | _ :: _, some 0, r => (false, r.vacate)
  | value :: values, some (n + 1), r => fillUntil values (some n) (r.fill value)
  | value :: values, none, r => fillUntil values none (r.fill value)

def takeUntil : Nat → Option (Nat × α) → RingBuffer α → Outcome α × RingBuffer α
  | 0, _, r => (.done [], r)
  | n + 1, throwsAt, r =>
    match r.headValue with
    | .error fault => (.fault fault, r)
    | .ok value =>
      match throwsAt with
      | some (0, left) => (.threw, r.leave left)
      | some (k + 1, left) => next value (takeUntil n (some (k, left)) r.reset)
      | none => next value (takeUntil n none r.reset)
where
  next (value : α) : Outcome α × RingBuffer α → Outcome α × RingBuffer α
    | (.done values, r) => (.done (value :: values), r)
    | other => other

/-- `pushed`, as `push_batch` computes it. -/
def pushed (r : RingBuffer α) (values : List α) : Nat :=
  if values.length ≤ r.capacity - r.size then values.length else r.capacity - r.size

def popped (r : RingBuffer α) (count : Nat) : Nat := if count ≤ r.size then count else r.size

def perform (r : RingBuffer α) : Call α → Outcome α × RingBuffer α
  | .emplace value throws =>
    if r.full then (.fault .full, r)
    else if throws then (.threw, r.vacate)
    else (.done [], { r.fill value with size := r.size + 1 })
  | .front =>
    match r.front with
    | .ok value => (.done [value], r)
    | .error fault => (.fault fault, r)
  | .popFront =>
    match r.popFront with
    | .ok r => (.done [], r)
    | .error fault => (.fault fault, r)
  | .pop throws =>
    match r.front, throws with
    | .error fault, _ => (.fault fault, r)
    | .ok _, some (.front left) => (.threw, r.leave left)
    | .ok value, throws =>
      match r.popFront with
      | .error fault => (.fault fault, r)
      | .ok r => (if throws.isSome then .threw else .done [value], r)
  | .pushBatch values throwsAt =>
    match fillUntil (values.take (r.pushed values)) throwsAt r with
    | (true, filled) => (.done [], { filled with size := filled.size + r.pushed values })
    | (false, filled) => (.threw, filled)
  | .popBatch count throwsAt =>
    match takeUntil (r.popped count) throwsAt r with
    | (.done values, taken) => (.done values, { taken with size := taken.size - r.popped count })
    | other => other

section Perform

variable (r : RingBuffer α)

theorem perform_emplace (value : α) (throws : Bool) :
    r.perform (.emplace value throws) =
      if r.full then (.fault .full, r)
      else if throws then (.threw, r.vacate)
      else (.done [], { r.fill value with size := r.size + 1 }) := rfl

theorem perform_front : r.perform .front =
    match r.front with
    | .ok value => (.done [value], r)
    | .error fault => (.fault fault, r) := rfl

theorem perform_popFront : r.perform .popFront =
    match r.popFront with
    | .ok r => (.done [], r)
    | .error fault => (.fault fault, r) := rfl

theorem perform_pop (throws : Option (PopThrow α)) : r.perform (.pop throws) =
    match r.front, throws with
    | .error fault, _ => (.fault fault, r)
    | .ok _, some (.front left) => (.threw, r.leave left)
    | .ok value, throws =>
      match r.popFront with
      | .error fault => (.fault fault, r)
      | .ok r => (if throws.isSome then .threw else .done [value], r) := rfl

theorem perform_pop_none : r.perform (.pop none) =
    match r.pop with
    | .ok (value, r) => (.done [value], r)
    | .error fault => (.fault fault, r) := by
  rw [perform_pop, pop]
  cases r.front with
  | error fault => rfl
  | ok value => cases r.popFront <;> rfl

theorem perform_pushBatch (values : List α) (throwsAt : Option Nat) :
    r.perform (.pushBatch values throwsAt) =
      match fillUntil (values.take (r.pushed values)) throwsAt r with
      | (true, filled) => (.done [], { filled with size := filled.size + r.pushed values })
      | (false, filled) => (.threw, filled) := rfl

theorem perform_popBatch (count : Nat) (throwsAt : Option (Nat × α)) :
    r.perform (.popBatch count throwsAt) =
      match takeUntil (r.popped count) throwsAt r with
      | (.done values, taken) =>
        (.done values, { taken with size := taken.size - r.popped count })
      | other => other := rfl

end Perform

def performAll (r : RingBuffer α) (calls : List (Call α)) : RingBuffer α :=
  calls.foldl (fun r call => (r.perform call).2) r

/-- The slots in use are the `size` ones from `head` on. -/
structure Intact (r : RingBuffer α) : Prop where
  length_eq : r.buffer.length = r.capacity
  head_lt : r.head < r.capacity
  tail_eq : r.tail = (r.head + r.size) % r.capacity
  size_le : r.size ≤ r.capacity
  occupied : ∀ k < r.capacity,
    (∃ value, r.buffer[(r.head + k) % r.capacity]? = some (some value)) ↔ k < r.size

/-- A batch throws when it has taken over or given out an element. -/
def Call.MidBatch (r : RingBuffer α) : Call α → Prop
  | .pushBatch values (some k) => 0 < k ∧ k < r.pushed values
  | .popBatch count (some (k, _)) => 0 < k ∧ k < r.popped count
  | _ => False

def Call.effect (capacity : Nat) : Call α → List α → List α
  | .emplace value throws, xs => if throws || xs.length = capacity then xs else xs ++ [value]
  | .front, xs => xs
  | .popFront, xs => xs.tail
  | .pop (some (.front left)), xs => if xs = [] then xs else left :: xs.tail
  | .pop _, xs => xs.tail
  | .pushBatch values throwsAt, xs =>
    if throwsAt = some 0 then xs else xs ++ values.take (capacity - xs.length)
  | .popBatch count (some (0, left)), xs =>
    if count = 0 ∨ xs = [] then xs else left :: xs.tail
  | .popBatch count _, xs => xs.drop count

namespace Holds

variable {r : RingBuffer α} {x : α} {xs : List α}

theorem vacate_eq (h : r.Holds xs) (hroom : xs.length < r.capacity) : r.vacate = r := by
  have hvacant := h.cells.vacant (by rwa [h.length_eq])
  rw [h.length_eq, ← h.tail_eq] at hvacant
  rw [vacate, hvacant]

theorem leave (h : r.Holds (x :: xs)) (left : α) : (r.leave left).Holds (left :: xs) where
  length_eq := by
    rw [RingBuffer.leave, List.length_set]
    exact h.length_eq
  head_lt := h.head_lt
  tail_eq := h.tail_eq
  cells := h.cells.assign (by rw [h.length_eq]; exact h.head_lt) left

theorem fillUntil_done (r : RingBuffer α) {values : List α} {throwsAt : Option Nat}
    (hend : ∀ k ∈ throwsAt, values.length ≤ k) :
    r.fillUntil values throwsAt = (true, values.foldl RingBuffer.fill r) := by
  induction values generalizing r throwsAt with
  | nil => cases throwsAt <;> rfl
  | cons value values ih =>
    match throwsAt with
    | none => exact ih (r.fill value) (fun k hk => nomatch hk)
    | some 0 => exact absurd (hend 0 rfl) (Nat.not_succ_le_zero _)
    | some (k + 1) =>
      refine ih (r.fill value) fun k' hk' => ?_
      obtain rfl := Option.some.inj hk'
      exact Nat.le_of_succ_le_succ (hend (k + 1) rfl)

theorem fillUntil_threw (h : r.Holds xs) {values : List α} {k : Nat} (hk : k < values.length)
    (hroom : xs.length + values.length ≤ r.capacity) :
    r.fillUntil values (some k) = (false, (values.take k).foldl RingBuffer.fill r) := by
  induction k generalizing r xs values with
  | zero =>
    obtain ⟨value, values, rfl⟩ := List.exists_cons_of_length_pos hk
    rw [fillUntil, h.vacate_eq (Nat.lt_of_lt_of_le (Nat.lt_add_of_pos_right hk) hroom)]
    rfl
  | succ k ih =>
    obtain ⟨value, values, rfl⟩ := List.exists_cons_of_length_pos (Nat.zero_lt_of_lt hk)
    rw [List.length_cons] at hroom
    refine ih (h.fill (by omega) value) (Nat.lt_of_succ_lt_succ hk) ?_
    rw [List.length_append, List.length_singleton, capacity_fill]
    omega

theorem takeUntil_done {taken : List α} (h : r.Holds (taken ++ xs))
    (throwsAt : Option (Nat × α)) (hend : ∀ p ∈ throwsAt, taken.length ≤ p.1) :
    ∃ r', r.takeUntil taken.length throwsAt = (.done taken, r') ∧ r'.Holds xs ∧
      r'.capacity = r.capacity ∧ r'.size = r.size := by
  induction taken generalizing r throwsAt with
  | nil => exact ⟨r, rfl, h, rfl, rfl⟩
  | cons x taken ih =>
    match throwsAt with
    | none =>
      obtain ⟨r', htake, hholds, hcapacity, hsize⟩ :=
        ih h.reset none fun p hp => nomatch hp
      refine ⟨r', ?_, hholds, hcapacity, hsize⟩
      rw [List.length_cons, takeUntil, h.headValue_eq]
      simp only [htake, takeUntil.next]
    | some (0, left) => exact absurd (hend _ rfl) (Nat.not_succ_le_zero _)
    | some (k + 1, left) =>
      obtain ⟨r', htake, hholds, hcapacity, hsize⟩ :=
        ih h.reset (some (k, left)) fun p hp => by
          obtain rfl := Option.some.inj hp
          exact Nat.le_of_succ_le_succ (hend _ rfl)
      refine ⟨r', ?_, hholds, hcapacity, hsize⟩
      rw [List.length_cons, takeUntil, h.headValue_eq]
      simp only [htake, takeUntil.next]

theorem takeUntil_threw {n k : Nat} (h : r.Holds xs) (hk : k < n) (hn : n ≤ xs.length)
    (left : α) : ∃ r', r.takeUntil n (some (k, left)) = (.threw, r') ∧
      r'.Holds (left :: xs.drop (k + 1)) ∧ r'.capacity = r.capacity ∧ r'.size = r.size := by
  induction k generalizing r xs n with
  | zero =>
    obtain ⟨n, rfl⟩ := Nat.exists_eq_add_one.mpr hk
    obtain ⟨x, xs, rfl⟩ := List.exists_cons_of_length_pos (Nat.lt_of_lt_of_le hk hn)
    refine ⟨r.leave left, ?_, h.leave left, rfl, rfl⟩
    rw [takeUntil, h.headValue_eq]
  | succ k ih =>
    obtain ⟨n, rfl⟩ := Nat.exists_eq_add_one.mpr (Nat.zero_lt_of_lt hk)
    obtain ⟨x, xs, rfl⟩ := List.exists_cons_of_length_pos (Nat.lt_of_lt_of_le
      (Nat.zero_lt_of_lt hk) hn)
    obtain ⟨r', htake, hholds, hcapacity, hsize⟩ :=
      ih h.reset (Nat.lt_of_succ_lt_succ hk) (Nat.le_of_succ_le_succ hn)
    refine ⟨r', ?_, hholds, hcapacity, hsize⟩
    rw [takeUntil, h.headValue_eq]
    simp only [htake, takeUntil.next]

theorem not_represents (h : r.Holds xs) (hsize : r.size ≠ xs.length) :
    ¬∃ ys, r.Represents ys := by
  rintro ⟨ys, hys⟩
  have heq := hys.toHolds.contents_eq.symm.trans h.contents_eq
  rw [hys.size_eq, heq] at hsize
  exact hsize rfl

end Holds

/-- The buffer does what it is to do, and nothing that is not there is accessed. -/
def Follows (r : RingBuffer α) (call : Call α) (xs : List α) : Prop :=
  (r.perform call).2.Represents xs ∧ (r.perform call).2.capacity = r.capacity ∧
    (r.perform call).1 ≠ .fault .disengaged

namespace Represents

variable {r : RingBuffer α} {x : α} {xs : List α}

theorem pushed_eq (h : r.Represents xs) (values : List α) :
    r.pushed values = (values.take (r.capacity - xs.length)).length := by
  rw [pushed, h.size_eq, List.length_take]
  split <;> omega

theorem take_pushed (h : r.Represents xs) (values : List α) :
    values.take (r.pushed values) = values.take (r.capacity - xs.length) := by
  rw [h.pushed_eq, List.take_eq_take_iff, List.length_take]
  omega

theorem popped_eq (h : r.Represents xs) (count : Nat) :
    r.popped count = (xs.take count).length := by
  rw [popped, h.size_eq, List.length_take]
  split <;> omega

theorem follows_emplace (h : r.Represents xs) (value : α) (throws : Bool) :
    r.Follows (.emplace value throws) ((Call.emplace value throws).effect r.capacity xs) := by
  by_cases hfull : xs.length = r.capacity
  · have htrue : r.full = true := by rw [h.full_eq, hfull]; simp
    simp only [Follows, perform_emplace, htrue, if_true, Call.effect, hfull, decide_true, Bool.or_true]
    exact ⟨h, trivial, nofun⟩
  · have hfalse : r.full = false := by rw [h.full_eq]; simp [hfull]
    have hroom : xs.length < r.capacity := Nat.lt_of_le_of_ne h.toHolds.length_le hfull
    cases throws with
    | true =>
      simp only [Follows, perform_emplace, hfalse, if_true, Call.effect, Bool.true_or,
        h.toHolds.vacate_eq hroom]
      exact ⟨h, rfl, nofun⟩
    | false =>
      simp only [Follows, perform_emplace, hfalse, Call.effect, hfull]
      exact ⟨(h.toHolds.fill hroom value).represents (by simp [h.size_eq]), rfl, nofun⟩

theorem follows_front (h : r.Represents xs) :
    r.Follows .front ((Call.front : Call α).effect r.capacity xs) := by
  cases xs with
  | nil =>
    have hempty : r.front = .error .empty := by rw [front, h.empty_eq]; rfl
    simp only [Follows, perform_front, hempty]
    exact ⟨h, trivial, by rintro ⟨⟩⟩
  | cons x xs =>
    simp only [Follows, perform_front, h.front_eq]
    exact ⟨h, trivial, by rintro ⟨⟩⟩

theorem follows_popFront (h : r.Represents xs) :
    r.Follows .popFront ((Call.popFront : Call α).effect r.capacity xs) := by
  cases xs with
  | nil =>
    have hempty : r.popFront = .error .empty := by rw [popFront, h.empty_eq]; rfl
    simp only [Follows, perform_popFront, hempty]
    exact ⟨h, trivial, by rintro ⟨⟩⟩
  | cons x xs =>
    obtain ⟨r', hpop, hr', hcapacity⟩ := h.popFront_eq
    simp only [Follows, perform_popFront, hpop]
    exact ⟨hr', hcapacity, by rintro ⟨⟩⟩

theorem follows_pop (h : r.Represents xs) (throws : Option (PopThrow α)) :
    r.Follows (.pop throws) ((Call.pop throws).effect r.capacity xs) := by
  cases xs with
  | nil =>
    have hempty : r.front = .error .empty := by rw [front, h.empty_eq]; rfl
    have heffect : (Call.pop throws).effect r.capacity [] = [] := by
      rcases throws with _ | _ | _ <;> rfl
    simp only [Follows, perform_pop, hempty, heffect]
    exact ⟨h, trivial, by rintro ⟨⟩⟩
  | cons x xs =>
    rcases throws with _ | left | _
    · obtain ⟨r', hpop, hr', hcapacity⟩ := h.pop_eq
      simp only [Follows, perform_pop_none, hpop, Call.effect]
      exact ⟨hr', hcapacity, by rintro ⟨⟩⟩
    · simp only [Follows, perform_pop, h.front_eq, Call.effect]
      exact ⟨⟨h.toHolds.leave left, h.size_eq⟩, rfl, by rintro ⟨⟩⟩
    · obtain ⟨r', hpop, hr', hcapacity⟩ := h.popFront_eq
      simp only [Follows, perform_pop, h.front_eq, hpop, Call.effect]
      exact ⟨hr', hcapacity, by rintro ⟨⟩⟩

theorem pushBatch_done (h : r.Represents xs) (values : List α) {throwsAt : Option Nat}
    (hend : ∀ k ∈ throwsAt, r.pushed values ≤ k) : ∃ r',
    r.perform (.pushBatch values throwsAt) = (.done [], r') ∧
      r'.Represents (xs ++ values.take (r.capacity - xs.length)) ∧ r'.capacity = r.capacity := by
  have hle := h.toHolds.length_le
  have hpushed : ∀ k ∈ throwsAt, (values.take (r.capacity - xs.length)).length ≤ k := by
    rwa [← h.pushed_eq]
  have hdone := Holds.fillUntil_done r hpushed
  have hroom : xs.length + (values.take (r.capacity - xs.length)).length ≤ r.capacity := by
    rw [List.length_take]
    omega
  obtain ⟨hholds, hcapacity, hsize⟩ := h.toHolds.foldl_fill hroom
  have hperform : r.perform (.pushBatch values throwsAt) =
      (.done [], { (values.take (r.capacity - xs.length)).foldl fill r with
        size := ((values.take (r.capacity - xs.length)).foldl fill r).size +
          r.pushed values }) := by
    simp only [perform_pushBatch, h.take_pushed, hdone]
  refine ⟨_, hperform, hholds.represents ?_, hcapacity⟩
  rw [hsize, h.size_eq, h.pushed_eq, List.length_append]

theorem pushBatch_threw (h : r.Represents xs) (values : List α) {k : Nat}
    (hk : k < r.pushed values) : ∃ r',
    r.perform (.pushBatch values (some k)) = (.threw, r') ∧
      r'.Holds (xs ++ values.take k) ∧ r'.capacity = r.capacity ∧ r'.size = xs.length := by
  have hle := h.toHolds.length_le
  rw [h.pushed_eq] at hk
  have hroom : xs.length + (values.take (r.capacity - xs.length)).length ≤ r.capacity := by
    rw [List.length_take]
    omega
  have hthrew := h.toHolds.fillUntil_threw hk hroom
  rw [List.take_take, Nat.min_eq_left (by rw [List.length_take] at hk; omega)] at hthrew
  have hfits : xs.length + (values.take k).length ≤ r.capacity := by
    rw [List.length_take] at hk ⊢
    omega
  obtain ⟨hholds, hcapacity, hsize⟩ := h.toHolds.foldl_fill hfits
  refine ⟨_, by simp only [perform_pushBatch, h.take_pushed, hthrew], hholds, hcapacity, ?_⟩
  rw [hsize, h.size_eq]

theorem popBatch_done (h : r.Represents xs) (count : Nat) {throwsAt : Option (Nat × α)}
    (hend : ∀ p ∈ throwsAt, r.popped count ≤ p.1) : ∃ r',
    r.perform (.popBatch count throwsAt) = (.done (xs.take count), r') ∧
      r'.Represents (xs.drop count) ∧ r'.capacity = r.capacity := by
  have hsplit : r.Holds (xs.take count ++ xs.drop count) := by
    rw [List.take_append_drop]
    exact h.toHolds
  obtain ⟨r', htake, hholds, hcapacity, hsize⟩ :=
    hsplit.takeUntil_done throwsAt (by rwa [← h.popped_eq])
  rw [← h.popped_eq] at htake
  have hperform : r.perform (.popBatch count throwsAt) =
      (.done (xs.take count), { r' with size := r'.size - r.popped count }) := by
    simp only [perform_popBatch, htake]
  refine ⟨_, hperform, hholds.represents ?_, hcapacity⟩
  rw [hsize, h.size_eq, h.popped_eq, List.length_take, List.length_drop]
  omega

theorem popBatch_threw (h : r.Represents xs) (count : Nat) {k : Nat} (hk : k < r.popped count)
    (left : α) : ∃ r', r.perform (.popBatch count (some (k, left))) = (.threw, r') ∧
      r'.Holds (left :: xs.drop (k + 1)) ∧ r'.capacity = r.capacity ∧ r'.size = xs.length := by
  have hle : r.popped count ≤ xs.length := by
    rw [h.popped_eq, List.length_take]
    exact Nat.min_le_right _ _
  obtain ⟨r', htake, hholds, hcapacity, hsize⟩ := h.toHolds.takeUntil_threw hk hle left
  refine ⟨r', ?_, hholds, hcapacity, hsize.trans h.size_eq⟩
  simp only [perform_popBatch, htake]

theorem follows_pushBatch (h : r.Represents xs) (values : List α) {throwsAt : Option Nat}
    (hmid : ¬(Call.pushBatch values throwsAt).MidBatch r) :
    r.Follows (.pushBatch values throwsAt)
      ((Call.pushBatch values throwsAt).effect r.capacity xs) := by
  by_cases hend : ∀ k ∈ throwsAt, r.pushed values ≤ k
  · obtain ⟨r', hperform, hr', hcapacity⟩ := h.pushBatch_done values hend
    rw [Follows, hperform]
    refine ⟨?_, hcapacity, nofun⟩
    rw [Call.effect]
    split
    · rename_i hzero
      subst hzero
      have hnone := Nat.le_zero.mp (hend 0 rfl)
      rw [h.pushed_eq] at hnone
      rwa [List.length_eq_zero_iff.mp hnone, List.append_nil] at hr'
    · exact hr'
  · push Not at hend
    obtain ⟨k, rfl, hk⟩ := hend
    obtain rfl : k = 0 := by
      by_contra hne
      exact hmid ⟨Nat.pos_of_ne_zero hne, hk⟩
    obtain ⟨r', hperform, hr', hcapacity, hsize⟩ := h.pushBatch_threw values hk
    rw [Follows, hperform]
    rw [List.take_zero, List.append_nil] at hr'
    exact ⟨⟨hr', hsize⟩, hcapacity, nofun⟩

theorem follows_popBatch (h : r.Represents xs) (count : Nat) {throwsAt : Option (Nat × α)}
    (hmid : ¬(Call.popBatch count throwsAt).MidBatch r) :
    r.Follows (.popBatch count throwsAt)
      ((Call.popBatch count throwsAt).effect r.capacity xs) := by
  by_cases hend : ∀ p ∈ throwsAt, r.popped count ≤ p.1
  · obtain ⟨r', hperform, hr', hcapacity⟩ := h.popBatch_done count hend
    rw [Follows, hperform]
    refine ⟨?_, hcapacity, nofun⟩
    match throwsAt with
    | none => exact hr'
    | some (k + 1, left) => exact hr'
    | some (0, left) =>
      have hnone := Nat.le_zero.mp (hend _ rfl)
      rw [h.popped_eq, List.length_eq_zero_iff, List.take_eq_nil_iff] at hnone
      rw [Call.effect, if_pos hnone]
      obtain rfl | rfl := hnone
      · exact hr'
      · simpa using hr'
  · push Not at hend
    obtain ⟨⟨k, left⟩, rfl, hk⟩ := hend
    obtain rfl : k = 0 := by
      by_contra hne
      exact hmid ⟨Nat.pos_of_ne_zero hne, hk⟩
    obtain ⟨r', hperform, hr', hcapacity, hsize⟩ := h.popBatch_threw count hk left
    rw [Follows, hperform]
    have hsome : ¬(count = 0 ∨ xs = []) := by
      rw [h.popped_eq] at hk
      rintro (rfl | rfl) <;> simp at hk
    rw [Call.effect, if_neg hsome, ← List.drop_one]
    refine ⟨⟨hr', hsize.trans ?_⟩, hcapacity, nofun⟩
    have hpos := List.length_pos_iff.mpr (not_or.mp hsome).2
    rw [List.length_cons, List.length_drop]
    omega

theorem follows (h : r.Represents xs) {call : Call α} (hmid : ¬call.MidBatch r) :
    r.Follows call (call.effect r.capacity xs) := by
  cases call with
  | emplace value throws => exact h.follows_emplace value throws
  | front => exact h.follows_front
  | popFront => exact h.follows_popFront
  | pop throws => exact h.follows_pop throws
  | pushBatch values throwsAt => exact h.follows_pushBatch values hmid
  | popBatch count throwsAt => exact h.follows_popBatch count hmid

theorem broken (h : r.Represents xs) {call : Call α} (hmid : call.MidBatch r) :
    ¬∃ ys, (r.perform call).2.Represents ys := by
  match call, hmid with
  | .pushBatch values (some k), ⟨hpos, hk⟩ =>
    obtain ⟨r', hperform, hr', -, hsize⟩ := h.pushBatch_threw values hk
    rw [hperform]
    refine hr'.not_represents ?_
    rw [h.pushed_eq, List.length_take] at hk
    rw [hsize, List.length_append, List.length_take]
    omega
  | .popBatch count (some (k, left)), ⟨hpos, hk⟩ =>
    obtain ⟨r', hperform, hr', -, hsize⟩ := h.popBatch_threw count hk left
    rw [hperform]
    refine hr'.not_represents ?_
    rw [h.popped_eq, List.length_take] at hk
    rw [hsize, List.length_cons, List.length_drop]
    omega

end Represents

section Intact

variable {r : RingBuffer α} {xs : List α}

theorem Represents.intact (h : r.Represents xs) : r.Intact where
  length_eq := h.length_eq
  head_lt := h.head_lt
  tail_eq := by rw [h.tail_eq, h.size_eq]
  size_le := by
    rw [h.size_eq]
    exact h.toHolds.length_le
  occupied := by
    intro k hk
    have hcell : r.buffer[(r.head + k) % r.capacity]? = (r.buffer.rotate r.head)[k]? := by
      rw [List.getElem?_rotate (by rwa [h.length_eq]), h.length_eq, Nat.add_comm]
    rw [hcell, h.cells.cells_eq, h.length_eq, h.size_eq]
    by_cases hlt : k < xs.length
    · rw [List.getElem?_append_left (by simpa using hlt)]
      simp [hlt]
    · rw [List.getElem?_append_right (by simpa using hlt), List.length_map]
      simp [hlt, List.getElem?_replicate]

theorem eq_map_some {l : List (Option α)} (h : ∀ x ∈ l, x.isSome) :
    ∃ xs : List α, l = xs.map some := by
  induction l with
  | nil => exact ⟨[], rfl⟩
  | cons x l ih =>
    obtain ⟨y, rfl⟩ := Option.isSome_iff_exists.mp (h x (List.mem_cons_self ..))
    obtain ⟨xs, rfl⟩ := ih fun z hz => h z (List.mem_cons_of_mem _ hz)
    exact ⟨y :: xs, rfl⟩

theorem Intact.represents (h : r.Intact) : ∃ xs, r.Represents xs := by
  have hlength : (r.buffer.rotate r.head).length = r.capacity := by
    rw [List.length_rotate, h.length_eq]
  have hcell : ∀ k < r.capacity,
      (∃ value, (r.buffer.rotate r.head)[k]? = some (some value)) ↔ k < r.size := by
    intro k hk
    rw [← h.occupied k hk, List.getElem?_rotate (by rwa [h.length_eq]), h.length_eq, Nat.add_comm]
  have hsome : ∀ x ∈ (r.buffer.rotate r.head).take r.size, x.isSome := by
    intro x hx
    obtain ⟨k, hk⟩ := List.mem_iff_getElem?.mp hx
    have hlt : k < r.size := by
      have := (List.getElem?_eq_some_iff.mp hk).1
      rw [List.length_take] at this
      omega
    obtain ⟨value, hvalue⟩ := (hcell k (Nat.lt_of_lt_of_le hlt h.size_le)).mpr hlt
    rw [List.getElem?_take_of_lt hlt, hvalue] at hk
    obtain rfl := Option.some.inj hk
    rfl
  have hnone : (r.buffer.rotate r.head).drop r.size =
      List.replicate (r.capacity - r.size) none := by
    refine List.eq_replicate_iff.mpr ⟨by rw [List.length_drop, hlength], fun x hx => ?_⟩
    obtain ⟨k, hk⟩ := List.mem_iff_getElem?.mp hx
    rw [List.getElem?_drop] at hk
    cases x with
    | none => rfl
    | some value =>
      have hlt := (List.getElem?_eq_some_iff.mp hk).1
      rw [hlength] at hlt
      have := (hcell _ hlt).mp ⟨value, hk⟩
      omega
  obtain ⟨xs, hxs⟩ := eq_map_some hsome
  have hsize : r.size = xs.length := by
    have := congrArg List.length hxs
    rw [List.length_take, List.length_map, hlength, Nat.min_eq_left h.size_le] at this
    exact this
  refine ⟨xs, ⟨⟨h.length_eq, h.head_lt, ?_, ?_, ?_⟩, hsize⟩⟩
  · rw [h.tail_eq, hsize]
  · rw [← hsize, h.length_eq]
    exact h.size_le
  · rw [← hxs, h.length_eq, ← hsize, ← hnone, List.take_append_drop]

theorem Represents.performAll (h : r.Represents xs) {calls : List (Call α)}
    (hmid : ∀ before call after, calls = before ++ call :: after →
      ¬call.MidBatch (r.performAll before)) :
    (r.performAll calls).Represents
        (calls.foldl (fun xs call => call.effect r.capacity xs) xs) ∧
      ∀ before call after, calls = before ++ call :: after →
        ((r.performAll before).perform call).1 ≠ .fault .disengaged := by
  induction calls generalizing r xs with
  | nil => exact ⟨h, fun before call after heq => by simp at heq⟩
  | cons call calls ih =>
    obtain ⟨hnext, hcapacity, hdone⟩ := h.follows (hmid [] call calls rfl)
    obtain ⟨hlast, hrest⟩ := ih hnext fun before call' after heq =>
      hmid (call :: before) call' after (by rw [heq]; rfl)
    rw [hcapacity] at hlast
    refine ⟨hlast, fun before call' after heq => ?_⟩
    cases before with
    | nil =>
      obtain ⟨rfl, -⟩ := List.cons.inj heq
      exact hdone
    | cons first before =>
      obtain ⟨rfl, htail⟩ := List.cons.inj heq
      exact hrest before call' after htail

/-- The buffer stays intact exactly as long as no batch throws in its middle. -/
theorem intact_after_throw {capacity : Nat} (hmake : make capacity = .ok r)
    (calls : List (Call α)) :
    ((∀ before after, calls = before ++ after → (r.performAll before).Intact) ↔
      ∀ before call after, calls = before ++ call :: after →
        ¬call.MidBatch (r.performAll before)) ∧
      ((∀ before call after, calls = before ++ call :: after →
          ¬call.MidBatch (r.performAll before)) →
        (r.performAll calls).contents =
            calls.foldl (fun xs call => call.effect capacity xs) [] ∧
          ∀ before call after, calls = before ++ call :: after →
            ((r.performAll before).perform call).1 ≠ .fault .disengaged) := by
  obtain ⟨hr, rfl⟩ := represents_of_make hmake
  refine ⟨⟨fun hintact before call after heq hmid => ?_, fun hmid before after heq => ?_⟩,
    fun hmid => ?_⟩
  · obtain ⟨xs, hxs⟩ := (hintact before (call :: after) heq).represents
    refine hxs.broken hmid (Intact.represents ?_)
    have hnext := hintact (before ++ [call]) after (by simp [heq])
    rwa [performAll, List.foldl_append] at hnext
  · have hbefore : ∀ before' call' after', before = before' ++ call' :: after' →
        ¬call'.MidBatch (r.performAll before') := by
      rintro before' call' after' rfl
      exact hmid before' call' (after' ++ after) (by simp [heq])
    exact (hr.performAll hbefore).1.intact
  · obtain ⟨hall, hdone⟩ := hr.performAll hmid
    exact ⟨hall.toHolds.contents_eq, hdone⟩

end Intact

def throwsFirst : List (Call Nat) :=
  [.emplace 1 false, .pushBatch [2, 3] (some 0), .popBatch 2 none]

theorem throwsFirst_midBatch (r : RingBuffer Nat) : ∀ call ∈ throwsFirst, ¬call.MidBatch r := by
  intro call hcall
  simp only [throwsFirst, List.mem_cons, List.not_mem_nil, or_false] at hcall
  obtain rfl | rfl | rfl := hcall
  · exact id
  · exact fun hmid => Nat.lt_irrefl 0 hmid.1
  · exact id

theorem intact_after_throw_first :
    (performAll { buffer := List.replicate 4 none, capacity := 4 } throwsFirst).contents = [] := by
  have hmake : make 4 = .ok { buffer := List.replicate 4 (none : Option Nat), capacity := 4 } := rfl
  refine ((intact_after_throw hmake throwsFirst).2 fun before call after heq => ?_).1
  refine throwsFirst_midBatch _ call ?_
  rw [heq]
  exact List.mem_append_right _ (List.mem_cons_self ..)

def throwsSecond : List (Call Nat) := [.emplace 1 false, .pushBatch [2, 3] (some 1)]

theorem broken_by_throw : ∃ r : RingBuffer Nat, make 4 = .ok r ∧
    ¬(r.performAll throwsSecond).Intact ∧
      (r.performAll (throwsSecond ++ [.popFront])).empty = true ∧
      (r.performAll (throwsSecond ++ [.popFront])).buffer = [none, some 2, none, none] := by
  refine ⟨_, rfl, fun hintact => ?_, by decide, by decide⟩
  have htail := hintact.tail_eq
  revert htail
  decide

end UnixNotes.Queue.RingBuffer
