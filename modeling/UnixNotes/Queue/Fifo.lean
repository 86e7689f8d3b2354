import UnixNotes.Queue.BlockingQueue
import UnixNotes.Queue.RingLaws

namespace UnixNotes.Queue

variable {α : Type}

structure Fifo (α : Type) (capacity : Nat) where
  elements : List α
  closed : Bool
  bounded : elements.length ≤ capacity

namespace Operation

def pushes : Operation α → Option (α × Option α)
  | .push value | .tryPush value | .pushFor value => some (value, some value)
  | .pushMove value | .emplace value | .tryPushMove value | .tryEmplace value
  | .pushForMove value | .emplaceFor value => some (value, none)
  | _ => none

def pops : Operation α → Option α
  | .pop value | .tryPop value | .popFor value => some value
  | _ => none

def patient (op : Operation α) : Bool :=
  match op.wait with
  | some wait => !wait.timed
  | none => false

end Operation

namespace Fifo

variable {capacity : Nat}

/-- What a call may reply to its caller, and the queue after it. -/
inductive Does (f : Fifo α capacity) : Operation α → Reply α → Fifo α capacity → Prop
  | accept {op : Operation α} {value : α} {left : Option α} {f' : Fifo α capacity}
      (pushes : op.pushes = some (value, left)) (running : f.closed = false)
      (elements : f'.elements = f.elements ++ [value]) (closed : f'.closed = f.closed) :
      Does f op (.pushed true left) f'
  | refuse {op : Operation α} {value : α} {left : Option α}
      (pushes : op.pushes = some (value, left))
      (reason : f.closed = true ∨ f.elements.length = capacity ∧ op.patient = false) :
      Does f op (.pushed false (some value)) f
  | take {op : Operation α} {target value : α} {f' : Fifo α capacity}
      (pops : op.pops = some target) (elements : f.elements = value :: f'.elements)
      (closed : f'.closed = f.closed) : Does f op (.popped true value) f'
  | noValue {op : Operation α} {target : α} (pops : op.pops = some target)
      (reason : f.elements = [] ∧ (f.closed = true ∨ op.patient = false)) :
      Does f op (.popped false target) f
  | acceptBatch {values : List α} {f' : Fifo α capacity} (given : values ≠ [])
      (running : f.closed = false) (room : f.elements.length < capacity)
      (elements : f'.elements =
        f.elements ++ values.take (min values.length (capacity - f.elements.length)))
      (closed : f'.closed = f.closed) :
      Does f (.pushBatch values)
        (.pushedBatch (min values.length (capacity - f.elements.length))) f'
  | refuseBatch {values : List α} (reason : values = [] ∨ f.closed = true) :
      Does f (.pushBatch values) (.pushedBatch 0) f
  | takeBatch {output : List α} {f' : Fifo α capacity} (wanted : output ≠ [])
      (stocked : f.elements ≠ [])
      (elements : f'.elements = f.elements.drop (min output.length f.elements.length))
      (closed : f'.closed = f.closed) :
      Does f (.popBatch output) (.poppedBatch (min output.length f.elements.length)
        (f.elements.take (min output.length f.elements.length) ++
          output.drop (min output.length f.elements.length))) f'
  | noBatch {output : List α} (reason : output = [] ∨ f.elements = [] ∧ f.closed = true) :
      Does f (.popBatch output) (.poppedBatch 0 output) f
  | close {f' : Fifo α capacity} (elements : f'.elements = f.elements)
      (closed : f'.closed = true) : Does f .close .closed f'
  | observeClosed : Does f (.observe .closed) (.flag f.closed) f
  | observeEmpty : Does f (.observe .empty) (.flag f.elements.isEmpty) f
  | observeFull : Does f (.observe .full) (.flag (decide (f.elements.length = capacity))) f
  | observeSize : Does f (.observe .size) (.number f.elements.length) f

end Fifo

def Reply.failed : Reply α → Bool
  | .pushed false _ | .popped false _ | .pushedBatch 0 | .poppedBatch 0 _ => true
  | _ => false

theorem Reply.eq_zero_of_pushedBatch {count : Nat}
    (h : (pushedBatch count : Reply α).failed = true) : count = 0 := by
  cases count with
  | zero => rfl
  | succ => cases h

theorem Reply.eq_zero_of_poppedBatch {count : Nat} {output : List α}
    (h : (poppedBatch count output).failed = true) : count = 0 := by
  cases count with
  | zero => rfl
  | succ => cases h

def Reply.notices (closed : Bool) : Reply α → List Notice
  | .pushed true _ => [.one .notEmpty]
  | .popped true _ => [.one .notFull]
  | .pushedBatch count => if count > 0 then [.one .notEmpty] else []
  | .poppedBatch count _ => if count > 0 then [.one .notFull] else []
  | .closed => if closed then [] else [.all .notEmpty, .all .notFull]
  | _ => []

namespace BlockingQueue

variable {capacity : Nat}

structure Represents (q : BlockingQueue α) (f : Fifo α capacity) : Prop where
  capacity_eq : q.capacity = capacity
  buffer_capacity_eq : q.buffer.capacity = capacity
  buffer : q.buffer.Represents f.elements
  closed_eq : q.closed = f.closed

/-- What a step of `f` comes to in the code. -/
def Simulates (f : Fifo α capacity) (op : Operation α) (q : BlockingQueue α)
    (result : Except Fault (Effect α)) : Prop :=
  ∃ effect f', result = .ok effect ∧ f.Does op effect.reply f' ∧ effect.queue.Represents f' ∧
    effect.notices = effect.reply.notices q.closed ∧
      (effect.reply.failed = true → effect.queue = q)

namespace Represents

variable {q : BlockingQueue α} {f : Fifo α capacity} {op : Operation α}

theorem of_make (h : make capacity = .ok q) :
    0 < capacity ∧ q.Represents (⟨[], false, Nat.zero_le _⟩ : Fifo α capacity) := by
  rw [make] at h
  cases hbuffer : RingBuffer.make capacity with
  | error message =>
    rw [hbuffer] at h
    cases h
  | ok buffer =>
    obtain ⟨hrepresents, hcapacity⟩ := RingBuffer.represents_of_make hbuffer
    rw [hbuffer] at h
    simp only [bind, Except.bind] at h
    split at h
    · cases h
    · cases h
      exact ⟨hcapacity ▸ Nat.zero_lt_of_lt hrepresents.head_lt, rfl, hcapacity, hrepresents, rfl⟩

theorem empty_iff (h : q.Represents f) : q.buffer.empty = true ↔ f.elements = [] := by
  rw [h.buffer.empty_eq, List.isEmpty_iff]

theorem full_iff (h : q.Represents f) : q.buffer.full = true ↔ f.elements.length = capacity := by
  rw [h.buffer.full_eq, h.buffer_capacity_eq, decide_eq_true_iff]

theorem accept (h : q.Represents f) {value : α} {left : Option α}
    (hpushes : op.pushes = some (value, left)) (hclosed : q.closed = false)
    (hfull : q.buffer.full = false) : Simulates f op q (q.accept value left) := by
  have hroom : f.elements.length < capacity := by
    have hne : f.elements.length ≠ capacity := fun heq => by simp [h.full_iff.mpr heq] at hfull
    have := f.bounded
    omega
  obtain ⟨buffer, hemplace, hbuffer, hcapacity⟩ :=
    h.buffer.emplace_eq (by rwa [h.buffer_capacity_eq]) value
  refine ⟨⟨{ q with buffer := buffer }, .pushed true left, [.one .notEmpty]⟩,
    ⟨f.elements ++ [value], f.closed, by rw [List.length_append]; exact hroom⟩, ?_,
    .accept hpushes (h.closed_eq ▸ hclosed) rfl rfl,
    ⟨h.capacity_eq, hcapacity.trans h.buffer_capacity_eq, hbuffer, h.closed_eq⟩, rfl, nofun⟩
  simp only [BlockingQueue.accept, bind, Except.bind, hemplace, pure, Except.pure]

theorem refuse (h : q.Represents f) {value : α} {left : Option α}
    (hpushes : op.pushes = some (value, left))
    (hreason : q.closed = true ∨ q.buffer.full = true ∧ op.patient = false) :
    Simulates f op q (q.refuse value) :=
  ⟨_, f, rfl, .refuse hpushes (by rwa [← h.closed_eq, ← h.full_iff]), h, rfl, fun _ => rfl⟩

theorem take (h : q.Represents f) {target : α} (hpops : op.pops = some target)
    (hempty : q.buffer.empty = false) : Simulates f op q q.take := by
  cases helements : f.elements with
  | nil => simp [h.empty_iff.mpr helements] at hempty
  | cons value rest =>
    have hbuffer := h.buffer
    rw [helements] at hbuffer
    obtain ⟨buffer, hpop, hrest, hcapacity⟩ := hbuffer.popFront_eq
    have hlength := f.bounded
    rw [helements, List.length_cons] at hlength
    refine ⟨⟨{ q with buffer := buffer }, .popped true value, [.one .notFull]⟩,
      ⟨rest, f.closed, by omega⟩, ?_, .take hpops helements rfl,
      ⟨h.capacity_eq, hcapacity.trans h.buffer_capacity_eq, hrest, h.closed_eq⟩, rfl, nofun⟩
    simp only [BlockingQueue.take, bind, Except.bind, hbuffer.front_eq, hpop, pure, Except.pure]

theorem noValue (h : q.Represents f) {target : α} (hpops : op.pops = some target)
    (hreason : q.buffer.empty = true ∧ (q.closed = true ∨ op.patient = false)) :
    Simulates f op q (q.noValue target) :=
  ⟨_, f, rfl, .noValue hpops (by rwa [← h.closed_eq, ← h.empty_iff]), h, rfl, fun _ => rfl⟩

theorem pushBatch (h : q.Represents f) {values : List α}
    (hready : q.pushBatchReady values = true) :
    Simulates f (.pushBatch values) q (q.pushBatch values) := by
  rw [BlockingQueue.pushBatch]
  split
  · rename_i hrefused
    refine ⟨_, f, rfl, .refuseBatch ?_, h, rfl, fun _ => rfl⟩
    rw [← h.closed_eq]
    simpa using hrefused
  · rename_i haccepted
    simp only [Bool.or_eq_true, not_or, Bool.not_eq_true, List.isEmpty_eq_false_iff]
      at haccepted
    obtain ⟨hgiven, hrunning⟩ := haccepted
    have hroom : f.elements.length < capacity := by
      simpa [pushBatchReady, hrunning, hgiven, h.buffer.size_eq, h.buffer_capacity_eq] using hready
    obtain ⟨buffer, hpush, hbuffer, hcapacity⟩ := h.buffer.pushBatch_eq values
    rw [h.buffer_capacity_eq] at hpush hbuffer
    simp only [hpush]
    refine ⟨_, ⟨_, f.closed, ?_⟩, rfl, .acceptBatch hgiven (h.closed_eq ▸ hrunning) hroom rfl rfl,
      ⟨h.capacity_eq, hcapacity.trans h.buffer_capacity_eq, hbuffer, h.closed_eq⟩, rfl,
      fun hfailed => ?_⟩
    · rw [List.length_append, List.length_take]
      omega
    · have := List.length_pos_iff.mpr hgiven
      have := Reply.eq_zero_of_pushedBatch hfailed
      omega

theorem popBatch (h : q.Represents f) {output : List α}
    (hready : q.popBatchReady output = true) :
    Simulates f (.popBatch output) q (q.popBatch output) := by
  rw [BlockingQueue.popBatch]
  split
  · rename_i hnothing
    exact ⟨_, f, rfl, .noBatch (.inl (List.isEmpty_iff.mp hnothing)), h, rfl, fun _ => rfl⟩
  · rename_i hwanted
    simp only [Bool.not_eq_true, List.isEmpty_eq_false_iff] at hwanted
    by_cases hempty : f.elements = []
    · have hclosed : f.closed = true := by
        rw [← h.closed_eq]
        simpa [popBatchReady, hwanted, h.empty_iff.mpr hempty] using hready
      have hpop := RingBuffer.Represents.popBatch_nil (hempty ▸ h.buffer) output
      simp only [bind, Except.bind, hpop, pure, Except.pure]
      exact ⟨_, f, rfl, .noBatch (.inr ⟨hempty, hclosed⟩), h, rfl, fun _ => rfl⟩
    · obtain ⟨buffer, hpop, hbuffer, hcapacity⟩ := h.buffer.popBatch_eq output
      simp only [bind, Except.bind, hpop, pure, Except.pure]
      refine ⟨_, ⟨_, f.closed, ?_⟩, rfl, .takeBatch hwanted hempty rfl rfl,
        ⟨h.capacity_eq, hcapacity.trans h.buffer_capacity_eq, hbuffer, h.closed_eq⟩, rfl,
        fun hfailed => ?_⟩
      · rw [List.length_drop]
        have := f.bounded
        omega
      · have := List.length_pos_iff.mpr hwanted
        have := List.length_pos_iff.mpr hempty
        have := Reply.eq_zero_of_poppedBatch hfailed
        omega

theorem close (h : q.Represents f) : Simulates f .close q q.close := by
  rw [BlockingQueue.close]
  split
  · rename_i hclosed
    exact ⟨_, f, rfl, .close rfl (h.closed_eq ▸ hclosed), h, by simp [Reply.notices, hclosed], nofun⟩
  · rename_i hrunning
    exact ⟨_, ⟨f.elements, true, f.bounded⟩, rfl, .close rfl rfl,
      ⟨h.capacity_eq, h.buffer_capacity_eq, h.buffer, rfl⟩, by simp [Reply.notices, hrunning], nofun⟩

theorem observe (h : q.Represents f) (observer : Observer) :
    Simulates f (.observe observer) q (q.observe observer) := by
  cases observer with
  | closed => exact ⟨_, f, rfl, by rw [h.closed_eq]; exact .observeClosed, h, rfl, nofun⟩
  | empty => exact ⟨_, f, rfl, by rw [h.buffer.empty_eq]; exact .observeEmpty, h, rfl, nofun⟩
  | full =>
    exact ⟨_, f, rfl, by rw [h.buffer.full_eq, h.buffer_capacity_eq]; exact .observeFull, h, rfl, nofun⟩
  | size => exact ⟨_, f, rfl, by rw [h.buffer.size_eq]; exact .observeSize, h, rfl, nofun⟩

theorem pushWaited (h : q.Represents f) {value : α} {left : Option α}
    (hpushes : op.pushes = some (value, left)) (hready : q.notFullReady = true) :
    Simulates f op q (if q.closed then q.refuse value else q.accept value left) := by
  split
  · rename_i hclosed
    exact h.refuse hpushes (.inl hclosed)
  · rename_i hrunning
    rw [Bool.not_eq_true] at hrunning
    exact h.accept hpushes hrunning (by simpa [notFullReady, hrunning] using hready)

theorem pushTried (h : q.Represents f) {value : α} {left : Option α}
    (hpushes : op.pushes = some (value, left)) (hpatient : op.patient = false) :
    Simulates f op q
      (if q.closed || q.buffer.full then q.refuse value else q.accept value left) := by
  split
  · rename_i hrefused
    rw [Bool.or_eq_true] at hrefused
    exact h.refuse hpushes (hrefused.imp_right fun hfull => ⟨hfull, hpatient⟩)
  · rename_i haccepted
    rw [Bool.or_eq_true, not_or, Bool.not_eq_true, Bool.not_eq_true] at haccepted
    exact h.accept hpushes haccepted.1 haccepted.2

theorem pushTimed (h : q.Represents f) {value : α} {left : Option α}
    (hpushes : op.pushes = some (value, left)) (hpatient : op.patient = false) :
    Simulates f op q
      (if q.notFullReady && !q.closed then q.accept value left else q.refuse value) := by
  cases hclosed : q.closed with
  | true => simpa [hclosed] using h.refuse hpushes (.inl hclosed)
  | false =>
    cases hfull : q.buffer.full with
    | true => simpa [notFullReady, hclosed, hfull] using h.refuse hpushes (.inr ⟨hfull, hpatient⟩)
    | false => simpa [notFullReady, hclosed, hfull] using h.accept hpushes hclosed hfull

theorem popWaited (h : q.Represents f) {target : α} (hpops : op.pops = some target)
    (hready : q.notEmptyReady = true) :
    Simulates f op q (if q.buffer.empty then q.noValue target else q.take) := by
  split
  · rename_i hempty
    exact h.noValue hpops ⟨hempty, .inl (by simpa [notEmptyReady, hempty] using hready)⟩
  · rename_i hstocked
    exact h.take hpops (Bool.not_eq_true _ ▸ hstocked)

theorem popTried (h : q.Represents f) {target : α} (hpops : op.pops = some target)
    (hpatient : op.patient = false) :
    Simulates f op q (if q.buffer.empty then q.noValue target else q.take) := by
  split
  · rename_i hempty
    exact h.noValue hpops ⟨hempty, .inr hpatient⟩
  · rename_i hstocked
    exact h.take hpops (Bool.not_eq_true _ ▸ hstocked)

theorem popTimed (h : q.Represents f) {target : α} (hpops : op.pops = some target)
    (hpatient : op.patient = false) :
    Simulates f op q
      (if q.notEmptyReady && !q.buffer.empty then q.take else q.noValue target) := by
  cases hempty : q.buffer.empty with
  | true => simpa [hempty] using h.noValue hpops ⟨hempty, .inr hpatient⟩
  | false => simpa [notEmptyReady, hempty] using h.take hpops hempty

/-- Every call does what it may do on the FIFO, provided that its wait has ended as it should. -/
theorem attempt (h : q.Represents f) (hready : op.ready q = true ∨ op.patient = false) :
    Simulates f op q (op.attempt (op.ready q) q) := by
  cases op with
  | push => exact h.pushWaited rfl (hready.resolve_right Bool.noConfusion)
  | pushMove => exact h.pushWaited rfl (hready.resolve_right Bool.noConfusion)
  | emplace => exact h.pushWaited rfl (hready.resolve_right Bool.noConfusion)
  | pop => exact h.popWaited rfl (hready.resolve_right Bool.noConfusion)
  | tryPush => exact h.pushTried rfl rfl
  | tryPushMove => exact h.pushTried rfl rfl
  | tryEmplace => exact h.pushTried rfl rfl
  | pushFor => exact h.pushTimed rfl rfl
  | pushForMove => exact h.pushTimed rfl rfl
  | emplaceFor => exact h.pushTimed rfl rfl
  | tryPop => exact h.popTried rfl rfl
  | popFor => exact h.popTimed rfl rfl
  | pushBatch => exact h.pushBatch (hready.resolve_right Bool.noConfusion)
  | popBatch => exact h.popBatch (hready.resolve_right Bool.noConfusion)
  | close => exact h.close
  | observe observer => exact h.observe observer

end Represents

end BlockingQueue

end UnixNotes.Queue
