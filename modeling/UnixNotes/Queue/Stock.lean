import UnixNotes.Library.Loads
import UnixNotes.Queue.Moves

namespace UnixNotes.Queue

open Library

variable {α : Type}

/-- What those who wait on a condition variable wait for: elements or free slots. -/
def BlockingQueue.stock (q : BlockingQueue α) : Condition → Nat
  | .notEmpty => q.buffer.size
  | .notFull => q.buffer.capacity - q.buffer.size

def Operation.asks : Condition → Operation α → Nat
  | .notEmpty, .pop _ | .notEmpty, .tryPop _ | .notEmpty, .popFor _ => 1
  | .notEmpty, .popBatch output => output.length
  | .notFull, .push _ | .notFull, .pushMove _ | .notFull, .emplace _ | .notFull, .tryPush _
  | .notFull, .tryPushMove _ | .notFull, .tryEmplace _ | .notFull, .pushFor _
  | .notFull, .pushForMove _ | .notFull, .emplaceFor _ => 1
  | .notFull, .pushBatch values => values.length
  | _, _ => 0

def Reply.adds : Condition → Reply α → Nat
  | .notEmpty, .pushed true _ => 1
  | .notEmpty, .pushedBatch count => count
  | .notFull, .popped true _ => 1
  | .notFull, .poppedBatch count _ => count
  | _, _ => 0

theorem Operation.asks_of_pushes {op : Operation α} {value : α} {left : Option α}
    (h : op.pushes = some (value, left)) : op.asks .notFull = 1 ∧ op.asks .notEmpty = 0 := by
  cases op <;> cases h <;> exact ⟨rfl, rfl⟩

theorem Operation.asks_of_pops {op : Operation α} {target : α} (h : op.pops = some target) :
    op.asks .notEmpty = 1 ∧ op.asks .notFull = 0 := by
  cases op <;> cases h <;> exact ⟨rfl, rfl⟩

theorem Operation.asks_of_wait {op : Operation α} {wait : Wait} (h : op.wait = some wait)
    {condition : Condition} (hne : condition ≠ wait.condition) : op.asks condition = 0 := by
  cases op <;> cases h <;> cases condition <;> first | rfl | exact absurd rfl hne

namespace Fifo

variable {capacity : Nat} {f f' : Fifo α capacity} {op : Operation α} {reply : Reply α}

def stock (f : Fifo α capacity) : Condition → Nat
  | .notEmpty => f.elements.length
  | .notFull => capacity - f.elements.length

theorem stock_eq {q : BlockingQueue α} (h : q.Represents f) (condition : Condition) :
    q.stock condition = f.stock condition := by
  cases condition with
  | notEmpty => exact h.buffer.size_eq
  | notFull => rw [BlockingQueue.stock, h.buffer.size_eq, h.buffer_capacity_eq, stock]

theorem Does.stock (h : f.Does op reply f') (condition : Condition) :
    f'.stock condition + reply.adds condition.other = f.stock condition + reply.adds condition := by
  have hbounded := f'.bounded
  cases h with
  | accept _ _ elements _ =>
    rw [elements, List.length_append, List.length_singleton] at hbounded
    cases condition <;> simp [Fifo.stock, elements, Reply.adds, Condition.other]
    all_goals omega
  | take _ elements _ =>
    have := f.bounded
    rw [elements, List.length_cons] at this
    cases condition <;> simp [Fifo.stock, elements, Reply.adds, Condition.other]
    all_goals omega
  | acceptBatch _ _ _ elements _ =>
    cases condition <;>
      simp only [Fifo.stock, elements, Reply.adds, Condition.other, List.length_append,
        List.length_take] <;> omega
  | takeBatch _ _ elements _ =>
    have := f.bounded
    cases condition <;>
      simp only [Fifo.stock, elements, Reply.adds, Condition.other, List.length_drop] <;> omega
  | close elements _ => cases condition <;> simp [Fifo.stock, elements, Reply.adds]
  | _ => cases condition <;> rfl

theorem Does.sated (h : f.Does op reply f') (hrunning : f.closed = false) (condition : Condition) :
    reply.adds condition.other = op.asks condition ∨ f'.stock condition = 0 := by
  cases h with
  | accept pushes =>
    obtain ⟨hfull, hempty⟩ := Operation.asks_of_pushes pushes
    cases condition with
    | notEmpty => exact .inl hempty.symm
    | notFull => exact .inl hfull.symm
  | refuse pushes reason =>
    obtain ⟨hfull, hempty⟩ := Operation.asks_of_pushes pushes
    obtain hclosed | ⟨hlength, -⟩ := reason
    · rw [hrunning] at hclosed
      cases hclosed
    · cases condition with
      | notEmpty => exact .inl hempty.symm
      | notFull => exact .inr (by simp [Fifo.stock, hlength])
  | take pops =>
    obtain ⟨hempty, hfull⟩ := Operation.asks_of_pops pops
    cases condition with
    | notEmpty => exact .inl hempty.symm
    | notFull => exact .inl hfull.symm
  | noValue pops reason =>
    obtain ⟨hempty, hfull⟩ := Operation.asks_of_pops pops
    cases condition with
    | notEmpty => exact .inr (by simp [Fifo.stock, reason.1])
    | notFull => exact .inl hfull.symm
  | acceptBatch _ _ _ elements _ =>
    cases condition with
    | notEmpty => exact .inl rfl
    | notFull =>
      simp only [Fifo.stock, elements, Reply.adds, Condition.other, Operation.asks,
        List.length_append, List.length_take]
      omega
  | refuseBatch reason =>
    obtain rfl | hclosed := reason
    · cases condition <;> exact .inl rfl
    · rw [hrunning] at hclosed
      cases hclosed
  | takeBatch _ _ elements _ =>
    cases condition with
    | notEmpty =>
      simp only [Fifo.stock, elements, Reply.adds, Condition.other, Operation.asks,
        List.length_drop]
      omega
    | notFull => exact .inl rfl
  | noBatch reason =>
    obtain rfl | ⟨-, hclosed⟩ := reason
    · cases condition <;> exact .inl rfl
    · rw [hrunning] at hclosed
      cases hclosed
  | _ => cases condition <;> exact .inl rfl

end Fifo

end UnixNotes.Queue
