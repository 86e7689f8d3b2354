import UnixNotes.Queue.Fifo

namespace UnixNotes.Queue

variable {α : Type}

namespace Operation

/-- The caller's value or output is what it was before the call. -/
def Untouched : Operation α → Reply α → Prop
  | .push value, .pushed _ left | .pushMove value, .pushed _ left | .emplace value, .pushed _ left
  | .tryPush value, .pushed _ left | .tryPushMove value, .pushed _ left
  | .tryEmplace value, .pushed _ left | .pushFor value, .pushed _ left
  | .pushForMove value, .pushed _ left | .emplaceFor value, .pushed _ left => left = some value
  | .pop target, .popped _ value | .tryPop target, .popped _ value
  | .popFor target, .popped _ value => value = target
  | .popBatch output, .poppedBatch _ after => after = output
  | _, _ => True

theorem given_pushed {op : Operation α} {value : α} {left reply : Option α}
    (h : op.pushes = some (value, left)) : op.given (.pushed true reply) = [value] := by
  cases op <;> cases h <;> rfl

theorem given_refused {op : Operation α} {left : Option α} : op.given (.pushed false left) = [] := by
  cases op <;> rfl

theorem given_popped {op : Operation α} {ok : Bool} {value : α} :
    op.given (.popped ok value) = [] := by
  cases op <;> rfl

theorem given_poppedBatch {op : Operation α} {count : Nat} {output : List α} :
    op.given (.poppedBatch count output) = [] := by
  cases op <;> rfl

theorem untouched_pushed {op : Operation α} {value : α} {left : Option α} {ok : Bool}
    (h : op.pushes = some (value, left)) : op.Untouched (.pushed ok (some value)) := by
  cases op <;> cases h <;> rfl

theorem untouched_popped {op : Operation α} {target : α} {ok : Bool} (h : op.pops = some target) :
    op.Untouched (.popped ok target) := by
  cases op <;> cases h <;> rfl

end Operation

namespace Fifo.Does

variable {capacity : Nat} {f f' : Fifo α capacity} {op : Operation α} {reply : Reply α}

theorem conserves (h : f.Does op reply f') :
    f.elements ++ op.given reply = reply.taken ++ f'.elements := by
  cases h with
  | accept pushes _ elements _ => rw [Operation.given_pushed pushes, elements]; rfl
  | refuse => rw [Operation.given_refused, List.append_nil]; rfl
  | take _ elements _ => rw [Operation.given_popped, List.append_nil, elements]; rfl
  | noValue => rw [Operation.given_popped, List.append_nil]; rfl
  | acceptBatch _ _ _ elements _ => rw [elements]; rfl
  | refuseBatch => exact List.append_nil _
  | takeBatch wanted stocked elements _ =>
    rw [elements, Operation.given_poppedBatch, List.append_nil, Reply.taken,
      List.take_append_of_le_length (by rw [List.length_take]; omega), List.take_take, min_self,
      List.take_append_drop]
  | noBatch => exact List.append_nil _
  | close elements _ => rw [elements]; exact List.append_nil _
  | _ => exact List.append_nil _

theorem given_of_closed (h : f.Does op reply f') (hclosed : f.closed = true) :
    op.given reply = [] := by
  cases h with
  | accept _ running _ _ => rw [hclosed] at running; cases running
  | acceptBatch _ running _ _ _ => rw [hclosed] at running; cases running
  | refuse => exact Operation.given_refused
  | take => exact Operation.given_popped
  | noValue => exact Operation.given_popped
  | _ => rfl

theorem closed_of_closed (h : f.Does op reply f') (hclosed : f.closed = true) :
    f'.closed = true := by
  cases h with
  | accept _ _ _ closed => rw [closed, hclosed]
  | take _ _ closed => rw [closed, hclosed]
  | acceptBatch _ _ _ _ closed => rw [closed, hclosed]
  | takeBatch _ _ _ closed => rw [closed, hclosed]
  | close _ closed => exact closed
  | _ => exact hclosed

theorem untouched_of_failed (h : f.Does op reply f') (hfailed : reply.failed = true) :
    f' = f ∧ op.Untouched reply := by
  cases h with
  | refuse pushes _ => exact ⟨rfl, Operation.untouched_pushed pushes⟩
  | noValue pops _ => exact ⟨rfl, Operation.untouched_popped pops⟩
  | acceptBatch given _ room _ _ =>
    have := List.length_pos_iff.mpr given
    have := Reply.eq_zero_of_pushedBatch hfailed
    omega
  | takeBatch wanted stocked _ _ =>
    have := List.length_pos_iff.mpr wanted
    have := List.length_pos_iff.mpr stocked
    have := Reply.eq_zero_of_poppedBatch hfailed
    omega
  | refuseBatch => exact ⟨rfl, trivial⟩
  | noBatch => exact ⟨rfl, rfl⟩
  | _ => cases hfailed

theorem empty_of_failed_pop {target : α} (h : f.Does (.pop target) reply f')
    (hfailed : reply.failed = true) : f.elements = [] ∧ f.closed = true := by
  cases h with
  | accept pushes => cases pushes
  | refuse pushes => cases pushes
  | take => cases hfailed
  | noValue _ reason => exact ⟨reason.1, reason.2.resolve_right Bool.noConfusion⟩

theorem empty_of_failed_popBatch {output : List α} (h : f.Does (.popBatch output) reply f')
    (hfailed : reply.failed = true) : output = [] ∨ f.elements = [] ∧ f.closed = true := by
  cases h with
  | accept pushes => cases pushes
  | refuse pushes => cases pushes
  | take pops => cases pops
  | noValue pops => cases pops
  | takeBatch wanted stocked _ _ =>
    have := List.length_pos_iff.mpr wanted
    have := List.length_pos_iff.mpr stocked
    have := Reply.eq_zero_of_poppedBatch hfailed
    omega
  | noBatch reason => exact reason

end Fifo.Does

end UnixNotes.Queue
