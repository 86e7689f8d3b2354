import Mathlib.Logic.Relation
import UnixNotes.Timer.Scheduler

namespace UnixNotes.Timer

/-- What there is of a timer: its record, how many nodes of the heap it has, how many entries of the
batch and wrappers that have not begun, and how many wrappers that have, how often its callback was
started or is about to be, and how often `cancel` returned true. -/
structure Life where
  record : Option TimerState
  heap : Nat
  waiting : Nat
  running : Nat
  starts : Nat
  cancels : Nat

namespace Life

variable {l l' : Life}

/-- What can become of a timer that is not scheduled again. -/
inductive Moves : Life → Life → Prop
  | cancel (state : TimerState) (heap waiting running starts cancels : Nat)
      (live : state ≠ .cancelled) :
      Moves ⟨some state, heap, waiting, running, starts, cancels⟩
        ⟨some .cancelled, heap, waiting, running, starts, cancels + 1⟩
  | requestStop (heap waiting running starts cancels : Nat) :
      Moves ⟨some .pending, heap, waiting, running, starts, cancels⟩
        ⟨some .cancelled, heap, waiting, running, starts, cancels⟩
  | clear (record : Option TimerState) (heap waiting starts cancels : Nat) :
      Moves ⟨record, heap, waiting, 0, starts, cancels⟩ ⟨none, 0, waiting, 0, starts, cancels⟩
  | expire (heap waiting running starts cancels : Nat) :
      Moves ⟨some .pending, heap + 1, waiting, running, starts, cancels⟩
        ⟨some .submitted, heap, waiting + 1, running, starts, cancels⟩
  | popCancelled (heap waiting running starts cancels : Nat) :
      Moves ⟨some .cancelled, heap + 1, waiting, running, starts, cancels⟩
        ⟨none, heap, waiting, running, starts, cancels⟩
  | pop {record : Option TimerState} (heap waiting running starts cancels : Nat)
      (unexpected : record ≠ some .pending ∧ record ≠ some .cancelled) :
      Moves ⟨record, heap + 1, waiting, running, starts, cancels⟩
        ⟨record, heap, waiting, running, starts, cancels⟩
  | discard (record : Option TimerState) (heap waiting running starts cancels : Nat) :
      Moves ⟨record, heap, waiting + 1, running, starts, cancels⟩
        ⟨none, heap, waiting, running, starts, cancels⟩
  | skip {record : Option TimerState} (heap waiting running starts cancels : Nat)
      (unexpected : record ≠ some .submitted ∧ record ≠ some .cancelled) :
      Moves ⟨record, heap, waiting + 1, running, starts, cancels⟩
        ⟨record, heap, waiting, running, starts, cancels⟩
  | enter (heap waiting running starts cancels : Nat) :
      Moves ⟨some .submitted, heap, waiting + 1, running, starts, cancels⟩
        ⟨some .executing, heap, waiting, running + 1, starts + 1, cancels⟩
  | again (heap waiting running starts cancels : Nat) :
      Moves ⟨some .executing, heap, waiting, running + 1, starts, cancels⟩
        ⟨some .pending, heap + 1, waiting, running, starts, cancels⟩
  | leave (record : Option TimerState) (heap waiting running starts cancels : Nat) :
      Moves ⟨record, heap, waiting, running + 1, starts, cancels⟩
        ⟨none, heap, waiting, running, starts, cancels⟩

def schedule (l : Life) : Life :=
  { l with record := some (l.record.getD .pending), heap := l.heap + 1 }

def Unused (l : Life) : Prop :=
  l.record = none ∧ l.heap = 0 ∧ l.waiting = 0 ∧ l.running = 0

instance (l : Life) : Decidable l.Unused := inferInstanceAs (Decidable (_ ∧ _ ∧ _ ∧ _))

/-- A record has one carrier, in the place that the record says. -/
def Carried : Life → Prop
  | ⟨none, heap, _, running, _, _⟩ => heap = 0 ∧ running = 0
  | ⟨some .pending, heap, waiting, running, _, _⟩ => heap = 1 ∧ waiting = 0 ∧ running = 0
  | ⟨some .submitted, heap, waiting, running, _, _⟩ => heap = 0 ∧ waiting = 1 ∧ running = 0
  | ⟨some .executing, heap, waiting, running, _, _⟩ => heap = 0 ∧ waiting = 0 ∧ running = 1
  | ⟨some .cancelled, heap, waiting, running, _, _⟩ => heap + waiting + running = 1

theorem Moves.carried (h : Moves l l') (hcarried : l.Carried) : l'.Carried := by
  cases h with
  | cancel state heap waiting running starts cancels live =>
    cases state <;> simp only [Carried] at hcarried ⊢ <;> omega
  | clear => exact ⟨rfl, rfl⟩
  | @pop record heap waiting running starts cancels unexpected =>
    cases record with
    | none => cases hcarried.1
    | some state =>
      cases state with
      | pending => exact absurd rfl unexpected.1
      | cancelled => exact absurd rfl unexpected.2
      | _ => cases hcarried.1
  | discard record heap waiting running starts cancels =>
    cases record with
    | none => exact hcarried
    | some state => cases state <;> simp only [Carried] at hcarried ⊢ <;> omega
  | @skip record heap waiting running starts cancels unexpected =>
    cases record with
    | none => exact hcarried
    | some state =>
      cases state with
      | submitted => exact absurd rfl unexpected.1
      | cancelled => exact absurd rfl unexpected.2
      | _ => cases hcarried.2.1
  | leave record heap waiting running starts cancels =>
    cases record with
    | none => cases hcarried.2
    | some state => cases state <;> simp only [Carried] at hcarried ⊢ <;> omega
  | _ => simp only [Carried] at hcarried ⊢; omega

theorem Unused.carried_schedule (h : l.Unused) : l.schedule.Carried := by
  obtain ⟨record, heap, waiting, running, starts, cancels⟩ := l
  obtain ⟨rfl, rfl, rfl, rfl⟩ := h
  exact ⟨rfl, rfl, rfl⟩

theorem Carried.running_le_one (h : l.Carried) : l.running ≤ 1 := by
  obtain ⟨record, heap, waiting, running, starts, cancels⟩ := l
  rcases record with _ | _ | _ | _ | _ <;> simp only [Carried] at h ⊢ <;> omega

theorem Carried.one (h : l.Carried) {state : TimerState} (hrecord : l.record = some state) :
    l.heap + l.waiting + l.running = 1 := by
  obtain ⟨record, heap, waiting, running, starts, cancels⟩ := l
  subst hrecord
  cases state <;> simp only [Carried] at h ⊢ <;> omega

theorem Carried.pending (h : l.Carried) (hrecord : l.record = some .pending) : l.heap = 1 := by
  obtain ⟨record, heap, waiting, running, starts, cancels⟩ := l
  subst hrecord
  exact h.1

theorem Carried.submitted (h : l.Carried) (hrecord : l.record = some .submitted) :
    l.waiting = 1 := by
  obtain ⟨record, heap, waiting, running, starts, cancels⟩ := l
  subst hrecord
  exact h.2.1

theorem Carried.executing (h : l.Carried) (hrecord : l.record = some .executing) :
    l.running = 1 := by
  obtain ⟨record, heap, waiting, running, starts, cancels⟩ := l
  subst hrecord
  exact h.2.2

theorem Carried.of_node (h : l.Carried) (hnode : 0 < l.heap) :
    l.record = some .pending ∨ l.record = some .cancelled := by
  obtain ⟨record, heap, waiting, running, starts, cancels⟩ := l
  rcases record with _ | _ | _ | _ | _
  · exact absurd h.1 (Nat.ne_of_gt hnode)
  · exact .inl rfl
  · exact absurd h.1 (Nat.ne_of_gt hnode)
  · exact absurd h.1 (Nat.ne_of_gt hnode)
  · exact .inr rfl

def blank : Life := ⟨none, 0, 0, 0, 0, 0⟩

theorem Moves.blank (h : Moves l l') (hblank : l = .blank) : l' = .blank := by
  cases h with
  | clear => cases hblank; rfl
  | _ => cases hblank

/-- `cancel` has returned true at most once, and has left the mark. -/
def Spent (l : Life) : Prop :=
  l.cancels = 0 ∨ l.cancels = 1 ∧ (l.record = none ∨ l.record = some .cancelled)

theorem Moves.spent (h : Moves l l') (hspent : l.Spent) : l'.Spent := by
  cases h with
  | cancel state heap waiting running starts cancels live =>
    obtain hzero | ⟨-, hdead⟩ := hspent
    · exact .inr ⟨congrArg (· + 1) hzero, .inr rfl⟩
    · obtain hdead | hdead := hdead
      · cases hdead
      · exact absurd (Option.some.inj hdead) live
  | requestStop => exact hspent.imp_right fun hone => ⟨hone.1, .inr rfl⟩
  | clear | popCancelled | discard | leave =>
    exact hspent.imp_right fun hone => ⟨hone.1, .inl rfl⟩
  | pop | skip => exact hspent
  | expire | enter | again => exact hspent.imp_right fun hone => by simp at hone

theorem Moves.cancelled (h : Moves l l') (hspent : l.Spent) (hcancelled : 0 < l.cancels) :
    l'.starts = l.starts ∧ l'.heap ≤ l.heap ∧ 0 < l'.cancels := by
  have hdead := (hspent.resolve_left (by omega)).2
  cases h with
  | cancel => exact ⟨rfl, Nat.le_refl _, Nat.succ_pos _⟩
  | enter | again => simp at hdead
  | clear => exact ⟨rfl, Nat.zero_le _, hcancelled⟩
  | expire | popCancelled | pop => exact ⟨rfl, Nat.le_succ _, hcancelled⟩
  | _ => exact ⟨rfl, Nat.le_refl _, hcancelled⟩

end Life

end UnixNotes.Timer
