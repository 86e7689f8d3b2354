import UnixNotes.Logger.RingThreads

namespace UnixNotes.Logger.Ring

/-! Runs in which the consumer, thread 0, and one producer, thread 1, take turns. -/

variable {α : Type} {P : UInt64 → Nat → Nat → Prop} {c₀ : Config α} {ring ring' : MpscRingBuffer α}
  {passed : Option α} {call : RingCall α} {consumer producer rest : List (Instr α)}
  {others : List (List (Instr α))}

def pair (ring : MpscRingBuffer α) (consumer producer : List (Instr α))
    (others : List (List (Instr α))) : Config α :=
  ⟨ring, consumer :: producer :: others⟩

def Counts (P : UInt64 → Nat → Nat → Prop) (ring : MpscRingBuffer α) : Prop :=
  P ring.capacity ring.claimed.length ring.released

abbrev RunUnder (P : UInt64 → Nat → Nat → Prop) (c₀ c : Config α) : Prop :=
  machine.Run (fun c _ _ => Counts P c.shared) c₀ c

theorem producer_step (call' : RingCall α)
    (h : RunUnder P c₀ (pair ring consumer (.calling passed call :: rest) others))
    (hP : Counts P ring) (hexec : call.exec 1 false ring = (ring', .running call')) :
    RunUnder P c₀ (pair ring' consumer (.calling passed call' :: rest) others) := by
  refine h.next (t := 1) (x := .next) (fun _ _ => hP) ?_
  simp only [Library.Machine.next, pair, machine, Library.Config.stack, List.getD_cons_succ,
    List.getD_cons_zero, Instr.exec, Choice.fails, hexec]
  rfl

theorem consumer_step (call' : RingCall α)
    (h : RunUnder P c₀ (pair ring (.calling passed call :: rest) producer others))
    (hP : Counts P ring) (hexec : call.exec 0 false ring = (ring', .running call')) :
    RunUnder P c₀ (pair ring' (.calling passed call' :: rest) producer others) := by
  refine h.next (t := 0) (x := .next) (fun _ _ => hP) ?_
  simp only [Library.Machine.next, pair, machine, Library.Config.stack, List.getD_cons_zero,
    Instr.exec, Choice.fails, hexec]
  rfl

def filled (ring : MpscRingBuffer α) (p : UInt64) (value : α) : MpscRingBuffer α :=
  (((ring.claim 1 (some value) p).setValue p none).setValue p (some value)).setSequence p (p + 1)

theorem producer_round {p : UInt64} (value : α)
    (h : RunUnder P c₀ (pair ring [.consumer] [.producer] others)) (hp : ring.enqueuePosition = p)
    (hfree : (ring.cell p).sequence = p) (hP : Counts P ring)
    (hclaim : Counts P (ring.claim 1 (some value) p)) :
    RunUnder P c₀ (pair (filled ring p value) [.consumer] [.producer] others) := by
  subst hp
  have hcalled : RunUnder P c₀ (pair ring [.consumer]
      [.calling (some value) (.tryEnqueue (some value)), .producer] others) :=
    h.next (t := 1) (x := .enqueue value) (fun _ _ => hP) rfl
  have hloaded := producer_step (.loadSequence (some value) ring.enqueuePosition) hcalled hP rfl
  have hfound := producer_step (.compareExchange (some value) ring.enqueuePosition) hloaded hP <| by
    simp only [RingCall.exec, MpscRingBuffer.difference_eq_zero.mpr hfree, if_true]
    rfl
  have hclaimed := producer_step (.beginWrite (some value) ring.enqueuePosition) hfound hP <| by
    simp only [RingCall.exec, Bool.not_false, and_self, if_true]
    rfl
  have hwriting := producer_step (.endWrite (some value) ring.enqueuePosition) hclaimed hclaim rfl
  have hwritten := producer_step (.publish ring.enqueuePosition) hwriting hclaim rfl
  have hpublished : RunUnder P c₀ (pair (filled ring ring.enqueuePosition value) [.consumer]
      [.returned (some value) (.tryEnqueue true none), .producer] others) :=
    hwritten.next (t := 1) (x := .next) (fun _ _ => hclaim) rfl
  exact hpublished.next (t := 1) (x := .next) (fun _ _ => hclaim) rfl

def emptied (ring : MpscRingBuffer α) (p : UInt64) (value : Option α) : MpscRingBuffer α :=
  ((ring.take p value).release p).advance p

theorem consumer_round {p : UInt64} (h : RunUnder P c₀ (pair ring [.consumer] [.producer] others))
    (hp : ring.dequeuePosition = p) (hpublished : (ring.cell p).sequence = p + 1)
    (hP : Counts P ring) (hrelease : P ring.capacity ring.claimed.length (ring.released + 1)) :
    ∃ value, RunUnder P c₀ (pair (emptied ring p value) [.consumer] [.producer] others) := by
  subst hp
  have hcalled : RunUnder P c₀
      (pair ring [.calling none .tryDequeue, .consumer] [.producer] others) :=
    h.next (t := 0) (x := .next) (fun _ _ => hP) rfl
  have hloaded := consumer_step (.loadPublished ring.dequeuePosition) hcalled hP rfl
  have hfound := consumer_step (.beginRead ring.dequeuePosition) hloaded hP <| by
    simp only [RingCall.exec, hpublished, if_true]
    rfl
  have hreading := consumer_step _ hfound hP rfl
  have hread := consumer_step _ hreading hP rfl
  have hreleased := consumer_step _ hread hP rfl
  have hreturned := hreleased.next (t := 0) (x := .next) (fun _ _ => hrelease) rfl
  exact ⟨_, hreturned.next (t := 0) (x := .next) (fun _ _ => hrelease) rfl⟩

theorem filled_cell (p : UInt64) (value : α) : ((filled ring p value).cell p).sequence = p + 1 := by
  simp only [filled, MpscRingBuffer.cell, MpscRingBuffer.setSequence, MpscRingBuffer.setCell,
    MpscRingBuffer.index, Function.update_self]

theorem round_cells_ne {p : UInt64} {i : Nat} (written : α) (read : Option α) (h : i ≠ ring.index p) :
    (emptied (filled ring p written) p read).cells i = ring.cells i := by
  rw [MpscRingBuffer.index] at h
  simp only [emptied, filled, MpscRingBuffer.advance, MpscRingBuffer.release, MpscRingBuffer.take,
    MpscRingBuffer.setSequence, MpscRingBuffer.setValue, MpscRingBuffer.setCell,
    MpscRingBuffer.claim, MpscRingBuffer.index, Function.update_of_ne h]

theorem round_cells_self {p : UInt64} (written : α) (read : Option α) :
    ((emptied (filled ring p written) p read).cells (ring.index p)).sequence = p + ring.capacity := by
  simp only [emptied, filled, MpscRingBuffer.advance, MpscRingBuffer.release, MpscRingBuffer.take,
    MpscRingBuffer.setSequence, MpscRingBuffer.setValue, MpscRingBuffer.setCell,
    MpscRingBuffer.claim, MpscRingBuffer.index, Function.update_self]

end UnixNotes.Logger.Ring
