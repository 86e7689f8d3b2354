import UnixNotes.Logger.RingRounds

namespace UnixNotes.Logger

variable {α : Type}

theorem RingCall.missed_of_exec {t : Nat} {fails : Bool} {ring ring' : MpscRingBuffer α}
    {call : RingCall α} {value : Option α}
    (hexec : call.exec t fails ring = (ring', .returned (.tryDequeue false value))) :
    ∃ position, call = .loadPublished position ∧ (ring.cell position).sequence ≠ position + 1 := by
  cases call with
  | loadPublished position =>
    simp only [RingCall.exec] at hexec
    split at hexec
    · cases hexec
    · rename_i hsequence
      exact ⟨position, rfl, hsequence⟩
  | _ =>
    simp only [RingCall.exec] at hexec
    (repeat' split at hexec) <;> cases hexec

namespace Ring

def InRange (capacity : UInt64) (claimed _released : Nat) : Prop :=
  claimed + capacity.toNat < 2 ^ 64

structure Bounded (c : Config α) : Prop where
  occupied : c.shared.claimed.length ≤ c.shared.dequeued.length + c.shared.capacity.toNat
  /-- A `compareExchange` that is about to succeed claims a cell without a value. -/
  claims : ∀ t value position, calls c t = some (.compareExchange value position) →
    c.shared.enqueuePosition = position → ∀ p, c.shared.dequeued.length ≤ p →
    p < c.shared.claimed.length → p % c.shared.capacity.toNat ≠ c.shared.index position
  /-- A value stays in its cell until it is dequeued. -/
  kept : ∀ p, c.shared.dequeued.length ≤ p → p < c.shared.claimed.length →
    (∃ t, (calls c).Writes t p) ∨ c.shared.claimed[p]?.map Prod.snd =
      some (c.shared.cells (p % c.shared.capacity.toNat)).value
  /-- No call of `tryDequeue` fails while the producers are idle and values remain. -/
  found : (∀ t, t ≠ 0 → calls c t = none) → c.shared.dequeued.length < c.shared.claimed.length →
    ∀ i c' passed value rest, machine.Step c 0 i c' →
      c'.stack 0 ≠ .returned passed (.tryDequeue false value) :: rest

section Invariant

variable {ring : MpscRingBuffer α} {calls : RingCalls α}

theorem claims_of_inv (inv : RingInv ring calls) {t : Nat} {value : Option α} {position : UInt64}
    (hcall : calls t = some (.compareExchange value position))
    (heq : ring.enqueuePosition = position) {p : Nat} (hp : ring.dequeued.length ≤ p)
    (hlt : p < ring.claimed.length) : p % ring.capacity.toNat ≠ ring.index position := by
  subst heq
  have hfree := (inv.ok t _ hcall).2 inv.position
  have hreleased := inv.released_le_dequeued
  rw [MpscRingBuffer.index_eq, inv.position]
  intro hmod
  have := MpscRingBuffer.eq_of_mod_eq (Nat.le_trans hreleased hp) (by omega) inv.released hfree hmod
  omega

theorem kept_of_inv (inv : RingInv ring calls) {p : Nat} (hp : ring.dequeued.length ≤ p)
    (hlt : p < ring.claimed.length) : (∃ t, calls.Writes t p) ∨
      ring.claimed[p]?.map Prod.snd = some (ring.cells (p % ring.capacity.toNat)).value := by
  by_cases hwrites : ∃ t, calls.Writes t p
  · exact .inl hwrites
  · refine .inr ((inv.cells p (Nat.le_trans inv.released_le_dequeued hp) ?_).value
      ⟨hlt, not_exists.mp hwrites⟩ hp)
    exact Nat.lt_of_lt_of_le hlt inv.room

theorem sequence_of_idle (inv : RingInv ring calls) (hcapacity : 0 < ring.capacity.toNat)
    (hidle : ∀ t, t ≠ 0 → calls t = none) (hlt : ring.dequeued.length < ring.claimed.length)
    {position : UInt64} (hcall : calls 0 = some (.loadPublished position)) :
    (ring.cell position).sequence = position + 1 := by
  obtain ⟨hrest, rfl⟩ := inv.ok 0 _ hcall
  have hpublished : ring.Published calls ring.released := by
    refine ⟨hrest.dequeued ▸ hlt, fun t hwrites => ?_⟩
    obtain ⟨call, hmem, position, hposition, -⟩ := hwrites
    by_cases ht : t = 0
    · subst ht
      cases hcall.symm.trans hmem
      cases hposition
    · rw [hidle t ht] at hmem
      cases hmem
  have hsequence := (inv.cells _ (Nat.le_refl _) (by omega)).published hpublished
  rw [← hrest.position, ← MpscRingBuffer.cell_eq] at hsequence
  refine UInt64.toNat_inj.mp (hsequence.trans (inv.toNat_succ ?_).symm)
  rw [hrest.position, ← hrest.dequeued]
  exact hlt

end Invariant

theorem bounded_of_inv {capacity : UInt64} {c : Config α} (h : Inv capacity c)
    (hcapacity : 2 ≤ capacity.toNat)
    (hrange : c.shared.claimed.length + capacity.toNat ≤ 2 ^ 64) : Bounded c := by
  have inv := h.ring hrange
  have hreleased := inv.released_le_dequeued
  refine ⟨Nat.le_trans inv.room (Nat.add_le_add_right hreleased _), ?_, ?_, ?_⟩
  · exact fun t value position hcall heq p hp hlt => claims_of_inv inv hcall heq hp hlt
  · exact fun p hp hlt => kept_of_inv inv hp hlt
  · intro hidle hlt i c' passed value rest hstep hmissed
    obtain @⟨rest', x, ring, pushed, htop, hexec⟩ := hstep
    have hcall : calls c 0 = i.call? := Library.Config.heads_of_top _ htop
    rw [Library.Config.stack_replace_self htop] at hmissed
    cases effect_of_exec hexec with
    | producer => cases hmissed
    | consumer => cases hmissed
    | running => cases hmissed
    | returning hcallexec =>
      cases hmissed
      obtain ⟨position, rfl, hsequence⟩ := RingCall.missed_of_exec hcallexec
      exact hsequence (sequence_of_idle inv (by rw [h.capacity_eq]; omega) hidle hlt hcall)
    | returned =>
      have hhead := h.shape.heads 0 (.returned passed (.tryDequeue false value))
      rw [htop, List.tail_cons, ← List.nil_append rest', hmissed] at hhead
      exact hhead (List.mem_cons_self ..) rfl

theorem bounded_of_run {capacity : UInt64} {n : Nat} {c : Config α}
    (hcapacity : 2 ≤ capacity.toNat)
    (h : RunUnder InRange (init (MpscRingBuffer.new capacity) n) c) : Bounded c := by
  have hinv : Inv capacity c ∧ c.shared.claimed.length + capacity.toNat ≤ 2 ^ 64 := by
    refine h.invariant
      (I := fun c => Inv capacity c ∧ c.shared.claimed.length + capacity.toNat ≤ 2 ^ 64)
      ⟨Inv.init, ?_⟩ fun {c c' t i} ⟨hinv, _⟩ hrange hstep => ⟨hinv.step hcapacity hstep, ?_⟩
    · have := capacity.toNat_lt
      exact Nat.le_of_lt ((Nat.zero_add _).symm ▸ this)
    · have hlength := claimed_le_of_step hstep
      simp only [Counts, InRange, hinv.capacity_eq] at hrange
      omega
  exact bounded_of_inv hinv.1 hcapacity hinv.2

/-- With one cell the sequence that publishes a value is also that of a free cell. -/
theorem overwritten (value : α) (n : Nat) : ∃ c,
    RunUnder InRange (init (MpscRingBuffer.new 1) (n + 1)) c ∧
      c.shared.claimed = [(1, some value), (1, some value)] ∧ c.shared.dequeued = [] ∧
      c.shared.capacity = 1 := by
  have hstart : RunUnder InRange (init (MpscRingBuffer.new 1) (n + 1))
      (pair (MpscRingBuffer.new 1 : MpscRingBuffer α) [.consumer] [.producer]
        (List.replicate n [.producer])) := .start
  have hrange : ∀ n ≤ 2, InRange 1 n 0 := fun n hn => by
    rw [InRange, UInt64.toNat_one]
    omega
  have hcell : ∀ ring : MpscRingBuffer α, ring.capacity = 1 → ring.cell 1 = ring.cell 0 :=
    fun ring h => by
      rw [MpscRingBuffer.cell, MpscRingBuffer.cell, MpscRingBuffer.index, MpscRingBuffer.index, h]
      rfl
  have hfirst := producer_round (p := 0) value hstart rfl rfl (hrange 0 (by decide))
    (hrange 1 (by decide))
  have hsecond := producer_round (p := 1) value hfirst rfl
    (by rw [hcell _ rfl, filled_cell]; rfl) (hrange 1 (by decide)) (hrange 2 (by decide))
  exact ⟨_, hsecond, rfl, rfl, rfl⟩

theorem bounded_iff [Inhabited α] {capacity : UInt64} {ring : MpscRingBuffer α}
    (hmake : MpscRingBuffer.make capacity = .ok ring) {n : Nat} (hn : 0 < n) :
    (∀ c, RunUnder InRange (init ring n) c → Bounded c) ↔ 2 ≤ capacity.toNat := by
  have hpositive := MpscRingBuffer.positive_of_make hmake
  obtain rfl := MpscRingBuffer.eq_new hmake
  constructor
  · intro h
    by_contra hlt
    obtain rfl : capacity = 1 := UInt64.toNat_inj.mp (by rw [UInt64.toNat_one]; omega)
    obtain ⟨n, rfl⟩ := Nat.exists_eq_succ_of_ne_zero (Nat.ne_of_gt hn)
    obtain ⟨c, hrun, hclaimed, hdequeued, hcapacity⟩ := overwritten (default : α) n
    have hoccupied := (h c hrun).occupied
    rw [hclaimed, hdequeued, hcapacity] at hoccupied
    exact absurd hoccupied (Nat.not_succ_le_self 1)
  · exact fun hcapacity c hrun => bounded_of_run hcapacity hrun

theorem bounded_of_two_cells :
    (MpscRingBuffer.make 2 = .ok (MpscRingBuffer.new 2 : MpscRingBuffer Nat)) ∧
      ∀ c, RunUnder InRange (init (MpscRingBuffer.new 2 : MpscRingBuffer Nat) 1) c → Bounded c := by
  have hmake : MpscRingBuffer.make 2 = .ok (MpscRingBuffer.new 2 : MpscRingBuffer Nat) := rfl
  exact ⟨hmake, (bounded_iff hmake Nat.one_pos).mpr (by decide)⟩

/-- The producer puts two values into the one cell, then the consumer finds neither. -/
def overwriting : List (Nat × Choice Nat) :=
  (1, Choice.enqueue 7) :: List.replicate 7 (1, .next) ++
    (1, Choice.enqueue 8) :: List.replicate 7 (1, .next) ++ List.replicate 3 (0, Choice.next)

theorem one_cell_overwritten :
    (MpscRingBuffer.make 1 = .ok (MpscRingBuffer.new 1 : MpscRingBuffer Nat)) ∧
    machine.Reaches (init (MpscRingBuffer.new 1) 1)
      (machine.follow (init (MpscRingBuffer.new 1) 1) overwriting) ∧
    (machine.follow (init (MpscRingBuffer.new 1) 1) overwriting).shared.claimed =
      [(1, some 7), (1, some 8)] ∧
    (machine.follow (init (MpscRingBuffer.new 1) 1) overwriting).shared.dequeued = [] ∧
    ((machine.follow (init (MpscRingBuffer.new 1) 1) overwriting).shared.cells 0).value = some 8 ∧
    (machine.follow (init (MpscRingBuffer.new 1) 1) overwriting).threads =
      [[.returned none (.tryDequeue false none), .consumer], [.producer]] :=
  ⟨rfl, Library.Machine.reaches_follow _, by decide +kernel, by decide +kernel, by decide +kernel,
    by decide +kernel⟩

end Ring

end UnixNotes.Logger
