import UnixNotes.Logger.RingRounds

namespace UnixNotes.Logger

variable {α : Type}

namespace Ring

open Library

def Instr.claims : Instr α → List (Option α)
  | .calling passed call => call.claims passed
  | .returned passed result => result.claims passed
  | _ => []

def Instr.takes : Instr α → List (Option α)
  | .calling _ call => call.takes
  | .returned _ result => result.takes
  | _ => []

def Instr.result : Instr α → Option (Option α × RingResult α)
  | .returned passed result => some (passed, result)
  | _ => none

def resultsOf (t : Nat) (steps : List (Nat × Instr α)) : List (Option α × RingResult α) :=
  (steps.filter fun step => step.1 = t).filterMap fun step => step.2.result

/-- The values with which calls of `tryEnqueue` of thread `t` have returned true, in program
order. -/
def enqueuedBy (t : Nat) (steps : List (Nat × Instr α)) : List (Option α) :=
  (resultsOf t steps).flatMap fun result => result.2.claims result.1

/-- The values that calls of `tryDequeue` have returned, in program order. -/
def dequeuedBy (t : Nat) (steps : List (Nat × Instr α)) : List (Option α) :=
  (resultsOf t steps).flatMap fun result => result.2.takes

end Ring

def MpscRingBuffer.claimedBy (ring : MpscRingBuffer α) (t : Nat) : List (Option α) :=
  (ring.claimed.filter fun entry => entry.1 = t).map Prod.snd

namespace Ring

theorem resultsOf_append (t t' : Nat) (i : Instr α) (steps : List (Nat × Instr α)) :
    resultsOf t (steps ++ [(t', i)]) =
      resultsOf t steps ++ if t' = t then i.result.toList else [] := by
  rw [resultsOf, List.filter_append, List.filterMap_append]
  congr 1
  by_cases ht : t' = t
  · cases hresult : i.result <;> simp [ht, hresult]
  · simp [ht]

theorem enqueuedBy_append (t t' : Nat) (i : Instr α) (steps : List (Nat × Instr α)) :
    enqueuedBy t (steps ++ [(t', i)]) = enqueuedBy t steps ++
      (if t' = t then i.result.toList else []).flatMap fun result => result.2.claims result.1 := by
  rw [enqueuedBy, resultsOf_append, List.flatMap_append, enqueuedBy]

theorem dequeuedBy_append (t t' : Nat) (i : Instr α) (steps : List (Nat × Instr α)) :
    dequeuedBy t (steps ++ [(t', i)]) = dequeuedBy t steps ++
      (if t' = t then i.result.toList else []).flatMap fun result => result.2.takes := by
  rw [dequeuedBy, resultsOf_append, List.flatMap_append, dequeuedBy]

theorem growth_of_effect {t : Nat} {i : Instr α} {ring ring' : MpscRingBuffer α}
    {pushed : List (Instr α)} (heffect : Effect t ring i ring' pushed) (h : i.Ok t) :
    ∃ claimed taken, ring'.claimed = ring.claimed ++ claimed.map (t, ·) ∧
      ring'.dequeued = ring.dequeued ++ taken ∧
      (i.result.toList.flatMap fun result => result.2.claims result.1) ++
        pushed.flatMap Instr.claims = i.claims ++ claimed ∧
      (i.result.toList.flatMap fun result => result.2.takes) ++ pushed.flatMap Instr.takes =
        i.takes ++ taken ∧
      (t ≠ 0 → taken = []) := by
  have hnone : ∀ {call : RingCall α} {next : RingNext α} {taken : List (Option α)},
      (call.dequeues = true ↔ t = 0) → next.dequeues = call.dequeues →
      next.takes = call.takes ++ taken → t ≠ 0 → taken = [] := by
    intro call next taken hrole hdequeues htakes ht
    refine List.eq_nil_iff_forall_not_mem.mpr fun value hvalue => ht (hrole.mp ?_)
    rw [← hdequeues]
    exact RingNext.takes_eq (htakes ▸ List.mem_append_right _ hvalue)
  cases heffect with
  | running hexec =>
    obtain ⟨hrole, hcarries, -⟩ := h
    obtain ⟨-, claimed, taken, hclaimed, hclaims, hdequeued, htakes⟩ :=
      RingCall.histories_of_exec hcarries hexec
    refine ⟨claimed, taken, hclaimed, hdequeued, ?_, ?_,
      hnone hrole (RingCall.carries_of_exec hcarries hexec).2 htakes⟩
    · simpa [Instr.result, Instr.claims, RingNext.claims] using hclaims
    · simpa [Instr.result, Instr.takes, RingNext.takes] using htakes
  | returning hexec =>
    obtain ⟨hrole, hcarries, -⟩ := h
    obtain ⟨-, claimed, taken, hclaimed, hclaims, hdequeued, htakes⟩ :=
      RingCall.histories_of_exec hcarries hexec
    refine ⟨claimed, taken, hclaimed, hdequeued, ?_, ?_,
      hnone hrole (RingCall.carries_of_exec hcarries hexec).2 htakes⟩
    · simpa [Instr.result, Instr.claims, RingNext.claims] using hclaims
    · simpa [Instr.result, Instr.takes, RingNext.takes] using htakes
  | producer value => exact ⟨[], [], by simp, by simp, rfl, rfl, fun _ => rfl⟩
  | consumer => exact ⟨[], [], by simp, by simp, rfl, rfl, fun _ => rfl⟩
  | returned => exact ⟨[], [], by simp, by simp, by simp [Instr.result, Instr.claims],
      by simp [Instr.result, Instr.takes], fun _ => rfl⟩

/-- What the program has been told and what is still in its calls make up the histories. -/
structure Histories (steps : List (Nat × Instr α)) (c : Config α) : Prop where
  claimed : ∀ t, c.shared.claimedBy t = enqueuedBy t steps ++ (c.stack t).flatMap Instr.claims
  dequeued : c.shared.dequeued = dequeuedBy 0 steps ++ (c.stack 0).flatMap Instr.takes

theorem flatMap_tail {c : Config α} (h : Shape c) {t : Nat} {i : Instr α} {rest : List (Instr α)}
    (htop : c.stack t = i :: rest) : rest.flatMap Instr.claims = [] ∧ rest.flatMap Instr.takes = [] := by
  have hrest : ∀ j ∈ rest, ¬j.called := by simpa [htop] using h.heads t
  constructor
  all_goals
    refine List.flatMap_eq_nil_iff.mpr fun j hj => ?_
    have := hrest j hj
    cases j with
    | calling _ _ => exact absurd rfl this
    | returned _ _ => exact absurd rfl this
    | _ => rfl

theorem histories_step {steps : List (Nat × Instr α)} {c c' : Config α} {t : Nat} {i : Instr α}
    (hshape : Shape c) (h : Histories steps c) (hstep : machine.Step c t i c') :
    Histories (steps ++ [(t, i)]) c' := by
  obtain @⟨rest, x, ring, pushed, htop, hexec⟩ := hstep
  obtain ⟨claimed, taken, hclaimed, hdequeued, hclaims, htakes, hnone⟩ :=
    growth_of_effect (effect_of_exec hexec) (hshape.ok t i (Library.Config.active_of_top htop))
  obtain ⟨hrestClaims, hrestTakes⟩ := flatMap_tail hshape htop
  constructor
  · intro t'
    have hold := h.claimed t'
    rw [Library.Config.shared_replace, MpscRingBuffer.claimedBy, hclaimed, List.filter_append,
      List.map_append, ← MpscRingBuffer.claimedBy, hold, enqueuedBy_append]
    by_cases ht : t' = t
    · subst ht
      rw [Library.Config.stack_replace_self htop, htop, List.flatMap_append, hrestClaims,
        List.flatMap_cons, hrestClaims, if_pos rfl]
      simp only [List.append_nil, List.append_assoc, hclaims]
      simp [List.filter_map, Function.comp_def]
    · rw [Library.Config.stack_replace_ne _ _ _ ht, if_neg (Ne.symm ht)]
      simp [List.filter_map, Function.comp_def, Ne.symm ht]
  · rw [Library.Config.shared_replace, hdequeued, h.dequeued, dequeuedBy_append]
    by_cases ht : 0 = t
    · subst ht
      rw [Library.Config.stack_replace_self htop, htop, List.flatMap_append, hrestTakes,
        List.flatMap_cons, hrestTakes, if_pos rfl]
      simp only [List.append_nil, List.append_assoc, htakes]
    · rw [Library.Config.stack_replace_ne _ _ _ ht, if_neg (Ne.symm ht), hnone (Ne.symm ht)]
      simp

theorem histories_of_trace {capacity : UInt64} {n : Nat} {steps : List (Nat × Instr α)}
    {c : Config α} (h : machine.Trace (init (MpscRingBuffer.new capacity) n) steps c) :
    Histories steps c ∧ Shape c := by
  refine h.invariant (I := fun steps c => Histories steps c ∧ Shape c)
    ⟨⟨fun t => ?_, ?_⟩, shape_init⟩ fun ⟨hhistories, hshape⟩ hstep =>
      ⟨histories_step hshape hhistories hstep, hshape.step hstep⟩
  · cases htop : (init (MpscRingBuffer.new capacity : MpscRingBuffer α) n).stack t with
    | nil => rfl
    | cons i rest =>
      obtain ⟨rfl, ⟨-, rfl⟩ | ⟨-, rfl⟩⟩ := init_stack htop <;> rfl
  · rfl

/-- What a queue with room for `capacity` values does: nothing, take a value at its end, or hand
out the value at its front. -/
inductive QueueStep (capacity : Nat) : List (Option α) → List (Option α) → Prop
  | idle {queue : List (Option α)} : QueueStep capacity queue queue
  | push {queue : List (Option α)} {value : Option α} (room : queue.length < capacity) :
    QueueStep capacity queue (queue ++ [value])
  | pop {queue : List (Option α)} {value : Option α} : QueueStep capacity (value :: queue) queue

end Ring

/-- The values that have been claimed for and not been read. -/
def MpscRingBuffer.contents (ring : MpscRingBuffer α) : List (Option α) :=
  (ring.claimed.map Prod.snd).drop ring.dequeued.length

def RingCall.reads : RingCall α → Option UInt64
  | .beginRead position => some position
  | .endRead position _ => some position
  | _ => none

namespace Ring

structure BoundedFifo (capacity : UInt64) (steps : List (Nat × Instr α)) (c : Config α) :
    Prop where
  order : c.shared.dequeued = (c.shared.claimed.map Prod.snd).take c.shared.dequeued.length
  values : ∀ entry ∈ c.shared.claimed, entry.2.isSome
  claimed : ∀ t, c.shared.claimedBy t = enqueuedBy t steps ++ (c.stack t).flatMap Instr.claims
  dequeued : c.shared.dequeued = dequeuedBy 0 steps ++ (c.stack 0).flatMap Instr.takes
  queue : ∀ t i c', machine.Step c t i c' →
    QueueStep capacity.toNat c.shared.contents c'.shared.contents
  whole : ∀ t call, calls c t = some call → ∀ position ∈ call.reads,
    (∀ t', ¬(calls c).Writes t' position.toNat) ∧ (c.shared.cell position).value.isSome
  refused : ∀ t i c' passed value rest, machine.Step c t i c' →
    c'.stack t = .returned passed (.tryEnqueue false value) :: rest →
    c.shared.released + capacity.toNat ≤ c.shared.claimed.length ∧
      (∃ position, i = .calling passed (.loadSequence value position)) ∧
      value = passed ∧ passed.isSome

theorem queue_of_growth {ring ring' : MpscRingBuffer α} {calls calls' : RingCalls α} {t : Nat}
    {call : RingCall α} {next : RingNext α} {fails : Bool} (inv : RingInv ring calls)
    (inv' : RingInv ring' calls') (hcall : calls t = some call)
    (hexec : call.exec t fails ring = (ring', next)) :
    QueueStep ring.capacity.toNat ring.contents ring'.contents := by
  obtain ⟨hclaimed, hdequeued⟩ | ⟨value, rfl, hclaimed, hdequeued⟩ | ⟨value, hclaimed, hdequeued⟩ :=
    RingCall.growth_of_exec hexec
  · rw [MpscRingBuffer.contents, MpscRingBuffer.contents, hclaimed, hdequeued]
    exact .idle
  · have hfree := (inv.ok t _ hcall).2 inv.position
    have hle := inv.dequeued_le
    have hreleased := inv.released_le_dequeued
    have hcontents : ring'.contents = ring.contents ++ [value] := by
      rw [MpscRingBuffer.contents, MpscRingBuffer.contents, hclaimed, hdequeued, List.map_append,
        List.drop_append_of_le_length (by simpa using hle)]
      rfl
    rw [hcontents]
    refine .push ?_
    rw [MpscRingBuffer.contents, List.length_drop, List.length_map]
    omega
  · have hle := inv'.dequeued_le
    rw [hclaimed, hdequeued, List.length_append, List.length_singleton] at hle
    have hlt : ring.dequeued.length < (ring.claimed.map Prod.snd).length := by
      rw [List.length_map]
      exact hle
    rw [MpscRingBuffer.contents, MpscRingBuffer.contents, hclaimed, hdequeued,
      List.drop_eq_getElem_cons hlt, List.length_append, List.length_singleton]
    exact .pop

theorem whole_of_reads {ring : MpscRingBuffer α} {calls : RingCalls α} {t : Nat}
    {call : RingCall α} {position : UInt64} (inv : RingInv ring calls)
    (hvalues : ∀ entry ∈ ring.claimed, entry.2.isSome) (hcapacity : 0 < ring.capacity.toNat)
    (hcall : calls t = some call) (hreads : position ∈ call.reads) :
    (∀ t', ¬calls.Writes t' position.toNat) ∧ (ring.cell position).value.isSome := by
  have hfound : ring.Found calls position ∧ ring.dequeued.length = ring.released := by
    have hok := inv.ok t call hcall
    cases call with
    | beginRead _ =>
      cases hreads
      exact hok
    | endRead _ _ =>
      cases hreads
      exact ⟨hok.1, hok.2.1⟩
    | _ => cases hreads
  obtain ⟨⟨hloaded, hposition, hpublished⟩, hlength⟩ := hfound
  have hvalue := (inv.cells ring.released (Nat.le_refl _) (by omega)).value hpublished
    (Nat.le_of_eq hlength)
  rw [MpscRingBuffer.cell_eq, hloaded, hposition]
  refine ⟨hpublished.2, ?_⟩
  obtain ⟨entry, hget, hentry⟩ := Option.map_eq_some_iff.mp hvalue
  rw [← hentry]
  exact hvalues entry (List.mem_of_getElem? hget)

section Run

variable {capacity : UInt64} {c c' : Config α} {t : Nat} {i : Instr α}

theorem queue_of_step (hcapacity : 2 ≤ capacity.toNat) (h : Inv capacity c)
    (hrange : c.shared.claimed.length + 1 + capacity.toNat ≤ 2 ^ 64)
    (hstep : machine.Step c t i c') :
    QueueStep capacity.toNat c.shared.contents c'.shared.contents := by
  have hlength := claimed_le_of_step hstep
  have hinv' := (h.step hcapacity hstep).ring (by omega)
  obtain @⟨rest, x, ring, pushed, htop, hexec⟩ := hstep
  have hcall : calls c t = i.call? := Library.Config.heads_of_top _ htop
  have hinv := h.ring (by omega)
  have hcase : ∀ {call : RingCall α} {fails : Bool} {next : RingNext α}, calls c t = some call →
      call.exec t fails c.shared = (ring, next) →
      QueueStep capacity.toNat c.shared.contents ring.contents := by
    intro call fails next hcall hcallexec
    rw [← h.capacity_eq]
    exact queue_of_growth hinv hinv' hcall hcallexec
  cases effect_of_exec hexec with
  | running hcallexec => exact hcase hcall hcallexec
  | returning hcallexec => exact hcase hcall hcallexec
  | _ => exact .idle

theorem refused_of_step (h : Inv capacity c) (hcapacity : 0 < capacity.toNat)
    (hrange : c.shared.claimed.length + capacity.toNat ≤ 2 ^ 63) {passed value : Option α}
    {rest : List (Instr α)} (hstep : machine.Step c t i c')
    (hreturned : c'.stack t = .returned passed (.tryEnqueue false value) :: rest) :
    c.shared.released + capacity.toNat ≤ c.shared.claimed.length ∧
      (∃ position, i = .calling passed (.loadSequence value position)) ∧
      value = passed ∧ passed.isSome := by
  obtain @⟨rest', x, ring, pushed, htop, hexec⟩ := hstep
  have hcall : calls c t = i.call? := Library.Config.heads_of_top _ htop
  have hok := h.shape.ok t i (Library.Config.active_of_top htop)
  rw [Library.Config.stack_replace_self htop] at hreturned
  cases effect_of_exec hexec with
  | producer => cases hreturned
  | consumer => cases hreturned
  | running => cases hreturned
  | returning hcallexec =>
    cases hreturned
    obtain ⟨hrole, hcarries, hpassed⟩ := hok
    obtain ⟨position, rfl, hnegative⟩ := RingCall.refused_of_exec hcallexec
    refine ⟨?_, ⟨position, rfl⟩, hcarries, hpassed fun ht => by cases hrole.mpr ht⟩
    rw [← h.capacity_eq] at hcapacity hrange ⊢
    exact (h.ring (by rw [← h.capacity_eq]; omega)).full_of_negative hcapacity hrange hcall
      hnegative
  | returned =>
    have hhead := h.shape.heads t (.returned passed (.tryEnqueue false value))
    rw [htop, List.tail_cons, ← List.nil_append rest', hreturned] at hhead
    exact absurd rfl (hhead (List.mem_cons_self ..))

end Run

theorem bounded_fifo {capacity : UInt64} {ring : MpscRingBuffer α}
    (hmake : MpscRingBuffer.make capacity = .ok ring) (hcapacity : 2 ≤ capacity.toNat) {n : Nat}
    {steps : List (Nat × Instr α)} {c : Config α} (htrace : machine.Trace (init ring n) steps c)
    (hrange : c.shared.claimed.length + capacity.toNat ≤ 2 ^ 63) : BoundedFifo capacity steps c := by
  obtain rfl := MpscRingBuffer.eq_new hmake
  have hinv := inv_of_run hcapacity htrace.reaches
  have hring := hinv.ring (by omega)
  obtain ⟨⟨hclaimed, hdequeued⟩, -⟩ := histories_of_trace htrace
  refine ⟨hring.dequeued, hinv.shape.claimed, hclaimed, hdequeued, ?_, ?_, ?_⟩
  · exact fun t i c' hstep => queue_of_step hcapacity hinv (by omega) hstep
  · intro t call hcall position hposition
    exact whole_of_reads hring hinv.shape.claimed (by rw [hinv.capacity_eq]; omega) hcall hposition
  · intro t i c' passed value rest hstep hreturned
    exact refused_of_step hinv (by omega) hrange hstep hreturned

def handover : List (Nat × Choice Nat) :=
  (1, Choice.enqueue 7) :: List.replicate 7 (1, .next) ++ List.replicate 8 (0, Choice.next)

theorem bounded_fifo_handover :
    BoundedFifo 2 (machine.taken (init (MpscRingBuffer.new 2) 1) handover)
      (machine.follow (init (MpscRingBuffer.new 2) 1) handover) :=
  bounded_fifo rfl (by decide) (Library.Machine.trace_follow (by decide)) (by decide)

/-! ### A call that sleeps through 2 ^ 63 - 1 others -/

section Stalled

/-- Fewer than `capacity` positions are in use, and fewer than 2 ^ 63 have been claimed. -/
def Roomy (capacity : UInt64) (claimed released : Nat) : Prop :=
  claimed < released + capacity.toNat ∧ claimed < 2 ^ 63

def stalled (ring : MpscRingBuffer Unit) : Config Unit :=
  pair ring [.consumer] [.producer] [[.calling (some ()) (.loadSequence (some ()) 0), .producer]]

abbrev RoomyRun (c : Config Unit) : Prop := RunUnder Roomy (init (MpscRingBuffer.new 2) 2) c

variable {ring : MpscRingBuffer Unit}

structure Level (k : Nat) (ring : MpscRingBuffer Unit) : Prop where
  capacity : ring.capacity = 2
  enqueue : ring.enqueuePosition = UInt64.ofNat k
  dequeue : ring.dequeuePosition = UInt64.ofNat k
  claimed : ring.claimed.length = k
  released : ring.released = k
  current : (ring.cells (k % 2)).sequence = UInt64.ofNat k
  following : (ring.cells ((k + 1) % 2)).sequence = UInt64.ofNat (k + 1)

theorem Level.index {k : Nat} (h : Level k ring) (hk : k < 2 ^ 64) :
    ring.index (UInt64.ofNat k) = k % 2 := by
  rw [MpscRingBuffer.index_eq, h.capacity, UInt64.toNat_ofNat_of_lt' hk]
  rfl

theorem Level.next {k : Nat} (h : Level k ring) (hk : k < 2 ^ 64) (value : Option Unit) :
    Level (k + 1) (emptied (filled ring (UInt64.ofNat k) ()) (UInt64.ofNat k) value) := by
  have hindex := h.index hk
  have hsucc : UInt64.ofNat k + 1 = UInt64.ofNat (k + 1) := (UInt64.ofNat_add k 1).symm
  have hnext : UInt64.ofNat k + ring.capacity = UInt64.ofNat (k + 2) := by
    rw [h.capacity]
    exact (UInt64.ofNat_add k 2).symm
  refine ⟨h.capacity, hsucc, hsucc, ?_, congrArg (· + 1) h.released, ?_, ?_⟩
  · exact (List.length_append ..).trans (congrArg (· + 1) h.claimed)
  · rw [round_cells_ne () value (by rw [hindex]; omega)]
    exact h.following
  · rw [show (k + 1 + 1) % 2 = k % 2 by omega, ← hindex, round_cells_self, hnext]

theorem level_new : Level 0 (MpscRingBuffer.new 2) := ⟨rfl, rfl, rfl, rfl, rfl, rfl, rfl⟩

theorem Level.roomy {k n : Nat} (h : Level k ring) (hk : n < 2 ^ 63) (hn : n < k + 2) :
    Roomy ring.capacity n ring.released := by
  rw [h.capacity, h.released]
  exact ⟨hn, hk⟩

theorem round {k : Nat} (hlevel : Level k ring) (hk : k + 1 < 2 ^ 63)
    (h : RoomyRun (stalled ring)) : ∃ ring, Level (k + 1) ring ∧ RoomyRun (stalled ring) := by
  have hroomy : Counts Roomy ring := hlevel.roomy (by rw [hlevel.claimed]; omega)
    (by rw [hlevel.claimed]; omega)
  have hlength : (ring.claim 1 (some ()) (UInt64.ofNat k)).claimed.length = k + 1 :=
    (List.length_append ..).trans (congrArg (· + 1) hlevel.claimed)
  have hclaim : Counts Roomy (ring.claim 1 (some ()) (UInt64.ofNat k)) :=
    hlevel.roomy (by rw [hlength]; omega) (by rw [hlength]; omega)
  have hfree : (ring.cell (UInt64.ofNat k)).sequence = UInt64.ofNat k := by
    rw [MpscRingBuffer.cell, hlevel.index (by omega), hlevel.current]
  have hproduced := producer_round () h hlevel.enqueue hfree hroomy hclaim
  obtain ⟨value, hconsumed⟩ := consumer_round hproduced hlevel.dequeue (filled_cell _ _) hclaim
    ⟨Nat.lt_of_lt_of_le hclaim.1 (Nat.add_le_add_right (Nat.le_succ _) _), hclaim.2⟩
  exact ⟨_, hlevel.next (by omega) value, hconsumed⟩

theorem rounds (k : Nat) (hk : k < 2 ^ 63) : ∃ ring, Level k ring ∧ RoomyRun (stalled ring) := by
  induction k with
  | zero =>
    have hroomy : Counts Roomy (MpscRingBuffer.new 2 : MpscRingBuffer Unit) :=
      level_new.roomy (Nat.two_pow_pos 63) Nat.two_pos
    have hcalled := (Library.Machine.Run.start : RoomyRun (init (MpscRingBuffer.new 2) 2)).next
      (t := 2) (x := .enqueue ()) (fun _ _ => hroomy) rfl
    exact ⟨_, level_new, hcalled.next (t := 2) (x := .next) (fun _ _ => hroomy) rfl⟩
  | succ k ih =>
    obtain ⟨ring, hlevel, hrun⟩ := ih (by omega)
    exact round hlevel hk hrun

end Stalled

/-- A call that sleeps until another producer is about to claim position 2 ^ 63 returns false
though there was room all along. -/
theorem refused_with_room : ∃ c c' : Config Unit,
    RunUnder Roomy (init (MpscRingBuffer.new 2) 2) c ∧ Counts Roomy c.shared ∧
      machine.Step c 2 (.calling (some ()) (.loadSequence (some ()) 0)) c' ∧
      c'.stack 2 = [.returned (some ()) (.tryEnqueue false (some ())), .producer] := by
  obtain ⟨ring, hlevel, hrun⟩ := rounds (2 ^ 63 - 1) (by decide)
  have hsequence : (ring.cell 0).sequence = UInt64.ofNat (2 ^ 63) := by
    rw [MpscRingBuffer.cell, MpscRingBuffer.index, hlevel.capacity]
    exact hlevel.following
  have hexec : RingCall.exec 2 false ring (.loadSequence (some ()) 0) =
      (ring, .returned (.tryEnqueue false (some ()))) := by
    simp only [RingCall.exec, hsequence]
    rfl
  have hstep : (machine : Library.Machine _ _ (Choice Unit)).exec 2
      (.calling (some ()) (.loadSequence (some ()) 0)) .next ring =
        some (ring, [.returned (some ()) (.tryEnqueue false (some ()))]) := by
    simp only [machine, Instr.exec, Choice.fails, hexec]
  refine ⟨_, _, hrun, ?_, .exec rfl hstep, rfl⟩
  have hroomy : Counts Roomy ring := hlevel.roomy (by rw [hlevel.claimed]; decide)
    (by rw [hlevel.claimed]; decide)
  exact hroomy

end Ring

end UnixNotes.Logger
