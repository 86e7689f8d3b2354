import UnixNotes.Logger.RingHistory

namespace UnixNotes.Logger

variable {α : Type}

namespace MpscRingBuffer

/-- What the sequence of cell `i` was stored for: the constructor, `tryEnqueue` or `tryDequeue`. -/
inductive SequenceOf (ring : MpscRingBuffer α) (i : Nat) : Nat → Prop
  | fresh : SequenceOf ring i i
  | published {p : Nat} (claimed : p < ring.claimed.length) (cell : p % ring.capacity.toNat = i) :
    SequenceOf ring i (p + 1)
  | released {p : Nat} (dequeued : p < ring.dequeued.length)
    (cell : p % ring.capacity.toNat = i) : SequenceOf ring i (p + ring.capacity.toNat)

def Sequenced (ring : MpscRingBuffer α) (i : Nat) : Prop :=
  ∃ v, ring.SequenceOf i v ∧ (ring.cells i).sequence = UInt64.ofNat v

variable {ring ring' : MpscRingBuffer α} {i v : Nat}

theorem SequenceOf.mono (h : ring.SequenceOf i v) (hcapacity : ring'.capacity = ring.capacity)
    (hclaimed : ring.claimed.length ≤ ring'.claimed.length)
    (hdequeued : ring.dequeued.length ≤ ring'.dequeued.length) : ring'.SequenceOf i v := by
  cases h with
  | fresh => exact .fresh
  | published hlt hcell => exact .published (Nat.lt_of_lt_of_le hlt hclaimed) (hcapacity ▸ hcell)
  | released hlt hcell =>
    rw [← hcapacity] at hcell ⊢
    exact .released (Nat.lt_of_lt_of_le hlt hdequeued) hcell

theorem Sequenced.mono (h : ring.Sequenced i) (hcapacity : ring'.capacity = ring.capacity)
    (hclaimed : ring.claimed.length ≤ ring'.claimed.length)
    (hdequeued : ring.dequeued.length ≤ ring'.dequeued.length)
    (hcell : (ring'.cells i).sequence = (ring.cells i).sequence) : ring'.Sequenced i := by
  obtain ⟨v, hv, hsequence⟩ := h
  exact ⟨v, hv.mono hcapacity hclaimed hdequeued, hcell.trans hsequence⟩

theorem sequence_setValue (ring : MpscRingBuffer α) (position : UInt64) (value : Option α)
    (i : Nat) : ((ring.setValue position value).cells i).sequence = (ring.cells i).sequence := by
  by_cases hi : i = ring.index position
  · subst hi
    simp [setValue, setCell, cell]
  · simp [setValue, setCell, Function.update_of_ne hi]

theorem sequence_setSequence_ne {position sequence : UInt64} (hi : i ≠ ring.index position) :
    ((ring.setSequence position sequence).cells i).sequence = (ring.cells i).sequence := by
  simp [setSequence, setCell, Function.update_of_ne hi]

theorem sequence_setSequence_self (position sequence : UInt64) :
    ((ring.setSequence position sequence).cells (ring.index position)).sequence = sequence := by
  simp [setSequence, setCell]

end MpscRingBuffer

def RingCall.Placed (ring : MpscRingBuffer α) : RingCall α → Prop
  | .beginWrite _ position => ∃ p < ring.claimed.length, position = UInt64.ofNat p
  | .endWrite _ position => ∃ p < ring.claimed.length, position = UInt64.ofNat p
  | .publish position => ∃ p < ring.claimed.length, position = UInt64.ofNat p
  | .loadPublished position => position = ring.dequeuePosition
  | .beginRead position =>
    position = ring.dequeuePosition ∧ ring.dequeued.length < ring.claimed.length
  | .endRead position _ =>
    position = ring.dequeuePosition ∧ ring.dequeued.length < ring.claimed.length
  | .releaseCell position _ => position = ring.dequeuePosition ∧ 0 < ring.dequeued.length
  | .advance position _ => position = ring.dequeuePosition
  | _ => True

def RingCalls.taken (calls : RingCalls α) : Nat := ((calls 0).elim [] RingCall.takes).length

/-- What holds of the positions of a ring of any capacity, also of one that overwrites its only
cell. -/
structure RingPositions (ring : MpscRingBuffer α) (calls : RingCalls α) : Prop where
  capacity : 0 < ring.capacity.toNat
  enqueue : ring.enqueuePosition = UInt64.ofNat ring.claimed.length
  dequeue : ring.dequeuePosition + UInt64.ofNat calls.taken = UInt64.ofNat ring.dequeued.length
  dequeued_le : ring.dequeued.length ≤ ring.claimed.length
  role : ∀ t, ∀ call ∈ calls t, call.dequeues = true → t = 0
  placed : ∀ t, ∀ call ∈ calls t, call.Placed ring
  sequenced : ∀ i < ring.capacity.toNat, ring.Sequenced i

section Step

variable {ring ring' : MpscRingBuffer α} {calls : RingCalls α} {t : Nat} {fails : Bool}
  {call : RingCall α} {call? : Option (RingCall α)} {next : RingNext α}

theorem RingCall.Placed.mono (h : call.Placed ring)
    (hclaimed : ring.claimed.length ≤ ring'.claimed.length)
    (hkeep : call.dequeues = true → ring'.dequeuePosition = ring.dequeuePosition ∧
      ring'.dequeued.length = ring.dequeued.length) : call.Placed ring' := by
  have hwrites : ∀ {position : UInt64}, (∃ p < ring.claimed.length, position = UInt64.ofNat p) →
      ∃ p < ring'.claimed.length, position = UInt64.ofNat p :=
    fun ⟨p, hp, heq⟩ => ⟨p, Nat.lt_of_lt_of_le hp hclaimed, heq⟩
  have hreads : ∀ {position : UInt64}, ring'.dequeuePosition = ring.dequeuePosition ∧
      ring'.dequeued.length = ring.dequeued.length →
      position = ring.dequeuePosition ∧ ring.dequeued.length < ring.claimed.length →
      position = ring'.dequeuePosition ∧ ring'.dequeued.length < ring'.claimed.length := by
    intro position ⟨hposition, hdequeued⟩ ⟨heq, hlt⟩
    exact ⟨heq.trans hposition.symm, by omega⟩
  cases call with
  | beginWrite value position => exact hwrites h
  | endWrite value position => exact hwrites h
  | publish position => exact hwrites h
  | loadPublished position => exact Eq.trans h (hkeep rfl).1.symm
  | beginRead position => exact hreads (hkeep rfl) h
  | endRead position value => exact hreads (hkeep rfl) h
  | releaseCell position value =>
    obtain ⟨hposition, hdequeued⟩ := hkeep rfl
    exact ⟨h.1.trans hposition.symm, hdequeued ▸ h.2⟩
  | advance position value => exact Eq.trans h (hkeep rfl).1.symm
  | _ => trivial

theorem RingCalls.taken_update (h : call?.elim [] RingCall.takes = (calls t).elim [] RingCall.takes) :
    taken (Function.update calls t call?) = taken calls := by
  by_cases ht : 0 = t
  · subst ht
    rw [taken, taken, Function.update_self, h]
  · rw [taken, taken, Function.update_of_ne ht]

theorem RingPositions.keep (h : RingPositions ring calls)
    (hcapacity : ring'.capacity = ring.capacity)
    (henqueue : ring'.enqueuePosition = UInt64.ofNat ring'.claimed.length)
    (hposition : ring'.dequeuePosition = ring.dequeuePosition)
    (hclaimed : ring.claimed.length ≤ ring'.claimed.length)
    (hdequeued : ring'.dequeued = ring.dequeued)
    (htakes : call?.elim [] RingCall.takes = (calls t).elim [] RingCall.takes)
    (hrole : ∀ call ∈ call?, call.dequeues = true → t = 0)
    (hplaced : ∀ call ∈ call?, call.Placed ring')
    (hsequenced : ∀ i < ring.capacity.toNat, ring'.Sequenced i) :
    RingPositions ring' (Function.update calls t call?) := by
  have hlength : ring'.dequeued.length = ring.dequeued.length := congrArg List.length hdequeued
  refine ⟨hcapacity ▸ h.capacity, henqueue, ?_, ?_, ?_, ?_, hcapacity ▸ hsequenced⟩
  · rw [RingCalls.taken_update htakes, hposition, hlength]
    exact h.dequeue
  · rw [hlength]
    exact Nat.le_trans h.dequeued_le hclaimed
  · intro t' call hcall
    by_cases ht : t' = t
    · subst ht
      rw [Function.update_self] at hcall
      exact hrole call hcall
    · rw [Function.update_of_ne ht] at hcall
      exact h.role t' call hcall
  · intro t' call hcall
    by_cases ht : t' = t
    · subst ht
      rw [Function.update_self] at hcall
      exact hplaced call hcall
    · rw [Function.update_of_ne ht] at hcall
      exact (h.placed t' call hcall).mono hclaimed fun _ => ⟨hposition, hlength⟩

theorem RingPositions.stay (h : RingPositions ring calls)
    (htakes : call?.elim [] RingCall.takes = (calls t).elim [] RingCall.takes)
    (hrole : ∀ call ∈ call?, call.dequeues = true → t = 0)
    (hplaced : ∀ call ∈ call?, call.Placed ring) :
    RingPositions ring (Function.update calls t call?) :=
  h.keep rfl h.enqueue rfl (Nat.le_refl _) rfl htakes hrole hplaced h.sequenced

theorem RingPositions.publish (h : RingPositions ring calls) {position : UInt64}
    (hcall : calls t = some (.publish position))
    (hrange : ring.claimed.length + ring.capacity.toNat < 2 ^ 64) :
    RingPositions (ring.setSequence position (position + 1)) (Function.update calls t none) := by
  refine h.keep rfl h.enqueue rfl (Nat.le_refl _) rfl (by rw [hcall]; rfl) nofun nofun ?_
  intro i hi
  obtain ⟨p, hp, hposition⟩ := h.placed t _ hcall
  by_cases heq : i = ring.index position
  · subst heq
    refine ⟨p + 1, .published hp ?_, ?_⟩
    · rw [MpscRingBuffer.index_eq, hposition, UInt64.toNat_ofNat_of_lt' (by
        change p < 2 ^ 64
        omega)]
      rfl
    · rw [MpscRingBuffer.sequence_setSequence_self, hposition, UInt64.ofNat_add]
      rfl
  · exact (h.sequenced i hi).mono rfl (Nat.le_refl _) (Nat.le_refl _)
      (MpscRingBuffer.sequence_setSequence_ne heq)

theorem RingPositions.lt_of_found (h : RingPositions ring calls)
    (hcall : calls 0 = some (.loadPublished ring.dequeuePosition))
    (hrange : ring.claimed.length + ring.capacity.toNat < 2 ^ 64)
    (hfound : (ring.cell ring.dequeuePosition).sequence = ring.dequeuePosition + 1) :
    ring.dequeued.length < ring.claimed.length := by
  have hle := h.dequeued_le
  have hposition : ring.dequeuePosition = UInt64.ofNat ring.dequeued.length := by
    have heq := h.dequeue
    rw [RingCalls.taken, hcall] at heq
    exact (UInt64.add_zero _).symm.trans heq
  have hindex : ring.index ring.dequeuePosition = ring.dequeued.length % ring.capacity.toNat := by
    rw [MpscRingBuffer.index_eq, hposition, UInt64.toNat_ofNat_of_lt' (by
      change _ < 2 ^ 64
      omega)]
  have hlt := Nat.mod_lt ring.dequeued.length h.capacity
  obtain ⟨v, hv, hsequence⟩ := h.sequenced _ hlt
  rw [MpscRingBuffer.cell, hindex, hsequence, hposition] at hfound
  have hsucc : UInt64.ofNat ring.dequeued.length + 1 = UInt64.ofNat (ring.dequeued.length + 1) :=
    (UInt64.ofNat_add _ _).symm
  rw [hsucc] at hfound
  cases hv with
  | fresh =>
    have := Library.ofNat_inj (by omega) (by omega) hfound
    have := Nat.mod_le ring.dequeued.length ring.capacity.toNat
    omega
  | @published p hp hcell =>
    have := Library.ofNat_inj (by omega) (by omega) hfound
    omega
  | @released p hp hcell =>
    have heq := Library.ofNat_inj (by omega) (by omega) hfound
    -- positions of one cell that differ by less than the capacity are the same
    have hmod : (ring.dequeued.length + 1) % ring.capacity.toNat =
        ring.dequeued.length % ring.capacity.toNat := by
      rw [← heq, Nat.add_mod_right, hcell]
    have hone : ring.capacity.toNat ∣ 1 := by
      have := Nat.sub_mod_eq_zero_of_mod_eq hmod
      rw [Nat.add_sub_cancel_left] at this
      exact Nat.dvd_of_mod_eq_zero this
    have := Nat.le_of_dvd Nat.one_pos hone
    omega

theorem RingPositions.consume (h : RingPositions ring calls) (hcapacity : ring'.capacity = ring.capacity)
    (hclaimed : ring'.claimed = ring.claimed)
    (henqueue : ring'.enqueuePosition = ring.enqueuePosition)
    (hdequeue : ring'.dequeuePosition + UInt64.ofNat (call?.elim [] RingCall.takes).length =
      UInt64.ofNat ring'.dequeued.length)
    (hle : ring'.dequeued.length ≤ ring.claimed.length)
    (hnext : ∀ call ∈ call?, call.Placed ring')
    (hsequenced : ∀ i < ring.capacity.toNat, ring'.Sequenced i) :
    RingPositions ring' (Function.update calls 0 call?) := by
  refine ⟨hcapacity ▸ h.capacity, ?_, ?_, ?_, ?_, ?_, hcapacity ▸ hsequenced⟩
  · rw [henqueue, hclaimed]
    exact h.enqueue
  · rw [RingCalls.taken, Function.update_self]
    exact hdequeue
  · rw [hclaimed]
    exact hle
  · intro t' call' hcall'
    by_cases ht : t' = 0
    · exact fun _ => ht
    · rw [Function.update_of_ne ht] at hcall'
      exact h.role t' call' hcall'
  · intro t' call' hcall'
    by_cases ht : t' = 0
    · subst ht
      rw [Function.update_self] at hcall'
      exact hnext call' hcall'
    · rw [Function.update_of_ne ht] at hcall'
      exact (h.placed t' call' hcall').mono (Nat.le_of_eq (congrArg List.length hclaimed.symm))
        fun hdequeues => absurd (h.role t' call' hcall' hdequeues) ht

theorem RingPositions.release (h : RingPositions ring calls) {value : Option α}
    (hcall : calls 0 = some (.releaseCell ring.dequeuePosition value))
    (hpositive : 0 < ring.dequeued.length)
    (hrange : ring.claimed.length + ring.capacity.toNat < 2 ^ 64) :
    RingPositions (ring.release ring.dequeuePosition)
      (Function.update calls 0 (some (.advance ring.dequeuePosition value))) := by
  have hle := h.dequeued_le
  have hdequeue := h.dequeue
  rw [RingCalls.taken, hcall] at hdequeue
  refine h.consume rfl rfl rfl hdequeue hle (by rintro _ ⟨⟩; rfl) fun i hi => ?_
  by_cases heq : i = ring.index ring.dequeuePosition
  · subst heq
    obtain ⟨p, hp⟩ := Nat.exists_eq_add_of_lt hpositive
    rw [Nat.zero_add] at hp
    have hposition : ring.dequeuePosition = UInt64.ofNat p := by
      rw [hp, UInt64.ofNat_add] at hdequeue
      exact add_right_cancel hdequeue
    refine ⟨p + ring.capacity.toNat, .released (by change p < ring.dequeued.length; omega) ?_, ?_⟩
    · rw [MpscRingBuffer.index_eq, hposition, UInt64.toNat_ofNat_of_lt' (by
        change _ < 2 ^ 64
        omega)]
      rfl
    · rw [MpscRingBuffer.release, MpscRingBuffer.sequence_setSequence_self, hposition,
        UInt64.ofNat_add, UInt64.ofNat_toNat]
  · exact (h.sequenced i hi).mono rfl (Nat.le_refl _) (Nat.le_refl _)
      (MpscRingBuffer.sequence_setSequence_ne heq)

theorem RingPositions.exec (h : RingPositions ring calls) (hcall : calls t = some call)
    (hrange : ring.claimed.length + ring.capacity.toNat < 2 ^ 64)
    (hexec : call.exec t fails ring = (ring', next)) :
    RingPositions ring' (Function.update calls t next.call?) := by
  have hplaced := h.placed t call hcall
  have hrole := h.role t call hcall
  have htakes : ∀ call? : Option (RingCall α), call?.elim [] RingCall.takes = call.takes →
      call?.elim [] RingCall.takes = (calls t).elim [] RingCall.takes := by
    intro call? heq
    rw [hcall]
    exact heq
  have hsequence : ∀ position value, ∀ i < ring.capacity.toNat,
      (ring.setValue position value).Sequenced i := fun position value i hi =>
    (h.sequenced i hi).mono rfl (Nat.le_refl _) (Nat.le_refl _)
      (ring.sequence_setValue position value i)
  cases call with
  | tryEnqueue value =>
    cases hexec
    exact h.stay (htakes _ rfl) (by rintro _ ⟨⟩ ⟨⟩) (by rintro _ ⟨⟩; trivial)
  | loadSequence value position =>
    simp only [RingCall.exec] at hexec
    (repeat' split at hexec) <;> cases hexec
    · exact h.stay (htakes _ rfl) (by rintro _ ⟨⟩ ⟨⟩) (by rintro _ ⟨⟩; trivial)
    · exact h.stay (htakes _ rfl) (by rintro _ ⟨⟩) (by rintro _ ⟨⟩)
    · exact h.stay (htakes _ rfl) (by rintro _ ⟨⟩ ⟨⟩) (by rintro _ ⟨⟩; trivial)
  | compareExchange value position =>
    simp only [RingCall.exec] at hexec
    split at hexec <;> cases hexec
    · rename_i heq
      obtain ⟨rfl, -⟩ := heq
      have hlength : (ring.claim t value ring.enqueuePosition).claimed.length =
          ring.claimed.length + 1 := List.length_append
      refine h.keep rfl ?_ rfl (by omega) rfl (htakes _ rfl) (by rintro _ ⟨⟩ ⟨⟩) ?_ ?_
      · rw [hlength, UInt64.ofNat_add, ← h.enqueue]
        rfl
      · rintro _ ⟨⟩
        exact ⟨ring.claimed.length, by omega, h.enqueue⟩
      · exact fun i hi => (h.sequenced i hi).mono rfl (by omega) (Nat.le_refl _) rfl
    · exact h.stay (htakes _ rfl) (by rintro _ ⟨⟩ ⟨⟩) (by rintro _ ⟨⟩; trivial)
  | beginWrite value position =>
    cases hexec
    exact h.keep rfl h.enqueue rfl (Nat.le_refl _) rfl (htakes _ rfl) (by rintro _ ⟨⟩ ⟨⟩)
      (by rintro _ ⟨⟩; exact hplaced) (hsequence position none)
  | endWrite value position =>
    cases hexec
    exact h.keep rfl h.enqueue rfl (Nat.le_refl _) rfl (htakes _ rfl) (by rintro _ ⟨⟩ ⟨⟩)
      (by rintro _ ⟨⟩; exact hplaced) (hsequence position value)
  | publish position =>
    cases hexec
    exact h.publish hcall hrange
  | tryDequeue =>
    cases hexec
    exact h.stay (htakes _ rfl) (fun _ _ _ => hrole rfl) (by rintro _ ⟨⟩; rfl)
  | loadPublished position =>
    obtain rfl : position = ring.dequeuePosition := hplaced
    simp only [RingCall.exec] at hexec
    split at hexec <;> cases hexec
    · rename_i hfound
      obtain rfl : t = 0 := hrole rfl
      exact h.stay (htakes _ rfl) (fun _ _ _ => rfl)
        (by rintro _ ⟨⟩; exact ⟨rfl, h.lt_of_found hcall hrange hfound⟩)
    · exact h.stay (htakes _ rfl) (by rintro _ ⟨⟩) (by rintro _ ⟨⟩)
  | beginRead position =>
    cases hexec
    exact h.stay (htakes _ rfl) (fun _ _ _ => hrole rfl) (by rintro _ ⟨⟩; exact hplaced)
  | endRead position value =>
    obtain ⟨rfl, hlt⟩ := hplaced
    obtain rfl : t = 0 := hrole rfl
    have hdequeue := h.dequeue
    rw [RingCalls.taken, hcall] at hdequeue
    cases hexec
    refine h.consume rfl rfl rfl ?_ ?_ ?_ ?_
    · change ring.dequeuePosition + 1 = UInt64.ofNat (ring.dequeued ++ [_]).length
      rw [List.length_append, UInt64.ofNat_add, ← hdequeue]
      exact congrArg (· + 1) (UInt64.add_zero _).symm
    · exact Nat.le_trans (Nat.le_of_eq List.length_append) hlt
    · rintro _ ⟨⟩
      exact ⟨rfl, by change 0 < (ring.dequeued ++ [_]).length; simp⟩
    · refine fun i hi => (h.sequenced i hi).mono rfl (Nat.le_refl _) ?_
        (ring.sequence_setValue ring.dequeuePosition none i)
      exact (List.prefix_append _ _).length_le
  | releaseCell position value =>
    obtain ⟨rfl, hpositive⟩ := hplaced
    obtain rfl : t = 0 := hrole rfl
    cases hexec
    exact h.release hcall hpositive hrange
  | advance position value =>
    obtain rfl : position = ring.dequeuePosition := hplaced
    obtain rfl : t = 0 := hrole rfl
    have hdequeue := h.dequeue
    rw [RingCalls.taken, hcall] at hdequeue
    cases hexec
    refine h.consume rfl rfl rfl ?_ h.dequeued_le (by rintro _ ⟨⟩) fun i hi =>
      (h.sequenced i hi).mono rfl (Nat.le_refl _) (Nat.le_refl _) rfl
    change ring.dequeuePosition + 1 + 0 = _
    rw [UInt64.add_zero]
    exact hdequeue

theorem RingPositions.new {capacity : UInt64} (hcapacity : 0 < capacity.toNat) :
    RingPositions (MpscRingBuffer.new capacity : MpscRingBuffer α) fun _ => none :=
  ⟨hcapacity, rfl, rfl, Nat.le_refl _, fun _ => nofun, fun _ => nofun,
    fun i _ => ⟨i, .fresh, rfl⟩⟩

theorem RingPositions.lt_of_full (h : RingPositions ring calls) (htaken : calls.taken = 0) {p : Nat}
    (hle : ring.dequeued.length ≤ p)
    (hfull : ring.full (UInt64.ofNat p) ring.dequeuePosition = true) :
    ring.dequeued.length < p := by
  refine Nat.lt_of_le_of_ne hle fun heq => ?_
  have hdequeue := h.dequeue
  rw [htaken, heq] at hdequeue
  have hposition : ring.dequeuePosition = UInt64.ofNat p := (UInt64.add_zero _).symm.trans hdequeue
  rw [MpscRingBuffer.full, hposition, UInt64.sub_self] at hfull
  have := UInt64.le_iff_toNat_le.mp (of_decide_eq_true hfull)
  have := h.capacity
  rw [UInt64.toNat_zero] at *
  omega

end Step

end UnixNotes.Logger
