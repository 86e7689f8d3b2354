import UnixNotes.Logger.RingInvariant

namespace UnixNotes.Logger

variable {α : Type} {t : Nat} {fails : Bool} {ring ring' : MpscRingBuffer α} {call : RingCall α}
  {next : RingNext α} {passed : Option α}

/-- What a call that was made with `passed` has in its caller's variable. -/
def RingCall.Carries (passed : Option α) : RingCall α → Prop
  | .tryEnqueue value => value = passed
  | .loadSequence value _ => value = passed
  | .compareExchange value _ => value = passed
  | .beginWrite value _ => value = passed
  | .endWrite value _ => value = passed
  | _ => True

def RingResult.dequeues : RingResult α → Bool
  | .tryEnqueue _ _ => false
  | .tryDequeue _ _ => true

def RingNext.dequeues : RingNext α → Bool
  | .running call => call.dequeues
  | .returned result => result.dequeues

def RingNext.Carries (passed : Option α) : RingNext α → Prop
  | .running call => call.Carries passed
  | .returned (.tryEnqueue false value) => value = passed
  | .returned _ => True

theorem RingCall.carries_of_exec (h : call.Carries passed)
    (hexec : call.exec t fails ring = (ring', next)) :
    next.Carries passed ∧ next.dequeues = call.dequeues := by
  cases call
  all_goals
    simp only [RingCall.exec] at hexec
    (repeat' split at hexec) <;> cases hexec <;> exact ⟨by first | exact h | trivial, rfl⟩

/-- The position a call has claimed, the value it has taken: what of it the histories have and its
caller does not have yet. -/
def RingCall.claims (passed : Option α) (call : RingCall α) : List (Option α) :=
  if call.writes.isSome then [passed] else []

def RingCall.takes : RingCall α → List (Option α)
  | .releaseCell _ value => [value]
  | .advance _ value => [value]
  | _ => []

def RingResult.claims (passed : Option α) : RingResult α → List (Option α)
  | .tryEnqueue true _ => [passed]
  | _ => []

def RingResult.takes : RingResult α → List (Option α)
  | .tryDequeue true value => [value]
  | _ => []

def RingNext.claims (passed : Option α) : RingNext α → List (Option α)
  | .running call => call.claims passed
  | .returned result => result.claims passed

def RingNext.takes : RingNext α → List (Option α)
  | .running call => call.takes
  | .returned result => result.takes

theorem RingNext.claims_eq {value : Option α} (h : value ∈ next.claims passed) :
    value = passed ∧ next.dequeues = false := by
  cases next with
  | running call =>
    cases call
    all_goals first | exact ⟨List.mem_singleton.mp h, rfl⟩ | cases h
  | returned result =>
    cases result with
    | tryEnqueue ok _ =>
      cases ok with
      | false => cases h
      | true => exact ⟨List.mem_singleton.mp h, rfl⟩
    | tryDequeue _ _ => cases h

theorem RingNext.takes_eq {value : Option α} (h : value ∈ next.takes) : next.dequeues = true := by
  cases next with
  | running call =>
    cases call
    all_goals first | rfl | cases h
  | returned result =>
    cases result with
    | tryEnqueue _ _ => cases h
    | tryDequeue ok _ => rfl

theorem RingCall.histories_of_exec (h : call.Carries passed)
    (hexec : call.exec t fails ring = (ring', next)) : ring'.capacity = ring.capacity ∧
      ∃ claimed taken, ring'.claimed = ring.claimed ++ claimed.map (t, ·) ∧
        next.claims passed = call.claims passed ++ claimed ∧
        ring'.dequeued = ring.dequeued ++ taken ∧ next.takes = call.takes ++ taken := by
  cases call with
  | compareExchange value position =>
    obtain rfl := h
    simp only [RingCall.exec] at hexec
    split at hexec <;> cases hexec
    · exact ⟨rfl, [value], [], rfl, rfl, (List.append_nil _).symm, rfl⟩
    · exact ⟨rfl, [], [], (List.append_nil _).symm, rfl, (List.append_nil _).symm, rfl⟩
  | endRead position value =>
    cases hexec
    exact ⟨rfl, [], [_], (List.append_nil _).symm, rfl, rfl, rfl⟩
  | _ =>
    simp only [RingCall.exec] at hexec
    (repeat' split at hexec) <;> cases hexec <;>
      exact ⟨rfl, [], [], (List.append_nil _).symm, rfl, (List.append_nil _).symm, rfl⟩

theorem RingCall.length_claims_le (passed : Option α) (call : RingCall α) :
    (call.claims passed).length ≤ 1 := by
  rw [RingCall.claims]
  split
  · exact Nat.le_refl 1
  · exact Nat.zero_le 1

theorem RingNext.length_claims_le (passed : Option α) (next : RingNext α) :
    (next.claims passed).length ≤ 1 := by
  cases next with
  | running call => exact call.length_claims_le passed
  | returned result =>
    cases result with
    | tryEnqueue ok _ =>
      cases ok with
      | false => exact Nat.zero_le 1
      | true => exact Nat.le_refl 1
    | tryDequeue _ _ => exact Nat.zero_le 1

theorem RingCall.claims_of_exec (hrole : call.dequeues = false) (h : call.Carries passed)
    (hexec : call.exec t fails ring = (ring', next)) : ring'.dequeued = ring.dequeued ∧
      ring'.claimed.length + (call.claims passed).length =
        ring.claimed.length + (next.claims passed).length := by
  obtain ⟨-, claimed, taken, hclaimed, hclaims, hdequeued, htakes⟩ :=
    RingCall.histories_of_exec h hexec
  have htaken : taken = [] := by
    refine List.eq_nil_iff_forall_not_mem.mpr fun value hvalue => ?_
    have hnext := RingNext.takes_eq (htakes ▸ List.mem_append_right call.takes hvalue)
    rw [(RingCall.carries_of_exec h hexec).2, hrole] at hnext
    cases hnext
  refine ⟨by rw [hdequeued, htaken, List.append_nil], ?_⟩
  rw [hclaimed, hclaims, List.length_append, List.length_append, List.length_map]
  omega

theorem RingCall.takes_of_exec (hrole : call.dequeues = true)
    (hexec : call.exec t fails ring = (ring', next)) : ring'.claimed = ring.claimed ∧
      ∃ taken, ring'.dequeued = ring.dequeued ++ taken ∧ next.takes = call.takes ++ taken := by
  have h : call.Carries none := by cases call <;> trivial
  obtain ⟨-, claimed, taken, hclaimed, hclaims, hdequeued, htakes⟩ :=
    RingCall.histories_of_exec h hexec
  have hnil : claimed = [] := by
    refine List.eq_nil_iff_forall_not_mem.mpr fun value hvalue => ?_
    have hnext := (RingNext.claims_eq (hclaims ▸ List.mem_append_right _ hvalue)).2
    rw [(RingCall.carries_of_exec h hexec).2, hrole] at hnext
    cases hnext
  exact ⟨by rw [hclaimed, hnil, List.map_nil, List.append_nil], taken, hdequeued, htakes⟩

theorem RingCall.growth_of_exec (hexec : call.exec t fails ring = (ring', next)) :
    ring'.claimed = ring.claimed ∧ ring'.dequeued = ring.dequeued ∨
    (∃ value, call = .compareExchange value ring.enqueuePosition ∧
      ring'.claimed = ring.claimed ++ [(t, value)] ∧ ring'.dequeued = ring.dequeued) ∨
    ∃ value, ring'.claimed = ring.claimed ∧ ring'.dequeued = ring.dequeued ++ [value] := by
  cases call with
  | compareExchange value position =>
    simp only [RingCall.exec] at hexec
    split at hexec
    · rename_i heq
      obtain ⟨rfl, -⟩ := heq
      cases hexec
      exact .inr (.inl ⟨value, rfl, rfl, rfl⟩)
    · cases hexec
      exact .inl ⟨rfl, rfl⟩
  | endRead position value =>
    cases hexec
    exact .inr (.inr ⟨_, rfl, rfl⟩)
  | _ =>
    simp only [RingCall.exec] at hexec
    (repeat' split at hexec) <;> cases hexec <;> exact .inl ⟨rfl, rfl⟩

theorem RingCall.capacity_of_exec (hexec : call.exec t fails ring = (ring', next)) :
    ring'.capacity = ring.capacity := by
  cases call
  all_goals
    simp only [RingCall.exec] at hexec
    (repeat' split at hexec) <;> cases hexec <;> rfl

theorem RingCall.owns_of_exec {call' : RingCall α} (h : call.Carries passed)
    (hposition : ring.enqueuePosition.toNat = ring.claimed.length)
    (howns : ∀ position ∈ call.writes, ring.claimed[position.toNat]? = some (t, passed))
    (hexec : call.exec t fails ring = (ring', .running call')) :
    ∀ position ∈ call'.writes, ring'.claimed[position.toNat]? = some (t, passed) := by
  cases call with
  | compareExchange value position =>
    obtain rfl := h
    simp only [RingCall.exec] at hexec
    split at hexec
    · rename_i heq
      obtain ⟨rfl, -⟩ := heq
      cases hexec
      rintro _ ⟨⟩
      rw [hposition]
      exact List.getElem?_concat_length
    · cases hexec
      rintro _ ⟨⟩
  | beginWrite value position =>
    cases hexec
    exact howns
  | endWrite value position =>
    cases hexec
    exact howns
  | _ =>
    simp only [RingCall.exec] at hexec
    (repeat' split at hexec) <;> cases hexec <;> rintro _ ⟨⟩

theorem RingCall.writes_of_enqueued {value : Option α}
    (hexec : call.exec t fails ring = (ring', .returned (.tryEnqueue true value))) :
    ∃ position, call.writes = some position ∧ ring'.claimed = ring.claimed := by
  cases call with
  | publish position =>
    cases hexec
    exact ⟨position, rfl, rfl⟩
  | _ =>
    simp only [RingCall.exec] at hexec
    (repeat' split at hexec) <;> cases hexec

theorem RingCall.refused_of_exec {value : Option α}
    (hexec : call.exec t fails ring = (ring', .returned (.tryEnqueue false value))) :
    ∃ position, call = .loadSequence value position ∧
      MpscRingBuffer.difference (ring.cell position).sequence position < 0 := by
  cases call with
  | loadSequence _ position =>
    simp only [RingCall.exec] at hexec
    split at hexec
    · cases hexec
    · split at hexec
      · rename_i hnegative
        cases hexec
        exact ⟨position, rfl, hnegative⟩
      · cases hexec
  | _ =>
    simp only [RingCall.exec] at hexec
    (repeat' split at hexec) <;> cases hexec

theorem RingCall.producer_cases (hrole : call.dequeues = false)
    (hexec : call.exec t fails ring = (ring', next)) :
    (∃ position, call = .publish position ∧ next = .returned (.tryEnqueue true none) ∧
      ring' = ring.setSequence position (position + 1)) ∨
    (∃ value, call = .compareExchange value ring.enqueuePosition ∧
      next = .running (.beginWrite value ring.enqueuePosition) ∧
      ring' = ring.claim t value ring.enqueuePosition) ∨
    (∃ call', next = .running call' ∧ call'.writes = call.writes ∧
      (∀ position, call ≠ .publish position) ∧ ring'.claimed = ring.claimed ∧
      ring'.dequeued = ring.dequeued) ∨
    (∃ value position, call = .loadSequence value position ∧
      next = .returned (.tryEnqueue false value) ∧ ring' = ring) := by
  cases call with
  | compareExchange value position =>
    simp only [RingCall.exec] at hexec
    split at hexec
    · rename_i heq
      obtain ⟨rfl, -⟩ := heq
      cases hexec
      exact .inr (.inl ⟨value, rfl, rfl, rfl⟩)
    · cases hexec
      exact .inr (.inr (.inl ⟨_, rfl, rfl, nofun, rfl, rfl⟩))
  | loadSequence value position =>
    simp only [RingCall.exec] at hexec
    split at hexec
    · cases hexec
      exact .inr (.inr (.inl ⟨_, rfl, rfl, nofun, rfl, rfl⟩))
    · split at hexec <;> cases hexec
      · exact .inr (.inr (.inr ⟨value, position, rfl, rfl, rfl⟩))
      · exact .inr (.inr (.inl ⟨_, rfl, rfl, nofun, rfl, rfl⟩))
  | publish position =>
    cases hexec
    exact .inl ⟨position, rfl, rfl, rfl⟩
  | tryEnqueue value =>
    cases hexec
    exact .inr (.inr (.inl ⟨_, rfl, rfl, nofun, rfl, rfl⟩))
  | beginWrite value position =>
    cases hexec
    exact .inr (.inr (.inl ⟨_, rfl, rfl, nofun, rfl, rfl⟩))
  | endWrite value position =>
    cases hexec
    exact .inr (.inr (.inl ⟨_, rfl, rfl, nofun, rfl, rfl⟩))
  | _ => cases hrole

end UnixNotes.Logger
