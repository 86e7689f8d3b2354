import UnixNotes.Logger.RingHistory
import UnixNotes.Logger.RingSteps

namespace UnixNotes.Logger.Ring

open Library

/-- What the threads that share one ring do: the producers call `tryEnqueue` with a value of their
own and the consumer calls `tryDequeue`, again and again. -/
inductive Instr (α : Type) where
  | producer
  | consumer
  | calling (passed : Option α) (call : RingCall α)
  | returned (passed : Option α) (result : RingResult α)
  deriving DecidableEq

inductive Choice (α : Type) where
  | next
  | enqueue (value : α)
  | weakFails

variable {α : Type}

def Choice.fails : Choice α → Bool
  | .weakFails => true
  | _ => false

def Instr.exec (t : Nat) (i : Instr α) (x : Choice α) (ring : MpscRingBuffer α) :
    Option (MpscRingBuffer α × List (Instr α)) :=
  match i with
  | .producer =>
    match x with
    | .enqueue value =>
      some (ring, [.calling (some value) (.tryEnqueue (some value)), .producer])
    | _ => none
  | .consumer => some (ring, [.calling none .tryDequeue, .consumer])
  | .calling passed call =>
    match call.exec t x.fails ring with
    | (ring, .running call) => some (ring, [.calling passed call])
    | (ring, .returned result) => some (ring, [.returned passed result])
  | .returned _ _ => some (ring, [])

abbrev Config (α : Type) := Library.Config (MpscRingBuffer α) (Instr α)

def machine : Machine (MpscRingBuffer α) (Instr α) (Choice α) :=
  ⟨fun t i x ring => i.exec t x ring⟩

def init (ring : MpscRingBuffer α) (n : Nat) : Config α :=
  ⟨ring, [.consumer] :: List.replicate n [.producer]⟩

def Instr.call? : Instr α → Option (RingCall α)
  | .calling _ call => some call
  | _ => none

def calls (c : Config α) : RingCalls α := c.heads Instr.call?

inductive Effect (t : Nat) (ring : MpscRingBuffer α) :
    Instr α → MpscRingBuffer α → List (Instr α) → Prop
  | producer (value : α) :
    Effect t ring .producer ring [.calling (some value) (.tryEnqueue (some value)), .producer]
  | consumer : Effect t ring .consumer ring [.calling none .tryDequeue, .consumer]
  | running {passed : Option α} {call call' : RingCall α} {fails : Bool} {ring' : MpscRingBuffer α}
      (exec : call.exec t fails ring = (ring', .running call')) :
    Effect t ring (.calling passed call) ring' [.calling passed call']
  | returning {passed : Option α} {call : RingCall α} {result : RingResult α} {fails : Bool}
      {ring' : MpscRingBuffer α} (exec : call.exec t fails ring = (ring', .returned result)) :
    Effect t ring (.calling passed call) ring' [.returned passed result]
  | returned {passed : Option α} {result : RingResult α} :
    Effect t ring (.returned passed result) ring []

theorem effect_of_exec {t : Nat} {i : Instr α} {x : Choice α} {ring ring' : MpscRingBuffer α}
    {pushed : List (Instr α)} (h : i.exec t x ring = some (ring', pushed)) :
    Effect t ring i ring' pushed := by
  cases i with
  | producer =>
    cases x with
    | enqueue value =>
      cases h
      exact .producer value
    | next => cases h
    | weakFails => cases h
  | consumer =>
    cases h
    exact .consumer
  | calling passed call =>
    simp only [Instr.exec] at h
    split at h
    · rename_i hexec
      cases h
      exact .running hexec
    · rename_i hexec
      cases h
      exact .returning hexec
  | returned passed result =>
    cases h
    exact .returned

def Instr.called : Instr α → Bool
  | .calling _ _ => true
  | .returned _ _ => true
  | _ => false

def Instr.Ok (t : Nat) : Instr α → Prop
  | .producer => t ≠ 0
  | .consumer => t = 0
  | .calling passed call =>
    (call.dequeues = true ↔ t = 0) ∧ call.Carries passed ∧ (t ≠ 0 → passed.isSome)
  | .returned passed result => (result.dequeues = true ↔ t = 0) ∧
    (RingNext.returned result).Carries passed ∧ (t ≠ 0 → passed.isSome)

structure Shape (c : Config α) : Prop where
  heads : c.HeadOnly fun i => i.called
  ok : ∀ t i, c.Active t i → i.Ok t
  claimed : ∀ entry ∈ c.shared.claimed, entry.2.isSome

theorem ok_of_effect {t : Nat} {i : Instr α} {ring ring' : MpscRingBuffer α}
    {pushed : List (Instr α)} (heffect : Effect t ring i ring' pushed) (h : i.Ok t) :
    ∀ j ∈ pushed, j.Ok t := by
  cases heffect with
  | producer value =>
    intro j hj
    rcases List.mem_cons.mp hj with rfl | hj
    · exact ⟨iff_of_false Bool.false_ne_true h, rfl, fun _ => rfl⟩
    · rw [List.mem_singleton.mp hj]
      exact h
  | consumer =>
    intro j hj
    rcases List.mem_cons.mp hj with rfl | hj
    · exact ⟨iff_of_true rfl h, trivial, fun hne => absurd h hne⟩
    · rw [List.mem_singleton.mp hj]
      exact h
  | running hexec =>
    intro j hj
    obtain ⟨hrole, hcarries, hpassed⟩ := h
    obtain ⟨hcarries', hdequeues⟩ := RingCall.carries_of_exec hcarries hexec
    rw [List.mem_singleton.mp hj]
    exact ⟨(Bool.eq_iff_iff.mp hdequeues).trans hrole, hcarries', hpassed⟩
  | returning hexec =>
    intro j hj
    obtain ⟨hrole, hcarries, hpassed⟩ := h
    obtain ⟨hcarries', hdequeues⟩ := RingCall.carries_of_exec hcarries hexec
    rw [List.mem_singleton.mp hj]
    exact ⟨(Bool.eq_iff_iff.mp hdequeues).trans hrole, hcarries', hpassed⟩
  | returned => exact fun j hj => absurd hj List.not_mem_nil

theorem init_stack {ring : MpscRingBuffer α} {n t : Nat} {i : Instr α} {rest : List (Instr α)}
    (htop : (init ring n).stack t = i :: rest) :
    rest = [] ∧ (t = 0 ∧ i = .consumer ∨ t ≠ 0 ∧ i = .producer) := by
  cases t with
  | zero =>
    cases htop
    exact ⟨rfl, .inl ⟨rfl, rfl⟩⟩
  | succ t =>
    simp only [Library.Config.stack, init, List.getD_eq_getElem?_getD, List.getElem?_cons_succ,
      List.getElem?_replicate] at htop
    split at htop <;> cases htop
    exact ⟨rfl, .inr ⟨Nat.succ_ne_zero t, rfl⟩⟩

theorem shape_init {capacity : UInt64} {n : Nat} :
    Shape (init (MpscRingBuffer.new capacity : MpscRingBuffer α) n) := by
  refine ⟨?_, ?_, ?_⟩
  · intro t j hj
    cases htop : (init (MpscRingBuffer.new capacity : MpscRingBuffer α) n).stack t with
    | nil => rw [htop] at hj; cases hj
    | cons i rest =>
      rw [htop, (init_stack htop).1] at hj
      cases hj
  · intro t j hj
    cases htop : (init (MpscRingBuffer.new capacity : MpscRingBuffer α) n).stack t with
    | nil => rw [Library.Config.Active, htop] at hj; cases hj
    | cons i rest =>
      obtain ⟨hrest, hi⟩ := init_stack htop
      rw [Library.Config.Active, htop, hrest, List.mem_singleton] at hj
      rw [hj]
      obtain ⟨ht, rfl⟩ | ⟨ht, rfl⟩ := hi
      · exact ht
      · exact ht
  · rintro _ ⟨⟩

theorem Shape.step {c c' : Config α} {t : Nat} {i : Instr α} (h : Shape c)
    (hstep : machine.Step c t i c') : Shape c' := by
  obtain @⟨rest, x, ring, pushed, htop, hexec⟩ := hstep
  have heffect := effect_of_exec hexec
  have hi := h.ok t i (Library.Config.active_of_top htop)
  have hpushed := ok_of_effect heffect hi
  refine ⟨h.heads.replace htop ?_, ?_, ?_⟩
  · cases heffect
    all_goals simp [Instr.called]
  · intro t' j hj
    obtain ⟨rfl, hmem⟩ | hactive := Library.Config.active_of_replace htop hj
    · exact hpushed j hmem
    · exact h.ok t' j hactive
  · have hcall : ∀ {passed : Option α} {call : RingCall α} {fails : Bool} {next : RingNext α},
        Instr.Ok t (.calling passed call) → call.exec t fails c.shared = (ring, next) →
        ∀ entry ∈ ring.claimed, entry.2.isSome := by
      intro passed call fails next ⟨hrole, hcarries, hpassed⟩ hexec entry hentry
      obtain ⟨-, claimed, -, hclaimed, hclaims, -⟩ := RingCall.histories_of_exec hcarries hexec
      rw [hclaimed, List.mem_append, List.mem_map] at hentry
      obtain hentry | ⟨value, hvalue, rfl⟩ := hentry
      · exact h.claimed entry hentry
      · have hmem : value ∈ next.claims passed := by
          rw [hclaims]
          exact List.mem_append_right _ hvalue
        obtain ⟨rfl, hnext⟩ := RingNext.claims_eq hmem
        refine hpassed fun ht => ?_
        rw [(RingCall.carries_of_exec hcarries hexec).2, hrole.mpr ht] at hnext
        cases hnext
    cases heffect with
    | producer value => exact h.claimed
    | consumer => exact h.claimed
    | running hcallexec => exact hcall hi hcallexec
    | returning hcallexec => exact hcall hi hcallexec
    | returned => exact h.claimed

theorem histories_of_effect {t : Nat} {i : Instr α} {ring ring' : MpscRingBuffer α}
    {pushed : List (Instr α)} (heffect : Effect t ring i ring' pushed) (h : i.Ok t) :
    ring'.capacity = ring.capacity ∧ ring.claimed <+: ring'.claimed := by
  cases heffect with
  | running hexec =>
    obtain ⟨hcapacity, claimed, -, hclaimed, -⟩ := RingCall.histories_of_exec h.2.1 hexec
    exact ⟨hcapacity, hclaimed ▸ List.prefix_append _ _⟩
  | returning hexec =>
    obtain ⟨hcapacity, claimed, -, hclaimed, -⟩ := RingCall.histories_of_exec h.2.1 hexec
    exact ⟨hcapacity, hclaimed ▸ List.prefix_append _ _⟩
  | _ => exact ⟨rfl, List.prefix_refl _⟩

theorem Shape.heads_calls {c : Config α} (h : Shape c) : c.HeadOnly fun i => i.call?.isSome := by
  intro t j hj hcall
  refine h.heads t j hj ?_
  cases j with
  | calling passed call => rfl
  | _ => cases hcall

theorem ringInv_step {c c' : Config α} {t : Nat} {i : Instr α} (hshape : Shape c)
    (inv : RingInv c.shared (calls c)) (hcapacity : 2 ≤ c.shared.capacity.toNat)
    (hstep : machine.Step c t i c')
    (hrange : c'.shared.claimed.length + c'.shared.capacity.toNat ≤ 2 ^ 64) :
    RingInv c'.shared (calls c') := by
  obtain @⟨rest, x, ring, pushed, htop, hexec⟩ := hstep
  have heffect := effect_of_exec hexec
  have hok := hshape.ok t i (Library.Config.active_of_top htop)
  have hcall : calls c t = i.call? := Library.Config.heads_of_top _ htop
  have hcalls : calls (c.replace t ring (pushed ++ rest)) =
      Function.update (calls c) t (pushed.head?.bind Instr.call?) :=
    Library.Config.heads_replace hshape.heads_calls htop ring pushed
  rw [Library.Config.shared_replace, hcalls]
  cases heffect with
  | producer value => exact inv.tryEnqueue hcall hok _
  | consumer =>
    obtain rfl : t = 0 := hok
    exact inv.tryDequeue hcall
  | running hcallexec => exact inv.exec hcapacity hcall hcallexec hrange
  | returning hcallexec => exact inv.exec hcapacity hcall hcallexec hrange
  | returned =>
    change RingInv c.shared (Function.update (calls c) t none)
    rwa [← show calls c t = none from hcall, Function.update_eq_self]

theorem claimed_le_of_step {c c' : Config α} {t : Nat} {i : Instr α}
    (hstep : machine.Step c t i c') :
    c'.shared.claimed.length ≤ c.shared.claimed.length + 1 := by
  have hcall : ∀ {call : RingCall α} {fails : Bool} {ring ring' : MpscRingBuffer α}
      {next : RingNext α}, call.exec t fails ring = (ring', next) →
      ring'.claimed.length ≤ ring.claimed.length + 1 := by
    intro call fails ring ring' next hexec
    obtain ⟨hclaimed, -⟩ | ⟨_, -, hclaimed, -⟩ | ⟨_, hclaimed, -⟩ :=
      RingCall.growth_of_exec hexec
    · rw [hclaimed]
      exact Nat.le_succ _
    · rw [hclaimed, List.length_append, List.length_singleton]
    · rw [hclaimed]
      exact Nat.le_succ _
  obtain @⟨rest, x, ring, pushed, htop, hexec⟩ := hstep
  cases effect_of_exec hexec with
  | running hcallexec => exact hcall hcallexec
  | returning hcallexec => exact hcall hcallexec
  | _ => exact Nat.le_succ _

structure Inv (capacity : UInt64) (c : Config α) : Prop where
  shape : Shape c
  capacity_eq : c.shared.capacity = capacity
  ring : c.shared.claimed.length + capacity.toNat ≤ 2 ^ 64 → RingInv c.shared (calls c)

theorem calls_init {capacity : UInt64} {n : Nat} :
    calls (init (MpscRingBuffer.new capacity : MpscRingBuffer α) n) = fun _ => none := by
  funext t
  cases htop : (init (MpscRingBuffer.new capacity : MpscRingBuffer α) n).stack t with
  | nil => rw [calls, Library.Config.heads, htop]; rfl
  | cons i rest =>
    rw [calls, Library.Config.heads_of_top _ htop]
    obtain ⟨-, rfl⟩ | ⟨-, rfl⟩ := (init_stack htop).2 <;> rfl

theorem Inv.init {capacity : UInt64} {n : Nat} :
    Inv capacity (init (MpscRingBuffer.new capacity : MpscRingBuffer α) n) :=
  ⟨shape_init, rfl, fun _ => by rw [calls_init]; exact RingInv.new⟩

theorem Inv.step {capacity : UInt64} {c c' : Config α} {t : Nat} {i : Instr α}
    (hcapacity : 2 ≤ capacity.toNat) (h : Inv capacity c) (hstep : machine.Step c t i c') :
    Inv capacity c' := by
  have hshape := h.shape.step hstep
  have hgrows : c'.shared.capacity = c.shared.capacity ∧
      c.shared.claimed <+: c'.shared.claimed := by
    obtain @⟨rest, x, ring, pushed, htop, hexec⟩ := hstep
    exact histories_of_effect (effect_of_exec hexec)
      (h.shape.ok t i (Library.Config.active_of_top htop))
  refine ⟨hshape, hgrows.1.trans h.capacity_eq, fun hrange => ?_⟩
  have hlength := hgrows.2.length_le
  refine ringInv_step h.shape (h.ring (by omega)) (by rw [h.capacity_eq]; exact hcapacity) hstep ?_
  rw [hgrows.1, h.capacity_eq]
  exact hrange

theorem inv_of_run {ok : Config α → Nat → Instr α → Prop} {capacity : UInt64} {n : Nat}
    {c : Config α} (hcapacity : 2 ≤ capacity.toNat)
    (hrun : machine.Run ok (Ring.init (MpscRingBuffer.new capacity) n) c) : Inv capacity c :=
  hrun.invariant Inv.init fun h _ hstep => h.step hcapacity hstep

end UnixNotes.Logger.Ring
