import UnixNotes.Logger.RingInvariant

namespace UnixNotes.Logger

variable {α : Type} {ring ring' : MpscRingBuffer α} {calls calls' : RingCalls α} {t : Nat}
  {call : RingCall α} {call? : Option (RingCall α)}

namespace RingInv

theorem update (inv : RingInv ring calls) (hcall : calls t = some call)
    (hcapacity : ring'.capacity = ring.capacity) (hclaimed : ring.claimed <+: ring'.claimed)
    (hreleased : ring.released ≤ ring'.released)
    (position : ring'.enqueuePosition.toNat = ring'.claimed.length)
    (released : ring'.released ≤ ring'.claimed.length)
    (room : ring'.claimed.length ≤ ring'.released + ring.capacity.toNat)
    (dequeued : ring'.dequeued = (ring'.claimed.map Prod.snd).take ring'.dequeued.length)
    (role : ∀ next ∈ call?, next.dequeues = call.dequeues)
    (idle : t = 0 → call? = none → ring'.Idle)
    (own : ∀ next ∈ call?, next.Ok ring' (Function.update calls t call?) t)
    (keep : t ≠ 0 → KeepsConsumer ring calls ring' (Function.update calls t call?))
    (writes : ∀ t', t' ≠ t → ∀ other ∈ calls t', ∀ position ∈ other.writes,
      ring'.released ≤ position.toNat ∧ (ring'.cell position).value = (ring.cell position).value)
    (cells : ∀ p, ring'.released ≤ p → p < ring'.released + ring.capacity.toNat →
      ring'.CellOk (Function.update calls t call?) p) :
    RingInv ring' (Function.update calls t call?) := by
  have htail : ∀ {t' : Nat} {other : RingCall α}, t' ≠ t →
      other ∈ Function.update calls t call? t' → other ∈ calls t' := fun ht hother => by
    rwa [Function.update_of_ne ht] at hother
  refine ⟨position, released, by rw [hcapacity]; exact room, dequeued, ?_, ?_, ?_,
    by rw [hcapacity]; exact cells⟩
  · intro t' other hother
    by_cases ht : t' = t
    · subst ht
      rw [Function.update_self] at hother
      rw [role other hother]
      exact inv.role t' call hcall
    · exact inv.role t' other (htail ht hother)
  · intro hnone
    by_cases ht : t = 0
    · subst ht
      exact idle rfl (by rwa [Function.update_self] at hnone)
    · rw [Function.update_of_ne (Ne.symm ht)] at hnone
      exact (inv.idle hnone).keep (keep ht)
  · intro t' other hother
    by_cases ht : t' = t
    · subst ht
      rw [Function.update_self] at hother
      exact own other hother
    · have hother' := htail ht hother
      refine (inv.ok t' other hother').frame hcapacity hclaimed hreleased
        (writes t' ht other hother') fun hdequeues => keep ?_
      rintro rfl
      exact ht ((inv.role t' other hother').mp hdequeues)

theorem claimed_of_writes (inv : RingInv ring calls) {position : UInt64} (hcall : calls t = some call)
    (hwrites : position ∈ call.writes) : ∃ value, ring.Claimed t value position := by
  have hok := inv.ok t call hcall
  cases call with
  | beginWrite value _ =>
    cases hwrites
    exact ⟨value, hok⟩
  | endWrite value _ =>
    cases hwrites
    exact ⟨value, hok⟩
  | publish _ =>
    cases hwrites
    exact ⟨_, hok⟩
  | _ => cases hwrites

theorem published_update (hcall : calls t = some call)
    (hwrites : call?.bind RingCall.writes = call.writes) (hclaimed : ring'.claimed = ring.claimed)
    (p : Nat) : ring'.Published (Function.update calls t call?) p ↔ ring.Published calls p := by
  simp only [MpscRingBuffer.Published, RingCalls.writes_iff hcall hwrites, hclaimed]

theorem stay (inv : RingInv ring calls) (hcall : calls t = some call) (hwrites : call.writes = none)
    (hnext : call?.bind RingCall.writes = none)
    (role : ∀ next ∈ call?, next.dequeues = call.dequeues)
    (idle : t = 0 → call? = none → ring.Idle)
    (own : ∀ next ∈ call?, next.Ok ring (Function.update calls t call?) t) :
    RingInv ring (Function.update calls t call?) := by
  have hpublished : ∀ p, ring.Published (Function.update calls t call?) p ↔
      ring.Published calls p := published_update hcall (hnext.trans hwrites.symm) rfl
  refine inv.update hcall rfl (List.prefix_refl _) (Nat.le_refl _) inv.position inv.released
    inv.room inv.dequeued role idle own ?_ ?_ ?_
  · exact fun _ => ⟨rfl, rfl, rfl, (hpublished _).mpr⟩
  · intro t' _ other hother position hposition
    obtain ⟨value, hclaimed⟩ := inv.claimed_of_writes hother hposition
    exact ⟨hclaimed.1, rfl⟩
  · intro p hp hp'
    exact (inv.cells p hp hp').of_cell rfl rfl (hpublished p) (Nat.le_refl _) (List.prefix_refl _)

theorem dequeued_le (inv : RingInv ring calls) : ring.dequeued.length ≤ ring.claimed.length := by
  have h := congrArg List.length inv.dequeued
  rw [List.length_take, List.length_map] at h
  omega

theorem window (inv : RingInv ring calls) {value : Option α} {position : UInt64}
    (h : ring.Claimed t value position) : ring.released ≤ position.toNat ∧
      position.toNat < ring.released + ring.capacity.toNat :=
  ⟨h.1, Nat.lt_of_lt_of_le h.lt inv.room⟩

theorem index_ne_of_writes (inv : RingInv ring calls) {position other : UInt64} {t' : Nat}
    {call' : RingCall α} (hcall : calls t = some call) (hposition : position ∈ call.writes)
    (hcall' : call' ∈ calls t') (hother : other ∈ call'.writes) (hne : t' ≠ t) :
    other.toNat % ring.capacity.toNat ≠ position.toNat % ring.capacity.toNat := by
  obtain ⟨value, hclaimed⟩ := inv.claimed_of_writes hcall hposition
  obtain ⟨value', hclaimed'⟩ := inv.claimed_of_writes hcall' hother
  refine fun heq => hne ?_
  have hentry := hclaimed'.2
  rw [MpscRingBuffer.eq_of_mod_eq (inv.window hclaimed').1 (inv.window hclaimed').2
    (inv.window hclaimed).1 (inv.window hclaimed).2 heq, hclaimed.2] at hentry
  exact (congrArg Prod.fst (Option.some.inj hentry)).symm

theorem claim (inv : RingInv ring calls) {value : Option α}
    (hcall : calls t = some (.compareExchange value ring.enqueuePosition))
    (hrange : ring.claimed.length + 1 < 2 ^ 64) :
    RingInv (ring.claim t value ring.enqueuePosition)
      (Function.update calls t (some (.beginWrite value ring.enqueuePosition))) := by
  have hfree := (inv.ok t _ hcall).2 inv.position
  have hposition := inv.position
  have hreleased := inv.released
  have hle := inv.dequeued_le
  have hgrows : ring.claimed <+: (ring.claim t value ring.enqueuePosition).claimed :=
    List.prefix_append _ _
  have hlength : (ring.claim t value ring.enqueuePosition).claimed.length =
      ring.claimed.length + 1 := List.length_append
  have hwrites : ∀ t' p, RingCalls.Writes
      (Function.update calls t (some (.beginWrite value ring.enqueuePosition))) t' p ↔
      calls.Writes t' p ∨ t' = t ∧ p = ring.claimed.length := by
    intro t' p
    by_cases ht : t' = t
    · subst ht
      rw [RingCalls.writes_update_self, RingCalls.Writes, hcall]
      simp [RingCall.writes, ← hposition, eq_comm]
    · rw [RingCalls.writes_update_ne ht]
      simp [ht]
  have hpublished : ∀ p, (ring.claim t value ring.enqueuePosition).Published
      (Function.update calls t (some (.beginWrite value ring.enqueuePosition))) p ↔
      ring.Published calls p := by
    intro p
    simp only [MpscRingBuffer.Published, hlength, hwrites, not_or, not_and, forall_and]
    constructor
    · rintro ⟨hlt, hnot, hne⟩
      have := hne t rfl
      exact ⟨by omega, hnot⟩
    · rintro ⟨hlt, hnot⟩
      exact ⟨by omega, hnot, fun _ _ => by omega⟩
  refine inv.update hcall rfl hgrows (Nat.le_refl _) ?_ ?_ ?_ ?_ ?_ ?_ ?_ ?_ ?_ ?_
  · rw [hlength, ← hposition]
    exact Library.toNat_succ (by omega)
  · rw [hlength]
    exact Nat.le_succ_of_le hreleased
  · rw [hlength]
    exact hfree
  · rw [MpscRingBuffer.claim, List.map_append, List.take_append_of_le_length (by simpa using hle)]
    exact inv.dequeued
  · rintro _ ⟨⟩
    rfl
  · rintro - ⟨⟩
  · rintro _ ⟨⟩
    refine ⟨by rw [hposition]; exact hreleased, ?_⟩
    rw [hposition, MpscRingBuffer.claim, List.getElem?_concat_length]
  · exact fun _ => ⟨rfl, rfl, rfl, (hpublished _).mpr⟩
  · intro t' _ other hother position hmem
    obtain ⟨_, hclaimed⟩ := inv.claimed_of_writes hother hmem
    exact ⟨hclaimed.1, rfl⟩
  · intro p hp hp'
    exact (inv.cells p hp hp').of_cell rfl rfl (hpublished p) (Nat.le_refl _) hgrows

theorem toNat_succ (inv : RingInv ring calls) {position : UInt64}
    (h : position.toNat < ring.claimed.length) : (position + 1).toNat = position.toNat + 1 := by
  have := inv.position ▸ ring.enqueuePosition.toNat_lt
  exact Library.toNat_succ (by omega)

theorem write (inv : RingInv ring calls) (hcall : calls t = some call) {position : UInt64}
    (hposition : call.writes = some position) (next : RingCall α)
    (hnext : next.writes = some position) (hrole : next.dequeues = call.dequeues)
    (value : Option α)
    (own : next.Ok (ring.setValue position value) (Function.update calls t (some next)) t) :
    RingInv (ring.setValue position value) (Function.update calls t (some next)) := by
  have hpublished : ∀ p, (ring.setValue position value).Published
      (Function.update calls t (some next)) p ↔ ring.Published calls p :=
    published_update hcall (hnext.trans hposition.symm) rfl
  obtain ⟨v, hclaimed⟩ := inv.claimed_of_writes hcall hposition
  have hwindow := inv.window hclaimed
  refine inv.update hcall rfl (List.prefix_refl _) (Nat.le_refl _) inv.position inv.released
    inv.room inv.dequeued ?_ ?_ ?_ ?_ ?_ ?_
  · rintro _ ⟨⟩
    exact hrole
  · rintro - ⟨⟩
  · rintro _ ⟨⟩
    exact own
  · exact fun _ => ⟨rfl, rfl, rfl, (hpublished _).mpr⟩
  · intro t' ht other hother q hq
    obtain ⟨_, hother'⟩ := inv.claimed_of_writes hother hq
    refine ⟨hother'.1, ?_⟩
    rw [MpscRingBuffer.setValue, MpscRingBuffer.cell_setCell_ne]
    exact inv.index_ne_of_writes hcall hposition hother hq ht
  · intro p hp hp'
    have hok := inv.cells p hp hp'
    by_cases heq : p = position.toNat
    · have hnot : ¬ring.Published calls p := fun h =>
        h.2 t ⟨call, hcall, position, hposition, heq.symm⟩
      refine ⟨fun h => absurd ((hpublished p).mp h) hnot, fun _ => ?_,
        fun h => absurd ((hpublished p).mp h) hnot⟩
      have hcell := ring.cells_setCell_self position { ring.cell position with value := value }
      rw [heq]
      refine (congrArg (fun cell => cell.sequence.toNat) hcell).trans ?_
      simp only [MpscRingBuffer.cell_eq, ← heq]
      exact hok.free hnot
    · refine hok.of_cell rfl ?_ (hpublished p) (Nat.le_refl _) (List.prefix_refl _)
      exact MpscRingBuffer.cells_setCell_ne _ fun hmod =>
        heq (MpscRingBuffer.eq_of_mod_eq hp hp' hwindow.1 hwindow.2 hmod)

theorem publish (inv : RingInv ring calls) {position : UInt64}
    (hcall : calls t = some (.publish position)) :
    RingInv (ring.setSequence position (position + 1)) (Function.update calls t none) := by
  have hclaimed : ring.Claimed t (ring.cell position).value position := inv.ok t _ hcall
  have hwindow := inv.window hclaimed
  have hwrites : ∀ t' p, RingCalls.Writes (Function.update calls t none) t' p ↔
      calls.Writes t' p ∧ t' ≠ t := by
    intro t' p
    by_cases ht : t' = t
    · subst ht
      rw [RingCalls.writes_update_self]
      simp
    · rw [RingCalls.writes_update_ne ht]
      simp [ht]
  have hown : ∀ p, calls.Writes t p ↔ p = position.toNat := fun p => by
    simp [RingCalls.Writes, hcall, RingCall.writes, eq_comm]
  have hpublished : ∀ p, p ≠ position.toNat →
      ((ring.setSequence position (position + 1)).Published (Function.update calls t none) p ↔
        ring.Published calls p) := by
    intro p hp
    simp only [MpscRingBuffer.Published, hwrites, not_and, not_not]
    refine and_congr Iff.rfl (forall_congr' fun t' => ⟨fun h hw => ?_, fun h hw => absurd hw h⟩)
    cases h hw
    exact hp ((hown p).mp hw)
  refine inv.update hcall rfl (List.prefix_refl _) (Nat.le_refl _) inv.position inv.released
    inv.room inv.dequeued ?_ ?_ ?_ ?_ ?_ ?_
  · rintro _ ⟨⟩
  · rintro rfl -
    cases (inv.role 0 _ hcall).mpr rfl
  · rintro _ ⟨⟩
  · refine fun _ => ⟨rfl, rfl, rfl, fun h => (hpublished _ fun heq => ?_).mpr h⟩
    exact h.2 t ((hown _).mpr heq)
  · intro t' ht other hother q hq
    obtain ⟨_, hother'⟩ := inv.claimed_of_writes hother hq
    refine ⟨hother'.1, ?_⟩
    rw [MpscRingBuffer.setSequence, MpscRingBuffer.cell_setCell_ne]
    exact inv.index_ne_of_writes hcall rfl hother hq ht
  · intro p hp hp'
    by_cases heq : p = position.toNat
    · subst heq
      have hnow : (ring.setSequence position (position + 1)).Published
          (Function.update calls t none) position.toNat := by
        refine ⟨hclaimed.lt, fun t' hw => ?_⟩
        obtain ⟨⟨other, hother, q, hq, heq⟩, ht⟩ := (hwrites t' _).mp hw
        exact inv.index_ne_of_writes hcall rfl hother hq ht (by rw [heq])
      have hcell := ring.cells_setCell_self position
        { ring.cell position with sequence := position + 1 }
      refine ⟨fun _ => ?_, fun h => absurd hnow h, fun _ _ => ?_⟩
      · exact (congrArg (fun cell => cell.sequence.toNat) hcell).trans
          (inv.toNat_succ hclaimed.lt)
      · refine Eq.trans ?_ (congrArg (fun cell => some cell.value) hcell).symm
        exact congrArg (Option.map Prod.snd) hclaimed.2
    · refine (inv.cells p hp hp').of_cell rfl ?_ (hpublished p heq) (Nat.le_refl _)
        (List.prefix_refl _)
      exact MpscRingBuffer.cells_setCell_ne _ fun hmod =>
        heq (MpscRingBuffer.eq_of_mod_eq hp hp' hwindow.1 hwindow.2 hmod)

section Consumer

variable {position : UInt64} {value : Option α}

theorem index_ne_of_found (inv : RingInv ring calls) (hfound : ring.Found calls position) {t' : Nat}
    {other : RingCall α} (hother : other ∈ calls t') {q : UInt64} (hq : q ∈ other.writes) :
    ring.released < q.toNat ∧
      q.toNat % ring.capacity.toNat ≠ position.toNat % ring.capacity.toNat := by
  obtain ⟨_, hclaimed⟩ := inv.claimed_of_writes hother hq
  have hposition : position.toNat = ring.released := by rw [hfound.loaded, hfound.position]
  have hlt := hfound.published.1
  have hroom := inv.room
  have hne : q.toNat ≠ ring.released := fun heq =>
    hfound.published.2 t' ⟨other, hother, q, hq, heq⟩
  refine ⟨Nat.lt_of_le_of_ne hclaimed.1 hne.symm, fun hmod => hne ?_⟩
  rw [hposition] at hmod
  exact MpscRingBuffer.eq_of_mod_eq (inv.window hclaimed).1 (inv.window hclaimed).2 (Nat.le_refl _)
    (by omega) hmod

theorem take (inv : RingInv ring calls) (hcall : calls t = some (.endRead position value)) :
    RingInv (ring.take position (value.bind fun _ => (ring.cell position).value))
      (Function.update calls t
        (some (.releaseCell position (value.bind fun _ => (ring.cell position).value)))) := by
  obtain ⟨hfound, hlength, hvalue⟩ := inv.ok t _ hcall
  have ht : t = 0 := (inv.role t _ hcall).mp rfl
  have hposition : position.toNat = ring.released := by rw [hfound.loaded, hfound.position]
  have hlt := hfound.published.1
  have hroom := inv.room
  have hread : ring.claimed[ring.released]?.map Prod.snd =
      some (value.bind fun _ => (ring.cell position).value) := by
    have hcell := (inv.cells _ (Nat.le_refl _) (by omega)).value hfound.published (by omega)
    rw [← hposition, ← MpscRingBuffer.cell_eq, hposition] at hcell
    cases value with
    | none => exact hvalue
    | some _ => exact hcell
  generalize value.bind (fun _ => (ring.cell position).value) = read at hread ⊢
  have hpublished : ∀ p, (ring.take position read).Published
      (Function.update calls t (some (.releaseCell position read))) p ↔ ring.Published calls p :=
    published_update hcall rfl rfl
  have hdequeued : (ring.take position read).dequeued.length = ring.dequeued.length + 1 :=
    List.length_append
  refine inv.update hcall rfl (List.prefix_refl _) (Nat.le_refl _) inv.position inv.released
    inv.room ?_ ?_ ?_ ?_ ?_ ?_ ?_
  · change ring.dequeued ++ [read] = (ring.claimed.map Prod.snd).take _
    rw [hdequeued, List.take_add_one, ← inv.dequeued, hlength, List.getElem?_map, hread,
      Option.toList_some]
  · rintro _ ⟨⟩
    rfl
  · rintro - ⟨⟩
  · rintro _ ⟨⟩
    exact ⟨⟨hfound.loaded, hfound.position, (hpublished _).mpr hfound.published⟩,
      hdequeued.trans (by rw [hlength]; rfl)⟩
  · exact fun hne => absurd ht hne
  · intro t' _ other hother q hq
    obtain ⟨hreleased, hindex⟩ := inv.index_ne_of_found hfound hother hq
    exact ⟨Nat.le_of_lt hreleased,
      congrArg Cell.value (MpscRingBuffer.cell_setCell_ne _ hindex)⟩
  · intro p (hp : ring.released ≤ p) (hp' : p < ring.released + ring.capacity.toNat)
    have hok := inv.cells p hp hp'
    by_cases heq : p = ring.released
    · subst heq
      have hcell := ring.cells_setCell_self position { ring.cell position with value := none }
      rw [hposition] at hcell
      refine ⟨fun _ => ?_, fun h => absurd ((hpublished _).mpr hfound.published) h, fun _ hle => ?_⟩
      · refine (congrArg (fun cell => cell.sequence.toNat) hcell).trans ?_
        simp only [MpscRingBuffer.cell_eq, hposition]
        exact hok.published hfound.published
      · rw [hdequeued] at hle
        omega
    · refine hok.of_cell rfl ?_ (hpublished p) (by omega) (List.prefix_refl _)
      exact MpscRingBuffer.cells_setCell_ne _ fun hmod => heq (by
        rw [hposition] at hmod
        exact MpscRingBuffer.eq_of_mod_eq hp hp' (Nat.le_refl _) (by omega) hmod)

theorem release (inv : RingInv ring calls) (hcall : calls t = some (.releaseCell position value))
    (hrange : ring.claimed.length + ring.capacity.toNat ≤ 2 ^ 64) :
    RingInv (ring.release position) (Function.update calls t (some (.advance position value))) := by
  obtain ⟨hfound, hlength⟩ := inv.ok t _ hcall
  have ht : t = 0 := (inv.role t _ hcall).mp rfl
  have hposition : position.toNat = ring.released := by rw [hfound.loaded, hfound.position]
  have hlt := hfound.published.1
  have hroom := inv.room
  have hpublished : ∀ p, (ring.release position).Published
      (Function.update calls t (some (.advance position value))) p ↔ ring.Published calls p :=
    published_update hcall rfl rfl
  have hreleased : (ring.release position).released = ring.released + 1 := rfl
  refine inv.update hcall rfl (List.prefix_refl _) (Nat.le_succ _) inv.position hlt ?_ inv.dequeued
    ?_ ?_ ?_ ?_ ?_ ?_
  · rw [hreleased]
    exact Nat.le_trans hroom (by omega)
  · rintro _ ⟨⟩
    rfl
  · rintro - ⟨⟩
  · rintro _ ⟨⟩
    exact ⟨hfound.loaded, congrArg (· + 1) hfound.position, hlength⟩
  · exact fun hne => absurd ht hne
  · intro t' _ other hother q hq
    obtain ⟨hreleased, hindex⟩ := inv.index_ne_of_found hfound hother hq
    exact ⟨hreleased, congrArg Cell.value (MpscRingBuffer.cell_setCell_ne _ hindex)⟩
  · intro p hp hp'
    rw [hreleased] at hp hp'
    by_cases heq : p = ring.released + ring.capacity.toNat
    · have hnot : ¬(ring.release position).Published
          (Function.update calls t (some (.advance position value))) p := fun h => by
        have := ((hpublished p).mp h).1
        omega
      refine ⟨fun h => absurd h hnot, fun _ => ?_, fun h => absurd h hnot⟩
      have hcell := ring.cells_setCell_self position
        { ring.cell position with sequence := position + ring.capacity }
      rw [hposition, ← Nat.add_mod_right, ← heq] at hcell
      refine (congrArg (fun cell => cell.sequence.toNat) hcell).trans ?_
      rw [UInt64.toNat_add, hposition, ← heq]
      exact Nat.mod_eq_of_lt (by omega)
    · refine (inv.cells p (by omega) (by omega)).of_cell rfl ?_ (hpublished p) (Nat.le_refl _)
        (List.prefix_refl _)
      refine MpscRingBuffer.cells_setCell_ne _ fun hmod => ?_
      rw [hposition] at hmod
      have := MpscRingBuffer.eq_of_mod_eq (by omega) (by omega) (Nat.le_refl _) (by omega) hmod
      omega

theorem advance (inv : RingInv ring calls) (hcall : calls t = some (.advance position value)) :
    RingInv (ring.advance position) (Function.update calls t none) := by
  obtain ⟨hloaded, hnext, hlength⟩ := inv.ok t _ hcall
  have ht : t = 0 := (inv.role t _ hcall).mp rfl
  have hpublished : ∀ p, (ring.advance position).Published (Function.update calls t none) p ↔
      ring.Published calls p :=
    published_update hcall rfl rfl
  refine inv.update hcall rfl (List.prefix_refl _) (Nat.le_refl _) inv.position inv.released
    inv.room inv.dequeued ?_ ?_ ?_ ?_ ?_ ?_
  · rintro _ ⟨⟩
  · refine fun _ _ => ⟨?_, hlength⟩
    have hlt : position.toNat < ring.claimed.length := by
      have := inv.released
      rw [hloaded]
      omega
    refine (inv.toNat_succ hlt).trans ?_
    rw [hloaded]
    exact hnext
  · rintro _ ⟨⟩
  · exact fun hne => absurd ht hne
  · intro t' _ other hother q hq
    obtain ⟨_, hclaimed⟩ := inv.claimed_of_writes hother hq
    exact ⟨hclaimed.1, rfl⟩
  · intro p hp hp'
    exact (inv.cells p hp hp').of_cell rfl rfl (hpublished p) (Nat.le_refl _) (List.prefix_refl _)

end Consumer

/-- A cell is free for the next position only while fewer than `capacity` positions are in use. -/
theorem free_of_sequence (inv : RingInv ring calls) (hcapacity : 2 ≤ ring.capacity.toNat)
    {position : UInt64} (hposition : position.toNat = ring.claimed.length)
    (hsequence : (ring.cell position).sequence = position) :
    ring.claimed.length < ring.released + ring.capacity.toNat := by
  by_contra hfull
  have hroom := inv.room
  have heq : ring.claimed.length = ring.released + ring.capacity.toNat := by omega
  -- The next position would share its cell with the oldest one, whose sequence is smaller.
  have hcell := inv.cells ring.released (Nat.le_refl _) (by omega)
  rw [MpscRingBuffer.cell_eq, hposition, heq, Nat.add_mod_right] at hsequence
  by_cases hpublished : ring.Published calls ring.released
  · have := hcell.published hpublished
    rw [hsequence] at this
    omega
  · have := hcell.free hpublished
    rw [hsequence] at this
    omega

/-- The consumer sees the sequence `position + 1` only when the position is published. -/
theorem published_of_sequence (inv : RingInv ring calls) (hcapacity : 2 ≤ ring.capacity.toNat)
    {position : UInt64} (hposition : position.toNat = ring.released)
    (hsequence : (ring.cell position).sequence = position + 1) :
    ring.Published calls ring.released := by
  by_contra hpublished
  have hcell := (inv.cells ring.released (Nat.le_refl _) (by omega)).free hpublished
  rw [← hposition, ← MpscRingBuffer.cell_eq, hsequence, UInt64.toNat_add, UInt64.toNat_one] at hcell
  have := position.toNat_lt
  omega

/-- Every step of every call keeps the invariant while the positions stay in range. -/
theorem exec (inv : RingInv ring calls) (hcapacity : 2 ≤ ring.capacity.toNat)
    (hcall : calls t = some call) {weakFails : Bool} {next : RingNext α}
    (hexec : call.exec t weakFails ring = (ring', next))
    (hrange : ring'.claimed.length + ring'.capacity.toNat ≤ 2 ^ 64) :
    RingInv ring' (Function.update calls t next.call?) := by
  have hok := inv.ok t _ hcall
  have hrole := inv.role t _ hcall
  cases call with
  | tryEnqueue value =>
    cases hexec
    refine inv.stay hcall rfl rfl (by rintro _ ⟨⟩; rfl) (fun _ h => by cases h) ?_
    rintro _ ⟨⟩
    exact Nat.le_of_eq inv.position
  | loadSequence value position =>
    have hnone : t ≠ 0 := fun ht => by cases hrole.mpr ht
    simp only [RingCall.exec] at hexec
    split at hexec
    · rename_i hdifference
      cases hexec
      refine inv.stay hcall rfl rfl (by rintro _ ⟨⟩; rfl) (fun _ h => by cases h) ?_
      rintro _ ⟨⟩
      refine ⟨hok, fun heq => ?_⟩
      rw [MpscRingBuffer.difference_eq_zero] at hdifference
      exact inv.free_of_sequence hcapacity heq hdifference
    · split at hexec
      · cases hexec
        exact inv.stay hcall rfl rfl (by rintro _ ⟨⟩) (fun ht => absurd ht hnone) (by rintro _ ⟨⟩)
      · cases hexec
        refine inv.stay hcall rfl rfl (by rintro _ ⟨⟩; rfl) (fun _ h => by cases h) ?_
        rintro _ ⟨⟩
        trivial
  | compareExchange value position =>
    simp only [RingCall.exec] at hexec
    split at hexec
    · rename_i heq
      obtain ⟨rfl, -⟩ := heq
      cases hexec
      refine inv.claim hcall ?_
      change (ring.claimed ++ [(t, value)]).length + ring.capacity.toNat ≤ 2 ^ 64 at hrange
      rw [List.length_append, List.length_singleton] at hrange
      omega
    · cases hexec
      refine inv.stay hcall rfl rfl (by rintro _ ⟨⟩; rfl) (fun _ h => by cases h) ?_
      rintro _ ⟨⟩
      exact Nat.le_of_eq inv.position
  | beginWrite value position =>
    cases hexec
    exact inv.write hcall rfl (.endWrite value position) rfl rfl none hok
  | endWrite value position =>
    cases hexec
    have hcell := ring.cells_setCell_self position { ring.cell position with value := value }
    refine inv.write hcall rfl (.publish position) rfl rfl value ⟨hok.1, ?_⟩
    rw [MpscRingBuffer.cell_eq]
    exact hok.2.trans (congrArg (fun cell => some (t, cell.value)) hcell).symm
  | publish position =>
    cases hexec
    exact inv.publish hcall
  | tryDequeue =>
    cases hexec
    refine inv.stay hcall rfl rfl (by rintro _ ⟨⟩; rfl) (fun _ h => by cases h) ?_
    rintro _ ⟨⟩
    exact ⟨hok, rfl⟩
  | loadPublished position =>
    simp only [RingCall.exec] at hexec
    split at hexec
    · rename_i hsequence
      cases hexec
      refine inv.stay hcall rfl rfl (by rintro _ ⟨⟩; rfl) (fun _ h => by cases h) ?_
      rintro _ ⟨⟩
      obtain ⟨hidle, rfl⟩ := hok
      exact ⟨⟨rfl, hidle.position, (published_update hcall rfl rfl _).mpr
        (inv.published_of_sequence hcapacity hidle.position hsequence)⟩, hidle.dequeued⟩
    · cases hexec
      exact inv.stay hcall rfl rfl (by rintro _ ⟨⟩) (fun _ _ => hok.1) (by rintro _ ⟨⟩)
  | beginRead position =>
    cases hexec
    refine inv.stay hcall rfl rfl (by rintro _ ⟨⟩; rfl) (fun _ h => by cases h) ?_
    rintro _ ⟨⟩
    obtain ⟨hfound, hlength⟩ := hok
    have hcell := inv.cells ring.released (Nat.le_refl _) (by omega)
    refine ⟨⟨hfound.loaded, hfound.position, (published_update hcall rfl rfl _).mpr
      hfound.published⟩, hlength, ?_⟩
    rw [MpscRingBuffer.cell_eq, hfound.loaded, hfound.position]
    exact hcell.value hfound.published (Nat.le_of_eq hlength)
  | endRead position value =>
    cases hexec
    exact inv.take hcall
  | releaseCell position value =>
    cases hexec
    exact inv.release hcall hrange
  | advance position value =>
    cases hexec
    exact inv.advance hcall

theorem released_le_dequeued (inv : RingInv ring calls) :
    ring.released ≤ ring.dequeued.length := by
  cases hcall : calls 0 with
  | none => exact Nat.le_of_eq (inv.idle hcall).dequeued.symm
  | some call =>
    have hok := inv.ok 0 call hcall
    have hrole := (inv.role 0 call hcall).mpr rfl
    cases call with
    | tryDequeue => exact Nat.le_of_eq hok.dequeued.symm
    | loadPublished _ => exact Nat.le_of_eq hok.1.dequeued.symm
    | beginRead _ => exact Nat.le_of_eq hok.2.symm
    | endRead _ _ => exact Nat.le_of_eq hok.2.1.symm
    | releaseCell _ _ => exact Nat.le_of_succ_le (Nat.le_of_eq hok.2.symm)
    | advance _ _ => exact Nat.le_of_eq hok.2.2.symm
    | _ => cases hrole

theorem start (inv : RingInv ring calls) (hnone : calls t = none) (hwrites : call.writes = none)
    (hrole : call.dequeues = true ↔ t = 0)
    (own : call.Ok ring (Function.update calls t (some call)) t) :
    RingInv ring (Function.update calls t (some call)) := by
  have hpublished : ∀ p, ring.Published (Function.update calls t (some call)) p ↔
      ring.Published calls p := by
    intro p
    refine and_congr Iff.rfl (forall_congr' fun t' => not_congr ?_)
    by_cases ht : t' = t
    · subst ht
      rw [RingCalls.writes_update_self, RingCalls.Writes, hnone]
      simp [hwrites]
    · exact RingCalls.writes_update_ne ht
  refine ⟨inv.position, inv.released, inv.room, inv.dequeued, ?_, ?_, ?_, ?_⟩
  · intro t' other hother
    by_cases ht : t' = t
    · subst ht
      rw [Function.update_self] at hother
      cases hother
      exact hrole
    · exact inv.role t' other (by rwa [Function.update_of_ne ht] at hother)
  · intro hidle
    by_cases ht : 0 = t
    · subst ht
      rw [Function.update_self] at hidle
      cases hidle
    · exact inv.idle (by rwa [Function.update_of_ne ht] at hidle)
  · intro t' other hother
    by_cases ht : t' = t
    · subst ht
      rw [Function.update_self] at hother
      cases hother
      exact own
    · have hother' := (by rwa [Function.update_of_ne ht] at hother : other ∈ calls t')
      refine (inv.ok t' other hother').frame rfl (List.prefix_refl _) (Nat.le_refl _) ?_
        fun _ => ⟨rfl, rfl, rfl, (hpublished _).mpr⟩
      intro position hposition
      obtain ⟨_, hclaimed⟩ := inv.claimed_of_writes hother' hposition
      exact ⟨hclaimed.1, rfl⟩
  · intro p hp hp'
    exact (inv.cells p hp hp').of_cell rfl rfl (hpublished p) (Nat.le_refl _) (List.prefix_refl _)

theorem tryEnqueue (inv : RingInv ring calls) (hnone : calls t = none) (ht : t ≠ 0)
    (value : Option α) : RingInv ring (Function.update calls t (some (.tryEnqueue value))) :=
  inv.start hnone rfl (iff_of_false Bool.false_ne_true ht) trivial

theorem tryDequeue (inv : RingInv ring calls) (hnone : calls 0 = none) :
    RingInv ring (Function.update calls 0 (some .tryDequeue)) :=
  inv.start hnone rfl (iff_of_true rfl rfl) (inv.idle hnone)

theorem new {capacity : UInt64} :
    RingInv (MpscRingBuffer.new capacity : MpscRingBuffer α) fun _ => none := by
  refine ⟨rfl, Nat.le_refl _, Nat.zero_le _, rfl, ?_, fun _ => ⟨rfl, rfl⟩, ?_, ?_⟩
  · rintro _ _ ⟨⟩
  · rintro _ _ ⟨⟩
  · intro p _ (hp : p < 0 + capacity.toNat)
    have hlt := capacity.toNat_lt
    refine ⟨fun h => absurd h.1 (Nat.not_lt_zero p), fun _ => ?_,
      fun h => absurd h.1 (Nat.not_lt_zero p)⟩
    change (UInt64.ofNat (p % capacity.toNat)).toNat = p
    rw [Nat.mod_eq_of_lt (by omega), UInt64.toNat_ofNat_of_lt' (show p < 2 ^ 64 by omega)]

theorem exists_window {n : Nat} (hn : 0 < n) (r p : Nat) :
    ∃ q, r ≤ q ∧ q < r + n ∧ q % n = p % n := by
  have hmul : r ≤ n * r := Nat.le_mul_of_pos_left r hn
  refine ⟨r + (p + n * r - r) % n, Nat.le_add_right _ _, ?_, ?_⟩
  · have := Nat.mod_lt (p + n * r - r) hn
    omega
  · rw [Nat.add_mod_mod, show r + (p + n * r - r) = p + n * r by omega, Nat.add_mul_mod_self_left]

theorem full_of_negative (inv : RingInv ring calls) (hcapacity : 0 < ring.capacity.toNat)
    (hrange : ring.claimed.length + ring.capacity.toNat ≤ 2 ^ 63) {value : Option α}
    {position : UInt64} (hcall : calls t = some (.loadSequence value position))
    (hnegative : MpscRingBuffer.difference (ring.cell position).sequence position < 0) :
    ring.released + ring.capacity.toNat ≤ ring.claimed.length := by
  have hle : position.toNat ≤ ring.claimed.length := inv.ok t _ hcall
  have hreleased := inv.released
  obtain ⟨q, hq, hq', hmod⟩ := exists_window hcapacity ring.released position.toNat
  have hcell := inv.cells q hq hq'
  have hsequence : q ≤ (ring.cell position).sequence.toNat ∧
      (ring.cell position).sequence.toNat < 2 ^ 63 := by
    rw [MpscRingBuffer.cell_eq, ← hmod]
    by_cases hpublished : ring.Published calls q
    · have := hpublished.1
      rw [hcell.published hpublished]
      omega
    · rw [hcell.free hpublished]
      omega
  rw [MpscRingBuffer.difference_neg hsequence.2 (by omega)] at hnegative
  by_contra hlt
  have hne : q ≠ position.toNat := by omega
  exact hne (MpscRingBuffer.eq_of_mod_eq hq hq' (by omega) (by omega) hmod)

end RingInv

end UnixNotes.Logger
