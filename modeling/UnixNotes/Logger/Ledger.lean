import UnixNotes.Library.Loads
import UnixNotes.Logger.Accounts
import UnixNotes.Logger.Drain

namespace UnixNotes.Logger

theorem RingInv.not_writes_of_dequeued {α : Type} {ring : MpscRingBuffer α} {calls : RingCalls α}
    (inv : RingInv ring calls) {t p : Nat} (hp : p < ring.dequeued.length) :
    ¬calls.Writes t p := by
  rintro ⟨call, hcall, position, hposition, rfl⟩
  obtain ⟨value, hclaimed⟩ := inv.claimed_of_writes hcall hposition
  have hle := hclaimed.1
  cases hconsumer : calls 0 with
  | none =>
    have := (inv.idle hconsumer).dequeued
    omega
  | some consumer =>
    have hok := inv.ok 0 consumer hconsumer
    have hrole := (inv.role 0 consumer hconsumer).mpr rfl
    cases consumer with
    | tryDequeue =>
      have := hok.dequeued
      omega
    | loadPublished _ =>
      have := hok.1.dequeued
      omega
    | beginRead _ =>
      have := hok.2
      omega
    | endRead _ _ =>
      have := hok.2.1
      omega
    | releaseCell _ _ =>
      obtain ⟨hfound, hlength⟩ := hok
      exact hfound.published.2 t ⟨call, hcall, position, hposition, by omega⟩
    | advance _ _ =>
      have := hok.2.2
      omega
    | _ => cases hrole

namespace AsyncLogger

open Library

theorem calls_of_active {c : Config} (h : Shape c) {t : Nat} {i : Instr}
    {call : RingCall LogRecord} (hactive : c.Active t i) (hcall : i.call? = some call) :
    calls c t = some call := by
  cases htop : c.stack t with
  | nil =>
    rw [Library.Config.Active, htop] at hactive
    cases hactive
  | cons j rest =>
    obtain rfl := h.calls.eq_top htop hactive (by rw [hcall]; rfl)
    rw [← hcall]
    exact Library.Config.heads_of_top _ htop

theorem mem_positions_of_dequeued {c : Config} {log : List Event} (h : Records c)
    (hbalanced : Balanced c log) {p : Nat} (hp : p < c.shared.queue.dequeued.length) :
    p ∈ positions log := by
  have hnone : c.total (Instr.writing p) = 0 := by
    refine Library.Config.total_eq_zero fun t i hactive => ?_
    cases i with
    | tryEnqueue level passed previousPending call =>
      refine if_neg fun hwrites => ?_
      obtain ⟨position, hposition, heq⟩ := Option.map_eq_some_iff.mp hwrites
      exact h.ring.not_writes_of_dequeued hp
        ⟨call, calls_of_active h.shape hactive rfl, position, hposition, heq⟩
    | _ => rfl
  have hcount := hbalanced.writing p
  rw [hnone, claimedAt, if_pos (Nat.lt_of_lt_of_le hp h.ring.dequeued_le)] at hcount
  exact List.count_pos_iff.mp (by omega)

theorem dequeued_le_positions {c : Config} {log : List Event} (h : Records c)
    (hbalanced : Balanced c log) : c.shared.queue.dequeued.length ≤ (positions log).length := by
  have hsubset : List.range c.shared.queue.dequeued.length ⊆ positions log := fun p hp =>
    mem_positions_of_dequeued h hbalanced (List.mem_range.mp hp)
  simpa using (List.nodup_range.subperm hsubset).length_le

theorem pendingCount_eq {c : Config} {log : List Event} (h : Records c) (hrange : InRange c)
    (hbalanced : Balanced c log) : c.shared.pendingCount.toNat + log.count .decremented =
      (positions log).length + c.total Instr.inFlight := by
  have htokens : c.total Instr.pending + c.total Instr.unpublished =
      c.total Instr.inFlight + c.total Instr.taken := by
    rw [← Library.Config.total_add, ← Library.Config.total_add]
    exact congrArg (fun w => c.total w) (funext Instr.pending_add_unpublished)
  have hle := h.ring.dequeued_le
  have hpending := total_le h.shape Instr.pending_le
  have hcapacity := h.capacity
  have hpublished := hbalanced.published
  have hdecremented := hbalanced.decremented
  rw [InRange] at hrange
  have hcount : c.shared.pendingCount = UInt64.ofNat (c.shared.queue.claimed.length +
      c.total Instr.pending - c.shared.queue.dequeued.length) := by
    apply add_right_cancel (b := UInt64.ofNat c.shared.queue.dequeued.length)
    rw [h.pending, ← UInt64.ofNat_add, Nat.sub_add_cancel (Nat.le_add_right_of_le hle)]
  have htoNat : c.shared.pendingCount.toNat = c.shared.queue.claimed.length +
      c.total Instr.pending - c.shared.queue.dequeued.length := by
    rw [hcount]
    exact UInt64.toNat_ofNat_of_lt' (by rw [UInt64.size]; omega)
  omega

theorem pendingCount_pos {c : Config} {log : List Event} (h : Records c) (hrange : InRange c)
    (hbalanced : Balanced c log) {t : Nat} {i : Instr} (hactive : c.Active t i)
    (hi : (∃ level record, i = .uncountPending level record) ∨ ∃ record, i = .uncountTaken record) :
    0 < c.shared.pendingCount.toNat := by
  have hcount := pendingCount_eq h hrange hbalanced
  have hle := dequeued_le_positions h hbalanced
  have hdecremented := hbalanced.decremented
  obtain ⟨level, record, rfl⟩ | ⟨record, rfl⟩ := hi
  · have hinFlight := Library.Config.le_total (w := Instr.inFlight) hactive
    change 1 ≤ _ at hinFlight
    omega
  · have htaken := Library.Config.le_total (w := Instr.taken) hactive
    change 1 ≤ _ at htaken
    omega

namespace Instr

def ending : Instr → Bool
  | .failWorker => true
  | .storeFailed => true
  | .finishWorker => true
  | _ => false

/-- Before the worker's step `i`, all that it has dequeued is appended but what it has in hand. -/
def Appends (s : Shared) (records : List (Option LogRecord)) (i : Instr) : Prop :=
  i.ending = true ∨ s.queue.dequeued = records ++ i.hand

end Instr

structure Appending (c : Config) (log : List Event) : Prop where
  dequeued : appended log <+: c.shared.queue.dequeued
  worker : ∀ t i, c.Active t i → i.part = .worker → i.Appends c.shared (appended log)

theorem appending_init {config : LoggerConfig} {n : Nat} : Appending (init config n) [] := by
  refine ⟨List.prefix_refl _, ?_⟩
  intro t i hactive hpart
  obtain ⟨-, rfl⟩ | ⟨-, rfl⟩ := init_active hactive
  · exact .inr rfl
  · cases hpart

theorem appended_append (new log : List Event) : appended (new ++ log) = appended log ++ appended new := by
  rw [appended, List.reverse_append, List.filterMap_append]
  rfl

section Exec

variable {t : Nat} {i : Instr} {x : Choice} {s s' : Shared} {pushed : List Instr}

theorem appended_cases (i : Instr) (s s' : Shared) (pushed : List Instr) :
    appended (events i s s' pushed) = [] ∨
      ∃ record, i = .appendRecord record ∧ appended (events i s s' pushed) = [record] := by
  cases i with
  | loadRunning call =>
    rw [events]
    split <;> exact .inl rfl
  | reloadRunning call =>
    rw [events]
    split <;> exact .inl rfl
  | spaceLeft level record =>
    rw [events]
    split <;> exact .inl rfl
  | tryEnqueue level passed previousPending call => cases call <;> exact .inl rfl
  | appendRecord record =>
    rw [events]
    split
    · exact .inr ⟨record, rfl, rfl⟩
    · exact .inl rfl
  | _ => exact .inl rfl

theorem Instr.Appends.next {records : List (Option LogRecord)} {j : Instr}
    (h : s.queue.dequeued = records ++ i.hand) (hevents : appended (events i s s' pushed) = [])
    (hqueue : s'.queue.dequeued = s.queue.dequeued) (hhand : j.hand = i.hand) :
    j.Appends s' (records ++ appended (events i s s' pushed)) := by
  refine .inr ?_
  rw [hqueue, hevents, List.append_nil, hhand]
  exact h

theorem appends_of_appendRecord {records : List (Option LogRecord)} {record : Option LogRecord}
    (h : s.queue.dequeued = records ++ [record]) (outcome : Append) :
    (s.appendRecord record outcome).2.Appends (s.appendRecord record outcome).1
      (records ++ appended (events (.appendRecord record) s (s.appendRecord record outcome).1
        [(s.appendRecord record outcome).2])) := by
  have hdequeued : s.queue.dequeued = records ++ [record] ++ [] :=
    h.trans (List.append_nil _).symm
  cases outcome with
  | buffered => exact .inr hdequeued
  | wroteBatch => exact .inr hdequeued
  | rotated => exact .inr hdequeued
  | formatFailed => exact .inl rfl
  | writeFailed => exact .inl rfl
  | rotationFailed => exact .inl rfl

theorem appends_of_execWorker {records : List (Option LogRecord)} (hi : i.Appends s records)
    (hcall : i.CallOk) (h : i.execWorker t x s = some (s', pushed)) :
    ∀ j ∈ pushed, j.part = .worker →
      j.Appends s' (records ++ appended (events i s s' pushed)) := by
  cases i with
  | tryDequeue consumed call =>
    have hdequeued := hi.resolve_left (by rintro ⟨⟩)
    have happends : ∀ {ring : MpscRingBuffer LogRecord} {next : RingNext LogRecord} {j : Instr},
        call.exec t x.isSpurious s.queue = (ring, next) → j.hand = next.takes →
        j.Appends { s with queue := ring } (records ++ []) := by
      intro ring next j hexec hhand
      obtain ⟨-, taken, htaken, htakes⟩ := RingCall.takes_of_exec hcall hexec
      refine .inr ?_
      change ring.dequeued = records ++ [] ++ j.hand
      rw [htaken, hdequeued, hhand, htakes, List.append_nil, List.append_assoc]
      rfl
    simp only [Instr.execWorker] at h
    split at h
    · rename_i hexec
      cases h
      refine forall_worker rfl ?_
      rintro _ ⟨⟩
      exact happends hexec rfl
    · rename_i hexec
      cases h
      refine forall_worker rfl ?_
      rintro _ ⟨⟩
      exact happends hexec rfl
    · rename_i hexec
      cases h
      refine forall_worker rfl ?_
      rintro _ ⟨⟩
      exact happends hexec rfl
    · cases h
  | appendRecord record =>
    have hdequeued := hi.resolve_left (by rintro ⟨⟩)
    cases x with
    | append outcome =>
      cases h
      refine forall_worker rfl ?_
      rintro _ ⟨⟩
      exact appends_of_appendRecord hdequeued outcome
    | _ => cases h
  | failWorker =>
    cases h
    refine forall_worker rfl ?_
    rintro _ ⟨⟩
    exact .inl rfl
  | storeFailed =>
    cases h
    refine forall_worker rfl ?_
    rintro _ ⟨⟩
    exact .inl rfl
  | finishWorker =>
    cases h
    exact fun j hj => absurd hj List.not_mem_nil
  | _ =>
    have hdequeued := hi.resolve_left (by rintro ⟨⟩)
    simp only [Instr.execWorker] at h
    (repeat' split at h) <;> cases h <;> refine forall_worker rfl ?_ <;> rintro _ ⟨⟩
    all_goals exact .next hdequeued rfl rfl rfl

end Exec

theorem Appending.step {c : Config} {log : List Event} (h : Appending c log) (hshape : Shape c)
    {t : Nat} {i : Instr} {rest : List Instr} {x : Choice} {s : Shared} {pushed : List Instr}
    (htop : c.stack t = i :: rest) (hexec : i.exec t x c.shared = some (s, pushed)) :
    Appending (c.replace t s (pushed ++ rest)) (events i c.shared s pushed ++ log) := by
  have hactive := Library.Config.active_of_top htop
  have hcall := (hshape.ok t i hactive).2
  have hgrows := (ringStep_of_exec hexec).grows.2.2.2
  have hcases := appended_cases i c.shared s pushed
  refine ⟨?_, ?_⟩
  · rw [appended_append, Library.Config.shared_replace]
    obtain hnil | ⟨record, rfl, hrecord⟩ := hcases
    · rw [hnil, List.append_nil]
      exact h.dequeued.trans hgrows
    · have hdequeued := (h.worker t _ hactive rfl).resolve_left nofun
      rw [hrecord]
      exact hdequeued ▸ hgrows
  · intro t' j hj hj'
    rw [appended_append, Library.Config.shared_replace]
    by_cases hpart : i.part = .worker
    · rw [exec_of_worker hpart] at hexec
      exact appends_of_execWorker (h.worker t i hactive hpart) hcall hexec j
        (hshape.worker_of_step htop hpart hj hj') hj'
    · have hold := (Library.Config.active_of_replace htop hj).resolve_left fun hnew =>
        worker_of_pushed hpart hexec j hnew.2 hj'
      obtain hnil | ⟨record, rfl, -⟩ := hcases
      · rw [hnil, List.append_nil, Instr.Appends, dequeued_of_exec hcall hpart hexec]
        exact h.worker t' j hold hj'
      · exact absurd rfl hpart

/-- No call of `log` is in progress. -/
def Quiescent (c : Config) : Prop := ∀ t i, c.Active t i → i.part ≠ .log

structure Accounted (c : Config) (log : List Event) : Prop where
  pending : c.shared.pendingCount.toNat + log.count .decremented =
    (positions log).length + c.total Instr.inFlight
  inFlight : log.count .incremented =
    (positions log).length + log.count .undone + c.total Instr.inFlight
  published : log.count .decremented ≤ (positions log).length
  positive : ∀ t i, c.Active t i → ((∃ level record, i = .uncountPending level record) ∨
    ∃ record, i = .uncountTaken record) → 0 < c.shared.pendingCount.toNat
  calls : Quiescent c → log.count .passed =
    c.shared.acceptedCount.toNat + c.shared.droppedCount.toNat + log.count .rejected
  accepted : (c.shared.accepted.map Prod.fst).Nodup
  record : ∀ entry ∈ c.shared.accepted, ∃ t, c.shared.queue.claimed[entry.1]? = some (t, entry.2)
  appended : appended log <+: c.shared.queue.claimed.map Prod.snd

/-- The calls past the filter are far from wrapping a counter. -/
def Fits (c : LedgerConfig) : Prop :=
  c.shared.log.count .passed + c.base.shared.queue.capacity.toNat + c.threads.length < 2 ^ 64

theorem claiming_le_undecided (i : Instr) : i.claiming ≤ i.undecided := by
  cases i with
  | tryEnqueue level passed previousPending call => exact call.length_claims_le passed
  | _ => exact Nat.le_of_ble_eq_true rfl

theorem Fits.inRange {c : LedgerConfig} (h : Fits c) (hrecords : Records c.base)
    (hbalanced : Balanced c.base c.shared.log) : InRange c.base := by
  have hclaiming := hrecords.claiming
  have hpassed := hbalanced.passed
  have hle := Library.Config.total_mono claiming_le_undecided c.base
  have hthreads : c.base.threads.length = c.threads.length := rfl
  rw [Fits] at h
  rw [InRange]
  omega

structure Kept (c : LedgerConfig) : Prop where
  records : Records c.base
  balanced : Balanced c.base c.shared.log
  appending : Appending c.base c.shared.log

theorem Kept.step {c c' : LedgerConfig} {t : Nat} {i : Instr} (h : Kept c) (hfits : Fits c)
    (hstep : ledger.Step c t i c') : Kept c' := by
  have hrange := hfits.inRange h.records h.balanced
  have hrecords := h.records.step hrange hstep.base
  obtain ⟨rest, x, pushed, htop, hexec, hc', hlog⟩ := hstep.of_logged
  have hcall := (h.records.shape.ok t i (Library.Config.active_of_top htop)).2
  refine ⟨hrecords, ?_, ?_⟩
  · rw [hc', hlog]
    exact h.balanced.step htop (booked_of_exec hcall h.records.ring.position hexec)
  · rw [hc', hlog]
    exact h.appending.step h.records.shape htop hexec

theorem Kept.accounted {c : LedgerConfig} (h : Kept c) (hfits : Fits c) :
    Accounted c.base c.shared.log := by
  have hrange := hfits.inRange h.records h.balanced
  have hpassed := h.balanced.passed
  have hdequeued := h.balanced.decremented
  refine ⟨pendingCount_eq h.records hrange h.balanced, h.balanced.incremented, ?_,
    fun t i hactive hi => pendingCount_pos h.records hrange h.balanced hactive hi, ?_, ?_,
    h.records.accepted, ?_⟩
  · have := dequeued_le_positions h.records h.balanced
    omega
  · intro hquiescent
    have hnone : c.base.total Instr.undecided = 0 := by
      refine Library.Config.total_eq_zero fun t i hactive => ?_
      have hpart := hquiescent t i hactive
      cases i <;> first | rfl | exact absurd rfl hpart
    rw [Fits] at hfits
    rw [h.records.acceptedCount, h.balanced.dropped,
      UInt64.toNat_ofNat_of_lt' (by rw [UInt64.size]; omega),
      UInt64.toNat_ofNat_of_lt' (by rw [UInt64.size]; omega)]
    omega
  · refine List.nodup_iff_count_le_one.mpr fun p => ?_
    have hwriting := h.balanced.writing p
    have haccepting := h.balanced.accepting p
    have hle : claimedAt c.base.shared p ≤ 1 := by
      rw [claimedAt]
      split <;> omega
    change acceptedAt c.base.shared p ≤ 1
    omega
  · have hring := h.records.ring.dequeued
    exact h.appending.dequeued.trans (hring ▸ List.take_prefix ..)

/-- Every increment of `pendingCount` is accounted for, and every call. -/
theorem calls_accounted {config : LoggerConfig} {n : Nat} {c : LedgerConfig}
    (hcapacity : 2 ≤ config.maxQueueSize.toNat)
    (hrun : ledger.Run (fun c _ _ => Fits c) (ledgerInit config n) c) (hfits : Fits c) :
    Accounted c.base c.shared.log := by
  have hkept : Kept c := hrun.invariant (I := Kept)
    ⟨records_init hcapacity, balanced_init, appending_init⟩ fun h hok hstep => h.step hok hstep
  exact hkept.accounted hfits

instance (c : LedgerConfig) : Decidable (Fits c) :=
  inferInstanceAs (Decidable (_ + _ + _ < _))

def oneAppended : List (Nat × Choice) :=
  (1, .log oneCall) :: turns 1 4 ++ (1, .record 0 0) :: turns 1 14 ++ turns 0 11 ++
    (0, .append .buffered) :: (1, .stop) :: turns 1 4 ++ (2, .log oneCall) :: turns 2 3

theorem calls_accounted_one_record :
    Accounted (ledger.follow (ledgerInit { maxQueueSize := 2 } 2) oneAppended).base
      (ledger.follow (ledgerInit { maxQueueSize := 2 } 2) oneAppended).shared.log :=
  calls_accounted (by decide)
    (Machine.run_follow (c := ledgerInit { maxQueueSize := 2 } 2) (by decide))
    (by decide)

end AsyncLogger

end UnixNotes.Logger
