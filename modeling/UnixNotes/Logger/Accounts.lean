import UnixNotes.Library.Logged
import UnixNotes.Logger.Worker

namespace UnixNotes.Logger.AsyncLogger

open Library

/-- What is counted: calls of `log` that pass the filter of levels, what becomes of them, and what is
done to `pendingCount`. The position is that of the record in the ring. -/
inductive Event where
  | passed
  | incremented
  | published (position : Nat)
  | undone
  | decremented
  | dropped
  | rejected
  | appended (record : Option LogRecord)
  deriving DecidableEq

def Event.position? : Event → Option Nat
  | .published position => some position
  | _ => none

def Event.record? : Event → Option (Option LogRecord)
  | .appended record => some record
  | _ => none

def positions (log : List Event) : List Nat := log.filterMap Event.position?

/-- The records that were appended, in order. The log has the last event first. -/
def appended (log : List Event) : List (Option LogRecord) := log.reverse.filterMap Event.record?

def Instr.refuses : Instr → Bool
  | .logReturned _ ok => !ok
  | _ => false

def Instr.goesOn : Instr → Bool
  | .iterate consumed => consumed
  | _ => false

/-- A call has passed the filter when it loads the state. -/
def events (i : Instr) (_ _ : Shared) (pushed : List Instr) : List Event :=
  match i with
  | .loadRunning _ => if pushed.any Instr.refuses then [.rejected, .passed] else [.passed]
  | .reloadRunning _ | .spaceLeft _ _ => if pushed.any Instr.refuses then [.rejected] else []
  | .countPending _ _ => [.incremented]
  | .tryEnqueue _ _ _ (.publish position) => [.published position.toNat]
  | .uncountPending _ _ => [.undone]
  | .countDropped => [.dropped]
  | .uncountTaken _ => [.decremented]
  | .appendRecord record => if pushed.any Instr.goesOn then [.appended record] else []
  | _ => []

namespace Instr

def undecided : Instr → Nat
  | .enterProducer _ => 1
  | .reloadRunning _ => 1
  | i => i.admitted

/-- A producer that has incremented `pendingCount` and has neither published its record nor undone
the increment. -/
def inFlight : Instr → Nat
  | .tryEnqueue _ _ _ _ => 1
  | .uncountPending _ _ => 1
  | _ => 0

def unpublished : Instr → Nat
  | .tryEnqueue _ passed _ call => (call.claims passed).length
  | _ => 0

/-- A record that the worker has dequeued and not decremented `pendingCount` for. -/
def taken : Instr → Nat
  | .tryDequeue _ call => call.takes.length
  | .uncountTaken _ => 1
  | _ => 0

def writing (p : Nat) : Instr → Nat
  | .tryEnqueue _ _ _ call => if call.writes.map UInt64.toNat = some p then 1 else 0
  | _ => 0

def accepting (p : Nat) : Instr → Nat
  | .countAccepted _ _ _ position => if position = p then 1 else 0
  | _ => 0

theorem pending_add_unpublished (i : Instr) :
    i.pending + i.unpublished = i.inFlight + i.taken := by
  cases i with
  | tryEnqueue level passed previousPending call =>
    exact Nat.sub_add_cancel (call.length_claims_le passed)
  | tryDequeue consumed call => exact (Nat.zero_add _).symm
  | _ => rfl

end Instr

def claimedAt (s : Shared) (p : Nat) : Nat := if p < s.queue.claimed.length then 1 else 0

def acceptedAt (s : Shared) (p : Nat) : Nat := (s.accepted.map Prod.fst).count p

/-- What a step logs, and how the tokens change with it. -/
structure Booked (i : Instr) (s s' : Shared) (pushed : List Instr) (log : List Event) : Prop where
  passed : s'.accepted.length + (log.count .dropped + log.count .rejected +
      Config.weigh Instr.undecided pushed) =
    s.accepted.length + (log.count .passed + i.undecided)
  dropped : s'.droppedCount + UInt64.ofNat 0 = s.droppedCount + UInt64.ofNat (log.count .dropped)
  incremented : log.count .incremented + i.inFlight =
    (positions log).length + log.count .undone + Config.weigh Instr.inFlight pushed
  published : s'.queue.claimed.length + i.unpublished = s.queue.claimed.length +
    ((positions log).length + Config.weigh Instr.unpublished pushed)
  decremented : s'.queue.dequeued.length + i.taken = s.queue.dequeued.length +
    (log.count .decremented + Config.weigh Instr.taken pushed)
  writing : ∀ p, claimedAt s' p + i.writing p =
    claimedAt s p + ((positions log).count p + Config.weigh (Instr.writing p) pushed)
  accepting : ∀ p, acceptedAt s' p + Config.weigh (Instr.accepting p) pushed =
    acceptedAt s p + ((positions log).count p + i.accepting p)

section Exec

variable {t : Nat} {i : Instr} {x : Choice} {s s' : Shared} {pushed : List Instr}

theorem booked_of_tryEnqueue {level : LogLevel} {passed : Option LogRecord}
    {previousPending : UInt64} {call : RingCall LogRecord}
    (hi : (Instr.tryEnqueue level passed previousPending call).CallOk)
    (hposition : s.queue.enqueuePosition.toNat = s.queue.claimed.length)
    (h : (Instr.tryEnqueue level passed previousPending call).execLog t x s = some (s', pushed)) :
    Booked (.tryEnqueue level passed previousPending call) s s' pushed
      (events (.tryEnqueue level passed previousPending call) s s' pushed) := by
  obtain ⟨ring, next, hexec⟩ : ∃ ring next, call.exec t x.isSpurious s.queue = (ring, next) :=
    ⟨_, _, rfl⟩
  rw [Instr.execLog, hexec] at h
  obtain ⟨position, rfl, rfl, rfl⟩ | ⟨value, rfl, rfl, rfl⟩ |
    ⟨call', rfl, hwrites, hpublish, hclaimed, hdequeued⟩ | ⟨value, position, rfl, rfl, rfl⟩ :=
      RingCall.producer_cases hi.1 hexec
  · cases h
    refine ⟨rfl, rfl, rfl, rfl, rfl, fun p => ?_, fun p => ?_⟩
    · change claimedAt s p + (if some position.toNat = some p then 1 else 0) =
        claimedAt s p + ([position.toNat].count p + 0)
      rw [List.count_singleton, Nat.add_zero]
      simp only [Option.some.injEq, beq_iff_eq]
    · change acceptedAt s p + ((if position.toNat = p then 1 else 0) + 0) =
        acceptedAt s p + ([position.toNat].count p + 0)
      rw [List.count_singleton]
      simp only [beq_iff_eq]
  · cases h
    have hlength : (s.queue.claimed ++ [(t, value)]).length = s.queue.claimed.length + 1 :=
      List.length_append ..
    refine ⟨rfl, rfl, rfl, hlength, rfl, fun p => ?_, fun p => rfl⟩
    change (if p < (s.queue.claimed ++ [(t, value)]).length then 1 else 0) + 0 =
      (if p < s.queue.claimed.length then 1 else 0) +
        (0 + ((if some s.queue.enqueuePosition.toNat = some p then 1 else 0) + 0))
    rw [hlength, hposition]
    simp only [Option.some.injEq]
    split <;> split <;> split <;> omega
  · cases h
    have hclaims : call'.claims passed = call.claims passed := by
      rw [RingCall.claims, RingCall.claims, hwrites]
    have hevents : events (.tryEnqueue level passed previousPending call) s
        { s with queue := ring } [.tryEnqueue level passed previousPending call'] = [] := by
      cases call with
      | publish position => exact absurd rfl (hpublish position)
      | _ => rfl
    rw [hevents]
    refine ⟨rfl, rfl, rfl, ?_, ?_, fun p => ?_, fun p => rfl⟩
    · change ring.claimed.length + (call.claims passed).length =
        s.queue.claimed.length + (0 + ((call'.claims passed).length + 0))
      rw [hclaimed, hclaims, Nat.zero_add, Nat.add_zero]
    · exact congrArg List.length hdequeued
    · change (if p < ring.claimed.length then 1 else 0) +
          (if call.writes.map UInt64.toNat = some p then 1 else 0) =
        claimedAt s p + (0 + ((if call'.writes.map UInt64.toNat = some p then 1 else 0) + 0))
      rw [hclaimed, hwrites, Nat.zero_add, Nat.add_zero]
      rfl
  · cases h
    exact ⟨rfl, rfl, rfl, rfl, rfl, fun p => rfl, fun p => rfl⟩

theorem booked_of_execLog (hi : i.CallOk)
    (hposition : s.queue.enqueuePosition.toNat = s.queue.claimed.length)
    (h : i.execLog t x s = some (s', pushed)) : Booked i s s' pushed (events i s s' pushed) := by
  cases i with
  | tryEnqueue level passed previousPending call => exact booked_of_tryEnqueue hi hposition h
  | countAccepted level passed previousPending position =>
    have hlength : (s.accepted ++ [(position, passed)]).length = s.accepted.length + 1 :=
      List.length_append ..
    have hcount : ∀ p, ((s.accepted ++ [(position, passed)]).map Prod.fst).count p =
        acceptedAt s p + if position = p then 1 else 0 := by
      intro p
      rw [List.map_append, List.count_append, List.map_singleton, List.count_singleton]
      simp only [beq_iff_eq]
      rfl
    simp only [Instr.execLog] at h
    (repeat' split at h) <;> cases h <;>
      exact ⟨hlength, rfl, rfl, rfl, rfl, fun p => rfl,
        fun p => (hcount p).trans (congrArg _ (Nat.zero_add _).symm)⟩
  | countDropped =>
    cases h
    exact ⟨rfl, add_zero (s.droppedCount + 1), rfl, rfl, rfl, fun p => rfl, fun p => rfl⟩
  | _ =>
    simp only [Instr.execLog] at h
    (repeat' split at h) <;> cases h <;>
      exact ⟨rfl, rfl, rfl, rfl, rfl, fun p => rfl, fun p => rfl⟩

theorem booked_of_execWorker (hi : i.CallOk) (h : i.execWorker t x s = some (s', pushed)) :
    Booked i s s' pushed (events i s s' pushed) := by
  cases i with
  | tryDequeue consumed call =>
    have hbooked : ∀ {ring : MpscRingBuffer LogRecord} {next : RingNext LogRecord} {j : Instr},
        call.exec t x.isSpurious s.queue = (ring, next) → j.undecided = 0 → j.inFlight = 0 →
        j.unpublished = 0 → j.taken = next.takes.length → (∀ p, j.writing p = 0) →
        (∀ p, j.accepting p = 0) →
        Booked (.tryDequeue consumed call) s { s with queue := ring } [j] [] := by
      intro ring next j hexec hundecided hinFlight hunpublished htaken hwriting haccepting
      obtain ⟨hclaimed, taken, hdequeued, htakes⟩ := RingCall.takes_of_exec hi hexec
      refine ⟨?_, rfl, ?_, ?_, ?_, fun p => ?_, fun p => ?_⟩
      · rw [Config.weigh_cons, hundecided]
        rfl
      · rw [Config.weigh_cons, hinFlight]
        rfl
      · rw [Config.weigh_cons, hunpublished]
        exact congrArg List.length hclaimed
      · rw [Config.weigh_cons, htaken, Config.weigh_nil]
        change ring.dequeued.length + call.takes.length = _ + (0 + (next.takes.length + 0))
        rw [hdequeued, htakes, List.length_append, List.length_append]
        omega
      · rw [Config.weigh_cons, hwriting, claimedAt, hclaimed]
        rfl
      · rw [Config.weigh_cons, haccepting]
        rfl
    simp only [Instr.execWorker] at h
    split at h
    · rename_i hexec
      cases h
      exact hbooked hexec rfl rfl rfl rfl (fun p => rfl) fun p => rfl
    · rename_i hexec
      cases h
      exact hbooked hexec rfl rfl rfl rfl (fun p => rfl) fun p => rfl
    · rename_i hexec
      cases h
      exact hbooked hexec rfl rfl rfl rfl (fun p => rfl) fun p => rfl
    · cases h
  | appendRecord record =>
    cases x with
    | append outcome =>
      cases h
      cases outcome <;> exact ⟨rfl, rfl, rfl, rfl, rfl, fun p => rfl, fun p => rfl⟩
    | _ => cases h
  | _ =>
    simp only [Instr.execWorker] at h
    (repeat' split at h) <;> cases h <;>
      exact ⟨rfl, rfl, rfl, rfl, rfl, fun p => rfl, fun p => rfl⟩

structure Instr.Unbooked (i : Instr) : Prop where
  events : ∀ s s' pushed, events i s s' pushed = []
  undecided : i.undecided = 0
  inFlight : i.inFlight = 0
  unpublished : i.unpublished = 0
  taken : i.taken = 0
  writing : ∀ p, i.writing p = 0
  accepting : ∀ p, i.accepting p = 0

theorem Instr.unbooked_of_part (hlog : i.part ≠ .log) (hworker : i.part ≠ .worker) :
    i.Unbooked := by
  cases i
  all_goals
    first
      | exact absurd rfl hlog
      | exact absurd rfl hworker
      | exact ⟨fun _ _ _ => rfl, rfl, rfl, rfl, rfl, fun _ => rfl, fun _ => rfl⟩

theorem unbooked_of_exec (hlog : i.part ≠ .log) (hworker : i.part ≠ .worker)
    (h : i.exec t x s = some (s', pushed)) : ∀ j ∈ pushed, j.Unbooked := by
  intro j hj
  by_cases hj' : j.part = .log
  · obtain ⟨call, rfl⟩ := log_of_exec hlog h j hj hj'
    exact ⟨fun _ _ _ => rfl, rfl, rfl, rfl, rfl, fun _ => rfl, fun _ => rfl⟩
  · exact Instr.unbooked_of_part hj' (worker_of_pushed hworker h j hj)

theorem droppedCount_of_execWorker (h : i.execWorker t x s = some (s', pushed)) :
    s'.droppedCount = s.droppedCount := by
  cases i with
  | appendRecord record =>
    cases x with
    | append outcome =>
      cases h
      cases outcome <;> rfl
    | _ => cases h
  | _ =>
    simp only [Instr.execWorker] at h
    (repeat' split at h) <;> cases h <;> rfl

theorem droppedCount_of_exec (hlog : i.part ≠ .log) (h : i.exec t x s = some (s', pushed)) :
    s'.droppedCount = s.droppedCount := by
  unfold Instr.exec at h
  split at h
  · split at h <;> cases h <;> rfl
  · contradiction
  · cases i
    all_goals
      simp only [Instr.execFlush] at h
      (repeat' split at h) <;> cases h <;> rfl
  · cases i
    all_goals
      simp only [Instr.execStop] at h
      (repeat' split at h) <;> cases h <;> rfl
  · cases i
    all_goals
      simp only [Instr.execSync] at h
      (repeat' split at h) <;> cases h <;> rfl
  · exact droppedCount_of_execWorker h

theorem booked_of_exec (hi : i.CallOk)
    (hposition : s.queue.enqueuePosition.toNat = s.queue.claimed.length)
    (h : i.exec t x s = some (s', pushed)) : Booked i s s' pushed (events i s s' pushed) := by
  obtain ⟨-, h⟩ | ⟨-, h⟩ | ⟨hlog, hworker⟩ := exec_cases h
  · exact booked_of_execLog hi hposition h
  · exact booked_of_execWorker hi h
  · have hunbooked := Instr.unbooked_of_part hlog hworker
    have hpushed := unbooked_of_exec hlog hworker h
    have haccepted := (sameProducers_of_exec hlog h).accepted
    have hqueue := (sameQueue_of_exec hlog hworker h).queue
    have hnone {w : Instr → Nat} (hw : ∀ j : Instr, j.Unbooked → w j = 0) :
        Config.weigh w pushed = w i := by
      rw [Config.weigh_eq_zero fun j hj => hw j (hpushed j hj), hw i hunbooked]
    rw [hunbooked.events]
    refine ⟨?_, ?_, ?_, ?_, ?_, fun p => ?_, fun p => ?_⟩
    · rw [haccepted, hnone fun j hj => hj.undecided]
      rfl
    · rw [droppedCount_of_exec hlog h]
      rfl
    · rw [hnone fun j hj => hj.inFlight]
      rfl
    · rw [hqueue, hnone fun j hj => hj.unpublished, positions, List.filterMap_nil,
        List.length_nil, Nat.zero_add]
    · rw [hqueue, hnone fun j hj => hj.taken, List.count_nil, Nat.zero_add]
    · rw [claimedAt, hqueue, hnone fun j hj => hj.writing p, positions, List.filterMap_nil,
        List.count_nil, Nat.zero_add]
      rfl
    · rw [acceptedAt, haccepted, hnone fun j hj => hj.accepting p, positions, List.filterMap_nil,
        List.count_nil, Nat.zero_add]
      rfl

end Exec

abbrev LedgerConfig := Library.Config (Logged Shared Event) Instr

def ledger : Machine (Logged Shared Event) Instr Choice := machine.logged events

def ledgerInit (config : LoggerConfig) (n : Nat) : LedgerConfig :=
  ⟨⟨(init config n).shared, []⟩, (init config n).threads⟩

structure Balanced (c : Config) (log : List Event) : Prop where
  passed : log.count .passed =
    c.shared.accepted.length + log.count .dropped + log.count .rejected + c.total Instr.undecided
  dropped : c.shared.droppedCount = UInt64.ofNat (log.count .dropped)
  incremented : log.count .incremented =
    (positions log).length + log.count .undone + c.total Instr.inFlight
  published : c.shared.queue.claimed.length =
    (positions log).length + c.total Instr.unpublished
  decremented : c.shared.queue.dequeued.length =
    log.count .decremented + c.total Instr.taken
  writing : ∀ p, claimedAt c.shared p = (positions log).count p + c.total (Instr.writing p)
  accepting : ∀ p, (positions log).count p = acceptedAt c.shared p + c.total (Instr.accepting p)

theorem balanced_init {config : LoggerConfig} {n : Nat} : Balanced (init config n) [] := by
  have hnone : ∀ w : Instr → Nat, w (.iterate false) = 0 → w .user = 0 →
      (init config n).total w = 0 := by
    intro w hiterate huser
    rw [total_init, hiterate, huser]
    rfl
  refine ⟨?_, rfl, ?_, ?_, ?_, fun p => ?_, fun p => ?_⟩
  · rw [hnone _ rfl rfl]
    rfl
  · rw [hnone _ rfl rfl]
    rfl
  · rw [hnone _ rfl rfl]
    rfl
  · rw [hnone _ rfl rfl]
    rfl
  · rw [hnone _ rfl rfl]
    rfl
  · rw [hnone _ rfl rfl]
    rfl

theorem positions_append (a b : List Event) : positions (a ++ b) = positions a ++ positions b :=
  List.filterMap_append ..

theorem Balanced.step {c : Config} {log : List Event} (h : Balanced c log) {t : Nat} {i : Instr}
    {rest : List Instr} (htop : c.stack t = i :: rest) {s : Shared} {pushed : List Instr}
    {new : List Event} (hbooked : Booked i c.shared s pushed new) :
    Balanced (c.replace t s (pushed ++ rest)) (new ++ log) := by
  have htotal := fun w => Library.Config.total_replace w htop s pushed
  refine ⟨?_, ?_, ?_, ?_, ?_, fun p => ?_, fun p => ?_⟩
  · have := h.passed
    have := hbooked.passed
    have := htotal Instr.undecided
    rw [List.count_append, List.count_append, List.count_append, Library.Config.shared_replace]
    omega
  · refine eq_ofNat_of_balance h.dropped hbooked.dropped ?_
    rw [List.count_append]
    omega
  · have := h.incremented
    have := hbooked.incremented
    have := htotal Instr.inFlight
    rw [List.count_append, List.count_append, positions_append, List.length_append]
    omega
  · have := h.published
    have := hbooked.published
    have := htotal Instr.unpublished
    rw [positions_append, List.length_append, Library.Config.shared_replace]
    omega
  · have := h.decremented
    have := hbooked.decremented
    have := htotal Instr.taken
    rw [List.count_append, Library.Config.shared_replace]
    omega
  · have := h.writing p
    have := hbooked.writing p
    have := htotal (Instr.writing p)
    rw [positions_append, List.count_append, Library.Config.shared_replace]
    omega
  · have := h.accepting p
    have := hbooked.accepting p
    have := htotal (Instr.accepting p)
    rw [positions_append, List.count_append, Library.Config.shared_replace]
    omega

end UnixNotes.Logger.AsyncLogger
