import UnixNotes.Logger.Worker

namespace UnixNotes.Logger.AsyncLogger

open Library

structure Closed (c : Config) : Prop where
  state : c.shared.state ≠ .running
  admitted : c.total Instr.admitted = 0
  empty : c.shared.queue.dequeued.length = c.shared.queue.claimed.length

namespace Instr

def drained : Instr → Bool
  | .loadFlushRequested round => round.drained
  | .writeActiveBuffer round => round.drained
  | .flushOutput round => round.drained
  | .loadWritten round => round.drained
  | .storeLastFlushed round _ => round.drained
  | .checkFlushTarget round _ => round.drained
  | .clearFlushRequested round => round.drained
  | .endRound round => round.drained
  | .finishWorker => true
  | _ => false

def stopping : Instr → Bool
  | .loadPending _ => true
  | .loadProducers _ => true
  | _ => false

theorem producing_le_logging (i : Instr) : i.producing ≤ i.logging := by
  rw [producing, logging]
  split <;> simp [*]

theorem admitted_le_producing (i : Instr) : i.admitted ≤ i.producing := by
  rw [producing, admitted]
  split <;> simp [*]

theorem pending_le (i : Instr) : i.pending ≤ i.logging + i.working := by
  cases i with
  | tryEnqueue level passed previousPending call => exact Nat.sub_le 1 _
  | tryDequeue consumed call =>
    change call.takes.length ≤ 1
    cases call <;> exact Nat.le_of_ble_eq_true rfl
  | _ => exact Nat.le_of_ble_eq_true rfl

end Instr

section Exec

variable {t : Nat} {i : Instr} {x : Choice} {s s' : Shared} {pushed : List Instr}

theorem admitted_eq_zero (h : i.part ≠ .log) : i.admitted = 0 := by
  cases i <;> first | rfl | exact absurd rfl h

theorem admitted_of_exec (h : i.exec t x s = some (s', pushed)) :
    Config.weigh Instr.admitted pushed ≤ i.admitted ∨ s.state = .running := by
  by_cases hpart : i.part = .log
  · obtain ⟨-, h⟩ | ⟨hworker, -⟩ | ⟨hlog, -⟩ := exec_cases h
    · cases i with
      | reloadRunning call =>
        simp only [Instr.execLog] at h
        split at h
        · exact .inr ‹_›
        · cases h
          exact .inl (Nat.le_refl _)
      | _ =>
        simp only [Instr.execLog] at h
        (repeat' split at h) <;> cases h <;> exact .inl (Nat.le_of_ble_eq_true rfl)
    · rw [hpart] at hworker
      cases hworker
    · exact absurd hpart hlog
  · refine .inl (Nat.le_trans (Nat.le_of_eq (Config.weigh_eq_zero fun j hj => ?_)) (Nat.zero_le _))
    by_cases hlog : j.part = .log
    · obtain ⟨call, rfl⟩ := log_of_exec hpart h j hj hlog
      rfl
    · exact admitted_eq_zero hlog

theorem claimed_of_exec (hcall : i.CallOk) (hadmitted : i.admitted = 0)
    (h : i.exec t x s = some (s', pushed)) : s'.queue.claimed = s.queue.claimed := by
  obtain ⟨-, h⟩ | ⟨-, h⟩ | ⟨hlog, hworker⟩ := exec_cases h
  · cases i with
    | tryEnqueue level passed previousPending call => cases hadmitted
    | _ =>
      simp only [Instr.execLog] at h
      (repeat' split at h) <;> cases h <;> rfl
  · cases i with
    | tryDequeue consumed call =>
      simp only [Instr.execWorker] at h
      split at h
      · rename_i hexec
        cases h
        exact (RingCall.takes_of_exec hcall hexec).1
      · rename_i hexec
        cases h
        exact (RingCall.takes_of_exec hcall hexec).1
      · rename_i hexec
        cases h
        exact (RingCall.takes_of_exec hcall hexec).1
      · cases h
    | appendRecord record =>
      cases x with
      | append outcome =>
        cases h
        cases outcome <;> rfl
      | _ => cases h
    | _ =>
      simp only [Instr.execWorker] at h
      (repeat' split at h) <;> cases h <;> rfl
  · rw [(sameQueue_of_exec hlog hworker h).queue]

theorem hasError_of_exec (h : i.exec t x s = some (s', pushed)) (herror : s.hasError = true) :
    s'.hasError = true := by
  obtain ⟨hpart, -⟩ | ⟨-, h⟩ | ⟨-, hworker⟩ := exec_cases h
  · rw [(sameWorker_of_exec (by rw [hpart]; nofun) h).hasError, herror]
  · cases i with
    | appendRecord record =>
      cases x with
      | append outcome =>
        cases h
        cases outcome <;> exact herror
      | _ => cases h
    | _ =>
      simp only [Instr.execWorker] at h
      (repeat' split at h) <;> cases h <;> first | exact herror | rfl
  · rw [(sameWorker_of_exec hworker h).hasError, herror]

theorem drained_of_execWorker (hi : i.WorkerOk s) (h : i.execWorker t x s = some (s', pushed)) :
    ∀ j ∈ pushed, j.part = .worker → j.drained = true → i.drained = true ∨ i = .storeFailed ∨
      ∃ consumed, i = .loadProducers consumed ∧ s.activeProducers = 0 := by
  cases i with
  | appendRecord record =>
    cases x with
    | append outcome =>
      cases h
      cases outcome <;> refine forall_worker rfl ?_ <;> rintro _ ⟨⟩ <;> nofun
    | _ => cases h
  | loadProducers consumed =>
    cases h
    refine forall_worker rfl ?_
    rintro _ ⟨⟩ hdrained
    exact .inr (.inr ⟨consumed, rfl, of_decide_eq_true hdrained⟩)
  | endRound round =>
    have hworking : Instr.Working s (.endRound round) := hi
    simp only [Instr.execWorker] at h
    (repeat' split at h) <;> cases h <;> refine forall_worker rfl ?_ <;> rintro _ ⟨⟩ hdrained
    · rename_i hend
      exact .inl (hend.resolve_right (hworking.current round rfl))
    · cases hdrained
    · cases hdrained
  | storeFailed =>
    cases h
    refine forall_worker rfl ?_
    rintro _ ⟨⟩ _
    exact .inr (.inl rfl)
  | finishWorker =>
    cases h
    exact fun j hj => absurd hj List.not_mem_nil
  | _ =>
    simp only [Instr.execWorker] at h
    (repeat' split at h) <;> cases h <;> refine forall_worker rfl ?_ <;>
      rintro _ ⟨⟩ hdrained <;> first | exact .inl hdrained | cases hdrained

theorem drained_of_exec (hi : i.part = .worker → i.WorkerOk s)
    (h : i.exec t x s = some (s', pushed)) : ∀ j ∈ pushed, j.drained = true →
      i.drained = true ∨ i = .storeFailed ∨
      ∃ consumed, i = .loadProducers consumed ∧ s.activeProducers = 0 := by
  intro j hj hdrained
  have hj' : j.part = .worker := by cases j <;> first | rfl | cases hdrained
  by_cases hpart : i.part = .worker
  · obtain ⟨hlog, -⟩ | ⟨-, h⟩ | ⟨-, hother⟩ := exec_cases h
    · rw [hpart] at hlog
      cases hlog
    · exact drained_of_execWorker (hi hpart) h j hj hj' hdrained
    · exact absurd hpart hother
  · exact absurd hj' (worker_of_pushed hpart h j hj)

theorem stopping_of_exec (h : i.exec t x s = some (s', pushed)) : ∀ j ∈ pushed,
    j.stopping = true → i.stopping = true ∨ s.state = .stopping := by
  intro j hj hstopping
  have hj' : j.part = .worker := by cases j <;> first | rfl | cases hstopping
  by_cases hpart : i.part = .worker
  · obtain ⟨hlog, -⟩ | ⟨-, h⟩ | ⟨-, hother⟩ := exec_cases h
    · rw [hpart] at hlog
      cases hlog
    · have hpushed : ∀ j ∈ pushed, j.part = .worker → j.stopping = true →
          i.stopping = true ∨ s.state = .stopping := by
        cases i with
        | appendRecord record =>
          cases x with
          | append outcome =>
            cases h
            cases outcome <;> refine forall_worker rfl ?_ <;> rintro _ ⟨⟩ <;> nofun
          | _ => cases h
        | loadState consumed =>
          simp only [Instr.execWorker] at h
          split at h <;> cases h <;> refine forall_worker rfl ?_ <;> rintro _ ⟨⟩ hstopping
          · exact .inr ‹_›
          · cases hstopping
        | loadPending consumed => exact fun _ _ _ _ => .inl rfl
        | finishWorker =>
          cases h
          exact fun j hj => absurd hj List.not_mem_nil
        | _ =>
          simp only [Instr.execWorker] at h
          (repeat' split at h) <;> cases h <;> refine forall_worker rfl ?_ <;>
            rintro _ ⟨⟩ hstopping <;> cases hstopping
      exact hpushed j hj hj' hstopping
    · exact absurd hpart hother
  · exact absurd hj' (worker_of_pushed hpart h j hj)

end Exec

theorem Closed.step {c c' : Config} {t : Nat} {i : Instr} (h : Closed c) (hshape : Shape c)
    (hring : RingInv c'.shared.queue (calls c')) (hstep : machine.Step c t i c') : Closed c' := by
  obtain @⟨rest, x, s, pushed, htop, hexec⟩ := hstep
  have hactive := Library.Config.active_of_top htop
  have hzero : i.admitted = 0 := by
    have hle := Library.Config.le_total (w := Instr.admitted) hactive
    rw [h.admitted] at hle
    exact Nat.le_zero.mp hle
  refine ⟨?_, ?_, ?_⟩
  · obtain heq | ⟨-, heq⟩ | ⟨-, heq⟩ | ⟨-, heq⟩ := state_cases hexec <;>
      rw [Library.Config.shared_replace, heq]
    · exact h.state
    all_goals nofun
  · have htotal := Library.Config.total_replace Instr.admitted htop s pushed
    have hpushed := (admitted_of_exec hexec).resolve_right h.state
    rw [h.admitted] at htotal
    omega
  · have hclaimed := claimed_of_exec (hshape.ok t i hactive).2 hzero hexec
    have hdequeued := (ringStep_of_exec hexec).grows.2.2.2.length_le
    have hle := hring.dequeued_le
    have hempty := h.empty
    simp only [Library.Config.shared_replace] at hle ⊢
    rw [hclaimed] at hle ⊢
    omega

structure Leaving (c : Config) : Prop where
  stopping : ∀ t i, c.Active t i → i.stopping = true → c.shared.state ≠ .running
  drained : ∀ t i, c.Active t i → i.drained = true → c.shared.state ≠ .running
  finished : c.shared.workerFinished = true → c.shared.state ≠ .running

theorem leaving_init {config : LoggerConfig} {n : Nat} : Leaving (init config n) := by
  refine ⟨?_, ?_, nofun⟩
  · intro t i hactive hstopping
    obtain ⟨-, rfl⟩ | ⟨-, rfl⟩ := init_active hactive <;> cases hstopping
  · intro t i hactive hdrained
    obtain ⟨-, rfl⟩ | ⟨-, rfl⟩ := init_active hactive <;> cases hdrained

theorem running_of_exec {t : Nat} {i : Instr} {x : Choice} {s s' : Shared} {pushed : List Instr}
    (h : i.exec t x s = some (s', pushed)) (hstate : s.state ≠ .running) : s'.state ≠ .running := by
  obtain heq | ⟨-, heq⟩ | ⟨-, heq⟩ | ⟨-, heq⟩ := state_cases h <;> rw [heq]
  · exact hstate
  all_goals nofun

theorem Leaving.step {c c' : Config} {t : Nat} {i : Instr} (h : Leaving c) (hwriting : Writing c)
    (hstep : machine.Step c t i c') : Leaving c' := by
  obtain @⟨rest, x, s, pushed, htop, hexec⟩ := hstep
  have hactive := Library.Config.active_of_top htop
  have hmono := running_of_exec hexec
  refine ⟨?_, ?_, ?_⟩
  · intro t' j hj hstopping
    obtain ⟨rfl, hmem⟩ | hold := Library.Config.active_of_replace htop hj
    · refine hmono ?_
      obtain hi | hstate := stopping_of_exec hexec j hmem hstopping
      · exact h.stopping t' i hactive hi
      · rw [hstate]
        nofun
    · exact hmono (h.stopping t' j hold hstopping)
  · intro t' j hj hdrained
    obtain ⟨rfl, hmem⟩ | hold := Library.Config.active_of_replace htop hj
    · obtain hi | rfl | ⟨consumed, rfl, -⟩ :=
        drained_of_exec (fun hpart => (hwriting.worker t' i hactive hpart).2) hexec j hmem hdrained
      · exact hmono (h.drained t' i hactive hi)
      · cases hexec
        nofun
      · exact hmono (h.stopping t' _ hactive rfl)
    · exact hmono (h.drained t' j hold hdrained)
  · intro hfinished
    obtain heq | ⟨rfl, -⟩ := workerFinished_of_exec hexec
    · exact hmono (h.finished (heq ▸ hfinished))
    · exact hmono (h.drained t _ hactive rfl)

structure Drained (c : Config) : Prop where
  worker : ∀ t i, c.Active t i → i.drained = true → c.shared.hasError = true ∨ Closed c
  finished : c.shared.workerFinished = true → c.shared.hasError = true ∨ Closed c

theorem drained_init {config : LoggerConfig} {n : Nat} : Drained (init config n) := by
  refine ⟨?_, nofun⟩
  intro t i hactive hdrained
  obtain ⟨-, rfl⟩ | ⟨-, rfl⟩ := init_active hactive <;> cases hdrained

/-- The worker takes nothing for granted: when it finds no producer in progress, the records that
were pending when it looked at them are still all there were. -/
def Drains (c : Config) (_ : Nat) (i : Instr) : Prop :=
  InRange c ∧ ∀ consumed, i = .loadProducers consumed → c.shared.activeProducers = 0 →
    c.shared.pendingCount = 0

theorem total_le {c : Config} (hshape : Shape c) {w : Instr → Nat}
    (hw : ∀ i, w i ≤ i.logging + i.working) : c.total w ≤ c.threads.length + 1 :=
  Nat.le_trans (Library.Config.total_le_add hw c)
    (Nat.add_le_add hshape.logging.total_le hshape.working)

theorem closed_of_load {c : Config} (hrecords : Records c) (hrange : InRange c)
    (hstate : c.shared.state ≠ .running) (hproducers : c.shared.activeProducers = 0)
    (hpending : c.shared.pendingCount = 0) : Closed c := by
  have hcapacity := hrecords.capacity
  have hle := hrecords.ring.dequeued_le
  have hpendingTotal := total_le hrecords.shape Instr.pending_le
  have hproducingTotal := total_le hrecords.shape fun i =>
    Nat.le_add_right_of_le i.producing_le_logging
  rw [InRange] at hrange
  have hproducing : c.total Instr.producing = 0 := by
    have heq := hrecords.producing
    rw [hproducers] at heq
    exact (ofNat_inj (n := 0) (by omega) (by omega) heq).symm
  have hempty : c.shared.queue.dequeued.length =
      c.shared.queue.claimed.length + c.total Instr.pending := by
    have heq := hrecords.pending
    rw [hpending, UInt64.zero_add] at heq
    exact ofNat_inj (by omega) (by omega) heq
  refine ⟨hstate, ?_, by omega⟩
  have hadmitted : c.total Instr.admitted ≤ c.total Instr.producing + c.total Instr.producing :=
    Library.Config.total_le_add (fun i => Nat.le_add_right_of_le i.admitted_le_producing) c
  omega

theorem Drained.step {c c' : Config} {t : Nat} {i : Instr} (h : Drained c) (hrecords : Records c)
    (hrecords' : Records c') (hwriting : Writing c) (hleaving : Leaving c) (hok : Drains c t i)
    (hstep : machine.Step c t i c') : Drained c' := by
  have hclosed : Closed c → Closed c' := fun hclosed =>
    hclosed.step hrecords.shape hrecords'.ring hstep
  obtain @⟨rest, x, s, pushed, htop, hexec⟩ := hstep
  have hactive := Library.Config.active_of_top htop
  have hkeep : c.shared.hasError = true ∨ Closed c →
      s.hasError = true ∨ Closed (c.replace t s (pushed ++ rest)) :=
    Or.imp (hasError_of_exec hexec) hclosed
  have hworker : i.part = .worker → i.WorkerOk c.shared := fun hpart =>
    (hwriting.worker t i hactive hpart).2
  refine ⟨?_, ?_⟩
  · intro t' j hj hdrained
    obtain ⟨rfl, hmem⟩ | hold := Library.Config.active_of_replace htop hj
    · obtain hi | rfl | ⟨consumed, rfl, hproducers⟩ :=
        drained_of_exec hworker hexec j hmem hdrained
      · exact hkeep (h.worker t' i hactive hi)
      · exact hkeep (.inl (hworker rfl))
      · exact hkeep (.inr (closed_of_load hrecords hok.1 (hleaving.stopping t' _ hactive rfl)
          hproducers (hok.2 consumed rfl hproducers)))
    · exact hkeep (h.worker t' j hold hdrained)
  · intro hfinished
    obtain heq | ⟨rfl, -⟩ := workerFinished_of_exec hexec
    · exact hkeep (h.finished (heq ▸ hfinished))
    · exact hkeep (h.worker t _ hactive rfl)

/-- What holds of every configuration of a run whose steps meet `Drains`. -/
structure Draining (c : Config) : Prop where
  records : Records c
  writing : Writing c
  leaving : Leaving c
  drained : Drained c

theorem draining_init {config : LoggerConfig} {n : Nat} (hcapacity : 2 ≤ config.maxQueueSize.toNat) :
    Draining (init config n) :=
  ⟨records_init hcapacity, writing_init, leaving_init, drained_init⟩

theorem Draining.step {c c' : Config} {t : Nat} {i : Instr} (h : Draining c) (hok : Drains c t i)
    (hstep : machine.Step c t i c') : Draining c' := by
  have hrecords := h.records.step hok.1 hstep
  exact ⟨hrecords, h.writing.step h.records.shape hstep, h.leaving.step h.writing hstep,
    h.drained.step h.records hrecords h.writing h.leaving hok hstep⟩

structure AllWritten (s : Shared) : Prop where
  count : s.acceptedCount = s.writtenCount
  empty : s.queue.dequeued.length = s.queue.claimed.length
  accepted : ∀ entry ∈ s.accepted, entry.2 ∈ s.written
  returned : ∀ record ∈ s.returned, some record ∈ s.written

theorem claiming_le_admitted (i : Instr) : i.claiming ≤ i.admitted := by
  cases i with
  | tryEnqueue level passed previousPending call => exact call.length_claims_le passed
  | _ => exact Nat.le_of_ble_eq_true rfl

theorem allWritten_of_finished {c : Config} (h : Draining c)
    (hfinished : c.shared.workerFinished = true) (herror : c.shared.hasError = false) :
    AllWritten c.shared := by
  obtain ⟨hrecords, hwriting, -, hdrained⟩ := h
  have hnot : c.shared.hasError ≠ true := by simp [herror]
  have hcomplete := (hwriting.finished hfinished).resolve_left hnot
  have hclosed := (hdrained.finished hfinished).resolve_left hnot
  have hclaiming : c.total Instr.claiming ≤ c.total Instr.admitted + c.total Instr.admitted :=
    Library.Config.total_le_add (fun i => Nat.le_add_right_of_le (claiming_le_admitted i)) c
  have hlength : c.shared.queue.claimed.length = c.shared.accepted.length := by
    have := hrecords.claiming
    have := hclosed.admitted
    omega
  have hwritten : c.shared.written = c.shared.queue.claimed.map Prod.snd := by
    rw [← hcomplete.written, hrecords.ring.dequeued, hclosed.empty, ← List.length_map Prod.snd,
      List.take_length]
  have haccepted : ∀ entry ∈ c.shared.accepted, entry.2 ∈ c.shared.written := by
    intro entry hentry
    obtain ⟨t, hget⟩ := hrecords.accepted entry hentry
    rw [hwritten]
    exact List.mem_map.mpr ⟨(t, entry.2), List.mem_of_getElem? hget, rfl⟩
  refine ⟨?_, hclosed.empty, haccepted, ?_⟩
  · rw [hrecords.acceptedCount, hwriting.output.writtenCount, hwritten, List.length_map, hlength]
  · intro record hrecord
    obtain ⟨p, hp⟩ := hrecords.returned record hrecord
    exact haccepted _ hp

/-- What `stop` returns to while every step of the run meets `Drains`. -/
theorem written_of_stop {config : LoggerConfig} {n t : Nat} {c : Config}
    (hcapacity : 2 ≤ config.maxQueueSize.toNat) (hrun : machine.Run Drains (init config n) c)
    (hstop : c.Active t .stopReturned) (herror : c.shared.hasError = false) :
    AllWritten c.shared := by
  have h : Draining c := hrun.invariant (draining_init hcapacity) fun h hok hstep =>
    h.step hok hstep
  exact allWritten_of_finished h (h.writing.stop t _ hstop rfl) herror

instance (c : Config) (t : Nat) (i : Instr) : Decidable (Drains c t i) :=
  inferInstanceAs (Decidable (_ < _ ∧ ∀ consumed, i = .loadProducers consumed → _ → _))

def oneCall : LogCall := ⟨.info, [], none, 0, none⟩

def turns (t k : Nat) : List (Nat × Choice) := List.replicate k (t, .next)

theorem written_of_stop_one_record :
    AllWritten (machine.follow (init { maxQueueSize := 2 } 2)
      ((1, .log oneCall) :: turns 1 4 ++ (1, .record 0 0) :: turns 1 14 ++
        turns 0 11 ++ (0, .append .buffered) :: (2, .stop) :: turns 2 4 ++ turns 0 16 ++
        turns 2 11)).shared :=
  written_of_stop (by decide) (Machine.run_follow (c := init { maxQueueSize := 2 } 2)
    (by decide +kernel)) (t := 2) (by decide +kernel) (by decide +kernel)

/-- A producer enqueues between the worker's loads of the two counters. -/
theorem record_lost_at_stop : ∃ c, machine.Reaches (init { maxQueueSize := 2 } 2) c ∧
    c.Active 2 .stopReturned ∧ c.shared.hasError = false ∧ ¬AllWritten c.shared :=
  ⟨machine.follow (init { maxQueueSize := 2 } 2)
      ((1, .log oneCall) :: turns 1 4 ++ (2, .stop) :: turns 2 4 ++ turns 0 5 ++
        (1, .record 0 0) :: turns 1 17 ++ turns 0 11 ++ turns 2 11),
    Machine.reaches_follow _, by decide +kernel, by decide +kernel,
    fun h => absurd h.count (by decide +kernel)⟩

end UnixNotes.Logger.AsyncLogger
