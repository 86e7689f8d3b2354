import UnixNotes.Logger.Stall

namespace UnixNotes.Logger.AsyncLogger

open Library

def waiter : List Instr :=
  [.parked .space, .lock .space, .spaceState .info (some (oneCall.record 0 0 2)), .user]

def userAt (s : Shared) (stack : List Instr) : Config := ⟨s, [[.iterate false], stack, waiter]⟩

def workerAt (s : Shared) (stack : List Instr) : Config := ⟨s, [stack, [.user], waiter]⟩

section Rounds

variable {s s' : Shared} {i : Instr} {rest pushed : List Instr} {x : Choice}

theorem userAt_step (h : i.exec 1 x s = some (s', pushed)) :
    machine.Reaches (userAt s (i :: rest)) (userAt s' (pushed ++ rest)) := by
  have hstep : machine.Step (userAt s (i :: rest)) 1 i
      ((userAt s (i :: rest)).replace 1 s' (pushed ++ rest)) := .exec rfl h
  exact .step .start trivial hstep

theorem workerAt_step (h : i.exec 0 x s = some (s', pushed)) :
    machine.Reaches (workerAt s (i :: rest)) (workerAt s' (pushed ++ rest)) := by
  have hstep : machine.Step (workerAt s (i :: rest)) 0 i
      ((workerAt s (i :: rest)).replace 0 s' (pushed ++ rest)) := .exec rfl h
  exact .step .start trivial hstep

/-- `k` records have been put into the one cell, and none has been taken. -/
structure LappedRing (ring : MpscRingBuffer LogRecord) (k : Nat) : Prop where
  capacity : ring.capacity = 1
  sequence : (ring.cells 0).sequence = UInt64.ofNat k
  enqueue : ring.enqueuePosition = UInt64.ofNat k
  dequeue : ring.dequeuePosition = 0

structure Lapped (s : Shared) (k : Nat) : Prop where
  ring : LappedRing s.queue k
  minLevel : s.config.minLevel = .info
  flushOnError : s.config.flushOnError = false
  pending : s.pendingCount = UInt64.ofNat k
  state : s.state = .running
  requested : s.flushRequested = false
  owner : s.owner .wake = none
  parked : s.waiting .space = [2]

variable {k : Nat}

theorem ofNat_succ (k : Nat) : UInt64.ofNat (k + 1) = UInt64.ofNat k + 1 := UInt64.ofNat_add k 1

theorem LappedRing.index (h : LappedRing s.queue k) (position : UInt64) :
    s.queue.index position = 0 := by
  rw [MpscRingBuffer.index_eq, h.capacity, UInt64.toNat_one, Nat.mod_one]

theorem tryEnqueue_running {level : LogLevel} {passed : Option LogRecord} {previous : UInt64}
    {call call' : RingCall LogRecord} {ring : MpscRingBuffer LogRecord}
    (h : call.exec 1 false s.queue = (ring, .running call')) :
    (Instr.tryEnqueue level passed previous call).exec 1 .next s =
      some ({ s with queue := ring }, [.tryEnqueue level passed previous call']) := by
  have hcall : call.exec 1 (Choice.isSpurious .next) s.queue = (ring, .running call') := h
  rw [exec_of_log rfl]
  simp only [Instr.execLog, hcall]

theorem LappedRing.enqueue_record (h : LappedRing s.queue k) (level : LogLevel)
    (record : Option LogRecord) (previous : UInt64) (rest : List Instr) : ∃ ring position,
      machine.Reaches
        (userAt s (.tryEnqueue level record previous (.tryEnqueue record) :: rest))
        (userAt { s with queue := ring } (.countAccepted level record previous position :: rest)) ∧
      LappedRing ring (k + 1) := by
  let calling := fun ring call =>
    userAt { s with queue := ring } (.tryEnqueue level record previous call :: rest)
  have hcall : ∀ {ring ring' : MpscRingBuffer LogRecord} {call call' : RingCall LogRecord},
      call.exec 1 false ring = (ring', .running call') →
      machine.Reaches (calling ring call) (calling ring' call') := fun hexec =>
    userAt_step (tryEnqueue_running hexec)
  have hload : (RingCall.loadSequence record s.queue.enqueuePosition).exec 1 false s.queue =
      (s.queue, .running (.compareExchange record s.queue.enqueuePosition)) := by
    simp [RingCall.exec, MpscRingBuffer.cell, h.index, h.sequence, h.enqueue,
      MpscRingBuffer.difference]
  have hclaim : (RingCall.compareExchange record s.queue.enqueuePosition).exec 1 false s.queue =
      (s.queue.claim 1 record s.queue.enqueuePosition,
        .running (.beginWrite record s.queue.enqueuePosition)) := by
    simp [RingCall.exec]
  have hwrite : ∀ ring : MpscRingBuffer LogRecord,
      machine.Reaches (calling ring (.beginWrite record s.queue.enqueuePosition))
        (calling ((ring.setValue s.queue.enqueuePosition none).setValue s.queue.enqueuePosition
          record) (.publish s.queue.enqueuePosition)) := fun ring => (hcall rfl).trans (hcall rfl)
  have hpublish : ∀ ring : MpscRingBuffer LogRecord,
      (Instr.tryEnqueue level record previous (.publish s.queue.enqueuePosition)).exec 1 .next
          { s with queue := ring } =
        some ({ s with queue :=
            ring.setSequence s.queue.enqueuePosition (s.queue.enqueuePosition + 1) },
          [.countAccepted level record previous s.queue.enqueuePosition.toNat]) := fun _ => rfl
  have hsucc : s.queue.enqueuePosition + 1 = UInt64.ofNat (k + 1) := by
    rw [h.enqueue, ofNat_succ]
  have hrun : machine.Reaches (calling s.queue (.tryEnqueue record)) _ :=
    (hcall rfl).trans <| (hcall hload).trans <| (hcall hclaim).trans <|
      (hwrite _).trans (userAt_step (hpublish _))
  refine ⟨_, _, hrun, h.capacity, ?_, hsucc, h.dequeue⟩
  have hstored : ∀ ring : MpscRingBuffer LogRecord, ring.capacity = s.queue.capacity →
      ((ring.setSequence s.queue.enqueuePosition (s.queue.enqueuePosition + 1)).cells 0).sequence =
        s.queue.enqueuePosition + 1 := by
    intro ring hcapacity
    have hindex : ring.index s.queue.enqueuePosition = 0 := by
      rw [MpscRingBuffer.index, hcapacity]
      exact h.index _
    rw [← hindex, MpscRingBuffer.sequence_setSequence_self]
  rw [hstored]
  · exact hsucc
  · rfl

theorem Lapped.log_record (h : Lapped s k) (hzero : UInt64.ofNat k ≠ 0) :
    ∃ s', machine.Reaches (userAt s [.user]) (userAt s' [.user]) ∧ Lapped s' (k + 1) := by
  let record := oneCall.record 0 0 (s.nextSequence + 1)
  have hlog : (Instr.log oneCall).exec 1 .next s = some (s, [.loadRunning oneCall]) := by
    rw [exec_of_log rfl]
    simp [Instr.execLog, h.minLevel, oneCall]
  have hload : (Instr.loadRunning oneCall).exec 1 .next s = some (s, [.enterProducer oneCall]) := by
    rw [exec_of_log rfl]
    simp [Instr.execLog, h.state]
  let entered : Shared := { s with activeProducers := s.activeProducers + 1 }
  have hreload : (Instr.reloadRunning oneCall).exec 1 .next entered =
      some (entered, [.buildRecord oneCall]) := by
    rw [exec_of_log rfl]
    simp [Instr.execLog, entered, h.state]
  have henter : (Instr.enterProducer oneCall).exec 1 .next s =
      some (entered, [.reloadRunning oneCall]) := rfl
  let numbered : Shared := { entered with nextSequence := s.nextSequence + 1 }
  have hbuild : (Instr.buildRecord oneCall).exec 1 (.record 0 0) entered =
      some (numbered, [.countPending .info (some record)]) := rfl
  let counted : Shared := { numbered with pendingCount := s.pendingCount + 1 }
  have hcount : (Instr.countPending .info (some record)).exec 1 .next numbered =
      some (counted, [.tryEnqueue .info (some record) s.pendingCount
        (.tryEnqueue (some record))]) := rfl
  have hbegin : machine.Reaches (userAt s [.user])
      (userAt counted [.tryEnqueue .info (some record) s.pendingCount (.tryEnqueue (some record)),
        .user]) :=
    (userAt_step (i := .user) (x := .log oneCall) rfl).trans <| (userAt_step hlog).trans <|
      (userAt_step hload).trans <| (userAt_step henter).trans <| (userAt_step hreload).trans <|
      (userAt_step hbuild).trans (userAt_step hcount)
  obtain ⟨ring, position, hrun, hring⟩ :=
    LappedRing.enqueue_record (s := counted) h.ring .info (some record) s.pendingCount [.user]
  let accepted : Shared := { counted with
    queue := ring
    acceptedCount := s.acceptedCount + 1
    accepted := s.accepted ++ [(position, some record)] }
  have haccept : (Instr.countAccepted .info (some record) s.pendingCount position).exec 1 .next
      { counted with queue := ring } =
        some (accepted, [.finishProducer, .logReturned (some record) true]) := by
    rw [exec_of_log rfl]
    simp [Instr.execLog, h.pending, hzero, counted, numbered, entered, h.flushOnError, accepted]
  let finished : Shared := { accepted with activeProducers := s.activeProducers + 1 - 1 }
  have hleave : Instr.finishProducer.exec 1 .next accepted = some (finished, [.finishState]) := rfl
  have hfinish : Instr.finishState.exec 1 .next finished = some (finished, []) := by
    rw [exec_of_log rfl]
    simp [Instr.execLog, finished, accepted, counted, numbered, entered, h.state]
  let returned : Shared := { finished with returned := s.returned ++ [record] }
  have hreturn : (Instr.logReturned (some record) true).exec 1 .next finished =
      some (returned, []) := rfl
  have hend : machine.Reaches
      (userAt accepted [.finishProducer, .logReturned (some record) true, .user])
      (userAt returned [.user]) :=
    (userAt_step hleave).trans <| Machine.Run.trans (userAt_step hfinish) (userAt_step hreturn)
  refine ⟨returned, hbegin.trans <| hrun.trans <| (userAt_step haccept).trans hend, ?_⟩
  refine ⟨hring, h.minLevel, h.flushOnError, ?_, h.state, h.requested, h.owner, h.parked⟩
  change s.pendingCount + 1 = _
  rw [h.pending, ofNat_succ]

theorem Lapped.log_records (h : Lapped s k) (n : Nat) (hn : k + n ≤ 2 ^ 64) (hk : 0 < k) :
    ∃ s', machine.Reaches (userAt s [.user]) (userAt s' [.user]) ∧ Lapped s' (k + n) := by
  induction n with
  | zero => exact ⟨s, .start, h⟩
  | succ n ih =>
    obtain ⟨s₁, hrun, hlapped⟩ := ih (by omega)
    have hne : UInt64.ofNat (k + n) ≠ 0 := fun hzero => by
      have := ofNat_inj (by omega) (Nat.two_pow_pos 64) hzero
      omega
    obtain ⟨s₂, hlast, hlapped⟩ := hlapped.log_record hne
    exact ⟨s₂, hrun.trans hlast, hlapped⟩

theorem Lapped.worker_waits (h : Lapped s (2 ^ 64)) :
    ∃ s', machine.Reaches (workerAt s [.iterate false]) (workerAt s' [.parkedTimed]) ∧
      s'.queue = s.queue ∧ s'.state = s.state ∧ s'.waiting .space = [2] ∧
      0 ∈ s'.waiting .data := by
  have hzero : UInt64.ofNat (2 ^ 64) = 0 := by decide
  have hmiss : (Instr.tryDequeue false (.loadPublished s.queue.dequeuePosition)).exec 0 .next s =
      some (s, [.loadState false]) := by
    rw [exec_of_worker rfl]
    simp [Instr.execWorker, RingCall.exec, MpscRingBuffer.cell, h.ring.index, h.ring.sequence,
      h.ring.dequeue]
  have hstate : (Instr.loadState false).exec 0 .next s =
      some (s, [.loadFlushRequested ⟨false, .running, false⟩]) := by
    rw [exec_of_worker rfl]
    simp [Instr.execWorker, h.state]
  have hrequested : (Instr.loadFlushRequested ⟨false, .running, false⟩).exec 0 .next s =
      some (s, [.endRound ⟨false, .running, false⟩]) := by
    rw [exec_of_worker rfl]
    simp [Instr.execWorker, h.requested]
  have hpending : Instr.reloadPending.exec 0 .next s = some (s, [.lock .wake, .wakePending]) := by
    rw [exec_of_worker rfl]
    simp [Instr.execWorker, h.pending]
  let locked : Shared := s.setOwner .wake (some 0)
  have hlock : (Instr.lock .wake).exec 0 .next s = some (locked, []) := by
    rw [exec_of_sync rfl]
    simp [Instr.execSync, h.owner, locked]
  have hwakePending : Instr.wakePending.exec 0 .next locked = some (locked, [.wakeRequested]) := by
    rw [exec_of_worker rfl]
    simp [Instr.execWorker, h.pending, locked, Shared.setOwner]
  have hwakeRequested : Instr.wakeRequested.exec 0 .next locked = some (locked, [.wakeState]) := by
    rw [exec_of_worker rfl]
    simp [Instr.execWorker, h.requested, locked, Shared.setOwner]
  have hwakeState : Instr.wakeState.exec 0 .next locked = some (locked, [.parkTimed]) := by
    rw [exec_of_worker rfl]
    simp [Instr.execWorker, h.state, locked, Shared.setOwner]
  let parked : Shared := (locked.setOwner .wake none).setWaiting .data (0 :: s.waiting .data)
  have hpark : Instr.parkTimed.exec 0 .next locked = some (parked, [.parkedTimed]) := rfl
  have hsearch : machine.Reaches (workerAt s [.iterate false]) (workerAt s [.reloadPending]) :=
    (workerAt_step (x := .next) rfl).trans <| (workerAt_step (x := .next) rfl).trans <|
      (workerAt_step hmiss).trans <| (workerAt_step hstate).trans <|
      (workerAt_step hrequested).trans (workerAt_step (x := .next) rfl)
  have hwait : machine.Reaches (workerAt s [.reloadPending]) (workerAt locked [.parkTimed]) :=
    (workerAt_step hpending).trans <| (workerAt_step hlock).trans <|
      (workerAt_step hwakePending).trans <| (workerAt_step hwakeRequested).trans <|
      workerAt_step hwakeState
  refine ⟨parked, hsearch.trans <| hwait.trans (workerAt_step hpark), rfl, rfl, h.parked, ?_⟩
  exact List.mem_cons_self ..

end Rounds

/-- The one cell is overwritten until the positions are where they were at the beginning. -/
theorem stalled_after_wrap :
    ∃ c, machine.Reaches (init { maxQueueSize := 1 } 2) c ∧ Stalled c := by
  let begun := machine.follow (init { maxQueueSize := 1 } 2) waiting
  have hbegun : begun = userAt begun.shared [.user] := by
    have hstacks : begun.threads = [[.iterate false], [.user], waiter] := by decide
    rw [userAt, ← hstacks]
  have hstart : machine.Reaches (init { maxQueueSize := 1 } 2) (userAt begun.shared [.user]) :=
    hbegun ▸ Machine.reaches_follow _
  have hlapped : Lapped begun.shared 1 := by
    refine ⟨⟨?_, ?_, ?_, ?_⟩, ?_, ?_, ?_, ?_, ?_, ?_, ?_⟩ <;> decide
  obtain ⟨s, hrounds, hlapped⟩ := hlapped.log_records (2 ^ 64 - 1) (by omega) Nat.one_pos
  obtain ⟨s', hworker, hqueue, hstate, hspace, hdata⟩ := hlapped.worker_waits
  refine ⟨workerAt s' [.parkedTimed], hstart.trans (hrounds.trans hworker), ?_⟩
  refine ⟨hstate.trans hlapped.state, rfl, hdata, ?_, ?_, ?_⟩
  · change s'.queue.enqueuePosition = s'.queue.dequeuePosition
    rw [hqueue, hlapped.ring.enqueue, hlapped.ring.dequeue]
    decide
  · exact ⟨2, .spaceState .info (some (oneCall.record 0 0 2)), by
      change _ ∈ waiter
      simp [waiter], rfl⟩
  · intro t i hactive hlog
    match t with
    | 0 =>
      rw [List.mem_singleton.mp hactive] at hlog
      cases hlog
    | 1 =>
      rw [List.mem_singleton.mp hactive] at hlog
      cases hlog
    | 2 =>
      change 2 ∈ s'.waiting .space
      rw [hspace]
      exact List.mem_cons_self ..
    | _ + 3 => cases hactive

end UnixNotes.Logger.AsyncLogger
