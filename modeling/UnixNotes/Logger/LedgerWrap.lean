import UnixNotes.Logger.Ledger

namespace UnixNotes.Logger.AsyncLogger

open Library

def loggingAt (s : Shared) (log : List Event) (stack : List Instr) : LedgerConfig :=
  ⟨⟨s, log⟩, [[.iterate false], stack]⟩

section Rounds

variable {s s' : Shared} {log : List Event} {i : Instr} {rest pushed : List Instr} {x : Choice}

theorem loggingAt_step (h : i.exec 1 x s = some (s', pushed)) :
    ledger.Reaches (loggingAt s log (i :: rest))
      (loggingAt s' (events i s s' pushed ++ log) (pushed ++ rest)) := by
  have hstep : ledger.Step (loggingAt s log (i :: rest)) 1 i
      ((loggingAt s log (i :: rest)).replace 1 ⟨s', events i s s' pushed ++ log⟩
        (pushed ++ rest)) := .exec rfl (Machine.exec_logged log h)
  exact .step .start trivial hstep

structure Crowded (s : Shared) : Prop where
  minLevel : s.config.minLevel = .info
  overflowPolicy : s.config.overflowPolicy = .dropNewest
  state : s.state = .running
  refused : ∀ record, (RingCall.loadSequence record s.queue.enqueuePosition).exec 1 false s.queue =
    (s.queue, .returned (.tryEnqueue false record))

def Shared.drops (s : Shared) (n : Nat) : Shared :=
  { s with
    nextSequence := s.nextSequence + UInt64.ofNat n
    droppedCount := s.droppedCount + UInt64.ofNat n }

theorem Crowded.drops (h : Crowded s) (n : Nat) : Crowded (s.drops n) :=
  ⟨h.minLevel, h.overflowPolicy, h.state, h.refused⟩

def dropped : List Event := [.dropped, .undone, .incremented, .passed]

theorem Crowded.drop_record (h : Crowded s) (log : List Event) :
    ledger.Reaches (loggingAt s log [.user]) (loggingAt (s.drops 1) (dropped ++ log) [.user]) := by
  let record := oneCall.record 0 0 (s.nextSequence + 1)
  let entered : Shared := { s with activeProducers := s.activeProducers + 1 }
  let numbered : Shared := { entered with nextSequence := s.nextSequence + 1 }
  let counted : Shared := { numbered with pendingCount := s.pendingCount + 1 }
  let undone : Shared := { counted with pendingCount := s.pendingCount + 1 - 1 }
  let lost : Shared := { undone with droppedCount := s.droppedCount + 1 }
  let finished : Shared := { lost with activeProducers := s.activeProducers + 1 - 1 }
  have hlog : (Instr.log oneCall).exec 1 .next s = some (s, [.loadRunning oneCall]) := by
    rw [exec_of_log rfl]
    simp [Instr.execLog, h.minLevel, oneCall]
  have hload : (Instr.loadRunning oneCall).exec 1 .next s = some (s, [.enterProducer oneCall]) := by
    rw [exec_of_log rfl]
    simp [Instr.execLog, h.state]
  have hreload : (Instr.reloadRunning oneCall).exec 1 .next entered =
      some (entered, [.buildRecord oneCall]) := by
    rw [exec_of_log rfl]
    simp [Instr.execLog, entered, h.state]
  have hbuild : (Instr.buildRecord oneCall).exec 1 (.record 0 0) entered =
      some (numbered, [.countPending .info (some record)]) := rfl
  have hcount : (Instr.countPending .info (some record)).exec 1 .next numbered =
      some (counted, [.tryEnqueue .info (some record) s.pendingCount
        (.tryEnqueue (some record))]) := rfl
  have hbegin : (Instr.tryEnqueue .info (some record) s.pendingCount
      (.tryEnqueue (some record))).exec 1 .next counted = some (counted,
        [.tryEnqueue .info (some record) s.pendingCount
          (.loadSequence (some record) s.queue.enqueuePosition)]) := rfl
  have hrefuse : (Instr.tryEnqueue .info (some record) s.pendingCount
      (.loadSequence (some record) s.queue.enqueuePosition)).exec 1 .next counted =
        some (counted, [.uncountPending .info (some record)]) := by
    have hrefused : (RingCall.loadSequence (some record) s.queue.enqueuePosition).exec 1
        (Choice.isSpurious .next) counted.queue = _ := h.refused (some record)
    rw [exec_of_log rfl]
    simp only [Instr.execLog, hrefused]
    rfl
  have hundo : (Instr.uncountPending .info (some record)).exec 1 .next counted =
      some (undone, [.countDropped]) := by
    rw [exec_of_log rfl]
    simp [Instr.execLog, counted, undone, numbered, entered, h.overflowPolicy]
  have hdrop : Instr.countDropped.exec 1 .next undone =
      some (lost, [.finishProducer, .logReturned none false]) := rfl
  have hleave : Instr.finishProducer.exec 1 .next lost = some (finished, [.finishState]) := rfl
  have hfinish : Instr.finishState.exec 1 .next finished = some (finished, []) := by
    rw [exec_of_log rfl]
    simp [Instr.execLog, finished, lost, undone, counted, numbered, entered, h.state]
  have hreturn : (Instr.logReturned none false).exec 1 .next finished =
      some (s.drops 1, []) := by
    rw [exec_of_log rfl]
    simp [Instr.execLog, finished, lost, undone, counted, numbered, entered, Shared.drops]
  have hpass : ledger.Reaches (loggingAt s log [.user]) (loggingAt counted
      (.incremented :: .passed :: log) [.tryEnqueue .info (some record) s.pendingCount
        (.tryEnqueue (some record)), .user]) :=
    (loggingAt_step (i := .user) (x := .log oneCall) rfl).trans <| (loggingAt_step hlog).trans <|
      (loggingAt_step hload).trans <| (loggingAt_step (x := .next) rfl).trans <|
      (loggingAt_step hreload).trans <| (loggingAt_step hbuild).trans (loggingAt_step hcount)
  have hlose : ledger.Reaches (loggingAt counted (.incremented :: .passed :: log)
      [.tryEnqueue .info (some record) s.pendingCount (.tryEnqueue (some record)), .user])
        (loggingAt lost (dropped ++ log) [.finishProducer, .logReturned none false, .user]) :=
    (loggingAt_step hbegin).trans <| (loggingAt_step hrefuse).trans <|
      (loggingAt_step hundo).trans (loggingAt_step hdrop)
  have hend : ledger.Reaches
      (loggingAt lost (dropped ++ log) [.finishProducer, .logReturned none false, .user])
      (loggingAt (s.drops 1) (dropped ++ log) [.user]) :=
    (loggingAt_step hleave).trans <| (loggingAt_step hfinish).trans (loggingAt_step hreturn)
  exact hpass.trans (hlose.trans hend)

theorem Shared.drops_drops (s : Shared) (n : Nat) : (s.drops n).drops 1 = s.drops (n + 1) := by
  simp only [Shared.drops, UInt64.ofNat_add, UInt64.add_assoc]

theorem Crowded.drop_records (h : Crowded s) (log : List Event) (n : Nat) : ∃ log',
    ledger.Reaches (loggingAt s log [.user]) (loggingAt (s.drops n) (log' ++ log) [.user]) ∧
      log'.count .passed = n ∧ log'.count .rejected = 0 := by
  induction n with
  | zero => exact ⟨[], by simpa [Shared.drops] using Machine.Run.start, rfl, rfl⟩
  | succ n ih =>
    obtain ⟨log', hrun, hpassed, hrejected⟩ := ih
    have hlast := (h.drops n).drop_record (log' ++ log)
    rw [Shared.drops_drops, ← List.append_assoc] at hlast
    refine ⟨dropped ++ log', hrun.trans hlast, ?_, ?_⟩
    · rw [List.count_append, hpassed]
      exact Nat.add_comm 1 n
    · rw [List.count_append, hrejected]
      rfl

theorem Shared.drops_around (s : Shared) : s.drops (2 ^ 64) = s := by
  have hzero : UInt64.ofNat (2 ^ 64) = 0 := by decide
  rw [Shared.drops, hzero, UInt64.add_zero, UInt64.add_zero]

theorem Crowded.drop_around (h : Crowded s) (log : List Event) (moves : List (Nat × Choice)) :
    ∃ log', ledger.Reaches (loggingAt s log [.user])
        ((ledger.follow (loggingAt s [] [.user]) moves).after log') ∧
      2 ^ 64 ≤ log'.count .passed ∧ log'.count .rejected = log.count .rejected := by
  obtain ⟨log', hrun, hpassed, hrejected⟩ := h.drop_records log (2 ^ 64)
  rw [s.drops_around] at hrun
  refine ⟨log' ++ log, hrun.trans ?_, ?_, ?_⟩
  · rw [ledger, ← Machine.follow_after]
    exact Machine.reaches_follow moves
  · rw [List.count_append, hpassed]
    exact Nat.le_add_right _ _
  · rw [List.count_append, hrejected, Nat.zero_add]

end Rounds

def crowdedConfig : LoggerConfig := { maxQueueSize := 2, overflowPolicy := .dropNewest }

def crowded : LedgerConfig :=
  ledger.follow (ledgerInit crowdedConfig 1)
    ((1, .log oneCall) :: turns 1 4 ++ (1, .record 0 0) :: turns 1 14 ++
      (1, .log oneCall) :: turns 1 4 ++ (1, .record 1 0) :: turns 1 11)

def emptied : List (Nat × Choice) :=
  turns 0 11 ++ (0, .append .buffered) :: turns 0 11 ++ (0, .append .buffered) :: turns 0 18

def quiet : LedgerConfig := ledger.follow (loggingAt crowded.shared.base [] [.user]) emptied

theorem crowded_crowded : Crowded crowded.shared.base := by
  refine ⟨by decide, by decide, by decide, fun record => ?_⟩
  have hne : MpscRingBuffer.difference
      (crowded.shared.base.queue.cell crowded.shared.base.queue.enqueuePosition).sequence
      crowded.shared.base.queue.enqueuePosition ≠ 0 := by decide
  have hneg : MpscRingBuffer.difference
      (crowded.shared.base.queue.cell crowded.shared.base.queue.enqueuePosition).sequence
      crowded.shared.base.queue.enqueuePosition < 0 := by decide
  simp only [RingCall.exec, if_neg hne, if_pos hneg]

/-- Calls are dropped until the counter of them is where it was. -/
theorem drops_overflow : ∃ c, ledger.Reaches (ledgerInit crowdedConfig 1) c ∧
    Quiescent c.base ∧ c.base.Active 0 .parkedTimed ∧ c.base.shared.pendingCount = 0 ∧
    c.shared.log.count .passed ≠ c.base.shared.acceptedCount.toNat +
      c.base.shared.droppedCount.toNat + c.shared.log.count .rejected := by
  have hcrowded : crowded = loggingAt crowded.shared.base crowded.shared.log [.user] := by
    have hstacks : crowded.threads = [[.iterate false], [.user]] := by decide
    rw [loggingAt, ← hstacks]
  have hstart : ledger.Reaches (ledgerInit crowdedConfig 1)
      (loggingAt crowded.shared.base crowded.shared.log [.user]) :=
    hcrowded ▸ Machine.reaches_follow _
  obtain ⟨log, hrun, hpassed, hrejected⟩ :=
    crowded_crowded.drop_around crowded.shared.log emptied
  refine ⟨_, hstart.trans hrun, ?_, ?_, ?_, ?_⟩
  · have hall : quiet.base.All fun i => i.part ≠ .log := by decide
    exact fun t i hactive => hall.of_active hactive
  · have hactive : quiet.base.Active 0 .parkedTimed := by decide
    exact hactive
  · have hpending : quiet.base.shared.pendingCount = 0 := by decide
    exact hpending
  · have haccepted : quiet.base.shared.acceptedCount.toNat = 2 := by decide
    have hdropped : quiet.base.shared.droppedCount.toNat = 0 := by decide
    have hnone : quiet.shared.log.count .rejected = 0 := by decide
    have hnone' : crowded.shared.log.count .rejected = 0 := by decide
    change (quiet.shared.log ++ log).count .passed ≠ quiet.base.shared.acceptedCount.toNat +
      quiet.base.shared.droppedCount.toNat + (quiet.shared.log ++ log).count .rejected
    rw [List.count_append, List.count_append, haccepted, hdropped, hnone, hrejected, hnone']
    omega

end UnixNotes.Logger.AsyncLogger
