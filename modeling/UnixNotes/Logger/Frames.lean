import UnixNotes.Logger.Exec

namespace UnixNotes.Logger.AsyncLogger

structure SameProducers (s s' : Shared) : Prop where
  activeProducers : s'.activeProducers = s.activeProducers
  acceptedCount : s'.acceptedCount = s.acceptedCount
  accepted : s'.accepted = s.accepted
  returned : s'.returned = s.returned

structure SameWorker (s s' : Shared) : Prop where
  buffer : s'.buffer = s.buffer
  written : s'.written = s.written
  writtenCount : s'.writtenCount = s.writtenCount
  flushed : s'.flushed = s.flushed
  lastFlushedCount : s'.lastFlushedCount = s.lastFlushedCount
  hasError : s'.hasError = s.hasError
  workerFinished : s'.workerFinished = s.workerFinished

structure SameQueue (s s' : Shared) : Prop where
  queue : s'.queue = s.queue
  pendingCount : s'.pendingCount = s.pendingCount

theorem SameProducers.refl (s : Shared) : SameProducers s s := ⟨rfl, rfl, rfl, rfl⟩

theorem SameWorker.refl (s : Shared) : SameWorker s s := ⟨rfl, rfl, rfl, rfl, rfl, rfl, rfl⟩

theorem SameQueue.refl (s : Shared) : SameQueue s s := ⟨rfl, rfl⟩

section Parts

variable {t : Nat} {i : Instr} {x : Choice} {s s' : Shared} {pushed : List Instr}

theorem execLog_frame (h : i.execLog t x s = some (s', pushed)) :
    SameWorker s s' ∧ s'.state = s.state ∧ s'.workerJoined = s.workerJoined := by
  cases i
  all_goals
    simp only [Instr.execLog] at h
    (repeat' split at h) <;> cases h <;> exact ⟨⟨rfl, rfl, rfl, rfl, rfl, rfl, rfl⟩, rfl, rfl⟩

theorem execFlush_frame (h : i.execFlush x s = some (s', pushed)) :
    (SameProducers s s' ∧ SameWorker s s' ∧ SameQueue s s') ∧ s'.state = s.state ∧
      s'.workerJoined = s.workerJoined := by
  cases i
  all_goals
    simp only [Instr.execFlush] at h
    (repeat' split at h) <;> cases h <;>
      exact ⟨⟨⟨rfl, rfl, rfl, rfl⟩, ⟨rfl, rfl, rfl, rfl, rfl, rfl, rfl⟩, ⟨rfl, rfl⟩⟩, rfl, rfl⟩

theorem execStop_frame (h : i.execStop s = some (s', pushed)) :
    SameProducers s s' ∧ SameWorker s s' ∧ SameQueue s s' := by
  cases i
  all_goals
    simp only [Instr.execStop] at h
    (repeat' split at h) <;> cases h <;>
      exact ⟨⟨rfl, rfl, rfl, rfl⟩, ⟨rfl, rfl, rfl, rfl, rfl, rfl, rfl⟩, ⟨rfl, rfl⟩⟩

theorem execSync_frame (h : i.execSync t x s = some (s', pushed)) :
    (SameProducers s s' ∧ SameWorker s s' ∧ SameQueue s s') ∧ s'.state = s.state ∧
      s'.workerJoined = s.workerJoined := by
  cases i
  all_goals
    simp only [Instr.execSync] at h
    (repeat' split at h) <;> cases h <;>
      exact ⟨⟨⟨rfl, rfl, rfl, rfl⟩, ⟨rfl, rfl, rfl, rfl, rfl, rfl, rfl⟩, ⟨rfl, rfl⟩⟩, rfl, rfl⟩

theorem execWorker_frame (h : i.execWorker t x s = some (s', pushed)) :
    SameProducers s s' ∧ s'.workerJoined = s.workerJoined := by
  cases i with
  | appendRecord record =>
    cases x with
    | append outcome =>
      cases h
      cases outcome <;> exact ⟨⟨rfl, rfl, rfl, rfl⟩, rfl⟩
    | _ => cases h
  | _ =>
    simp only [Instr.execWorker] at h
    (repeat' split at h) <;> cases h <;> exact ⟨⟨rfl, rfl, rfl, rfl⟩, rfl⟩

end Parts

section Exec

variable {t : Nat} {i : Instr} {x : Choice} {s s' : Shared} {pushed : List Instr}

theorem sameProducers_of_exec (hpart : i.part ≠ .log) (h : i.exec t x s = some (s', pushed)) :
    SameProducers s s' := by
  unfold Instr.exec at h
  split at h
  · split at h <;> cases h <;> exact .refl _
  · contradiction
  · exact (execFlush_frame h).1.1
  · exact (execStop_frame h).1
  · exact (execSync_frame h).1.1
  · exact (execWorker_frame h).1

theorem sameWorker_of_exec (hpart : i.part ≠ .worker) (h : i.exec t x s = some (s', pushed)) :
    SameWorker s s' := by
  unfold Instr.exec at h
  split at h
  · split at h <;> cases h <;> exact .refl _
  · exact (execLog_frame h).1
  · exact (execFlush_frame h).1.2.1
  · exact (execStop_frame h).2.1
  · exact (execSync_frame h).1.2.1
  · contradiction

theorem sameQueue_of_exec (hlog : i.part ≠ .log) (hworker : i.part ≠ .worker)
    (h : i.exec t x s = some (s', pushed)) : SameQueue s s' := by
  unfold Instr.exec at h
  split at h
  · split at h <;> cases h <;> exact .refl _
  · contradiction
  · exact (execFlush_frame h).1.2.2
  · exact (execStop_frame h).2.2
  · exact (execSync_frame h).1.2.2
  · contradiction

theorem state_of_exec (hstop : i.part ≠ .stop) (hworker : i.part ≠ .worker)
    (h : i.exec t x s = some (s', pushed)) : s'.state = s.state := by
  unfold Instr.exec at h
  split at h
  · split at h <;> cases h <;> rfl
  · exact (execLog_frame h).2.1
  · exact (execFlush_frame h).2.1
  · contradiction
  · exact (execSync_frame h).2.1
  · contradiction

theorem workerJoined_of_exec (hstop : i.part ≠ .stop) (h : i.exec t x s = some (s', pushed)) :
    s'.workerJoined = s.workerJoined := by
  unfold Instr.exec at h
  split at h
  · split at h <;> cases h <;> rfl
  · exact (execLog_frame h).2.2
  · exact (execFlush_frame h).2.2
  · contradiction
  · exact (execSync_frame h).2.2
  · exact (execWorker_frame h).2

theorem exec_of_log (hpart : i.part = .log) : i.exec t x s = i.execLog t x s := by
  unfold Instr.exec
  rw [hpart]

theorem exec_of_stop (hpart : i.part = .stop) : i.exec t x s = i.execStop s := by
  unfold Instr.exec
  rw [hpart]

theorem exec_of_sync (hpart : i.part = .sync) : i.exec t x s = i.execSync t x s := by
  unfold Instr.exec
  rw [hpart]

theorem exec_of_worker (hpart : i.part = .worker) : i.exec t x s = i.execWorker t x s := by
  unfold Instr.exec
  rw [hpart]

theorem exec_cases (h : i.exec t x s = some (s', pushed)) :
    (i.part = .log ∧ i.execLog t x s = some (s', pushed)) ∨
    (i.part = .worker ∧ i.execWorker t x s = some (s', pushed)) ∨
    (i.part ≠ .log ∧ i.part ≠ .worker) := by
  unfold Instr.exec at h
  split at h
  all_goals
    rename_i hpart
    rw [hpart]
  · exact .inr (.inr ⟨nofun, nofun⟩)
  · exact .inl ⟨rfl, h⟩
  · exact .inr (.inr ⟨nofun, nofun⟩)
  · exact .inr (.inr ⟨nofun, nofun⟩)
  · exact .inr (.inr ⟨nofun, nofun⟩)
  · exact .inr (.inl ⟨rfl, h⟩)

end Exec

end UnixNotes.Logger.AsyncLogger
