import UnixNotes.Logger.Output

namespace UnixNotes.Logger.AsyncLogger

open Library

section Exec

variable {t : Nat} {i : Instr} {x : Choice} {s s' : Shared} {pushed : List Instr}

theorem Shared.Synced.congr (h : s.Synced) (hsame : SameWorker s s') : s'.Synced :=
  ⟨hsame.buffer.trans h.buffer, by rw [hsame.flushed, hsame.written, h.flushed]⟩

theorem Shared.Complete.congr (h : s.Complete) (hsame : SameWorker s s')
    (hdequeued : s'.queue.dequeued = s.queue.dequeued) : s'.Complete :=
  ⟨h.synced.congr hsame, by rw [hdequeued, hsame.written, h.written]⟩

theorem Instr.Stage.congr (h : i.Stage s) (hsame : SameWorker s s') : i.Stage s' := by
  cases i with
  | flushOutput round => exact hsame.buffer.trans h
  | loadWritten round => exact Shared.Synced.congr h hsame
  | storeLastFlushed round written =>
    obtain ⟨hsynced, hle⟩ := h
    exact ⟨hsynced.congr hsame, by rw [hsame.flushed]; exact hle⟩
  | checkFlushTarget round written => exact Shared.Synced.congr h hsame
  | clearFlushRequested round => exact Shared.Synced.congr h hsame
  | endRound round => exact fun hdrained => (h hdrained).congr hsame
  | _ => trivial

theorem Instr.Working.congr (h : i.Working s) (hsame : SameWorker s s')
    (hdequeued : s'.queue.dequeued = s.queue.dequeued) : i.Working s' :=
  h.next rfl hdequeued hsame.written hsame.buffer hsame.hasError (h.stage.congr hsame) h.current

theorem Instr.WorkerOk.congr (h : i.WorkerOk s) (hsame : SameWorker s s')
    (hdequeued : s'.queue.dequeued = s.queue.dequeued) : i.WorkerOk s' := by
  cases i with
  | failWorker => trivial
  | storeFailed => exact hsame.hasError.trans h
  | finishWorker =>
    rw [WorkerOk, hsame.hasError]
    exact h.imp_right fun hcomplete => hcomplete.congr hsame hdequeued
  | _ => exact Instr.Working.congr h hsame hdequeued

theorem Output.congr (h : Output s) (hsame : SameWorker s s')
    (hdequeued : s'.queue.dequeued = s.queue.dequeued)
    (hfailed : s'.state = .failed → s.state = .failed) : Output s' := by
  refine ⟨?_, ?_, ?_, ?_, fun h' => hsame.hasError.trans (h.failed (hfailed h'))⟩
  · rw [hdequeued, hsame.written]
    exact h.written
  · rw [hsame.writtenCount, hsame.written]
    exact h.writtenCount
  · rw [hsame.flushed, hsame.written]
    exact h.flushed
  · rw [hsame.lastFlushedCount, hsame.flushed]
    exact h.lastFlushed

theorem dequeued_of_exec (hcall : i.CallOk) (hworker : i.part ≠ .worker)
    (h : i.exec t x s = some (s', pushed)) : s'.queue.dequeued = s.queue.dequeued := by
  obtain ⟨-, h⟩ | ⟨hpart, -⟩ | ⟨hlog, -⟩ := exec_cases h
  · cases i with
    | tryEnqueue level passed previousPending call =>
      simp only [Instr.execLog] at h
      split at h
      · rename_i hexec
        cases h
        exact (RingCall.claims_of_exec hcall.1 hcall.2 hexec).1
      · rename_i hexec
        cases h
        exact (RingCall.claims_of_exec hcall.1 hcall.2 hexec).1
      · rename_i hexec
        cases h
        exact (RingCall.claims_of_exec hcall.1 hcall.2 hexec).1
      · cases h
    | _ =>
      simp only [Instr.execLog] at h
      (repeat' split at h) <;> cases h <;> rfl
  · exact absurd hpart hworker
  · rw [(sameQueue_of_exec hlog hworker h).queue]

theorem worker_of_pushed (hworker : i.part ≠ .worker) (h : i.exec t x s = some (s', pushed)) :
    ∀ j ∈ pushed, j.part ≠ .worker := by
  intro j hj hj'
  obtain heq | hsync | ⟨-, hflush⟩ | ⟨-, ⟨_, rfl⟩ | rfl | rfl⟩ := origin_of_exec h j hj
  · exact hworker (heq.symm.trans hj')
  · rw [hj'] at hsync
    cases hsync
  · rw [hj'] at hflush
    cases hflush
  all_goals cases hj'

theorem state_cases (h : i.exec t x s = some (s', pushed)) :
    s'.state = s.state ∨ (i = .storeStopping ∧ s'.state = .stopping) ∨
    (i = .storeStopped ∧ s'.state = .stopped) ∨ (i = .storeFailed ∧ s'.state = .failed) := by
  by_cases hstop : i.part = .stop
  · rw [exec_of_stop hstop] at h
    cases i with
    | storeStopping =>
      cases h
      exact .inr (.inl ⟨rfl, rfl⟩)
    | storeStopped =>
      cases h
      exact .inr (.inr (.inl ⟨rfl, rfl⟩))
    | _ =>
      simp only [Instr.execStop] at h
      (repeat' split at h) <;> cases h <;> exact .inl rfl
  · by_cases hworker : i.part = .worker
    · obtain ⟨hlog, -⟩ | ⟨-, h⟩ | ⟨-, hother⟩ := exec_cases h
      · rw [hworker] at hlog
        cases hlog
      · cases i with
        | appendRecord record =>
          cases x with
          | append outcome =>
            cases h
            cases outcome <;> exact .inl rfl
          | _ => cases h
        | storeFailed =>
          cases h
          exact .inr (.inr (.inr ⟨rfl, rfl⟩))
        | _ =>
          simp only [Instr.execWorker] at h
          (repeat' split at h) <;> cases h <;> exact .inl rfl
      · exact absurd hworker hother
    · exact .inl (state_of_exec hstop hworker h)

def Instr.afterWorker : Instr → Bool
  | .closeOutput => true
  | .stopFailed => true
  | .storeStopped => true
  | .stopReturned => true
  | _ => false

theorem afterWorker_of_exec (hcreated : s.state ≠ .created) (h : i.exec t x s = some (s', pushed)) :
    (pushed.all fun j => !j.afterWorker) = true ∨ i.afterWorker = true ∨ s.state = .stopped ∨
      s.workerJoined = true ∨ s.workerFinished = true := by
  by_cases hstop : i.part = .stop
  · rw [exec_of_stop hstop] at h
    cases i with
    | stopState =>
      cases hstate : s.state with
      | created => exact absurd hstate hcreated
      | stopped => exact .inr (.inr (.inl rfl))
      | _ =>
        simp only [Instr.execStop, hstate] at h
        cases h
        exact .inl rfl
    | joinWorker =>
      simp only [Instr.execStop] at h
      split at h
      · exact .inr (.inr (.inr (.inl ‹_›)))
      · split at h
        · exact .inr (.inr (.inr (.inr ‹_›)))
        · cases h
    | stop =>
      cases h
      exact .inl rfl
    | storeStopping =>
      cases h
      exact .inl rfl
    | closeOutput => exact .inr (.inl rfl)
    | stopFailed => exact .inr (.inl rfl)
    | storeStopped => exact .inr (.inl rfl)
    | stopReturned => exact .inr (.inl rfl)
    | _ => cases hstop
  · refine .inl (List.all_eq_true.mpr fun j hj => ?_)
    by_cases hj' : j.part = .stop
    · rw [stop_of_exec hstop h j hj hj']
      rfl
    · cases j <;> first | rfl | exact absurd rfl hj'

theorem workerJoined_cases (h : i.exec t x s = some (s', pushed)) :
    s'.workerJoined = s.workerJoined ∨ s.workerFinished = true := by
  by_cases hstop : i.part = .stop
  · rw [exec_of_stop hstop] at h
    cases i with
    | joinWorker =>
      simp only [Instr.execStop] at h
      split at h
      · cases h
        exact .inl rfl
      · split at h
        · exact .inr ‹_›
        · cases h
    | _ =>
      simp only [Instr.execStop] at h
      (repeat' split at h) <;> cases h <;> exact .inl rfl
  · exact .inl (workerJoined_of_exec hstop h)

end Exec

structure Writing (c : Config) : Prop where
  output : Output c.shared
  created : c.shared.state ≠ .created
  worker : ∀ t i, c.Active t i → i.part = .worker →
    c.shared.workerFinished = false ∧ i.WorkerOk c.shared
  finished : c.shared.workerFinished = true → c.shared.hasError = true ∨ c.shared.Complete
  stopped : c.shared.state = .stopped → c.shared.workerFinished = true
  joined : c.shared.workerJoined = true → c.shared.workerFinished = true
  stop : ∀ t i, c.Active t i → i.afterWorker = true → c.shared.workerFinished = true

theorem writing_init {config : LoggerConfig} {n : Nat} : Writing (init config n) := by
  refine ⟨⟨List.prefix_refl _, rfl, Nat.le_refl _, Nat.le_refl _, nofun⟩, nofun, ?_, nofun, nofun,
    nofun, ?_⟩
  · intro t i hactive hpart
    obtain ⟨-, rfl⟩ | ⟨-, rfl⟩ := init_active hactive
    · exact ⟨rfl, rfl, rfl, trivial, fun _ h => nomatch h⟩
    · cases hpart
  · intro t i hactive hafter
    obtain ⟨-, rfl⟩ | ⟨-, rfl⟩ := init_active hactive <;> cases hafter

theorem Shape.worker_of_step {c : Config} (h : Shape c) {t : Nat} {i : Instr} {rest : List Instr}
    (htop : c.stack t = i :: rest) (hi : i.part = .worker) {s : Shared} {pushed : List Instr}
    {t' : Nat} {j : Instr} (hj : (c.replace t s (pushed ++ rest)).Active t' j)
    (hworker : j.part = .worker) : j ∈ pushed := by
  by_contra hmem
  have hle := Library.Config.weigh_add_le_total (w := Instr.working) htop hj hmem
  have hworking := h.working
  simp only [Instr.working, hi, hworker] at hle
  omega

theorem Writing.step {c c' : Config} {t : Nat} {i : Instr} (h : Writing c) (hshape : Shape c)
    (hstep : machine.Step c t i c') : Writing c' := by
  obtain @⟨rest, x, s, pushed, htop, hexec⟩ := hstep
  have hactive := Library.Config.active_of_top htop
  have hcall := (hshape.ok t i hactive).2
  have hmono := finished_of_exec hexec
  have hstate := state_cases hexec
  have hcreated : s.state ≠ .created := by
    obtain heq | ⟨-, heq⟩ | ⟨-, heq⟩ | ⟨-, heq⟩ := hstate <;> rw [heq]
    · exact h.created
    all_goals nofun
  have hstopped : s.state = .stopped → s.workerFinished = true := by
    obtain heq | ⟨-, heq⟩ | ⟨rfl, -⟩ | ⟨-, heq⟩ := hstate
    · exact fun hstopped => hmono (h.stopped (heq ▸ hstopped))
    · rw [heq]
      nofun
    · exact fun _ => hmono (h.stop t _ hactive rfl)
    · rw [heq]
      nofun
  have hjoined : s.workerJoined = true → s.workerFinished = true := by
    obtain heq | hfinished := workerJoined_cases hexec
    · exact fun hjoined => hmono (h.joined (heq ▸ hjoined))
    · exact fun _ => hmono hfinished
  have hstop : ∀ t' j, (c.replace t s (pushed ++ rest)).Active t' j → j.afterWorker = true →
      s.workerFinished = true := by
    intro t' j hj hafter
    obtain ⟨rfl, hmem⟩ | hold := Library.Config.active_of_replace htop hj
    · obtain hall | hi | hstopped | hjoined | hfinished := afterWorker_of_exec h.created hexec
      · have := List.all_eq_true.mp hall j hmem
        rw [hafter] at this
        cases this
      · exact hmono (h.stop t' i hactive hi)
      · exact hmono (h.stopped hstopped)
      · exact hmono (h.joined hjoined)
      · exact hmono hfinished
    · exact hmono (h.stop t' j hold hafter)
  by_cases hpart : i.part = .worker
  · obtain ⟨hnotfinished, hok⟩ := h.worker t i hactive hpart
    obtain ⟨hlog, -⟩ | ⟨-, hworker⟩ | ⟨-, hother⟩ := exec_cases hexec
    · rw [hpart] at hlog
      cases hlog
    · have hpushed := workerOk_of_execWorker h.output hok hcall hworker
      have hout := output_of_execWorker h.output hok hcall hworker
      obtain heq | ⟨rfl, heq⟩ := workerFinished_of_exec hexec
      · have hnot : s.workerFinished = false := heq.trans hnotfinished
        refine ⟨hout, hcreated, ?_, ?_, hstopped, hjoined, hstop⟩
        · intro t' j hj hj'
          exact ⟨hnot, hpushed j (hshape.worker_of_step htop hpart hj hj') hj'⟩
        · rw [Library.Config.shared_replace, hnot]
          nofun
      · cases hworker
        refine ⟨hout, hcreated, ?_, fun _ => ?_, hstopped, hjoined, hstop⟩
        · intro t' j hj hj'
          exact absurd (hshape.worker_of_step htop hpart hj hj') List.not_mem_nil
        · exact Or.imp_right (fun ⟨⟨hbuffer, hflushed⟩, hwritten⟩ => ⟨⟨hbuffer, hflushed⟩, hwritten⟩)
            hok
    · exact absurd hpart hother
  · have hsame := sameWorker_of_exec hpart hexec
    have hdequeued := dequeued_of_exec hcall hpart hexec
    refine ⟨h.output.congr hsame hdequeued ?_, hcreated, ?_, ?_, hstopped, hjoined, hstop⟩
    · change s.state = .failed → c.shared.state = .failed
      obtain heq | ⟨-, heq⟩ | ⟨-, heq⟩ | ⟨rfl, -⟩ := hstate
      · rw [heq]
        exact id
      · rw [heq]
        nofun
      · rw [heq]
        nofun
      · exact absurd rfl hpart
    · intro t' j hj hj'
      obtain ⟨-, hmem⟩ | hold := Library.Config.active_of_replace htop hj
      · exact absurd hj' (worker_of_pushed hpart hexec j hmem)
      · obtain ⟨hfinished, hok⟩ := h.worker t' j hold hj'
        exact ⟨hsame.workerFinished.trans hfinished, hok.congr hsame hdequeued⟩
    · rw [Library.Config.shared_replace, hsame.workerFinished, hsame.hasError]
      exact fun hfinished => (h.finished hfinished).imp_right fun hcomplete =>
        hcomplete.congr hsame hdequeued

end UnixNotes.Logger.AsyncLogger
