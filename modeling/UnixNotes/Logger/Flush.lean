import UnixNotes.Logger.Drain

namespace UnixNotes.Logger.AsyncLogger

open Library

/-- The first `called` records that were accepted are in the stream, and it was flushed after them. -/
def Shared.Flushed (s : Shared) (called : Nat) : Prop :=
  ∀ entry ∈ s.accepted.take called, entry.1 < s.flushed

namespace Instr

def called? : Instr → Option Nat
  | .flushCreated called => some called
  | .flushStopped called => some called
  | .flushFailed called => some called
  | .loadAccepted called => some called
  | .loadFlushTarget called _ => some called
  | .updateMax called _ _ => some called
  | .requestFlush called _ => some called
  | .flushState called _ => some called
  | .flushReached called _ _ => some called
  | .flushReturned called => some called
  | _ => none

def target? : Instr → Option UInt64
  | .loadFlushTarget _ target => some target
  | .updateMax _ target _ => some target
  | .requestFlush _ target => some target
  | .flushState _ target => some target
  | .flushReached _ target _ => some target
  | _ => none

def settles : Instr → Bool
  | .flushReached _ _ _ | .flushReturned _ => true
  | _ => false

structure FlushOk (s : Shared) (i : Instr) : Prop where
  called : ∀ called ∈ i.called?, called ≤ s.accepted.length
  target : ∀ called ∈ i.called?, ∀ target ∈ i.target?,
    ∀ entry ∈ s.accepted.take called, entry.1 < target.toNat
  stopped : ∀ called target, i = .flushReached called target .stopped → s.workerFinished = true
  failed : ∀ called target, i = .flushReached called target .failed → s.hasError = true
  returned : ∀ called, i = .flushReturned called → s.hasError = true ∨ s.Flushed called

end Instr

section Exec

variable {t : Nat} {i : Instr} {x : Choice} {s s' : Shared} {pushed : List Instr}

theorem Instr.FlushOk.of_none (h : i.called? = none) : i.FlushOk s := by
  refine ⟨by simp [h], by simp [h], ?_, ?_, ?_⟩
  · rintro called target rfl
    cases h
  · rintro called target rfl
    cases h
  · rintro called rfl
    cases h

theorem Instr.FlushOk.mono (h : i.FlushOk s) (haccepted : s.accepted <+: s'.accepted)
    (hflushed : s.flushed ≤ s'.flushed) (hfinished : s.workerFinished = true → s'.workerFinished = true)
    (herror : s.hasError = true → s'.hasError = true) : i.FlushOk s' := by
  have htake : ∀ called ∈ i.called?, s'.accepted.take called = s.accepted.take called := by
    intro called hcalled
    obtain ⟨more, hmore⟩ := haccepted
    rw [← hmore, List.take_append_of_le_length (h.called called hcalled)]
  refine ⟨?_, ?_, ?_, ?_, ?_⟩
  · exact fun called hcalled => Nat.le_trans (h.called called hcalled) haccepted.length_le
  · intro called hcalled
    rw [htake called hcalled]
    exact h.target called hcalled
  · exact fun called target hi => hfinished (h.stopped called target hi)
  · exact fun called target hi => herror (h.failed called target hi)
  · rintro called rfl
    refine Or.imp herror (fun hold entry hentry => ?_) (h.returned called rfl)
    rw [htake called rfl] at hentry
    exact Nat.lt_of_lt_of_le (hold entry hentry) hflushed

theorem flushed_of_exec (hout : s.flushed ≤ s.written.length) (h : i.exec t x s = some (s', pushed)) :
    s.flushed ≤ s'.flushed := by
  obtain ⟨hpart, -⟩ | ⟨-, h⟩ | ⟨-, hworker⟩ := exec_cases h
  · rw [(sameWorker_of_exec (by rw [hpart]; nofun) h).flushed]
  · cases i with
    | appendRecord record =>
      cases x with
      | append outcome =>
        cases h
        cases outcome with
        | rotated =>
          change s.flushed ≤ (s.written ++ s.buffer).length
          rw [List.length_append]
          exact Nat.le_add_right_of_le hout
        | _ => exact Nat.le_refl _
      | _ => cases h
    | flushOutput round =>
      simp only [Instr.execWorker] at h
      split at h <;> cases h
      · exact Nat.le_refl _
      · exact hout
    | _ =>
      simp only [Instr.execWorker] at h
      (repeat' split at h) <;> cases h <;> exact Nat.le_refl _
  · rw [(sameWorker_of_exec hworker h).flushed]

theorem forall_flush (hsync : (pushed.dropLast.all fun j => j.called?.isNone) = true)
    (hlast : ∀ j ∈ pushed.getLast?, j.FlushOk s) : ∀ j ∈ pushed, j.FlushOk s := by
  intro j hj
  obtain ⟨front, last, rfl⟩ : ∃ front last, pushed = front ++ [last] :=
    ⟨_, _, (List.dropLast_append_getLast (List.ne_nil_of_mem hj)).symm⟩
  rw [List.dropLast_concat] at hsync
  rw [List.getLast?_concat] at hlast
  rw [List.mem_append, List.mem_singleton] at hj
  cases hj with
  | inl hj => exact .of_none (Option.isNone_iff_eq_none.mp (List.all_eq_true.mp hsync j hj))
  | inr hj =>
    rw [hj]
    exact hlast last rfl

theorem Instr.FlushOk.next {j : Instr} (h : i.FlushOk s) (hsame : s'.accepted = s.accepted)
    (hcalled : j.called? = i.called?)
    (htarget : ∀ called ∈ i.called?, ∀ target ∈ j.target?,
      ∀ entry ∈ s.accepted.take called, entry.1 < target.toNat)
    (hstopped : ∀ called target, j = .flushReached called target .stopped →
      s'.workerFinished = true)
    (hfailed : ∀ called target, j = .flushReached called target .failed → s'.hasError = true)
    (hreturned : ∀ called, j = .flushReturned called → s'.hasError = true ∨ s'.Flushed called) :
    j.FlushOk s' := by
  refine ⟨?_, ?_, hstopped, hfailed, hreturned⟩
  · rw [hcalled, hsame]
    exact h.called
  · rw [hcalled, hsame]
    exact htarget

theorem Instr.FlushOk.goesOn {j : Instr} (h : i.FlushOk s) (hsame : s'.accepted = s.accepted)
    (hcalled : j.called? = i.called?)
    (htarget : ∀ called ∈ i.called?, ∀ target ∈ j.target?,
      ∀ entry ∈ s.accepted.take called, entry.1 < target.toNat)
    (hj : j.settles = false) : j.FlushOk s' := by
  refine h.next hsame hcalled htarget ?_ ?_ ?_
  · rintro _ _ rfl
    cases hj
  · rintro _ _ rfl
    cases hj
  · rintro _ rfl
    cases hj

structure Ended (s : Shared) : Prop where
  created : s.state ≠ .created
  stopped : s.state = .stopped → s.workerFinished = true
  failed : s.state = .failed → s.hasError = true
  finished : s.workerFinished = true → s.hasError = true ∨ ∀ called, s.Flushed called
  lastFlushed : s.lastFlushedCount.toNat ≤ s.flushed

theorem flushOk_of_execFlush (hi : i.FlushOk s) (hended : Ended s)
    (hload : ∀ called, i = .loadAccepted called →
      ∀ entry ∈ s.accepted.take called, entry.1 < s.acceptedCount.toNat)
    (h : i.execFlush x s = some (s', pushed)) : ∀ j ∈ pushed, j.FlushOk s' := by
  have hstopped : s.state = .stopped → ∀ called, s.hasError = true ∨ s.Flushed called :=
    fun hstate called => (hended.finished (hended.stopped hstate)).imp_right (· called)
  cases i with
  | flush =>
    cases h
    refine forall_flush rfl ?_
    rintro _ ⟨⟩
    refine ⟨?_, by rintro _ _ _ ⟨⟩, by rintro _ _ ⟨⟩, by rintro _ _ ⟨⟩, by rintro _ ⟨⟩⟩
    rintro _ ⟨⟩
    exact Nat.le_refl _
  | flushCreated called =>
    simp only [Instr.execFlush] at h
    split at h <;> cases h <;> refine forall_flush rfl ?_ <;> rintro _ ⟨⟩
    · exact absurd ‹_› hended.created
    · exact hi.goesOn rfl rfl (by rintro _ _ _ ⟨⟩) rfl
  | flushStopped called =>
    simp only [Instr.execFlush] at h
    split at h <;> cases h <;> refine forall_flush rfl ?_ <;> rintro _ ⟨⟩
    · exact hi.next rfl rfl (by rintro _ _ _ ⟨⟩) (by rintro _ _ ⟨⟩) (by rintro _ _ ⟨⟩)
        fun called _ => hstopped ‹_› called
    · exact hi.goesOn rfl rfl (by rintro _ _ _ ⟨⟩) rfl
  | flushFailed called =>
    simp only [Instr.execFlush] at h
    split at h <;> cases h <;> refine forall_flush rfl ?_ <;> rintro _ ⟨⟩
    · exact hi.next rfl rfl (by rintro _ _ _ ⟨⟩) (by rintro _ _ ⟨⟩) (by rintro _ _ ⟨⟩)
        fun called _ => .inl (hended.failed ‹_›)
    · exact hi.goesOn rfl rfl (by rintro _ _ _ ⟨⟩) rfl
  | loadAccepted called =>
    cases h
    refine forall_flush rfl ?_
    rintro _ ⟨⟩
    refine hi.goesOn rfl rfl ?_ rfl
    rintro _ ⟨⟩ _ ⟨⟩
    exact hload called rfl
  | loadFlushTarget called target =>
    cases h
    refine forall_flush rfl ?_
    rintro _ ⟨⟩
    exact hi.goesOn rfl rfl hi.target rfl
  | updateMax called target current =>
    simp only [Instr.execFlush] at h
    (repeat' split at h) <;> cases h <;> refine forall_flush rfl ?_ <;> rintro _ ⟨⟩ <;>
      exact hi.goesOn rfl rfl hi.target rfl
  | requestFlush called target =>
    cases h
    refine forall_flush rfl ?_
    rintro _ ⟨⟩
    exact hi.goesOn rfl rfl hi.target rfl
  | flushState called target =>
    cases h
    refine forall_flush rfl ?_
    rintro _ ⟨⟩
    refine hi.next rfl rfl hi.target ?_ ?_ (by rintro _ ⟨⟩)
    · intro _ _ heq
      exact hended.stopped (Instr.flushReached.inj heq).2.2
    · intro _ _ heq
      exact hended.failed (Instr.flushReached.inj heq).2.2
  | flushReached called target state =>
    simp only [Instr.execFlush] at h
    split at h <;> cases h <;> refine forall_flush rfl ?_ <;> rintro _ ⟨⟩
    · rename_i hreached
      refine hi.next rfl rfl (by rintro _ _ _ ⟨⟩) (by rintro _ _ ⟨⟩) (by rintro _ _ ⟨⟩) ?_
      rintro _ ⟨⟩
      obtain hle | rfl | rfl := hreached
      · refine .inr fun entry hentry => ?_
        have htarget := hi.target called rfl target rfl entry hentry
        have hle : target.toNat ≤ s.lastFlushedCount.toNat := UInt64.le_iff_toNat_le.mp hle
        have := hended.lastFlushed
        omega
      · exact .inl (hi.failed _ _ rfl)
      · exact (hended.finished (hi.stopped _ _ rfl)).imp_right (· called)
    · exact hi.goesOn rfl rfl hi.target rfl
  | flushReturned called =>
    cases h
    exact fun j hj => absurd hj List.not_mem_nil
  | _ => cases h

theorem called_of_execLog (h : i.execLog t x s = some (s', pushed)) :
    (pushed.all fun j => j.called?.isNone) = true := by
  cases i
  all_goals
    simp only [Instr.execLog] at h
    (repeat' split at h) <;> cases h <;> rfl

theorem called_of_exec (hflush : i.part ≠ .flush) (h : i.exec t x s = some (s', pushed)) :
    ∀ j ∈ pushed, j.called? = none := by
  intro j hj
  by_cases hlog : i.part = .log
  · obtain ⟨-, h⟩ | ⟨hworker, -⟩ | ⟨hother, -⟩ := exec_cases h
    · exact Option.isNone_iff_eq_none.mp (List.all_eq_true.mp (called_of_execLog h) j hj)
    · rw [hlog] at hworker
      cases hworker
    · exact absurd hlog hother
  · have hpart : j.part ≠ .flush ∨ j = .flush := by
      obtain heq | hsync | ⟨hlog', -⟩ | ⟨-, ⟨_, rfl⟩ | rfl | rfl⟩ := origin_of_exec h j hj
      · exact .inl (heq ▸ hflush)
      · exact .inl (by rw [hsync]; nofun)
      · exact absurd hlog' hlog
      · exact .inl nofun
      · exact .inr rfl
      · exact .inl nofun
    cases hpart with
    | inl hpart => cases j <;> first | rfl | exact absurd rfl hpart
    | inr heq =>
      rw [heq]
      rfl

theorem flushOk_of_exec (hi : i.FlushOk s) (hended : Ended s)
    (hload : ∀ called, i = .loadAccepted called →
      ∀ entry ∈ s.accepted.take called, entry.1 < s.acceptedCount.toNat)
    (h : i.exec t x s = some (s', pushed)) : ∀ j ∈ pushed, j.FlushOk s' := by
  intro j hj
  by_cases hflush : i.part = .flush
  · refine flushOk_of_execFlush hi hended hload (x := x) ?_ j hj
    unfold Instr.exec at h
    split at h <;> rename_i hpart <;> rw [hflush] at hpart <;> first | exact h | cases hpart
  · exact .of_none (called_of_exec hflush h j hj)

end Exec

/-- The run condition of `stop`, and that a flush which loads the number of accepted records loads
a number above the positions of those that were accepted when it was called. -/
def Flushes (c : Config) (t : Nat) (i : Instr) : Prop :=
  Drains c t i ∧ ∀ called, i = .loadAccepted called →
    ∀ entry ∈ c.shared.accepted.take called, entry.1 < c.shared.accepted.length

structure Flushing (c : Config) : Prop extends Draining c where
  flush : ∀ t i, c.Active t i → i.FlushOk c.shared

theorem Flushing.ended {c : Config} (h : Flushing c) : Ended c.shared := by
  refine ⟨h.writing.created, h.writing.stopped, h.writing.output.failed, ?_,
    h.writing.output.lastFlushed⟩
  intro hfinished
  by_cases herror : c.shared.hasError = true
  · exact .inl herror
  · refine .inr fun called entry hentry => ?_
    have hcomplete := (h.writing.finished hfinished).resolve_left herror
    have hclosed := (h.drained.finished hfinished).resolve_left herror
    obtain ⟨t, hget⟩ := h.records.accepted entry (List.mem_of_mem_take hentry)
    rw [hcomplete.synced.flushed, ← hcomplete.written, hclosed.empty]
    exact (List.getElem?_eq_some_iff.mp hget).1

theorem flushing_init {config : LoggerConfig} {n : Nat}
    (hcapacity : 2 ≤ config.maxQueueSize.toNat) : Flushing (init config n) := by
  refine ⟨draining_init hcapacity, ?_⟩
  intro t i hactive
  obtain ⟨-, rfl⟩ | ⟨-, rfl⟩ := init_active hactive <;> exact .of_none rfl

theorem Flushing.step {c c' : Config} {t : Nat} {i : Instr} (h : Flushing c) (hok : Flushes c t i)
    (hstep : machine.Step c t i c') : Flushing c' := by
  refine ⟨h.toDraining.step hok.1 hstep, ?_⟩
  obtain @⟨rest, x, s, pushed, htop, hexec⟩ := hstep
  have hactive := Library.Config.active_of_top htop
  have hload : ∀ called, i = .loadAccepted called →
      ∀ entry ∈ c.shared.accepted.take called, entry.1 < c.shared.acceptedCount.toNat := by
    intro called hi entry hentry
    have hclaiming := h.records.claiming
    have hrange := hok.1.1
    rw [InRange] at hrange
    rw [h.records.acceptedCount, UInt64.toNat_ofNat_of_lt' (by change _ < 2 ^ 64; omega)]
    exact hok.2 called hi entry hentry
  have hpushed := flushOk_of_exec (h.flush t i hactive) h.ended hload hexec
  intro t' j hj
  obtain ⟨rfl, hmem⟩ | hold := Library.Config.active_of_replace htop hj
  · exact hpushed j hmem
  · exact (h.flush t' j hold).mono (accepted_prefix_of_exec hexec)
      (flushed_of_exec h.writing.output.flushed hexec) (finished_of_exec hexec)
      (hasError_of_exec hexec)

/-- The call of `flush` that thread `t` makes in `c₁` is about to return in `c₂`. -/
structure FlushReturns (c₁ c₂ : Config) (t : Nat) : Prop where
  called : (c₁.stack t).head? = some .flush
  returned : c₂.Active t (.flushReturned c₁.shared.accepted.length)

/-- The records whose calls of `log` have returned true, with the record of the call that itself
flushes in thread `t`. -/
def Owed (c : Config) (t : Nat) (record : LogRecord) : Prop :=
  record ∈ c.shared.returned ∨ c.Active t (.logReturned (some record) true)

/-- `record` has been written to the stream, and the stream flushed after it. -/
def OnDisk (s : Shared) (record : LogRecord) : Prop :=
  ∃ p < s.flushed, s.written[p]? = some (some record)

theorem flushed_of_flush {config : LoggerConfig} {n t : Nat} {c₁ c₂ : Config}
    (hcapacity : 2 ≤ config.maxQueueSize.toNat) (hcall : machine.Run Flushes (init config n) c₁)
    (hrun : machine.Run Flushes c₁ c₂) (hflush : FlushReturns c₁ c₂ t)
    (herror : c₂.shared.hasError = false) :
    ∀ record, Owed c₁ t record → OnDisk c₂.shared record := by
  have h₁ : Flushing c₁ := hcall.invariant (flushing_init hcapacity) fun h hok hstep =>
    h.step hok hstep
  obtain ⟨h₂, hgrows⟩ : Flushing c₂ ∧ c₁.shared.accepted <+: c₂.shared.accepted := by
    refine hrun.invariant (I := fun c => Flushing c ∧ c₁.shared.accepted <+: c.shared.accepted)
      ⟨h₁, List.prefix_refl _⟩ ?_
    intro c c' t i ⟨h, hgrows⟩ hok hstep
    refine ⟨h.step hok hstep, hgrows.trans ?_⟩
    obtain @⟨rest, x, s, pushed, htop, hexec⟩ := hstep
    exact accepted_prefix_of_exec hexec
  intro record howed
  obtain ⟨p, hp⟩ : ∃ p, (p, some record) ∈ c₁.shared.accepted := by
    obtain hreturned | hactive := howed
    · exact h₁.records.returned record hreturned
    · exact h₁.records.owned t _ hactive rfl record rfl
  have hflushed := ((h₂.flush t _ hflush.returned).returned _ rfl).resolve_left (by simp [herror])
  have hlt : p < c₂.shared.flushed := by
    refine hflushed (p, some record) ?_
    obtain ⟨more, hmore⟩ := hgrows
    rw [← hmore, List.take_left]
    exact hp
  refine ⟨p, hlt, ?_⟩
  have hp' : p < c₂.shared.written.length := Nat.lt_of_lt_of_le hlt h₂.writing.output.flushed
  have hwritten := h₂.writing.output.written
  obtain ⟨t', hget⟩ := h₂.records.accepted _ (hgrows.subset hp)
  rw [h₂.records.ring.dequeued] at hwritten
  have hclaimed := hwritten.trans (List.take_prefix _ _)
  have hentry : (c₂.shared.queue.claimed.map Prod.snd)[p]? = some (some record) := by
    rw [List.getElem?_map, hget]
    rfl
  obtain ⟨more, hmore⟩ := hclaimed
  rw [← hentry, ← hmore, List.getElem?_append_left hp']

instance (c : Config) (t : Nat) (i : Instr) : Decidable (Flushes c t i) :=
  decidable_of_iff (Drains c t i ∧ ∀ called ∈ i.called?, i = .loadAccepted called →
      ∀ entry ∈ c.shared.accepted.take called, entry.1 < c.shared.accepted.length) <|
    and_congr_right fun _ =>
      ⟨fun h called hi => h called (by rw [hi]; rfl) hi, fun h called _ => h called⟩

instance (s : Shared) (record : LogRecord) : Decidable (OnDisk s record) :=
  inferInstanceAs (Decidable (∃ p, p < s.flushed ∧ s.written[p]? = some (some record)))

def oneAccepted : Config :=
  machine.follow (init { maxQueueSize := 2 } 2)
    ((1, .log oneCall) :: turns 1 4 ++ (1, .record 0 0) :: turns 1 14 ++ [(2, Choice.flush)])

theorem flushed_of_flush_one_record : OnDisk
    (machine.follow oneAccepted (turns 2 9 ++ turns 0 11 ++ (0, .append .buffered) :: turns 0 13 ++
      turns 2 6)).shared (oneCall.record 0 0 1) :=
  flushed_of_flush (t := 2) (by decide)
    (Machine.run_follow (c := init { maxQueueSize := 2 } 2) (by decide))
    (Machine.run_follow (by decide)) ⟨by decide, by decide⟩
    (by decide) _ (.inl (by decide))

/-- The first record is in the ring and not counted yet, the worker has found the second position
empty, then the second record is published and counted, and `flush` is called. -/
def countedLate : Config :=
  machine.follow (init { maxQueueSize := 2 } 3)
    ((1, .log oneCall) :: turns 1 4 ++ (1, .record 0 0) :: turns 1 7 ++ turns 0 11 ++
      (0, .append .buffered) :: turns 0 3 ++
      (2, .log oneCall) :: turns 2 4 ++ (2, .record 1 0) :: turns 2 14 ++ [(3, Choice.flush)])

theorem record_missed_by_flush :
    ∃ c, machine.Reaches (init { maxQueueSize := 2 } 3) countedLate ∧
      machine.Reaches countedLate c ∧ FlushReturns countedLate c 3 ∧ c.shared.hasError = false ∧
      ∃ record, Owed countedLate 3 record ∧ ¬OnDisk c.shared record := by
  refine ⟨machine.follow countedLate (turns 3 8 ++ turns 0 9 ++ turns 3 7),
    Machine.reaches_follow _, Machine.reaches_follow _, ⟨by decide, by decide⟩,
    by decide, oneCall.record 1 0 2, .inl (by decide),
    by decide⟩

end UnixNotes.Logger.AsyncLogger
