import UnixNotes.Logger.Records

namespace UnixNotes.Logger.AsyncLogger

open Library

/-- The stream has what the buffer had, and was flushed after it. -/
structure Shared.Synced (s : Shared) : Prop where
  buffer : s.buffer = []
  flushed : s.flushed = s.written.length

structure Shared.Complete (s : Shared) : Prop where
  synced : s.Synced
  written : s.queue.dequeued = s.written

namespace Instr

/-- The record that the worker has taken and has not copied to the buffer. -/
def hand : Instr → List (Option LogRecord)
  | .tryDequeue _ call => call.takes
  | .uncountTaken record => [record]
  | .appendRecord record => [record]
  | _ => []

def round? : Instr → Option Round
  | .loadFlushRequested round => some round
  | .writeActiveBuffer round => some round
  | .flushOutput round => some round
  | .loadWritten round => some round
  | .storeLastFlushed round _ => some round
  | .checkFlushTarget round _ => some round
  | .clearFlushRequested round => some round
  | .endRound round => some round
  | _ => none

/-- What the worker has done of a flush before a step of it. -/
def Stage (s : Shared) : Instr → Prop
  | .flushOutput _ => s.buffer = []
  | .loadWritten _ => s.Synced
  | .storeLastFlushed _ written => s.Synced ∧ written.toNat ≤ s.flushed
  | .checkFlushTarget _ _ => s.Synced
  | .clearFlushRequested _ => s.Synced
  | .endRound round => round.drained = true → s.Synced
  | _ => True

structure Working (s : Shared) (i : Instr) : Prop where
  error : s.hasError = false
  dequeued : s.queue.dequeued = s.written ++ s.buffer ++ i.hand
  stage : i.Stage s
  current : ∀ round ∈ i.round?, round.current ≠ .failed

def WorkerOk (s : Shared) : Instr → Prop
  | .failWorker => True
  | .storeFailed => s.hasError = true
  | .finishWorker => s.hasError = true ∨ s.Complete
  | i => i.Working s

end Instr

structure Output (s : Shared) : Prop where
  written : s.written <+: s.queue.dequeued
  writtenCount : s.writtenCount = UInt64.ofNat s.written.length
  flushed : s.flushed ≤ s.written.length
  lastFlushed : s.lastFlushedCount.toNat ≤ s.flushed
  failed : s.state = .failed → s.hasError = true

section Exec

variable {t : Nat} {i : Instr} {x : Choice} {s s' : Shared} {pushed : List Instr}

theorem forall_worker {P : Instr → Prop}
    (hsync : (pushed.dropLast.all fun j => j.part != .worker) = true)
    (hlast : ∀ j ∈ pushed.getLast?, P j) : ∀ j ∈ pushed, j.part = .worker → P j := by
  intro j hj hpart
  obtain ⟨front, last, rfl⟩ : ∃ front last, pushed = front ++ [last] :=
    ⟨_, _, (List.dropLast_append_getLast (List.ne_nil_of_mem hj)).symm⟩
  rw [List.dropLast_concat] at hsync
  rw [List.getLast?_concat] at hlast
  rw [List.mem_append, List.mem_singleton] at hj
  cases hj with
  | inl hj => exact absurd hpart (bne_iff_ne.mp (List.all_eq_true.mp hsync j hj))
  | inr hj =>
    rw [hj]
    exact hlast last rfl

theorem toNat_ofNat_le (n : Nat) : (UInt64.ofNat n).toNat ≤ n := by
  rw [UInt64.toNat_ofNat']
  exact Nat.mod_le _ _

theorem Instr.Working.next {j : Instr} (h : i.Working s) (hhand : i.hand = j.hand)
    (hqueue : s'.queue.dequeued = s.queue.dequeued) (hwritten : s'.written = s.written)
    (hbuffer : s'.buffer = s.buffer) (herror : s'.hasError = s.hasError) (hstage : j.Stage s')
    (hcurrent : ∀ round ∈ j.round?, round.current ≠ .failed) : j.Working s' :=
  ⟨herror.trans h.error, by rw [hqueue, hwritten, hbuffer, ← hhand, h.dequeued], hstage, hcurrent⟩

theorem workerOk_of_tryDequeue {consumed : Bool} {call : RingCall LogRecord}
    (hi : (Instr.tryDequeue consumed call).Working s) (hcall : call.dequeues = true)
    (h : (Instr.tryDequeue consumed call).execWorker t x s = some (s', pushed)) :
    ∀ j ∈ pushed, j.part = .worker → j.WorkerOk s' := by
  have hworking : ∀ {ring : MpscRingBuffer LogRecord} {next : RingNext LogRecord} {j : Instr},
      call.exec t x.isSpurious s.queue = (ring, next) → j.hand = next.takes → j.Stage s →
      j.round? = none → j.Working { s with queue := ring } := by
    intro ring next j hexec hhand hstage hround
    obtain ⟨-, taken, hdequeued, htakes⟩ := RingCall.takes_of_exec hcall hexec
    refine ⟨hi.error, ?_, ?_, by simp [hround]⟩
    · change ring.dequeued = s.written ++ s.buffer ++ j.hand
      rw [hdequeued, hi.dequeued, hhand, htakes, ← List.append_assoc]
      rfl
    · cases j <;> trivial
  simp only [Instr.execWorker] at h
  split at h
  · rename_i hexec
    cases h
    refine forall_worker rfl ?_
    rintro _ ⟨⟩
    exact hworking hexec rfl trivial rfl
  · rename_i hexec
    cases h
    refine forall_worker rfl ?_
    rintro _ ⟨⟩
    exact hworking hexec rfl trivial rfl
  · rename_i hexec
    cases h
    refine forall_worker rfl ?_
    rintro _ ⟨⟩
    exact hworking hexec rfl trivial rfl
  · cases h

theorem workerOk_of_appendRecord {record : Option LogRecord} {outcome : Append}
    (hi : (Instr.appendRecord record).Working s) :
    (s.appendRecord record outcome).2.WorkerOk (s.appendRecord record outcome).1 := by
  have hdequeued := hi.dequeued
  change s.queue.dequeued = s.written ++ s.buffer ++ [record] at hdequeued
  cases outcome with
  | buffered =>
    refine ⟨hi.error, ?_, trivial, nofun⟩
    change s.queue.dequeued = s.written ++ (s.buffer ++ [record]) ++ []
    rw [hdequeued, List.append_nil, List.append_assoc]
  | wroteBatch => exact ⟨hi.error, hdequeued.trans (List.append_nil _).symm, trivial, nofun⟩
  | rotated => exact ⟨hi.error, hdequeued.trans (List.append_nil _).symm, trivial, nofun⟩
  | _ => trivial

theorem workerOk_of_round {round : Round} (hout : Output s) (hround : i.round? = some round)
    (hi : i.Working s) (h : i.execWorker t x s = some (s', pushed)) :
    ∀ j ∈ pushed, j.part = .worker → j.WorkerOk s' := by
  have hcurrent : round.current ≠ .failed := hi.current round hround
  have hround' : ∀ other ∈ some round, other.current ≠ .failed := by
    rintro _ ⟨⟩
    exact hcurrent
  cases i with
  | loadFlushRequested _ =>
    cases hround
    simp only [Instr.execWorker] at h
    split at h <;> cases h <;> refine forall_worker rfl ?_ <;> rintro _ ⟨⟩
    · exact hi.next rfl rfl rfl rfl rfl trivial hround'
    · rename_i hflush
      exact hi.next rfl rfl rfl rfl rfl (fun hdrained => absurd (.inr (.inr hdrained)) hflush)
        hround'
  | writeActiveBuffer _ =>
    cases hround
    simp only [Instr.execWorker] at h
    split at h <;> cases h <;> refine forall_worker rfl ?_ <;> rintro _ ⟨⟩
    · trivial
    · refine ⟨hi.error, ?_, rfl, hround'⟩
      change s.queue.dequeued = s.written ++ s.buffer ++ [] ++ []
      rw [List.append_nil]
      exact hi.dequeued
  | flushOutput _ =>
    cases hround
    simp only [Instr.execWorker] at h
    split at h <;> cases h <;> refine forall_worker rfl ?_ <;> rintro _ ⟨⟩
    · trivial
    · exact hi.next rfl rfl rfl rfl rfl ⟨hi.stage, rfl⟩ hround'
  | loadWritten _ =>
    cases hround
    have hsynced : s.Synced := hi.stage
    cases h
    refine forall_worker rfl ?_
    rintro _ ⟨⟩
    refine hi.next rfl rfl rfl rfl rfl ⟨hsynced, ?_⟩ hround'
    rw [hout.writtenCount, hsynced.flushed]
    exact toNat_ofNat_le _
  | storeLastFlushed _ written =>
    cases hround
    have hsynced : s.Synced := hi.stage.1
    cases h
    refine forall_worker rfl ?_
    rintro _ ⟨⟩
    exact hi.next rfl rfl rfl rfl rfl ⟨hsynced.buffer, hsynced.flushed⟩ hround'
  | checkFlushTarget _ written =>
    cases hround
    have hsynced : s.Synced := hi.stage
    simp only [Instr.execWorker] at h
    split at h <;> cases h <;> refine forall_worker rfl ?_ <;> rintro _ ⟨⟩
    · exact hi.next rfl rfl rfl rfl rfl hsynced hround'
    · exact hi.next rfl rfl rfl rfl rfl (fun _ => hsynced) hround'
  | clearFlushRequested _ =>
    cases hround
    have hsynced : s.Synced := hi.stage
    cases h
    refine forall_worker rfl ?_
    rintro _ ⟨⟩
    exact hi.next rfl rfl rfl rfl rfl (fun _ => ⟨hsynced.buffer, hsynced.flushed⟩) hround'
  | endRound _ =>
    cases hround
    simp only [Instr.execWorker] at h
    (repeat' split at h) <;> cases h <;> refine forall_worker rfl ?_ <;> rintro _ ⟨⟩
    · rename_i hend
      have hsynced : s.Synced := hi.stage (hend.resolve_right hcurrent)
      refine .inr ⟨hsynced, ?_⟩
      rw [hi.dequeued, hsynced.buffer]
      simp [Instr.hand]
    · exact hi.next rfl rfl rfl rfl rfl trivial (by rintro _ ⟨⟩)
    · exact hi.next rfl rfl rfl rfl rfl trivial (by rintro _ ⟨⟩)
  | _ => cases hround

theorem workerOk_of_wait (hwait : i = .reloadPending ∨ i = .wakePending ∨ i = .wakeRequested ∨
      i = .wakeState ∨ i = .parkTimed ∨ i = .parkedTimed) (hi : i.Working s)
    (h : i.execWorker t x s = some (s', pushed)) :
    ∀ j ∈ pushed, j.part = .worker → j.WorkerOk s' := by
  rcases hwait with rfl | rfl | rfl | rfl | rfl | rfl
  all_goals
    simp only [Instr.execWorker] at h
    (repeat' split at h) <;> cases h <;> refine forall_worker rfl ?_ <;> rintro _ ⟨⟩ <;>
      exact hi.next rfl rfl rfl rfl rfl trivial (by rintro _ ⟨⟩)

theorem workerOk_of_execWorker (hout : Output s) (hi : i.WorkerOk s) (hcall : i.CallOk)
    (h : i.execWorker t x s = some (s', pushed)) :
    ∀ j ∈ pushed, j.part = .worker → j.WorkerOk s' := by
  cases hround : i.round? with
  | some round =>
    refine workerOk_of_round hout hround ?_ h
    cases i <;> first | exact hi | cases hround
  | none =>
    cases i with
    | tryDequeue consumed call => exact workerOk_of_tryDequeue hi hcall h
    | appendRecord record =>
      cases x with
      | append outcome =>
        cases h
        refine forall_worker rfl ?_
        rintro _ ⟨⟩
        exact workerOk_of_appendRecord hi
      | _ => cases h
    | loadState consumed =>
      have hworking : Instr.Working s (.loadState consumed) := hi
      have hstate : s.state ≠ .failed := fun hfailed => by
        have := hout.failed hfailed
        rw [hworking.error] at this
        cases this
      simp only [Instr.execWorker] at h
      split at h <;> cases h <;> refine forall_worker rfl ?_ <;> rintro _ ⟨⟩
      · exact hworking.next rfl rfl rfl rfl rfl trivial (by rintro _ ⟨⟩)
      · exact hworking.next rfl rfl rfl rfl rfl trivial (by rintro _ ⟨⟩; exact hstate)
    | loadPending consumed =>
      have hworking : Instr.Working s (.loadPending consumed) := hi
      simp only [Instr.execWorker] at h
      split at h <;> cases h <;> refine forall_worker rfl ?_ <;> rintro _ ⟨⟩
      · exact hworking.next rfl rfl rfl rfl rfl trivial (by rintro _ ⟨⟩)
      · exact hworking.next rfl rfl rfl rfl rfl trivial (by rintro _ ⟨⟩; exact (by rintro ⟨⟩))
    | loadProducers consumed =>
      have hworking : Instr.Working s (.loadProducers consumed) := hi
      cases h
      refine forall_worker rfl ?_
      rintro _ ⟨⟩
      exact hworking.next rfl rfl rfl rfl rfl trivial (by rintro _ ⟨⟩; exact (by rintro ⟨⟩))
    | failWorker =>
      cases h
      refine forall_worker rfl ?_
      rintro _ ⟨⟩
      exact rfl
    | storeFailed =>
      cases h
      refine forall_worker rfl ?_
      rintro _ ⟨⟩
      exact .inl hi
    | finishWorker =>
      cases h
      exact fun j hj => absurd hj List.not_mem_nil
    | iterate consumed =>
      have hworking : Instr.Working s (.iterate consumed) := hi
      cases h
      refine forall_worker rfl ?_
      rintro _ ⟨⟩
      exact hworking.next rfl rfl rfl rfl rfl trivial (by rintro _ ⟨⟩)
    | uncountTaken record =>
      have hworking : Instr.Working s (.uncountTaken record) := hi
      cases h
      refine forall_worker rfl ?_
      rintro _ ⟨⟩
      exact hworking.next rfl rfl rfl rfl rfl trivial (by rintro _ ⟨⟩)
    | reloadPending => exact workerOk_of_wait (by simp) hi h
    | wakePending => exact workerOk_of_wait (by simp) hi h
    | wakeRequested => exact workerOk_of_wait (by simp) hi h
    | wakeState => exact workerOk_of_wait (by simp) hi h
    | parkTimed => exact workerOk_of_wait (by simp) hi h
    | parkedTimed => exact workerOk_of_wait (by simp) hi h
    | _ => first | (cases hround; done) | cases h

theorem Output.setBuffer (h : Output s) (buffer : List (Option LogRecord)) :
    Output { s with buffer := buffer } :=
  ⟨h.written, h.writtenCount, h.flushed, h.lastFlushed, h.failed⟩

theorem Output.writeActiveBuffer (h : Output s)
    (hgrows : s.written ++ s.buffer <+: s.queue.dequeued) : Output s.writeActiveBuffer := by
  refine ⟨hgrows, ?_, ?_, h.lastFlushed, h.failed⟩
  · change s.writtenCount + _ = UInt64.ofNat (s.written ++ s.buffer).length
    rw [h.writtenCount, List.length_append, UInt64.ofNat_add]
  · change s.flushed ≤ (s.written ++ s.buffer).length
    rw [List.length_append]
    exact Nat.le_add_right_of_le h.flushed

theorem Output.flushOutput (h : Output s) : Output s.flushOutput :=
  ⟨h.written, h.writtenCount, Nat.le_refl _, Nat.le_trans h.lastFlushed h.flushed, h.failed⟩

theorem Instr.Working.prefix_dequeued (h : i.Working s) :
    s.written ++ s.buffer <+: s.queue.dequeued := by
  rw [h.dequeued]
  exact List.prefix_append _ _

theorem output_of_appendRecord (hout : Output s) {record : Option LogRecord} {outcome : Append}
    (hi : (Instr.appendRecord record).Working s) : Output (s.appendRecord record outcome).1 := by
  have hwritten := hout.writeActiveBuffer hi.prefix_dequeued
  cases outcome with
  | buffered => exact hout.setBuffer _
  | wroteBatch => exact hwritten.setBuffer _
  | rotated => exact hwritten.flushOutput.setBuffer _
  | formatFailed => exact hout
  | writeFailed => exact hout.setBuffer _
  | rotationFailed => exact hwritten

theorem output_of_execWorker (hout : Output s) (hi : i.WorkerOk s) (hcall : i.CallOk)
    (h : i.execWorker t x s = some (s', pushed)) : Output s' := by
  have hkeep : ∀ {s' : Shared}, s'.queue.dequeued = s.queue.dequeued → s'.written = s.written →
      s'.writtenCount = s.writtenCount → s'.flushed = s.flushed →
      s'.lastFlushedCount = s.lastFlushedCount → s'.state = s.state → s'.hasError = s.hasError →
      Output s' := by
    intro s' hdequeued hwritten hcount hflushed hlast hstate herror
    refine ⟨?_, ?_, ?_, ?_, ?_⟩
    · rw [hdequeued, hwritten]
      exact hout.written
    · rw [hcount, hwritten]
      exact hout.writtenCount
    · rw [hflushed, hwritten]
      exact hout.flushed
    · rw [hlast, hflushed]
      exact hout.lastFlushed
    · rw [hstate, herror]
      exact hout.failed
  cases i with
  | tryDequeue consumed call =>
    have htake : ∀ {ring : MpscRingBuffer LogRecord} {next : RingNext LogRecord},
        call.exec t x.isSpurious s.queue = (ring, next) → Output { s with queue := ring } := by
      intro ring next hexec
      obtain ⟨-, taken, hdequeued, -⟩ := RingCall.takes_of_exec hcall hexec
      refine ⟨?_, hout.writtenCount, hout.flushed, hout.lastFlushed, hout.failed⟩
      exact hout.written.trans (hdequeued ▸ List.prefix_append _ _)
    simp only [Instr.execWorker] at h
    split at h
    · rename_i hexec
      cases h
      exact htake hexec
    · rename_i hexec
      cases h
      exact htake hexec
    · rename_i hexec
      cases h
      exact htake hexec
    · cases h
  | appendRecord record =>
    cases x with
    | append outcome =>
      cases h
      exact output_of_appendRecord hout hi
    | _ => cases h
  | writeActiveBuffer round =>
    simp only [Instr.execWorker] at h
    split at h <;> cases h
    · exact hout.setBuffer _
    · exact hout.writeActiveBuffer (Instr.Working.prefix_dequeued hi)
  | flushOutput round =>
    simp only [Instr.execWorker] at h
    split at h <;> cases h
    · exact hout
    · exact hout.flushOutput
  | storeLastFlushed round written =>
    have hworking : Instr.Working s (.storeLastFlushed round written) := hi
    cases h
    exact ⟨hout.written, hout.writtenCount, hout.flushed, hworking.stage.2, hout.failed⟩
  | failWorker =>
    cases h
    exact ⟨hout.written, hout.writtenCount, hout.flushed, hout.lastFlushed, fun _ => rfl⟩
  | storeFailed =>
    cases h
    exact ⟨hout.written, hout.writtenCount, hout.flushed, hout.lastFlushed, fun _ => hi⟩
  | _ =>
    simp only [Instr.execWorker] at h
    (repeat' split at h) <;> cases h <;> exact hkeep rfl rfl rfl rfl rfl rfl rfl

theorem workerFinished_of_exec (h : i.exec t x s = some (s', pushed)) :
    s'.workerFinished = s.workerFinished ∨ i = .finishWorker ∧ s'.workerFinished = true := by
  by_cases hpart : i.part = .worker
  · obtain ⟨hlog, -⟩ | ⟨-, h⟩ | ⟨-, hworker⟩ := exec_cases h
    · rw [hpart] at hlog
      cases hlog
    · cases i with
      | appendRecord record =>
        cases x with
        | append outcome =>
          cases h
          cases outcome <;> exact .inl rfl
        | _ => cases h
      | finishWorker =>
        cases h
        exact .inr ⟨rfl, rfl⟩
      | _ =>
        simp only [Instr.execWorker] at h
        (repeat' split at h) <;> cases h <;> exact .inl rfl
    · exact absurd hpart hworker
  · exact .inl (sameWorker_of_exec hpart h).workerFinished

theorem finished_of_exec (h : i.exec t x s = some (s', pushed)) (hfinished : s.workerFinished = true) :
    s'.workerFinished = true := by
  obtain heq | ⟨-, heq⟩ := workerFinished_of_exec h
  · exact heq.trans hfinished
  · exact heq

end Exec

end UnixNotes.Logger.AsyncLogger
