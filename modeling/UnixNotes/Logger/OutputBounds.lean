import UnixNotes.Logger.RotationLaws

namespace UnixNotes.Logger

variable {calendar : Int → Except String ByteString}

/-- `validate_config`; `maxQueueSize` and `flushInterval` are not part of what the file is written
with. -/
def validateConfig (filePath : ByteString) (maxQueueSize : Nat) (flushInterval : Int)
    (config : OutputConfig) : Except String Unit :=
  if filePath = [] then .error "logger file_path must not be empty"
  else if maxQueueSize = 0 then .error "logger max_queue_size must be greater than 0"
  else if flushInterval ≤ 0 then .error "logger flush_interval must be positive"
  else if config.batchBufferSize < kFormattedLogRecordSize then
    .error "logger batch_buffer_size is too small"
  else .ok ()

theorem batch_of_validateConfig {filePath : ByteString} {maxQueueSize : Nat} {flushInterval : Int}
    {config : OutputConfig}
    (h : validateConfig filePath maxQueueSize flushInterval config = .ok ()) :
    kFormattedLogRecordSize ≤ config.batchBufferSize := by
  by_contra hsmall
  simp [validateConfig, Nat.not_le.mp hsmall] at h
  grind

namespace LogOutput

variable {s s' : LogOutput} {line : ByteString} {record : LogRecord}

def writeIfFull (s : LogOutput) (size : Nat) : LogOutput :=
  if s.activeBufferSize + size > s.activeBuffer.length then s.writeActiveBuffer else s

def copy (s : LogOutput) (line : ByteString) : LogOutput :=
  { s with
    activeBuffer := memcpy s.activeBuffer s.activeBufferSize line
    activeBufferSize := s.activeBufferSize + line.length
    activeRecordCount := s.activeRecordCount + 1 }

theorem appendRecord_eq {formatted rotated : LogOutput}
    (hformat : s.formatRecord calendar record kFormattedLogRecordSize = .ok (formatted, line))
    (hrotate : formatted.rotateIfNeeded line.length = .ok rotated) :
    s.appendRecord calendar record = .ok ((rotated.writeIfFull line.length).copy line) := by
  rw [appendRecord, hformat]
  change (formatted.rotateIfNeeded line.length >>= _) = _
  rw [hrotate]
  rfl

theorem appendRecord_eq_ok (h : s.appendRecord calendar record = .ok s') :
    ∃ formatted line rotated,
      s.formatRecord calendar record kFormattedLogRecordSize = .ok (formatted, line) ∧
        formatted.rotateIfNeeded line.length = .ok rotated ∧
        s' = (rotated.writeIfFull line.length).copy line := by
  cases hformat : s.formatRecord calendar record kFormattedLogRecordSize with
  | error =>
    rw [appendRecord, hformat] at h
    cases h
  | ok result =>
    obtain ⟨formatted, line⟩ := result
    cases hrotate : formatted.rotateIfNeeded line.length with
    | error =>
      rw [appendRecord, hformat] at h
      change (formatted.rotateIfNeeded line.length >>= _) = _ at h
      rw [hrotate] at h
      cases h
    | ok rotated =>
      rw [appendRecord_eq hformat hrotate] at h
      cases h
      exact ⟨formatted, line, rotated, rfl, hrotate, rfl⟩

theorem formatRecord_eq_ok {formatted : LogOutput} {capacity : Nat} (hcapacity : 2 ≤ capacity)
    (h : s.formatRecord calendar record capacity = .ok (formatted, line)) :
    (∃ cachedTime, formatted = { s with cachedTime := cachedTime }) ∧ line.length < capacity := by
  have hdone (time : Except String ByteString)
      (htime : (time >>= fun time => pure ({ s with cachedTime := some (record.second, time) },
        fitLine capacity (record.text time))) = .ok (formatted, line)) :
      (∃ cachedTime, formatted = { s with cachedTime := cachedTime }) ∧ line.length < capacity := by
    cases time with
    | error => cases htime
    | ok time =>
      cases htime
      exact ⟨⟨_, rfl⟩, length_fitLine hcapacity _⟩
  rw [formatRecord] at h
  split at h
  · split at h
    · exact hdone _ h
    · exact hdone (.ok _) h
  · exact hdone _ h

/-- The file that is being written, with what is still in the batch. -/
def inProgress (s : LogOutput) : ByteString :=
  (s.disk.files .current).getD [] ++ s.activeBuffer.take s.activeBufferSize

structure Sized (s : LogOutput) : Prop where
  room : s.activeBufferSize ≤ s.activeBuffer.length
  activeBuffer : s.activeBuffer.length = s.config.batchBufferSize
  writeBuffer : s.writeBuffer.length = s.config.batchBufferSize
  size : ∃ content, s.disk.files .current = some content ∧ content.length = s.currentFileSize

theorem Sized.length_inProgress (h : s.Sized) :
    s.inProgress.length = s.currentFileSize + s.activeBufferSize := by
  obtain ⟨content, hcontent, hlength⟩ := h.size
  rw [inProgress, hcontent, Option.getD_some, List.length_append, hlength, List.length_take,
    Nat.min_eq_left h.room]

theorem sized_start (config : OutputConfig) (files : LogFile → Option ByteString) :
    (start config files).Sized :=
  ⟨Nat.zero_le _, List.length_replicate, List.length_replicate, (files .current).getD [],
    Function.update_self LogFile.current _ files, rfl⟩

theorem Sized.write (h : s.Sized) : s.writeActiveBuffer.Sized ∧
    s.writeActiveBuffer.inProgress = s.inProgress ∧
    ∀ i, s.writeActiveBuffer.disk.files (.backup i) = s.disk.files (.backup i) := by
  obtain ⟨content, hcontent, hlength⟩ := h.size
  rw [writeActiveBuffer]
  split
  · exact ⟨h, rfl, fun _ => rfl⟩
  · refine ⟨⟨Nat.zero_le _, h.writeBuffer, h.activeBuffer,
      content ++ s.activeBuffer.take s.activeBufferSize, ?_, ?_⟩, ?_,
      fun i => Disk.append_files_ne _ (LogFile.backup_ne i)⟩
    · simp [Disk.append, hcontent]
    · rw [List.length_append, hlength, List.length_take, Nat.min_eq_left h.room]
    · simp [inProgress, Disk.append]

theorem Sized.writeIfFull (h : s.Sized) (size : Nat) : (s.writeIfFull size).Sized ∧
    (s.writeIfFull size).config = s.config ∧ (s.writeIfFull size).inProgress = s.inProgress ∧
    ∀ i, (s.writeIfFull size).disk.files (.backup i) = s.disk.files (.backup i) := by
  rw [LogOutput.writeIfFull]
  split
  · exact ⟨h.write.1, config_writeActiveBuffer, h.write.2⟩
  · exact ⟨h, rfl, rfl, fun _ => rfl⟩

theorem Sized.room_writeIfFull (h : s.Sized)
    (hbatch : kFormattedLogRecordSize ≤ s.config.batchBufferSize) {size : Nat}
    (hsize : size < kFormattedLogRecordSize) :
    (s.writeIfFull size).activeBufferSize + size ≤ (s.writeIfFull size).activeBuffer.length := by
  have hwritten := h.write.1.activeBuffer
  rw [config_writeActiveBuffer] at hwritten
  rw [LogOutput.writeIfFull]
  split
  · rw [activeBufferSize_writeActiveBuffer]
    omega
  · omega

theorem Sized.copy (h : s.Sized) (hroom : s.activeBufferSize + line.length ≤ s.activeBuffer.length) :
    (s.copy line).Sized ∧ (s.copy line).inProgress = s.inProgress ++ line := by
  have hlength := length_memcpy hroom
  refine ⟨⟨?_, ?_, h.writeBuffer, h.size⟩, ?_⟩
  · change s.activeBufferSize + line.length ≤ (memcpy _ _ _).length
    rw [hlength]
    exact hroom
  · exact hlength.trans h.activeBuffer
  · simp only [inProgress, LogOutput.copy, take_memcpy hroom, List.append_assoc]

theorem Sized.fits_iff (h : s.Sized) (size : Nat) : s.fits size = true ↔
    s.config.maxFileSize = 0 ∨ s.inProgress = [] ∨
      s.inProgress.length + size ≤ s.config.maxFileSize := by
  rw [← List.length_eq_zero_iff, h.length_inProgress]
  simp only [fits, Bool.or_eq_true, Bool.and_eq_true, decide_eq_true_eq]
  omega

/-- The file in progress has become the newest backup. -/
structure Rotated (s s' : LogOutput) : Prop where
  inProgress : s'.inProgress = []
  backups : ∀ i, 0 < i → i ≤ s.config.maxBackupFiles → s'.disk.files (.backup i) =
    if i = 1 then some s.inProgress else s.disk.files (.backup (i - 1))

theorem Sized.rotate (h : s.Sized) (size : Nat) : ∃ s', s.rotateIfNeeded size = .ok s' ∧ s'.Sized ∧
    s'.config = s.config ∧
      (s.fits size = true ∧ s' = s ∨ s.fits size = false ∧ s.Rotated s') := by
  obtain ⟨hsized, hinProgress, hbackups⟩ := h.write
  have hconfig : s.writeActiveBuffer.config = s.config := config_writeActiveBuffer
  have hempty : s.writeActiveBuffer.activeBufferSize = 0 := activeBufferSize_writeActiveBuffer
  obtain ⟨content, hcontent, hlength⟩ := hsized.size
  have hwhole : s.inProgress = content := by
    rw [← hinProgress, LogOutput.inProgress, hcontent, hempty]
    simp
  rw [rotateIfNeeded]
  split
  · exact ⟨s, rfl, h, rfl, .inl ⟨‹_›, rfl⟩⟩
  · rename_i hfits
    have hrotated (disk : Disk) (hcurrent : disk.files .current = some [])
        (hfiles : ∀ i, 0 < i → i ≤ s.config.maxBackupFiles → disk.files (.backup i) =
          if i = 1 then some content else s.writeActiveBuffer.disk.files (.backup (i - 1))) :
        LogOutput.Sized { s.writeActiveBuffer with disk := disk, currentFileSize := 0 } ∧
          s.Rotated { s.writeActiveBuffer with disk := disk, currentFileSize := 0 } := by
      refine ⟨⟨hsized.room, hsized.activeBuffer, hsized.writeBuffer, [], hcurrent, rfl⟩, ?_, ?_⟩
      · simp [LogOutput.inProgress, hcurrent]
      · intro i hi hle
        rw [hwhole, hfiles i hi hle, hbackups]
    by_cases hnone : s.config.maxBackupFiles = 0
    · have hfiles := hrotated (s.writeActiveBuffer.disk.create .current)
        (Disk.replace_files_self ..) fun i hi hle => by omega
      refine ⟨_, ?_, hfiles.1, hconfig, .inr ⟨Bool.eq_false_iff.mpr hfits, hfiles.2⟩⟩
      simp only [hconfig, hnone, if_true]
    · obtain ⟨n, hn⟩ := Nat.exists_eq_succ_of_ne_zero hnone
      obtain ⟨shifted, moved, hshift, hrename, hcurrent, hnext, -⟩ := rotated_files hcontent n
      have hfiles := hrotated _ hcurrent fun i hi hle =>
        hnext i hi (Nat.le_trans hle (Nat.le_of_eq hn))
      refine ⟨_, ?_, hfiles.1, hconfig, .inr ⟨Bool.eq_false_iff.mpr hfits, hfiles.2⟩⟩
      simp only [hconfig, hn, Nat.succ_ne_zero, if_false, hshift, bind, Except.bind]
      rw [hrename]

/-- What one record makes of the files and of the batch: it is added to the file in progress, or
that file is rotated once and the record begins the next one. -/
inductive Appended (s s' : LogOutput) (line : ByteString) : Prop
  | added (hfits : s.config.maxFileSize = 0 ∨ s.inProgress = [] ∨
        s.inProgress.length + line.length ≤ s.config.maxFileSize)
      (hinProgress : s'.inProgress = s.inProgress ++ line)
      (hbackups : ∀ i, s'.disk.files (.backup i) = s.disk.files (.backup i))
  | rotated (hfull : s.config.maxFileSize < s.inProgress.length + line.length)
      (hnonempty : s.inProgress ≠ []) (hinProgress : s'.inProgress = line)
      (hbackups : ∀ i, 0 < i → i ≤ s.config.maxBackupFiles → s'.disk.files (.backup i) =
        if i = 1 then some s.inProgress else s.disk.files (.backup (i - 1)))

theorem Sized.append {formatted : LogOutput} (h : s.Sized)
    (hbatch : kFormattedLogRecordSize ≤ s.config.batchBufferSize)
    (hformat : s.formatRecord calendar record kFormattedLogRecordSize = .ok (formatted, line)) :
    ∃ s', s.appendRecord calendar record = .ok s' ∧ s'.Sized ∧ s'.config = s.config ∧
      s.Appended s' line := by
  obtain ⟨⟨time, rfl⟩, hline⟩ := formatRecord_eq_ok (by decide) hformat
  have hformatted : LogOutput.Sized { s with cachedTime := time } := ⟨h.room, h.activeBuffer,
    h.writeBuffer, h.size⟩
  obtain ⟨rotated, hrotate, hsized, hconfig, hcases⟩ := hformatted.rotate line.length
  obtain ⟨hfull, hfullConfig, hfullProgress, hfullBackups⟩ := hsized.writeIfFull line.length
  have hroom := hsized.room_writeIfFull (hconfig ▸ hbatch) hline
  obtain ⟨hcopied, hcopy⟩ := hfull.copy hroom
  refine ⟨_, appendRecord_eq hformat hrotate, hcopied, hfullConfig.trans hconfig, ?_⟩
  rw [hfullProgress] at hcopy
  cases hcases with
  | inl hstay =>
    obtain ⟨hfits, rfl⟩ := hstay
    exact .added ((hformatted.fits_iff line.length).mp hfits) hcopy hfullBackups
  | inr hmoved =>
    obtain ⟨hfits, hrotated⟩ := hmoved
    have hnot := mt (hformatted.fits_iff line.length).mpr (Bool.eq_false_iff.mp hfits)
    obtain ⟨-, hnot⟩ := not_or.mp hnot
    obtain ⟨hnonempty, hlong⟩ := not_or.mp hnot
    refine .rotated (Nat.not_le.mp hlong) hnonempty ?_ fun i hi hle =>
      (hfullBackups i).trans (hrotated.backups i hi hle)
    rw [hcopy, hrotated.inProgress, List.nil_append]

theorem Sized.exec {step : OutputStep} (h : s.Sized)
    (hbatch : kFormattedLogRecordSize ≤ s.config.batchBufferSize)
    (hexec : step.exec calendar s = .ok s') : s'.Sized ∧ s'.config = s.config := by
  cases step with
  | append record =>
    obtain ⟨formatted, line, rotated, hformat, -, -⟩ := appendRecord_eq_ok hexec
    obtain ⟨s₁, happend, hsized, hconfig, -⟩ := h.append hbatch hformat
    rw [OutputStep.exec, happend] at hexec
    cases hexec
    exact ⟨hsized, hconfig⟩
  | flush =>
    cases hexec
    exact ⟨h.write.1, config_writeActiveBuffer⟩

theorem Sized.run {steps : List OutputStep} (h : s.Sized)
    (hbatch : kFormattedLogRecordSize ≤ s.config.batchBufferSize)
    (hrun : s.run calendar steps = .ok s') : s'.Sized ∧ s'.config = s.config := by
  induction steps generalizing s with
  | nil =>
    cases hrun
    exact ⟨h, rfl⟩
  | cons step steps ih =>
    rw [LogOutput.run, List.foldlM_cons] at hrun
    cases hexec : step.exec calendar s with
    | error =>
      rw [hexec] at hrun
      cases hrun
    | ok s₁ =>
      rw [hexec] at hrun
      obtain ⟨hsized, hconfig⟩ := h.exec hbatch hexec
      obtain ⟨hsized', hconfig'⟩ := ih hsized (hconfig ▸ hbatch) hrun
      exact ⟨hsized', hconfig'.trans hconfig⟩

variable (calendar) in
theorem Sized.flushes (h : s.Sized) (n : Nat) :
    ∃ s', s.run calendar (List.replicate n .flush) = .ok s' ∧ s'.Sized ∧ s'.config = s.config ∧
      s'.inProgress = s.inProgress := by
  induction n generalizing s with
  | zero => exact ⟨s, rfl, h, rfl, rfl⟩
  | succ n ih =>
    obtain ⟨hsized, hinProgress, -⟩ := h.write
    obtain ⟨s', hrun, hsized', hconfig, hinProgress'⟩ := ih hsized
    exact ⟨s', hrun, hsized', hconfig.trans config_writeActiveBuffer,
      hinProgress'.trans hinProgress⟩

/-- A line that is longer than a file may be begins a file, and the next line begins another. -/
structure Alone (calendar : Int → Except String ByteString) (s : LogOutput) (line : ByteString) :
    Prop where
  inProgress : s.inProgress = line
  next : ∀ n flushed record formatted other,
    s.run calendar (List.replicate n .flush) = .ok flushed →
    flushed.formatRecord calendar record kFormattedLogRecordSize = .ok (formatted, other) →
    ∃ s', flushed.appendRecord calendar record = .ok s' ∧ s'.inProgress = other ∧
      (0 < s.config.maxBackupFiles → s'.disk.files (.backup 1) = some line)

theorem Appended.length_le (hsize : 0 < s.config.maxFileSize) (h : s.Appended s' line) :
    s'.inProgress.length ≤ max s.config.maxFileSize line.length := by
  cases h with
  | added hfits hinProgress =>
    rw [hinProgress, List.length_append]
    obtain hzero | hnil | hfits := hfits
    · omega
    · rw [hnil, List.length_nil]
      omega
    · exact Nat.le_trans hfits (Nat.le_max_left ..)
  | rotated _ _ hinProgress =>
    rw [hinProgress]
    exact Nat.le_max_right ..

theorem Sized.alone (h : s'.Sized) (hconfig : s'.config = s.config)
    (hbatch : kFormattedLogRecordSize ≤ s.config.batchBufferSize)
    (hsize : 0 < s.config.maxFileSize) (hlong : s.config.maxFileSize < line.length)
    (happended : s.Appended s' line) : s'.Alone calendar line := by
  have hwhole : s'.inProgress = line := by
    cases happended with
    | added hfits hinProgress =>
      obtain hzero | hnil | hfits := hfits
      · omega
      · rw [hinProgress, hnil, List.nil_append]
      · omega
    | rotated _ _ hinProgress => exact hinProgress
  refine ⟨hwhole, fun n flushed record formatted other hrun hformat => ?_⟩
  obtain ⟨flushed', hrun', hsized, hconfig', hinProgress⟩ := h.flushes calendar n
  rw [hrun'] at hrun
  cases hrun
  rw [hwhole] at hinProgress
  have hflushed : flushed.config = s.config := hconfig'.trans hconfig
  obtain ⟨s'', happend, -, -, hnext⟩ := hsized.append (hflushed ▸ hbatch) hformat
  refine ⟨s'', happend, ?_⟩
  cases hnext with
  | added hfits =>
    rw [hinProgress, hflushed, ← List.length_eq_zero_iff] at hfits
    omega
  | rotated _ _ hother hbackups =>
    refine ⟨hother, fun hpos => ?_⟩
    rw [hbackups 1 Nat.one_pos (hconfig' ▸ hpos), if_pos rfl, hinProgress]

end LogOutput

open LogOutput

/-- The batch stays in its buffer, also between the parts of what a record does: after the line is
made, after the batch is written for a rotation, after the rotation and after the batch is written
for room; and the line is copied to where the buffer has room. -/
structure StaysInBuffer (calendar : Int → Except String ByteString) (s : LogOutput) : Prop where
  room : s.activeBufferSize ≤ s.activeBuffer.length
  append : ∀ record formatted line,
    s.formatRecord calendar record kFormattedLogRecordSize = .ok (formatted, line) →
    formatted.activeBufferSize ≤ formatted.activeBuffer.length ∧
    formatted.writeActiveBuffer.activeBufferSize ≤ formatted.writeActiveBuffer.activeBuffer.length ∧
    ∃ rotated full, formatted.rotateIfNeeded line.length = .ok rotated ∧
      rotated.activeBufferSize ≤ rotated.activeBuffer.length ∧
      full = rotated.writeIfFull line.length ∧
      full.activeBufferSize + line.length ≤ full.activeBuffer.length ∧
      s.appendRecord calendar record = .ok (full.copy line)

theorem batch_stays_in_buffer {filePath : ByteString} {maxQueueSize : Nat} {flushInterval : Int}
    {config : OutputConfig} {files : LogFile → Option ByteString} {steps : List OutputStep}
    {s : LogOutput} (hvalid : validateConfig filePath maxQueueSize flushInterval config = .ok ())
    (hrun : (LogOutput.start config files).run calendar steps = .ok s) :
    StaysInBuffer calendar s := by
  have hbatch := batch_of_validateConfig hvalid
  obtain ⟨h, hconfig⟩ := (sized_start config files).run hbatch hrun
  change s.config = config at hconfig
  refine ⟨h.room, fun record formatted line hformat => ?_⟩
  obtain ⟨⟨time, rfl⟩, hline⟩ := formatRecord_eq_ok (by decide) hformat
  have hformatted : LogOutput.Sized { s with cachedTime := time } := ⟨h.room, h.activeBuffer,
    h.writeBuffer, h.size⟩
  obtain ⟨rotated, hrotate, hsized, hconfig', -⟩ := hformatted.rotate line.length
  have hroom := hsized.room_writeIfFull (hconfig' ▸ hconfig ▸ hbatch) hline
  exact ⟨hformatted.room, hformatted.write.1.room, rotated, _, hrotate, hsized.room, rfl, hroom,
    appendRecord_eq hformat hrotate⟩

set_option maxRecDepth 10000 in
theorem batch_stays_in_buffer_rotated : ∃ s,
    (LogOutput.start ⟨90, 2, kFormattedLogRecordSize⟩ oneBackup).run midnight twoRecords = .ok s ∧
    s.disk.files .current = some [] ∧ s.disk.files (.backup 2) = some (ascii "b\n") ∧
    StaysInBuffer midnight s := by
  obtain ⟨s, hrun, hcurrent, hbackup⟩ : ∃ s,
      (LogOutput.start ⟨90, 2, kFormattedLogRecordSize⟩ oneBackup).run midnight twoRecords = .ok s ∧
      s.disk.files .current = some [] ∧ s.disk.files (.backup 2) = some (ascii "b\n") :=
    ⟨_, rfl, rfl, rfl⟩
  exact ⟨s, hrun, hcurrent, hbackup, batch_stays_in_buffer
    (by decide : validateConfig (ascii "log") 1 1 _ = .ok ()) hrun⟩

end UnixNotes.Logger
