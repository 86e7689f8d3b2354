import UnixNotes.Logger.Rotation

namespace UnixNotes.Logger

/-- The file, its backups and the batch as rows of pieces that nothing takes apart: the records, and
what each file had in it at the beginning. -/
structure Pieces where
  removed : List (List ByteString) := []
  backups : Nat → Option (List ByteString)
  current : List ByteString
  active : List ByteString := []

namespace Pieces

def ordered (backups : Nat → Option (List ByteString)) : Nat → List ByteString
  | 0 => []
  | n + 1 => (backups (n + 1)).getD [] ++ ordered backups n

def kept (p : Pieces) (n : Nat) : List ByteString := ordered p.backups n ++ p.current ++ p.active

def all (p : Pieces) (n : Nat) : List ByteString := p.removed.flatten ++ p.kept n

def append (p : Pieces) (piece : ByteString) : Pieces := { p with active := p.active ++ [piece] }

def write (p : Pieces) : Pieces := { p with current := p.current ++ p.active, active := [] }

/-- Every backup becomes the next older one; the oldest one is removed. -/
def rotate (p : Pieces) (n : Nat) : Pieces where
  removed := p.removed ++ (p.backups n).toList
  backups i := if i = 1 then some p.current else p.backups (i - 1)
  current := []
  active := p.active

theorem all_append (p : Pieces) (n : Nat) (piece : ByteString) :
    (p.append piece).all n = p.all n ++ [piece] := by
  simp [all, kept, append]

end Pieces

theorem LogFile.current_ne (i : Nat) : LogFile.current ≠ .backup i := nofun

theorem LogFile.backup_ne (i : Nat) : LogFile.backup i ≠ .current := nofun

namespace Disk

variable {disk : Disk}

def backups (disk : Disk) : Nat → ByteString
  | 0 => []
  | n + 1 => (disk.files (.backup (n + 1))).getD [] ++ disk.backups n

theorem flatten_ordered {row : Nat → Option (List ByteString)} {n : Nat}
    (h : ∀ i, 0 < i → i ≤ n → disk.files (.backup i) = (row i).map List.flatten) :
    (Pieces.ordered row n).flatten = disk.backups n := by
  induction n with
  | zero => rfl
  | succ n ih =>
    rw [Pieces.ordered, backups, List.flatten_append, ih fun i hi hle => h i hi (by omega),
      h (n + 1) (Nat.succ_pos n) (Nat.le_refl _)]
    cases row (n + 1) <;> rfl

theorem replace_files_self (disk : Disk) (file : LogFile) (content : Option ByteString) :
    (disk.replace file content).files file = content := Function.update_self ..

theorem replace_files_ne {file other : LogFile} (content : Option ByteString) (h : other ≠ file) :
    (disk.replace file content).files other = disk.files other := Function.update_of_ne h ..

theorem replace_destroyed {file : LogFile} (content : Option ByteString)
    (h : disk.files file = none) : (disk.replace file content).destroyed = disk.destroyed := by
  rw [replace, h]
  exact List.append_nil _

theorem append_files_ne {file other : LogFile} (bytes : ByteString) (h : other ≠ file) :
    (disk.append file bytes).files other = disk.files other := Function.update_of_ne h ..

/-- What the loop over the backups makes of the files when the oldest backup has been removed. -/
structure Shifted (disk disk' : Disk) (n : Nat) : Prop where
  destroyed : disk'.destroyed = disk.destroyed
  current : disk'.files .current = disk.files .current
  first : disk'.files (.backup 1) = none
  next : ∀ i, 0 < i → i < n → disk'.files (.backup (i + 1)) = disk.files (.backup i)
  older : ∀ i, n < i → disk'.files (.backup i) = disk.files (.backup i)

end Disk

theorem LogOutput.shiftBackups_shifted {disk : Disk} {n : Nat}
    (habsent : disk.files (.backup (n + 1)) = none) :
    ∃ disk', shiftBackups disk (n + 1) = .ok disk' ∧ disk.Shifted disk' (n + 1) := by
  induction n generalizing disk with
  | zero => exact ⟨disk, rfl, rfl, rfl, habsent, fun i hi hlt => by omega, fun _ _ => rfl⟩
  | succ n ih =>
    cases hsource : disk.files (.backup (n + 1)) with
    | none =>
      obtain ⟨disk', hshift, h⟩ := ih hsource
      refine ⟨disk', ?_, h.destroyed, h.current, h.first, ?_, ?_⟩
      · rw [shiftBackups, Disk.exists?, hsource]
        exact hshift
      · intro i hi hlt
        by_cases heq : i = n + 1
        · rw [heq, h.older _ (Nat.lt_succ_self _), habsent, hsource]
        · exact h.next i hi (by omega)
      · exact fun i hlt => h.older i (by omega)
    | some content =>
      let emptied : Disk :=
        { disk with files := Function.update disk.files (.backup (n + 1)) none }
      let moved : Disk := emptied.replace (.backup (n + 2)) (some content)
      have hrename : disk.rename (.backup (n + 1)) (.backup (n + 2)) = some moved := by
        rw [Disk.rename, hsource]
        rfl
      have hne : ∀ file, file ≠ .backup (n + 1) → file ≠ .backup (n + 2) →
          moved.files file = disk.files file := by
        intro file hfile hfile'
        rw [Disk.replace_files_ne _ hfile']
        exact Function.update_of_ne hfile _ _
      have hemptied : moved.files (.backup (n + 1)) = none := by
        rw [Disk.replace_files_ne _ (by simp)]
        exact Function.update_self ..
      have hdestination : emptied.files (.backup (n + 2)) = none := by
        rw [← habsent]
        exact Function.update_of_ne (by simp) _ _
      obtain ⟨disk', hshift, h⟩ := ih hemptied
      refine ⟨disk', ?_, ?_, ?_, h.first, ?_, ?_⟩
      · rw [shiftBackups, Disk.exists?, hsource, hrename]
        exact hshift
      · rw [h.destroyed, Disk.replace_destroyed _ hdestination]
      · rw [h.current]
        exact hne _ (by simp) (by simp)
      · intro i hi hlt
        by_cases heq : i = n + 1
        · rw [heq, h.older _ (Nat.lt_succ_self _), hsource]
          exact Disk.replace_files_self ..
        · rw [h.next i hi (by omega)]
          exact hne _ (by simp [heq]) (by simp; omega)
      · intro i hlt
        rw [h.older i (by omega)]
        exact hne _ (by simp; omega) (by simp; omega)

variable {calendar : Int → Except String ByteString}

structure Represents (calendar : Int → Except String ByteString) (s : LogOutput) (p : Pieces) :
    Prop where
  current : s.disk.files .current = some p.current.flatten
  backups : ∀ i, 0 < i → i ≤ s.config.maxBackupFiles →
    s.disk.files (.backup i) = (p.backups i).map List.flatten
  active : s.activeBuffer.take s.activeBufferSize = p.active.flatten
  room : s.activeBufferSize ≤ s.activeBuffer.length
  activeBuffer : s.activeBuffer.length = s.config.batchBufferSize
  writeBuffer : s.writeBuffer.length = s.config.batchBufferSize
  size : s.currentFileSize = p.current.flatten.length
  destroyed : s.disk.destroyed =
    p.removed.map fun pieces => (.backup s.config.maxBackupFiles, pieces.flatten)
  cache : ∀ second time, s.cachedTime = some (second, time) → calendar second = .ok time

namespace LogOutput

variable {s : LogOutput} {p : Pieces}

def contents (s : LogOutput) : ByteString :=
  s.disk.backups s.config.maxBackupFiles ++ (s.disk.files .current).getD [] ++
    s.activeBuffer.take s.activeBufferSize

theorem contents_eq (h : Represents calendar s p) :
    s.contents = (p.kept s.config.maxBackupFiles).flatten := by
  rw [contents, Pieces.kept, List.flatten_append, List.flatten_append,
    Disk.flatten_ordered h.backups, h.current, h.active]
  rfl

@[simp] theorem config_writeActiveBuffer : s.writeActiveBuffer.config = s.config := by
  rw [writeActiveBuffer]
  split <;> rfl

@[simp] theorem activeBufferSize_writeActiveBuffer : s.writeActiveBuffer.activeBufferSize = 0 := by
  rw [writeActiveBuffer]
  split
  · assumption
  · rfl

theorem rotated_files {disk : Disk} {content : ByteString}
    (hcontent : disk.files .current = some content) (n : Nat) :
    ∃ shifted moved, shiftBackups (disk.remove (.backup (n + 1))) (n + 1) = .ok shifted ∧
      shifted.rename .current (.backup 1) = some moved ∧
      (moved.create .current).files .current = some [] ∧
      (∀ i, 0 < i → i ≤ n + 1 → (moved.create .current).files (.backup i) =
        if i = 1 then some content else disk.files (.backup (i - 1))) ∧
      (moved.create .current).destroyed = disk.destroyed ++
        (disk.files (.backup (n + 1))).toList.map (LogFile.backup (n + 1), ·) := by
  have hremoved : (disk.remove (.backup (n + 1))).files (.backup (n + 1)) = none :=
    Disk.replace_files_self ..
  have hkept : ∀ file, file ≠ .backup (n + 1) →
      (disk.remove (.backup (n + 1))).files file = disk.files file := fun file hne =>
    Disk.replace_files_ne _ hne
  obtain ⟨shifted, hshift, hdisk⟩ := shiftBackups_shifted hremoved
  have hcurrent : shifted.files .current = some content := by
    rw [hdisk.current, hkept _ (LogFile.current_ne _), hcontent]
  let left : Disk := { shifted with files := Function.update shifted.files .current none }
  have hrename : shifted.rename .current (.backup 1) =
      some (left.replace (.backup 1) (some content)) := by
    rw [Disk.rename, hcurrent]
    rfl
  have hleft : ∀ i, left.files (.backup i) = shifted.files (.backup i) := fun i =>
    Function.update_of_ne (LogFile.backup_ne i) none shifted.files
  have hfirst : left.files (.backup 1) = none := (hleft 1).trans hdisk.first
  have hgone : (left.replace (.backup 1) (some content)).files .current = none := by
    rw [Disk.replace_files_ne _ (LogFile.current_ne 1)]
    exact Function.update_self LogFile.current none shifted.files
  refine ⟨shifted, _, hshift, hrename, Disk.replace_files_self .., fun i hi hle => ?_, ?_⟩
  · rw [Disk.create, Disk.replace_files_ne _ (LogFile.backup_ne i)]
    by_cases hone : i = 1
    · rw [hone, Disk.replace_files_self, if_pos rfl]
    · obtain ⟨j, rfl⟩ := Nat.exists_eq_succ_of_ne_zero (Nat.ne_of_gt hi)
      rw [Disk.replace_files_ne _ (by simpa using hone), hleft,
        hdisk.next j (by omega) (by omega), hkept _ (by simp; omega), if_neg hone]
      rfl
  · rw [Disk.create, Disk.replace_destroyed _ hgone, Disk.replace_destroyed _ hfirst]
    exact hdisk.destroyed

theorem formatRecord_ok {record : LogRecord} {time : ByteString}
    (hcache : ∀ second time, s.cachedTime = some (second, time) → calendar second = .ok time)
    (htime : calendar record.second = .ok time) (capacity : Nat) :
    s.formatRecord calendar record capacity =
      .ok ({ s with cachedTime := some (record.second, time) },
        fitLine capacity (record.text time)) := by
  rw [formatRecord]
  cases hcached : s.cachedTime with
  | none =>
    simp only [htime]
    rfl
  | some entry =>
    obtain ⟨second, kept⟩ := entry
    by_cases heq : record.second = second
    · have hkept := hcache second kept hcached
      rw [← heq, htime] at hkept
      cases hkept
      simp only [heq, ne_eq, not_true_eq_false, if_false]
      rfl
    · simp only [ne_eq, heq, not_false_eq_true, if_true, htime]
      rfl

end LogOutput

def OutputStep.lines (calendar : Int → Except String ByteString) : OutputStep → List ByteString
  | .append record =>
    match calendar record.second with
    | .ok time => [fitLine kFormattedLogRecordSize (record.text time)]
    | .error _ => []
  | .flush => []

def Pieces.initial (files : LogFile → Option ByteString) : Pieces where
  backups i := (files (.backup i)).map ([·])
  current := [(files .current).getD []]

/-- What the files and the batch hold when the steps have been taken: a suffix of what was logged,
of which every line is a piece in one place, and what is missing was in the backups that were
removed. -/
structure Kept (calendar : Int → Except String ByteString) (config : OutputConfig)
    (files : LogFile → Option ByteString) (steps : List OutputStep) (s : LogOutput) : Prop where
  suffix : s.contents <:+ (LogOutput.start config files).contents ++
    (steps.flatMap (OutputStep.lines calendar)).flatten
  pieces : ∃ p : Pieces, Represents calendar s p ∧ s.config = config ∧
    p.all config.maxBackupFiles = (Pieces.initial files).all config.maxBackupFiles ++
      steps.flatMap (OutputStep.lines calendar)

def midnight : Int → Except String ByteString := fun _ => .ok (ascii "2026-01-01 00:00:00")

def oneBackup : LogFile → Option ByteString
  | .current => some (ascii "c\n")
  | .backup 1 => some (ascii "b\n")
  | .backup _ => none

def twoRecords : List OutputStep :=
  [.append (LogCall.record ⟨.info, [], none, 0, none⟩ 0 0 1), .flush,
    .append (LogCall.record ⟨.info, [], none, 0, none⟩ 0 0 2)]

set_option maxRecDepth 10000 in
example : ∃ s, (LogOutput.start ⟨90, 2, kFormattedLogRecordSize⟩ oneBackup).run midnight
      twoRecords = .ok s ∧
    s.disk.files .current = some [] ∧ s.disk.files (.backup 2) = some (ascii "b\n") :=
  ⟨_, rfl, rfl, rfl⟩

end UnixNotes.Logger
