import Mathlib.Logic.Function.Basic
import UnixNotes.Logger.Format

namespace UnixNotes.Logger

/-- The log file and its backups, `backup_path`. -/
inductive LogFile where
  | current
  | backup (index : Nat)
  deriving DecidableEq

/-- The directory of the log file. `destroyed` has every file that was removed or overwritten, with
what was in it; no code reads it. -/
structure Disk where
  files : LogFile → Option ByteString
  destroyed : List (LogFile × ByteString) := []

namespace Disk

def exists? (disk : Disk) (file : LogFile) : Bool := (disk.files file).isSome

def replace (disk : Disk) (file : LogFile) (content : Option ByteString) : Disk where
  files := Function.update disk.files file content
  destroyed := disk.destroyed ++ (disk.files file).toList.map (file, ·)

def remove (disk : Disk) (file : LogFile) : Disk := disk.replace file none

def rename (disk : Disk) (source destination : LogFile) : Option Disk :=
  (disk.files source).map fun content =>
    { disk with files := Function.update disk.files source none }.replace destination content

/-- `open` with `std::ios::trunc`. -/
def create (disk : Disk) (file : LogFile) : Disk := disk.replace file (some [])

def append (disk : Disk) (file : LogFile) (bytes : ByteString) : Disk :=
  { disk with files := Function.update disk.files file (some ((disk.files file).getD [] ++ bytes)) }

end Disk

structure OutputConfig where
  maxFileSize : Nat := 100 * 1024 * 1024
  maxBackupFiles : Nat := 5
  batchBufferSize : Nat := 64 * 1024

/-- What the worker has to do with the file. What the stream has taken is in the file; in
`cachedTime` are `cached_second_` and `cached_time_text_`. -/
structure LogOutput where
  config : OutputConfig
  disk : Disk
  currentFileSize : Nat
  activeBuffer : ByteString
  writeBuffer : ByteString
  activeBufferSize : Nat := 0
  activeRecordCount : Nat := 0
  writtenCount : UInt64 := 0
  cachedTime : Option (Int × ByteString) := none

namespace LogOutput

/-- What `start` opens, in a directory where the log file may exist. -/
def start (config : OutputConfig) (files : LogFile → Option ByteString) : LogOutput where
  config := config
  disk := { files := Function.update files .current (some ((files .current).getD [])) }
  currentFileSize := ((files .current).getD []).length
  activeBuffer := List.replicate config.batchBufferSize 0
  writeBuffer := List.replicate config.batchBufferSize 0

/-- `calendar` is what `local_time` and `strftime` make of a second. -/
def formatRecord (calendar : Int → Except String ByteString) (s : LogOutput) (record : LogRecord)
    (capacity : Nat) : Except String (LogOutput × ByteString) := do
  let time ← match s.cachedTime with
    | some (second, time) => if record.second ≠ second then calendar record.second else .ok time
    | none => calendar record.second
  return ({ s with cachedTime := some (record.second, time) }, fitLine capacity (record.text time))

def writeActiveBuffer (s : LogOutput) : LogOutput :=
  if s.activeBufferSize = 0 then s
  else
    { s with
      activeBuffer := s.writeBuffer
      writeBuffer := s.activeBuffer
      activeBufferSize := 0
      activeRecordCount := 0
      disk := s.disk.append .current (s.activeBuffer.take s.activeBufferSize)
      currentFileSize := s.currentFileSize + s.activeBufferSize
      writtenCount := s.writtenCount + UInt64.ofNat s.activeRecordCount }

def fits (s : LogOutput) (nextRecordSize : Nat) : Bool :=
  s.config.maxFileSize = 0 ||
  (s.currentFileSize = 0 && s.activeBufferSize = 0) ||
  (s.currentFileSize ≤ s.config.maxFileSize &&
   s.activeBufferSize ≤ s.config.maxFileSize - s.currentFileSize &&
   nextRecordSize ≤ s.config.maxFileSize - s.currentFileSize - s.activeBufferSize)

/-- The loop over the backups, from `index` on downwards. -/
def shiftBackups (disk : Disk) : Nat → Except String Disk
  | 0 => .ok disk
  | 1 => .ok disk
  | index + 2 =>
    if disk.exists? (.backup (index + 1)) then
      match disk.rename (.backup (index + 1)) (.backup (index + 2)) with
      | none => .error "failed to rotate log backup: No such file or directory"
      | some disk => shiftBackups disk (index + 1)
    else shiftBackups disk (index + 1)

def rotateIfNeeded (s : LogOutput) (nextRecordSize : Nat) : Except String LogOutput :=
  if s.fits nextRecordSize then .ok s
  else
    let s := s.writeActiveBuffer
    if s.config.maxBackupFiles = 0 then
      .ok { s with disk := s.disk.create .current, currentFileSize := 0 }
    else do
      let disk ← shiftBackups (s.disk.remove (.backup s.config.maxBackupFiles))
        s.config.maxBackupFiles
      match disk.rename .current (.backup 1) with
      | none => .error "failed to rotate current log file: No such file or directory"
      | some disk => .ok { s with disk := disk.create .current, currentFileSize := 0 }

def appendRecord (calendar : Int → Except String ByteString) (s : LogOutput) (record : LogRecord) :
    Except String LogOutput := do
  let (s, formatted) ← s.formatRecord calendar record kFormattedLogRecordSize
  let s ← s.rotateIfNeeded formatted.length
  let s := if s.activeBufferSize + formatted.length > s.activeBuffer.length then s.writeActiveBuffer
    else s
  return { s with
    activeBuffer := memcpy s.activeBuffer s.activeBufferSize formatted
    activeBufferSize := s.activeBufferSize + formatted.length
    activeRecordCount := s.activeRecordCount + 1 }

end LogOutput

/-- What the worker does with the file: a record that it has dequeued, or a flush. -/
inductive OutputStep where
  | append (record : LogRecord)
  | flush

def OutputStep.exec (calendar : Int → Except String ByteString) (s : LogOutput) :
    OutputStep → Except String LogOutput
  | .append record => s.appendRecord calendar record
  | .flush => .ok s.writeActiveBuffer

def LogOutput.run (calendar : Int → Except String ByteString) (s : LogOutput)
    (steps : List OutputStep) : Except String LogOutput :=
  steps.foldlM (OutputStep.exec calendar) s

end UnixNotes.Logger
