import Mathlib.Algebra.Ring.Int.Defs
import Mathlib.Algebra.Ring.Nat
import UnixNotes.Logger.OutputBounds

namespace UnixNotes.Logger

theorem length_decimal_natCast {n width : Nat} (hwidth : 0 < width) (h : n < 10 ^ width) :
    (decimal n).length ≤ width := by
  rw [decimal, length_ascii]
  exact (Nat.length_repr_le_iff hwidth).mpr h

theorem length_decimal_le {n : Int} {width : Nat} (hwidth : 0 < width)
    (h : n.natAbs < 10 ^ width) : (decimal n).length ≤ width + 1 := by
  cases n with
  | ofNat n => exact Nat.le_succ_of_le (length_decimal_natCast hwidth h)
  | negSucc n =>
    have hdigits := (Nat.length_repr_le_iff (n := n + 1) hwidth).mpr h
    rw [decimal, length_ascii]
    change ("-" ++ (n + 1).repr).length ≤ width + 1
    rw [String.length_append]
    change 1 + (n + 1).repr.length ≤ width + 1
    omega

theorem length_zeroPadded_le {width : Nat} {n : Int} (hwidth : 0 < width)
    (h : n.natAbs < 10 ^ width) : (zeroPadded width n).length ≤ width + 1 := by
  have hdigits : (decimal n.natAbs).length ≤ width := length_decimal_natCast hwidth h
  have hsign : (ascii "-").length = 1 := rfl
  simp only [zeroPadded, List.length_append, List.length_replicate]
  split
  · omega
  · rw [List.length_nil]
    omega

theorem LogRecord.natAbs_micros_lt (record : LogRecord) : record.micros.natAbs < 10 ^ 6 := by
  rw [micros, Int.natAbs_tmod]
  exact Nat.mod_lt _ (by decide)

theorem LogLevel.length_toText_le (level : LogLevel) : level.toText.length ≤ 5 := by
  cases level <;> decide

theorem length_printed_le (text : ByteString) : (printed text).length ≤ text.length :=
  (List.takeWhile_prefix _).length_le

theorem printed_eq_self_iff {text : ByteString} : printed text = text ↔ 0 ∉ text := by
  induction text with
  | nil => simp [printed]
  | cons x text ih =>
    rw [printed, List.takeWhile_cons]
    split
    · rename_i hx
      have hne : x ≠ 0 := of_decide_eq_true hx
      rw [List.cons_inj_right, List.mem_cons, not_or]
      exact ih.trans ⟨fun h => ⟨hne.symm, h⟩, And.right⟩
    · rename_i hx
      have hzero : x = 0 := by simpa using hx
      simp [hzero]

theorem printed_eq_of_length {text : ByteString} (h : (printed text).length = text.length) :
    printed text = text :=
  (List.takeWhile_prefix _).eq_of_length h

namespace LogRecord

def header (record : LogRecord) (time : ByteString) : ByteString :=
  time ++ ascii "." ++ zeroPadded 6 record.micros ++ ascii " [" ++ record.level.toText ++
    ascii "] [tid=" ++ decimal record.threadId.toNat ++ ascii "] ["

theorem text_eq (record : LogRecord) (time : ByteString) : record.text time =
    record.header time ++ printed record.file.val ++ ascii ":" ++ decimal record.line.toInt ++
      ascii " " ++ printed record.function.val ++ ascii "] " ++ printed record.message.val ++
      ascii "\n" := rfl

theorem length_header_le (record : LogRecord) {time : ByteString} (htime : time.length < 20) :
    (record.header time).length ≤ 64 := by
  have hmicros := length_zeroPadded_le (by decide) record.natAbs_micros_lt
  have hlevel := record.level.length_toText_le
  have hthread : (decimal record.threadId.toNat).length ≤ 20 :=
    length_decimal_natCast (by decide) (Nat.lt_trans record.threadId.toNat_lt (by decide))
  simp only [header, List.length_append, length_ascii]
  change time.length + 1 + _ + 2 + _ + 7 + _ + 3 ≤ 64
  omega

theorem length_text_lt (record : LogRecord) {time : ByteString} (htime : time.length < 20) :
    (record.text time).length < kFormattedLogRecordSize := by
  have hheader := length_header_le record htime
  have hfile := length_printed_le record.file.val
  have hfunction := length_printed_le record.function.val
  have hmessage := length_printed_le record.message.val
  have hline : (decimal record.line.toInt).length ≤ 11 := by
    refine length_decimal_le (by decide) ?_
    have := record.line.toInt_lt
    have := record.line.le_toInt
    omega
  have := record.file.property
  have := record.function.property
  have := record.message.property
  rw [text_eq]
  simp only [List.length_append, length_ascii]
  change _ + _ + 1 + _ + 1 + _ + 2 + _ + 1 < 1024
  simp only [kMaxLogFileNameSize, kMaxLogFunctionNameSize, kMaxLogMessageSize] at *
  omega

def whole (record : LogRecord) (time : ByteString) : ByteString :=
  record.header time ++ record.file.val ++ ascii ":" ++ decimal record.line.toInt ++ ascii " " ++
    record.function.val ++ ascii "] " ++ record.message.val ++ ascii "\n"

theorem text_eq_whole_iff {record : LogRecord} {time : ByteString} :
    record.text time = record.whole time ↔
      0 ∉ record.file.val ∧ 0 ∉ record.function.val ∧ 0 ∉ record.message.val := by
  simp only [← printed_eq_self_iff]
  constructor
  · intro h
    have hlength := congrArg List.length h
    have hfile := length_printed_le record.file.val
    have hfunction := length_printed_le record.function.val
    have hmessage := length_printed_le record.message.val
    simp only [text_eq, whole, List.length_append] at hlength
    exact ⟨printed_eq_of_length (by omega), printed_eq_of_length (by omega),
      printed_eq_of_length (by omega)⟩
  · rintro ⟨hfile, hfunction, hmessage⟩
    rw [text_eq, hfile, hfunction, hmessage, whole]

end LogRecord

def LogOutput.Dated (calendar : Int → Except String ByteString) (s : LogOutput) : Prop :=
  ∀ second time, s.cachedTime = some (second, time) → calendar second = .ok time

section Dated

variable {calendar : Int → Except String ByteString} {s s' : LogOutput}

theorem LogOutput.cachedTime_writeActiveBuffer : s.writeActiveBuffer.cachedTime = s.cachedTime := by
  rw [writeActiveBuffer]
  split <;> rfl

theorem LogOutput.cachedTime_of_rotateIfNeeded {size : Nat}
    (h : s.rotateIfNeeded size = .ok s') : s'.cachedTime = s.cachedTime := by
  rw [rotateIfNeeded] at h
  split at h
  · cases h
    rfl
  · rw [← cachedTime_writeActiveBuffer (s := s)]
    generalize s.writeActiveBuffer = s at h
    dsimp only at h
    split at h
    · cases h
      rfl
    · cases hshift : shiftBackups (s.disk.remove (.backup s.config.maxBackupFiles))
        s.config.maxBackupFiles with
      | error =>
        rw [hshift] at h
        cases h
      | ok disk =>
        rw [hshift] at h
        dsimp only [bind, Except.bind] at h
        split at h
        · cases h
        · cases h
          rfl

theorem LogOutput.Dated.format {record : LogRecord} {formatted : LogOutput} {line : ByteString}
    {capacity : Nat} (h : s.Dated calendar)
    (hformat : s.formatRecord calendar record capacity = .ok (formatted, line)) :
    ∃ time, calendar record.second = .ok time ∧
      formatted = { s with cachedTime := some (record.second, time) } ∧
      line = fitLine capacity (record.text time) := by
  cases htime : calendar record.second with
  | ok time =>
    rw [formatRecord_ok h htime] at hformat
    cases hformat
    exact ⟨time, rfl, rfl, rfl⟩
  | error =>
    rw [formatRecord] at hformat
    split at hformat
    · rename_i second time hcached
      split at hformat
      · rw [htime] at hformat
        cases hformat
      · rename_i hsame
        rw [not_not.mp hsame, h second time hcached] at htime
        cases htime
    · rw [htime] at hformat
      cases hformat

theorem LogOutput.Dated.append {record : LogRecord} (h : s.Dated calendar)
    (happend : s.appendRecord calendar record = .ok s') : s'.Dated calendar := by
  obtain ⟨formatted, line, rotated, hformat, hrotate, rfl⟩ := appendRecord_eq_ok happend
  obtain ⟨time, htime, rfl, -⟩ := h.format hformat
  have hcached : (rotated.writeIfFull line.length).cachedTime = some (record.second, time) := by
    rw [writeIfFull]
    split
    · rw [cachedTime_writeActiveBuffer, cachedTime_of_rotateIfNeeded hrotate]
    · exact cachedTime_of_rotateIfNeeded hrotate
  intro second kept hkept
  cases hcached.symm.trans hkept
  exact htime

theorem LogOutput.Dated.run {steps : List OutputStep} (h : s.Dated calendar)
    (hrun : s.run calendar steps = .ok s') : s'.Dated calendar := by
  induction steps generalizing s with
  | nil =>
    cases hrun
    exact h
  | cons step steps ih =>
    rw [LogOutput.run, List.foldlM_cons] at hrun
    cases hexec : step.exec calendar s with
    | error =>
      rw [hexec] at hrun
      cases hrun
    | ok s₁ =>
      rw [hexec] at hrun
      refine ih ?_ hrun
      cases step with
      | append record => exact h.append hexec
      | flush =>
        cases hexec
        exact fun second time hcached => h second time (cachedTime_writeActiveBuffer ▸ hcached)

end Dated

namespace LogCall

/-- The file, the function and the message as far as a record has room for them. -/
def texts (call : LogCall) : List ByteString :=
  [(call.file.getD []).take (kMaxLogFileNameSize - 1),
    (call.function.getD []).take (kMaxLogFunctionNameSize - 1),
    call.message.take (kMaxLogMessageSize - 1)]

/-- The header, then the place of the call, then every byte of its message that a record has room
for. -/
def wholeLine (call : LogCall) (timestamp : Int) (threadId : UInt64) (time : ByteString) :
    ByteString :=
  (call.record timestamp threadId 0).header time ++
    (call.file.getD []).take (kMaxLogFileNameSize - 1) ++ ascii ":" ++ decimal call.line.toInt ++
    ascii " " ++ (call.function.getD []).take (kMaxLogFunctionNameSize - 1) ++ ascii "] " ++
    call.message.take (kMaxLogMessageSize - 1) ++ ascii "\n"

theorem text_eq_wholeLine_iff {call : LogCall} {timestamp : Int} {threadId sequence : UInt64}
    {time : ByteString} : (call.record timestamp threadId sequence).text time =
      call.wholeLine timestamp threadId time ↔ ∀ text ∈ call.texts, 0 ∉ text := by
  simp only [texts, List.forall_mem_cons, List.not_mem_nil, false_implies, implies_true, and_true]
  exact LogRecord.text_eq_whole_iff

end LogCall

variable {calendar : Int → Except String ByteString}

theorem line_has_whole_message_iff {config : OutputConfig} {files : LogFile → Option ByteString}
    {steps : List OutputStep} {s : LogOutput} {call : LogCall} {timestamp : Int}
    {threadId sequence : UInt64} {time : ByteString}
    (hformats : ∀ second time, calendar second = .ok time → time.length < 20)
    (hrun : (LogOutput.start config files).run calendar steps = .ok s)
    (htime : calendar (call.record timestamp threadId sequence).second = .ok time) :
    ∃ formatted line, s.formatRecord calendar (call.record timestamp threadId sequence)
        kFormattedLogRecordSize = .ok (formatted, line) ∧
      line = (call.record timestamp threadId sequence).text time ∧
      line.length < kFormattedLogRecordSize ∧
      (line = call.wholeLine timestamp threadId time ↔ ∀ text ∈ call.texts, 0 ∉ text) := by
  have hdated : s.Dated calendar := LogOutput.Dated.run (s := .start config files) nofun hrun
  have hlength := (call.record timestamp threadId sequence).length_text_lt (hformats _ _ htime)
  refine ⟨_, _, LogOutput.formatRecord_ok hdated htime _, ?_⟩
  rw [fitLine, if_neg (Nat.not_le.mpr hlength)]
  exact ⟨rfl, hlength, LogCall.text_eq_wholeLine_iff⟩

theorem line_has_whole_message_hi : ∃ formatted line,
    (LogOutput.start {} fun _ => none).formatRecord (fun _ => .ok (ascii "2026-01-01 00:00:00"))
        (LogCall.record ⟨.info, ascii "hi", some (ascii "main.cpp"), 7, some (ascii "main")⟩ 0 0 1)
        kFormattedLogRecordSize = .ok (formatted, line) ∧
      line = (LogCall.record ⟨.info, ascii "hi", some (ascii "main.cpp"), 7,
        some (ascii "main")⟩ 0 0 1).text (ascii "2026-01-01 00:00:00") ∧
      line.length < kFormattedLogRecordSize ∧
      (line = LogCall.wholeLine ⟨.info, ascii "hi", some (ascii "main.cpp"), 7,
          some (ascii "main")⟩ 0 0 (ascii "2026-01-01 00:00:00") ↔
        ∀ text ∈ LogCall.texts ⟨.info, ascii "hi", some (ascii "main.cpp"), 7,
          some (ascii "main")⟩, 0 ∉ text) :=
  @line_has_whole_message_iff (fun _ => .ok (ascii "2026-01-01 00:00:00")) {} (fun _ => none) [] _ _ _
    _ _ _ (fun second time h => by cases h; decide) rfl rfl

theorem line_ends_at_null : ∃ formatted line,
    (LogOutput.start {} fun _ => none).formatRecord (fun _ => .ok (ascii "2026-01-01 00:00:00"))
        (LogCall.record ⟨.info, [97, 0, 98], some (ascii "main.cpp"), 7, some (ascii "main")⟩ 0 0 1)
        kFormattedLogRecordSize = .ok (formatted, line) ∧
      line = ascii "2026-01-01 00:00:00.000000 [INFO] [tid=0] [main.cpp:7 main] a\n" ∧
      line ≠ LogCall.wholeLine ⟨.info, [97, 0, 98], some (ascii "main.cpp"), 7,
        some (ascii "main")⟩ 0 0 (ascii "2026-01-01 00:00:00") := by
  refine ⟨_, _, rfl, by decide, by decide⟩

end UnixNotes.Logger
