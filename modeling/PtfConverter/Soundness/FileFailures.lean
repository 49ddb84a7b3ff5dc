import PtfConverter.Soundness.FileRoundTrip

/-! # What a successful write of an event says

`Write` tests that the whole header was taken, and returns the answer to the write of the data as a
truth value. So it reports that no data byte was taken, but a write that takes only a part, or that
fails with -1, counts as a success.
-/

namespace PtfConverter.Midas

open Memory

namespace TMidasFile

/-- An answer of the operating system that takes all bytes of a call. -/
def TakesAll (answer : Except ℤ ℕ) (length : ℕ) : Prop := ∃ taken, answer = .ok taken ∧ length ≤ taken

/-- When `Write` returns true, the whole header and all the data are behind what was in the file. -/
def ReportsFailures (system : System) (file : TMidasFile) (event : TMidasEvent) : Prop :=
  ∀ next, Write system file event = .ok (true, next) → next.fOutFile.bytes =
    file.fOutFile.bytes ++
      (event.fEventHeader.bytes ++ event.fData.peekBytes 0 event.fEventHeader.fDataSize.toNat)

variable {system : System} {file : TMidasFile} {event : TMidasEvent} {out : Output} {bytes : List Byte}

theorem write_of_takesAll (all : TakesAll (system.write out.calls bytes.length) bytes.length) :
    write system out bytes = ((bytes.length : ℤ), Output.mk (out.bytes ++ bytes) (out.calls + 1)) := by
  obtain ⟨taken, answer, enough⟩ := all
  have full : min (taken : ℤ) bytes.length = bytes.length := by omega
  rw [write, answer]
  simp only [full, List.take_of_length_le enough]

/-- The answer is the whole length only if all was taken. -/
theorem takesAll_of_write (whole : (write system out bytes).1 = bytes.length)
    (some : 0 < bytes.length) :
    TakesAll (system.write out.calls bytes.length) bytes.length := by
  rw [write] at whole
  cases answer : system.write out.calls bytes.length with
  | error errno =>
    rw [answer] at whole
    change (-1 : ℤ) = bytes.length at whole
    omega
  | ok taken =>
    rw [answer] at whole
    change min (taken : ℤ) bytes.length = bytes.length at whole
    exact ⟨taken, rfl, by omega⟩

/-- A header that is not taken whole is reported. -/
theorem Write_of_short (short : ¬ TakesAll (system.write file.fOutFile.calls 16) 16) :
    ∃ next, Write system file event = .ok (false, next) := by
  have width := event.fEventHeader.bytes_length
  have failed : (write system file.fOutFile event.fEventHeader.bytes).1 ≠ 16 := by
    intro whole
    have all : TakesAll
        (system.write file.fOutFile.calls event.fEventHeader.bytes.length)
        event.fEventHeader.bytes.length :=
      takesAll_of_write (by rw [whole, width]; rfl) (by rw [width]; exact Nat.succ_pos 15)
    rw [width] at all
    exact short all
  rw [Write]
  simp only [if_pos failed]
  exact ⟨_, rfl⟩

/-- Behind a whole header, the result is the answer to the write of the data. -/
private theorem Write_of_header (reach : event.fData.Reaches event.fEventHeader.fDataSize.toNat)
    (header : TakesAll (system.write file.fOutFile.calls 16) 16) :
    let data := write system ⟨file.fOutFile.bytes ++ event.fEventHeader.bytes, file.fOutFile.calls + 1⟩
      (event.fData.peekBytes 0 event.fEventHeader.fDataSize.toNat)
    Write system file event = .ok (data.1 != 0, { file with fOutFile := data.2 }) := by
  have width := event.fEventHeader.bytes_length
  have head := @write_of_takesAll system file.fOutFile event.fEventHeader.bytes
    (by rw [width]; exact header)
  have sixteen : ¬ ((16 : ℕ) : ℤ) ≠ 16 := by decide
  have data := @readBytes_of_reaches event.fData 0 _ (by rw [Nat.zero_add]; exact reach)
  rw [Write, head, width]
  simp only [if_neg sixteen, data, Except.ok_bind]
  rfl

/-- A failed write of the data returns -1, which counts as true. -/
theorem Write_of_failed {errno : ℤ}
    (reach : event.fData.Reaches event.fEventHeader.fDataSize.toNat)
    (header : TakesAll (system.write file.fOutFile.calls 16) 16)
    (answer : system.write (file.fOutFile.calls + 1) event.fEventHeader.fDataSize.toNat =
      .error errno) :
    ∃ next, Write system file event = .ok (true, next) ∧
      next.fOutFile.bytes = file.fOutFile.bytes ++ event.fEventHeader.bytes := by
  have written := Write_of_header reach header
  rw [write, peekBytes_length, answer] at written
  exact ⟨_, written, rfl⟩

/-- A write of the data returns true unless it took nothing. -/
theorem Write_of_taken {taken : ℕ} (reach : event.fData.Reaches event.fEventHeader.fDataSize.toNat)
    (header : TakesAll (system.write file.fOutFile.calls 16) 16)
    (answer : system.write (file.fOutFile.calls + 1) event.fEventHeader.fDataSize.toNat = .ok taken) :
    ∃ next, Write system file event =
      .ok (min (taken : ℤ) event.fEventHeader.fDataSize.toNat != 0, next) ∧
      next.fOutFile.bytes = file.fOutFile.bytes ++
        (event.fEventHeader.bytes ++
          (event.fData.peekBytes 0 event.fEventHeader.fDataSize.toNat).take taken) := by
  have written := Write_of_header reach header
  rw [write, peekBytes_length, answer] at written
  exact ⟨_, written, List.append_assoc ..⟩

/-- What a write that reports its failures has taken of the data. -/
theorem ReportsFailures.takes (reports : ReportsFailures system file event)
    (good : event.fEventHeader.IsGoodSize)
    (reach : event.fData.Reaches event.fEventHeader.fDataSize.toNat)
    (header : TakesAll (system.write file.fOutFile.calls 16) 16) :
    system.write (file.fOutFile.calls + 1) event.fEventHeader.fDataSize.toNat = .ok 0 ∨
      TakesAll (system.write (file.fOutFile.calls + 1) event.fEventHeader.fDataSize.toNat)
        event.fEventHeader.fDataSize.toNat := by
  have some := good.1
  have size := event.fData.peekBytes_length 0 event.fEventHeader.fDataSize.toNat
  cases answer : system.write (file.fOutFile.calls + 1) event.fEventHeader.fDataSize.toNat with
  | error errno =>
    obtain ⟨next, success, bytes⟩ := Write_of_failed reach header answer
    have lengths := congrArg List.length (bytes.symm.trans (reports next success))
    simp only [List.length_append, size] at lengths
    omega
  | ok taken =>
    obtain ⟨next, success, bytes⟩ := Write_of_taken reach header answer
    rcases Nat.eq_zero_or_pos taken with rfl | positive
    · exact .inl rfl
    · have true : (min (taken : ℤ) event.fEventHeader.fDataSize.toNat != 0) = true := by
        rw [bne_iff_ne]
        omega
      rw [true] at success
      have lengths := congrArg List.length (bytes.symm.trans (reports next success))
      simp only [List.length_append, List.length_take, size] at lengths
      exact .inr ⟨taken, rfl, by omega⟩

/-- `Write` reports every failure exactly when the data, once the header is taken, are
taken all or not at all. -/
theorem reportsFailures_iff (system : System) (file : TMidasFile) (event : TMidasEvent)
    (good : event.fEventHeader.IsGoodSize)
    (reach : event.fData.Reaches event.fEventHeader.fDataSize.toNat) :
    ReportsFailures system file event ↔
      (TakesAll (system.write file.fOutFile.calls 16) 16 →
        system.write (file.fOutFile.calls + 1) event.fEventHeader.fDataSize.toNat = .ok 0 ∨
          TakesAll (system.write (file.fOutFile.calls + 1) event.fEventHeader.fDataSize.toNat)
            event.fEventHeader.fDataSize.toNat) := by
  have size := event.fData.peekBytes_length 0 event.fEventHeader.fDataSize.toNat
  refine ⟨fun reports header => reports.takes good reach header, fun whole next success => ?_⟩
  by_cases header : TakesAll (system.write file.fOutFile.calls 16) 16
  · rcases whole header with none | ⟨taken, answer, enough⟩
    · -- A write that took nothing returns 0, which is reported.
      obtain ⟨_, failed, _⟩ := Write_of_taken reach header none
      have zero : (min ((0 : ℕ) : ℤ) event.fEventHeader.fDataSize.toNat != 0) = false := by
        rw [bne_eq_false_iff_eq]
        omega
      rw [failed, zero] at success
      cases success
    · obtain ⟨_, written, bytes⟩ := Write_of_taken reach header answer
      rw [List.take_of_length_le (size.le.trans enough)] at bytes
      obtain ⟨-, rfl⟩ := Prod.mk.inj (Except.ok.inj (written.symm.trans success))
      exact bytes
  · obtain ⟨_, failed⟩ := @Write_of_short system file event header
    rw [failed] at success
    cases success

/-- A text event of eight bytes. -/
def greeting : TMidasEvent :=
  .fresh ⟨0x8005, 0, 1, 0, 8⟩ (.strict [0x68, 0x65, 0x6c, 0x6c, 0x6f, 0x21, 0x0a, 0x00])

/-- A disk with room for the next `room` bytes. -/
def fillingDisk (room : ℕ) : System where
  read _ := .ok 0
  write call length := if 16 * call + length ≤ room then .ok length else .error 28
  strerror _ := "No space left on device"
  malloc _ := 0

theorem reportsFailures_iff_greeting :
    ReportsFailures (fillingDisk 24) (opened []) greeting ∧
      ¬ ReportsFailures (fillingDisk 16) (opened []) greeting := by
  have good : greeting.fEventHeader.IsGoodSize := by decide
  have reach : greeting.fData.Reaches greeting.fEventHeader.fDataSize.toNat := fun _ => le_rfl
  constructor
  · exact (reportsFailures_iff _ _ _ good reach).mpr fun _ => .inr ⟨8, rfl, le_rfl⟩
  · intro reports
    rcases (reportsFailures_iff _ _ _ good reach).mp reports
      ⟨16, rfl, le_rfl⟩ with none | ⟨taken, all, _⟩
    · cases none
    · cases all

/-- The header fills the disk: no byte of the data is written, and `Write` returns true. -/
theorem fullDisk_not_reported : ¬ ReportsFailures (fillingDisk 16) (opened []) greeting := by
  intro reports
  have bytes := reports { opened [] with fOutFile := ⟨greeting.fEventHeader.bytes, 2⟩ } rfl
  have lengths := congrArg List.length bytes
  revert lengths
  decide

end TMidasFile

end PtfConverter.Midas
