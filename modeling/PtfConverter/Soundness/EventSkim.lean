import PtfConverter.Model.EventSkim
import PtfConverter.Soundness.FileRoundTrip

/-! # What event_skim copies

Whatever the bytes of a file are, and however the operating system cuts them, the events that are read
lie one behind the other at the front of the file. The copy has the headers of those that were written
and their data in native byte order. Such a copy is its own copy; but it is lost when the name behind
`-o` is the last argument, since the program then reads the file that it has just emptied.
-/

namespace PtfConverter.Midas

open Memory TMidasFile

private theorem encode_ofNat_value {bytes : List Byte} {width : ℕ} (length : bytes.length = width) :
    Bytes.encode width (BitVec.ofNat (8 * width) (Bytes.value bytes)).toNat = bytes := by
  have small := Bytes.value_lt bytes
  have power : (2 : ℕ) ^ (8 * width) = 256 ^ width := by rw [Nat.pow_mul]
  rw [length] at small
  rw [BitVec.toNat_ofNat, power, Nat.mod_eq_of_lt small, ← length, Bytes.encode_value]

/-- The header that is read has the bytes that it is read from. -/
theorem EventHeader.bytes_ofBytes {head : List Byte} (width : head.length = 16) :
    (ofBytes head).bytes = head := by
  have field (offset size : ℕ) (inside : offset + size ≤ 16) :
      ((head.drop offset).take size).length = size := by
    rw [List.length_take, List.length_drop]
    omega
  have id := encode_ofNat_value (field 0 2 (by omega))
  have mask := encode_ofNat_value (field 2 2 (by omega))
  have serial := encode_ofNat_value (field 4 4 (by omega))
  have time := encode_ofNat_value (field 8 4 (by omega))
  have size := encode_ofNat_value (field 12 4 (by omega))
  have last : (head.drop 12).take 4 = head.drop 12 :=
    List.take_of_length_le (by rw [List.length_drop]; omega)
  rw [List.drop_zero] at id
  rw [EventHeader.bytes, ofBytes, id, mask, serial, time, size, last]
  have join (n m : ℕ) : (head.drop n).take m ++ head.drop (n + m) = head.drop n := by
    rw [← List.drop_drop, List.take_append_drop]
  rw [join 8 4, join 4 4, join 2 2, List.take_append_drop]

/-- A successful `Read` has read an event from the front, whatever the bytes are and however the
operating system cuts them. -/
theorem Read_sound {system : System} {file next : TMidasFile} {event : TMidasEvent}
    (native : file.fDoByteSwap = false) (read : Read system file = .ok (true, event, next)) :
    ∃ raw : RawEvent, event = raw.event ∧ file.fFile.unread = raw.bytes ++ next.fFile.unread ∧
      next.fDoByteSwap = false := by
  obtain ⟨head, data, taken⟩ := Read_taken read
  have header := taken.header
  rw [native, if_neg Bool.false_ne_true] at header
  have good : data.length ≤ maxEventSize := by
    rw [← taken.size]
    exact taken.good.2
  have field : event.fEventHeader.fDataSize = BitVec.ofNat 32 data.length := by
    rw [← taken.size, BitVec.ofNat_toNat, BitVec.setWidth_eq]
  have computes := SwapBytes_computes good
  rw [← field, taken.swapped] at computes
  cases found : toNative data with
  | none =>
    rw [found] at computes
    obtain ⟨fault, failed⟩ := computes
    cases failed
  | some swapped =>
    rw [found] at computes
    refine ⟨⟨event.fEventHeader, data, swapped, taken.size, taken.good, found⟩, ?_, ?_,
      taken.order.trans native⟩
    · exact taken.fresh.trans (congrArg (TMidasEvent.fresh _) (Except.ok.inj computes))
    · have front : event.fEventHeader.bytes = head := by
        rw [header, EventHeader.bytes_ofBytes taken.width]
      change _ = (event.fEventHeader.bytes ++ data) ++ _
      rw [front, List.append_assoc]
      exact taken.layout

namespace EventSkim

/-- An answer to a write takes all the bytes. -/
def Accepts (system : System) : Prop := ∀ call length, system.write call length = .ok length

/-- The events that are written, of those that are read from an event number on. -/
def copied (gEventCutoff i : ℤ) (events : List RawEvent) : List RawEvent :=
  if gEventCutoff = 0 then events else events.take (gEventCutoff - 1 - i).toNat

theorem copied_cons {gEventCutoff i : ℤ} (goesOn : ¬(gEventCutoff ≠ 0 ∧ gEventCutoff ≤ i + 1))
    (raw : RawEvent) (events : List RawEvent) :
    copied gEventCutoff i (raw :: events) = raw :: copied gEventCutoff (i + 1) events := by
  rw [copied, copied]
  split
  · rfl
  · have steps : (gEventCutoff - 1 - i).toNat = (gEventCutoff - 1 - (i + 1)).toNat + 1 := by omega
    rw [steps, List.take_succ_cons]

/-- A bank list is not written. -/
theorem Write_congr {system : System} (file : TMidasFile) {event other : TMidasEvent}
    (header : other.fEventHeader = event.fEventHeader) (data : other.fData = event.fData) :
    Write system file other = Write system file event := by
  rw [Write, Write, header, data]

theorem look_keeps {event looked : TMidasEvent} (found : look event = .ok looked) :
    looked.fEventHeader = event.fEventHeader ∧ looked.fData = event.fData := by
  rw [look] at found
  split at found
  · cases found
    exact ⟨rfl, rfl⟩
  · obtain ⟨⟨listed, count⟩, set, found⟩ := Except.bind_eq_ok_iff.mp found
    obtain ⟨trigger, -, found⟩ := Except.bind_eq_ok_iff.mp found
    cases found
    exact SetBankList_keeps set

/-- What the loop does with a successful read. -/
theorem skimLoop_read {system : System} {gEventCutoff i : ℤ} {f next fout : TMidasFile}
    {event : TMidasEvent} (read : Read system f = .ok (true, event, next)) :
    skimLoop system gEventCutoff i f fout = (do
      let event ← look event
      if gEventCutoff ≠ 0 ∧ gEventCutoff ≤ i + 1 then return fout
      else do
        let (written, fout) ← Write system fout event
        if !written then return fout else skimLoop system gEventCutoff (i + 1) next fout) := by
  rw [skimLoop]
  split
  · rename_i failed
    rw [read] at failed
    cases failed
  · rename_i failed
    rw [read] at failed
    cases failed
  · rename_i there
    rw [read] at there
    cases there
    rfl

/-- What the loop has read: events at the front of the file, each looked at without a fault, up to
something that is no event or to the cutoff. -/
structure Skimmed (system : System) (gEventCutoff i : ℤ) (unread : List Byte)
    (events : List RawEvent) : Prop where
  front : ∃ rest, unread = events.flatMap RawEvent.bytes ++ rest ∧
    (Progresses system → gEventCutoff = 0 ∨ i + events.length < gEventCutoff →
      ∀ raw more, rest ≠ RawEvent.bytes raw ++ more)
  looked : ∀ raw ∈ events, ∃ looked, look raw.event = .ok looked

theorem skimLoop_sound {system : System} (accepts : Accepts system) {gEventCutoff i : ℤ}
    {f fout final : TMidasFile} (native : f.fDoByteSwap = false)
    (ran : skimLoop system gEventCutoff i f fout = .ok final) :
    ∃ events, Skimmed system gEventCutoff i f.fFile.unread events ∧
      final.fOutFile.bytes =
        fout.fOutFile.bytes ++ (copied gEventCutoff i events).flatMap RawEvent.written := by
  fun_induction skimLoop system gEventCutoff i f fout with
  | case1 i f fout fault failed => cases ran
  | case2 i f fout event next ended =>
    cases ran
    refine ⟨[], ⟨⟨f.fFile.unread, rfl, ?_⟩, by simp⟩, by simp [copied]⟩
    intro progress _ raw more front
    obtain ⟨after, read, -⟩ := Read_of_raw progress native raw front
    rw [ended] at read
    cases read
  | case3 i f fout event next read ih =>
    obtain ⟨raw, rfl, front, still⟩ := Read_sound native read
    obtain ⟨looked, look, ran⟩ := Except.bind_eq_ok_iff.mp ran
    obtain ⟨header, data⟩ := look_keeps look
    split at ran
    · rename_i reached
      cases ran
      have none : (gEventCutoff - 1 - i).toNat = 0 := by omega
      refine ⟨[raw], ⟨⟨next.fFile.unread, by simpa using front, ?_⟩, by simpa using ⟨looked, look⟩⟩, ?_⟩
      · rintro - (unlimited | later)
        · exact absurd unlimited reached.1
        · rw [List.length_singleton] at later
          omega
      · rw [copied, if_neg reached.1, none, List.take_zero, List.flatMap_nil, List.append_nil]
    · rename_i goesOn
      obtain ⟨after, written, bytes⟩ := Write_of_raw accepts fout raw
      rw [Write_congr fout header data, written, Except.ok_bind] at ran
      obtain ⟨events, ⟨⟨rest, behind, ended⟩, looks⟩, output⟩ := ih after still ran
      refine ⟨raw :: events, ⟨⟨rest, ?_, ?_⟩, List.forall_mem_cons.mpr ⟨⟨looked, look⟩, looks⟩⟩, ?_⟩
      · rw [front, behind, List.flatMap_cons, List.append_assoc]
      · intro progress more
        refine ended progress (more.imp_right fun later => ?_)
        rw [List.length_cons] at later
        push_cast at later
        omega
      · rw [output, bytes, copied_cons goesOn, List.flatMap_cons, List.append_assoc]

/-- The copy of a file has the events that were read, without the one that reached the cutoff,
in native byte order. -/
theorem ProcessMidasFile_copies {system : System} (accepts : Accepts system) {gEventCutoff : ℤ}
    {input output : List Byte} (ran : ProcessMidasFile system gEventCutoff input = .ok output) :
    ∃ events, Skimmed system gEventCutoff 0 input events ∧
      output = (copied gEventCutoff 0 events).flatMap RawEvent.written := by
  obtain ⟨final, loop, done⟩ := Except.bind_eq_ok_iff.mp ran
  cases done
  obtain ⟨events, skimmed, bytes⟩ := skimLoop_sound accepts rfl loop
  exact ⟨events, skimmed, bytes⟩

/-- Data as they are in a file, and in native byte order: native banks, banks of the other
byte order, or a text. -/
inductive Kind : List Byte → List Byte → Prop where
  | native (banks : BankEvent) (low : banks.flags < 0x10000) :
    Kind (banks.encode .native) (banks.encode .native)
  | foreign (banks : BankEvent) (plain : ∀ entry ∈ banks.entries, entry.stray = [])
      (some : 0 < banks.flags)
      (low : banks.flags < 0x10000) : Kind (banks.encode .foreign) (banks.encode .native)
  | text (data : List Byte) (long : 8 ≤ data.length) (good : data.length ≤ maxEventSize)
      (text : ∀ first ∈ data.head?, 0x20 ≤ first.toNat) : Kind data data

/-- In native byte order they stay as they are. -/
theorem Kind.settled {data native : List Byte} (kind : Kind data native) :
    toNative native = some native := by
  cases kind with
  | native banks low => exact toNative_native banks low
  | foreign banks plain some low => exact toNative_native banks low
  | text data long good text => exact toNative_of_text long good text

/-- The event as it is read from the copy. -/
def again (raw : RawEvent) (settled : toNative raw.native = some raw.native) : RawEvent :=
  ⟨raw.header, raw.native, raw.native, raw.native_size, raw.good, settled⟩

theorem skimLoop_end {system : System} {f next : TMidasFile} {event : TMidasEvent}
    (read : Read system f = .ok (false, event, next)) (gEventCutoff i : ℤ) (fout : TMidasFile) :
    skimLoop system gEventCutoff i f fout = .ok fout := by
  rw [skimLoop]
  split
  · rename_i failed
    rw [read] at failed
    cases failed
  · rfl
  · rename_i there
    rw [read] at there
    cases there

/-- Without a cutoff a file of events is copied whole. -/
theorem skimLoop_whole {system : System} (progress : Progresses system) (accepts : Accepts system)
    {events : List RawEvent} (looks : ∀ raw ∈ events, ∃ looked, look raw.event = .ok looked)
    (i : ℤ) (f fout : TMidasFile) (native : f.fDoByteSwap = false)
    (layout : f.fFile.unread = events.flatMap RawEvent.bytes) :
    ∃ final, skimLoop system 0 i f fout = .ok final ∧
      final.fOutFile.bytes = fout.fOutFile.bytes ++ events.flatMap RawEvent.written := by
  induction events generalizing i f fout with
  | nil =>
    obtain ⟨event, next, read⟩ := Read_of_end progress layout
    exact ⟨fout, skimLoop_end read 0 i fout, by simp⟩
  | cons raw events ih =>
    obtain ⟨⟨looked, look⟩, looks⟩ := List.forall_mem_cons.mp looks
    obtain ⟨next, read, left, still⟩ := Read_of_raw progress native raw layout
    obtain ⟨after, written, bytes⟩ := Write_of_raw accepts fout raw
    obtain ⟨header, data⟩ := look_keeps look
    obtain ⟨final, ran, output⟩ := ih looks (i + 1) next after still left
    refine ⟨final, ?_, by rw [output, bytes, List.flatMap_cons, List.append_assoc]⟩
    have unlimited : ¬((0 : ℤ) ≠ 0 ∧ (0 : ℤ) ≤ i + 1) := fun both => both.1 rfl
    rw [skimLoop_read read, look, Except.ok_bind, if_neg unlimited, Write_congr fout header data,
      written]
    exact ran

theorem ProcessMidasFile_whole {system : System} (progress : Progresses system)
    (accepts : Accepts system) {events : List RawEvent}
    (looks : ∀ raw ∈ events, ∃ looked, look raw.event = .ok looked) :
    ProcessMidasFile system 0 (events.flatMap RawEvent.bytes) =
      .ok (events.flatMap RawEvent.written) := by
  obtain ⟨final, loop, bytes⟩ := skimLoop_whole progress accepts looks 0
    (.opened (events.flatMap RawEvent.bytes)) (.opened []) rfl rfl
  rw [ProcessMidasFile, loop, Except.ok_bind]
  exact congrArg Except.ok bytes

/-- The bytes in front of a file are those of one event at most. -/
theorem front_unique {raw other : RawEvent} {rest more : List Byte}
    (same : raw.bytes ++ rest = other.bytes ++ more) :
    raw = other ∧ rest = more := by
  rw [RawEvent.bytes, RawEvent.bytes, List.append_assoc, List.append_assoc] at same
  obtain ⟨headers, behind⟩ :=
    List.append_inj same (by rw [EventHeader.bytes_length, EventHeader.bytes_length])
  have header : raw.header = other.header := by
    rw [← EventHeader.ofBytes_bytes raw.header, headers, EventHeader.ofBytes_bytes]
  obtain ⟨data, rest⟩ := List.append_inj behind (by rw [← raw.size, ← other.size, header])
  have native : raw.native = other.native := by
    have swapped := raw.swapped
    rw [data, other.swapped] at swapped
    exact (Option.some.inj swapped).symm
  refine ⟨?_, rest⟩
  cases raw
  cases other
  simp only [RawEvent.mk.injEq]
  exact ⟨header, data, native⟩

/-- Events that are read are the first ones that the file holds. -/
theorem front_prefix {read events : List RawEvent} {rest tail : List Byte}
    (same : read.flatMap RawEvent.bytes ++ rest = events.flatMap RawEvent.bytes ++ tail)
    (ended : ∀ raw more, tail ≠ RawEvent.bytes raw ++ more) : read <+: events := by
  induction read generalizing events with
  | nil => exact List.nil_prefix
  | cons raw read ih =>
    rw [List.flatMap_cons, List.append_assoc] at same
    cases events with
    | nil => exact absurd same.symm (ended raw _)
    | cons event events =>
      rw [List.flatMap_cons, List.append_assoc] at same
      obtain ⟨rfl, behind⟩ := front_unique same
      exact List.cons_prefix_cons.mpr ⟨rfl, ih behind⟩

theorem copied_subset (gEventCutoff i : ℤ) (events : List RawEvent) :
    copied gEventCutoff i events ⊆ events := by
  rw [copied]
  split
  · exact List.Subset.refl _
  · exact List.take_subset _ _

/-- The copy of a file with native banks, banks of the other byte order and texts is its own copy,
whatever the cutoff was and whatever lies behind these events. -/
theorem ProcessMidasFile_again {system : System} (progress : Progresses system)
    (accepts : Accepts system) {gEventCutoff : ℤ} (events : List RawEvent) (tail : List Byte)
    {output : List Byte} (kinds : ∀ raw ∈ events, Kind raw.data raw.native)
    (ended : ∀ raw more, tail ≠ RawEvent.bytes raw ++ more)
    (ran : ProcessMidasFile system gEventCutoff (events.flatMap RawEvent.bytes ++ tail) =
      .ok output) :
    ProcessMidasFile system 0 output = .ok output := by
  obtain ⟨final, loop, done⟩ := Except.bind_eq_ok_iff.mp ran
  cases done
  obtain ⟨read, ⟨⟨rest, front, -⟩, looks⟩, bytes⟩ := skimLoop_sound accepts rfl loop
  have output : final.fOutFile.bytes = (copied gEventCutoff 0 read).flatMap RawEvent.written := bytes
  have first := front_prefix front.symm ended
  have settled : ∀ raw ∈ copied gEventCutoff 0 read, toNative raw.native = some raw.native :=
    fun raw mem =>
    (kinds raw (first.subset (copied_subset _ _ _ mem))).settled
  -- The copy is the file of the events as they are read from it.
  have looks : ∀ raw ∈ (copied gEventCutoff 0 read).pmap again settled, ∃ looked,
      look raw.event = .ok looked := by
    intro raw mem
    obtain ⟨original, there, rfl⟩ := List.mem_pmap.mp mem
    exact looks original (copied_subset _ _ _ there)
  have readable : ((copied gEventCutoff 0 read).pmap again settled).flatMap RawEvent.bytes =
      (copied gEventCutoff 0 read).flatMap RawEvent.written := by
    rw [List.flatMap_def, List.map_pmap]
    exact congrArg List.flatten (List.pmap_eq_map (f := RawEvent.written) settled)
  have written : ((copied gEventCutoff 0 read).pmap again settled).flatMap RawEvent.written =
      (copied gEventCutoff 0 read).flatMap RawEvent.written := by
    rw [List.flatMap_def, List.map_pmap]
    exact congrArg List.flatten (List.pmap_eq_map (f := RawEvent.written) settled)
  have whole := ProcessMidasFile_whole progress accepts looks
  rw [readable, written] at whole
  rwa [output]

/-- A system that reads one to three bytes at once. -/
def slowReads : System where
  read call := .ok (call % 3 + 1)
  write _ length := .ok length
  strerror _ := ""
  malloc _ := 0

theorem slowReads_progress : Progresses slowReads := fun call => ⟨call % 3 + 1, rfl, Nat.succ_pos _⟩

/-- The begin of a run, with a text. -/
def beginOfRun : RawEvent :=
  ⟨⟨0x8000, 0, 0, 0, 8⟩, [0x3c, 0x3f, 0x78, 0x6d, 0x6c, 0x3e, 0x0a, 0x00],
    [0x3c, 0x3f, 0x78, 0x6d, 0x6c, 0x3e, 0x0a, 0x00],
    by decide, by decide, toNative_of_text (by decide) (by decide) (by decide)⟩

/-- A bank event of the other byte order, and a text, under the identifiers of the end
and the begin of a run. -/
def mixedEvents : List RawEvent :=
  [⟨⟨0x8001, 0, 7, 0, 24⟩, wordBank.encode .foreign, wordBank.encode .native,
      by rw [BankEvent.encode_length]; decide, by
        decide, toNative_encode wordBank (by decide) (by decide) (by decide)⟩,
    beginOfRun]

theorem mixedEvents_skim : ProcessMidasFile slowReads 0 (mixedEvents.flatMap RawEvent.bytes ++ []) =
    .ok (mixedEvents.flatMap RawEvent.written) := by
  rw [List.append_nil]
  apply ProcessMidasFile_whole slowReads_progress fun _ _ => rfl
  simp [mixedEvents, beginOfRun, look, RawEvent.event, TMidasEvent.fresh]

theorem ProcessMidasFile_copies_mixed :
    ∃ events, Skimmed slowReads 0 0 (mixedEvents.flatMap RawEvent.bytes ++ []) events ∧
      mixedEvents.flatMap RawEvent.written = (copied 0 0 events).flatMap RawEvent.written :=
  ProcessMidasFile_copies (fun _ _ => rfl) mixedEvents_skim

theorem ProcessMidasFile_again_mixed :
    ProcessMidasFile slowReads 0 (mixedEvents.flatMap RawEvent.written) =
      .ok (mixedEvents.flatMap RawEvent.written) := by
  refine ProcessMidasFile_again slowReads_progress
    (fun _ _ => rfl) mixedEvents [] ?_ ?_ mixedEvents_skim
  · refine List.forall_mem_cons.mpr ⟨.foreign wordBank (by decide) (by decide) (by decide), ?_⟩
    exact List.forall_mem_singleton.mpr (.text _ (by decide) (by decide) (by decide))
  · intro raw more front
    have lengths := congrArg List.length front
    rw [List.length_append, raw.bytes_length, List.length_nil] at lengths
    omega

variable {system : System} {gEventCutoff : ℤ} {outname : String}

theorem ProcessMidasFile_nothing (progress : Progresses system) :
    ProcessMidasFile system gEventCutoff [] = .ok [] := by
  have empty : (opened []).fFile.unread = [] := rfl
  obtain ⟨event, next, read⟩ := Read_of_end progress empty
  rw [ProcessMidasFile, skimLoop_end read, Except.ok_bind]
  rfl

theorem processNamed_some {files : Files} {fname : String} {bytes : List Byte}
    (there : files fname = some bytes) :
    processNamed system gEventCutoff outname files fname = (do
      let output ← ProcessMidasFile system gEventCutoff (if fname = outname then [] else bytes)
      return Function.update files outname (some output)) := by
  rw [processNamed, there]

/-- A step writes no other file than the output, and does not remove it. -/
theorem processNamed_files {files final : Files} {fname : String}
    (ran : processNamed system gEventCutoff outname files fname = .ok final) :
    (∀ name ≠ outname, final name = files name) ∧
      ((files outname).isSome ∨ (files fname).isSome → (final outname).isSome) := by
  cases there : files fname with
  | none =>
    rw [processNamed, there] at ran
    cases ran
    exact ⟨fun _ _ => rfl, fun before => before.elim id fun here => absurd here (by simp)⟩
  | some bytes =>
    rw [processNamed_some there] at ran
    obtain ⟨output, -, done⟩ := Except.bind_eq_ok_iff.mp ran
    cases done
    exact ⟨fun name other => Function.update_of_ne other _ _, fun _ => by
      rw [Function.update_self]; rfl⟩

theorem main_files {files final : Files} {args : List String}
    (ran : main system gEventCutoff outname args files = .ok final) :
    (∀ name ≠ outname, final name = files name) ∧
      ((files outname).isSome ∨ (∃ arg ∈ args, (files arg).isSome) → (final outname).isSome) := by
  induction args generalizing files with
  | nil =>
    cases ran
    exact ⟨fun _ _ => rfl, fun before => before.elim id fun ⟨_, mem, _⟩ => absurd mem List.not_mem_nil⟩
  | cons arg args ih =>
    obtain ⟨next, step, rest⟩ := Except.bind_eq_ok_iff.mp ran
    obtain ⟨same, made⟩ := processNamed_files step
    obtain ⟨later, stays⟩ := ih rest
    refine ⟨fun name other => (later name other).trans (same name other), fun before => stays ?_⟩
    by_cases out : (next outname).isSome
    · exact .inl out
    · right
      obtain there | ⟨input, mem, there⟩ := before
      · exact absurd (made (.inl there)) out
      · rcases List.mem_cons.mp mem with rfl | mem
        · exact absurd (made (.inr there)) out
        · by_cases own : input = outname
          · subst own
            exact absurd (made (.inl there)) out
          · exact ⟨input, mem, by rwa [same input own]⟩

theorem main_concat {files final : Files} {earlier : List String} {last : String}
    (ran : main system gEventCutoff outname (earlier ++ [last]) files = .ok final) :
    ∃ middle, main system gEventCutoff outname earlier files = .ok middle ∧
      processNamed system gEventCutoff outname middle last = .ok final := by
  rw [main, List.foldlM_append] at ran
  obtain ⟨middle, first, step⟩ := Except.bind_eq_ok_iff.mp ran
  obtain ⟨after, step, done⟩ := Except.bind_eq_ok_iff.mp step
  cases done
  exact ⟨middle, first, step⟩

/-- No file but the output is written. The output is the copy of the last file, if that can be
opened; when the last name is the one of the output itself, the output ends up empty. -/
theorem main_output (progress : Progresses system) {files final : Files} (earlier : List String)
    (last : String) (ran : main system gEventCutoff outname (earlier ++ [last]) files = .ok final) :
    (∀ name ≠ outname, final name = files name) ∧
      (last ≠ outname → ∀ bytes, files last = some bytes →
        ∃ output, ProcessMidasFile system gEventCutoff bytes = .ok output ∧
          final outname = some output) ∧
      (last = outname → (∃ arg ∈ earlier ++ [last], (files arg).isSome) → final outname = some []) := by
  obtain ⟨middle, first, step⟩ := main_concat ran
  obtain ⟨same, made⟩ := main_files first
  refine ⟨(main_files ran).1, ?_, ?_⟩
  · intro other bytes there
    rw [processNamed_some ((same last other).trans there), if_neg other] at step
    obtain ⟨output, copies, done⟩ := Except.bind_eq_ok_iff.mp step
    cases done
    exact ⟨output, copies, Function.update_self ..⟩
  · rintro rfl ⟨arg, mem, there⟩
    have exists_last : (middle last).isSome := by
      rcases List.mem_append.mp mem with mem | mem
      · exact made (.inr ⟨arg, mem, there⟩)
      · rw [List.mem_singleton.mp mem] at there
        exact made (.inl there)
    obtain ⟨bytes, here⟩ := Option.isSome_iff_exists.mp exists_last
    rw [processNamed_some here, if_pos rfl, ProcessMidasFile_nothing progress, Except.ok_bind] at step
    cases step
    exact Function.update_self ..

/-- There is one file. -/
def oneRun : Files := fun name =>
  if name = "run.mid" then some (mixedEvents.flatMap RawEvent.bytes ++ []) else none

theorem oneRun_main : main slowReads 0 "skim.mid" (["run.mid"] ++ ["skim.mid"]) oneRun =
    .ok (Function.update
      (Function.update oneRun "skim.mid" (some (mixedEvents.flatMap RawEvent.written))) "skim.mid"
      (some [])) := by
  have copies : processNamed slowReads 0 "skim.mid" oneRun "run.mid" =
      .ok (Function.update oneRun "skim.mid" (some (mixedEvents.flatMap RawEvent.written))) := by
    rw [processNamed_some (show oneRun "run.mid" = some _ from rfl), if_neg (by decide),
      mixedEvents_skim]
    rfl
  have empties (files : Files) (bytes : List Byte) :
      processNamed slowReads 0 "skim.mid" (Function.update files "skim.mid" (some bytes)) "skim.mid" =
        .ok (Function.update (Function.update files "skim.mid" (some bytes)) "skim.mid" (some [])) := by
    rw [processNamed_some (Function.update_self ..), if_pos rfl,
      ProcessMidasFile_nothing slowReads_progress]
    rfl
  rw [main, List.cons_append, List.nil_append, List.foldlM_cons, copies, Except.ok_bind,
    List.foldlM_cons, empties]
  rfl

/-- The name behind `-o` is the last argument. -/
theorem main_output_emptied :
    Function.update (Function.update oneRun "skim.mid"
      (some (mixedEvents.flatMap RawEvent.written))) "skim.mid"
      (some []) "skim.mid" = some [] :=
  (main_output slowReads_progress ["run.mid"] "skim.mid" oneRun_main).2.2 rfl ⟨"run.mid", by simp, rfl⟩

end EventSkim

end PtfConverter.Midas
