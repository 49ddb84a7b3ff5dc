import Mathlib.Logic.Function.Basic
import PtfConverter.Model.MidasFile

/-! # event_skim: copying the events of a file

The program reads the events of a file, looks for the trigger bank of each, and writes the events to
another file. A cutoff ends the loop before the event that reaches it is written. Every argument that
is not an option is a file to read, the name behind `-o` too, and all are written to that name.
-/

namespace PtfConverter.Midas

/-- However the operating system answers, `readpipe` has taken some bytes from the front, and either
says how many or reports an error. -/
theorem readpipe_taken (system : System) (fd : Input) (length count : ℕ) (buf : List Byte) :
    ∃ taken ≤ fd.unread.length, (readpipe system fd length count buf).fd.unread = fd.unread.drop taken ∧
      (readpipe system fd length count buf).buf = buf ++ fd.unread.take taken ∧
      ((readpipe system fd length count buf).rd = -1 ∨
        (readpipe system fd length count buf).rd = (count + taken : ℕ)) := by
  fun_induction readpipe system fd length count buf with
  | case1 fd length count buf more errno failed => exact ⟨0, Nat.zero_le _, by simp⟩
  | case2 fd length count buf more offered answer rd next got ih =>
    obtain ⟨taken, enough, left, filled, result⟩ := ih
    have here : rd ≤ fd.unread.length := by omega
    have rest : next.unread = fd.unread.drop rd := rfl
    rw [rest, List.length_drop] at enough
    rw [rest] at left filled
    refine ⟨rd + taken, by omega, ?_, ?_, ?_⟩
    · rw [left, List.drop_drop]
    · rw [filled, List.append_assoc, ← List.take_add]
    · rwa [Nat.add_assoc] at result
  | case3 fd length count buf more offered answer rd next none =>
    have zero : rd = 0 := by omega
    have same : next.unread = fd.unread := by
      change fd.unread.drop rd = fd.unread
      rw [zero, List.drop_zero]
    exact ⟨0, Nat.zero_le _, by simp [same]⟩
  | case4 fd length count buf none => exact ⟨0, Nat.zero_le _, by simp⟩

namespace TMidasFile

/-- What a successful `Read` has taken: a header, and as many bytes as it says, which were swapped. -/
structure Taken (file : TMidasFile) (event : TMidasEvent) (next : TMidasFile)
    (head data : List Byte) : Prop where
  width : head.length = 16
  layout : file.fFile.unread = head ++ (data ++ next.fFile.unread)
  good : event.fEventHeader.IsGoodSize
  size : event.fEventHeader.fDataSize.toNat = data.length
  header : event.fEventHeader =
    if file.fDoByteSwap then
      (EventHeader.ofBytes head).SwapBytesEventHeader else EventHeader.ofBytes head
  swapped : (SwapBytes (.strict data) event.fEventHeader.fDataSize false).map Prod.fst = .ok event.fData
  fresh : event = .fresh event.fEventHeader event.fData
  order : next.fDoByteSwap = file.fDoByteSwap

theorem Read_taken {system : System} {file next : TMidasFile} {event : TMidasEvent}
    (read : Read system file = .ok (true, event, next)) :
    ∃ head data, Taken file event next head data := by
  obtain ⟨first, enough, left, filled, result⟩ := readpipe_taken system file.fFile 16 0 []
  rw [List.nil_append] at filled
  unfold Read at read
  dsimp only at read
  by_cases none : (readpipe system file.fFile 16 0 []).rd = 0
  · rw [if_pos none] at read
    cases read
  · rw [if_neg none] at read
    by_cases short : (readpipe system file.fFile 16 0 []).rd ≠ 16
    · rw [if_pos short] at read
      cases read
    · rw [if_neg short] at read
      have sixteen : first = 16 := by omega
      subst sixteen
      have length : (file.fFile.unread.take 16).length = 16 := by
        rw [List.length_take]
        omega
      rw [filled, length, Nat.sub_self, List.replicate_zero, List.append_nil] at read
      generalize hdr : (if file.fDoByteSwap then
        (EventHeader.ofBytes (file.fFile.unread.take 16)).SwapBytesEventHeader
        else EventHeader.ofBytes (file.fFile.unread.take 16)) = fEventHeader at read
      by_cases good : fEventHeader.IsGoodSize
      · rw [if_neg (not_not_intro good)] at read
        obtain ⟨size, there, behind, data, count⟩ :=
          readpipe_taken system
            (readpipe system file.fFile 16 0 []).fd fEventHeader.fDataSize.toNat 0 []
        rw [left] at there behind data
        rw [List.nil_append] at data
        by_cases cut : (readpipe system
            (readpipe system file.fFile 16 0 []).fd fEventHeader.fDataSize.toNat 0 []).rd ≠
            fEventHeader.fDataSize.toInt
        · rw [if_pos cut] at read
          cases read
        · rw [if_neg cut] at read
          -- The size is positive as a number with a sign too.
          have signed : fEventHeader.fDataSize.toInt = fEventHeader.fDataSize.toNat := by
            have bound := good.2
            rw [BitVec.toInt_eq_toNat_of_lt (by omega)]
          have all : size = fEventHeader.fDataSize.toNat := by omega
          have dataLength : ((file.fFile.unread.drop 16).take size).length = size :=
            List.length_take_of_le there
          rw [data, dataLength, all, Nat.sub_self, List.range_zero, List.map_nil, List.append_nil,
            ← all] at read
          obtain ⟨⟨memory, code⟩, swapped, done⟩ := Except.bind_eq_ok_iff.mp read
          cases done
          refine ⟨file.fFile.unread.take 16, (file.fFile.unread.drop 16).take size, length, ?_,
            good, ?_, hdr.symm, ?_,
            rfl, rfl⟩
          · change _ = _ ++ (_ ++ (readpipe system _ size 0 []).fd.unread)
            rw [all, behind, ← all, List.take_append_drop, List.take_append_drop]
          · rw [dataLength, all]
            rfl
          · change (SwapBytes _ fEventHeader.fDataSize false).map Prod.fst = _
            rw [swapped]
            rfl
      · rw [if_pos good] at read
        cases read

/-- A successful `Read` takes something. -/
theorem Read_shrinks {system : System} {file next : TMidasFile} {event : TMidasEvent}
    (read : Read system file = .ok (true, event, next)) :
    next.fFile.unread.length < file.fFile.unread.length := by
  obtain ⟨head, data, taken⟩ := Read_taken read
  have width := taken.width
  rw [taken.layout, List.length_append, List.length_append]
  omega

end TMidasFile

namespace EventSkim

/-- "OMCM". -/
def fBank : Name := #v[0x4F, 0x4D, 0x43, 0x4D]

/-- What is printed about the trigger of an event. -/
structure Trigger where
  eventNum : BitVec 32
  spillNum : BitVec 32
  trigBits : BitVec 32
deriving DecidableEq, Repr

/-- The trigger bank of an event, if it has one. -/
def HandleMidasEvent (event : TMidasEvent) : Except Fault (Option Trigger) := do
  match ← FindBank event.fData fBank with
  | none => return none
  | some found => do
      let eventNum ← event.fData.uint32 (found.pdata + 4)
      let word ← event.fData.uint32 (found.pdata + 8)
      return some ⟨eventNum, word &&& 0xFFFF, (word >>> 16) &&& 0xFFFF⟩

/-- What the loop does with an event before it is written: begin-of-run and end-of-run events are
printed, the others get a bank list. -/
def look (event : TMidasEvent) : Except Fault TMidasEvent :=
  if event.fEventHeader.fEventId = 0x8000 ∨ event.fEventHeader.fEventId = 0x8001 then .ok event
  else do
    let (event, _) ← SetBankList event
    let _ ← HandleMidasEvent event
    return event

/-- The loop of `ProcessMidasFile`, with the number of events so far. -/
def skimLoop (system : System) (gEventCutoff : ℤ) (i : ℤ) (f fout : TMidasFile) :
    Except Fault TMidasFile :=
  match _read : TMidasFile.Read system f with
  | .error fault => .error fault
  | .ok (false, _, _) => .ok fout
  | .ok (true, event, f') => do
      let event ← look event
      if gEventCutoff ≠ 0 ∧ gEventCutoff ≤ i + 1 then return fout
      else do
        let (written, fout) ← TMidasFile.Write system fout event
        if !written then return fout else skimLoop system gEventCutoff (i + 1) f' fout
termination_by f.fFile.unread.length
decreasing_by exact TMidasFile.Read_shrinks _read

/-- `ProcessMidasFile` on two open files: the bytes of the output file. -/
def ProcessMidasFile (system : System) (gEventCutoff : ℤ) (input : List Byte) :
    Except Fault (List Byte) := do
  let fout ← skimLoop system gEventCutoff 0 (.opened input) (.opened [])
  return fout.fOutFile.bytes

/-- The files by their names. -/
abbrev Files := String → Option (List Byte)

/-- `ProcessMidasFile` with the names: an input that cannot be opened is left out, and opening
the output empties it. -/
def processNamed (system : System) (gEventCutoff : ℤ) (foutname : String) (files : Files)
    (fname : String) :
    Except Fault Files :=
  match files fname with
  | none => .ok files
  | some bytes => do
      let input := if fname = foutname then [] else bytes
      let output ← ProcessMidasFile system gEventCutoff input
      return Function.update files foutname (some output)

/-- The loop of `main` over the arguments that are no options. -/
def main (system : System) (gEventCutoff : ℤ) (outname : String) (args : List String) (files : Files) :
    Except Fault Files :=
  args.foldlM (processNamed system gEventCutoff outname) files

end EventSkim

end PtfConverter.Midas
