import PtfConverter.Model.RunControl
import PtfConverter.ToMathlib.Agreement
import PtfConverter.ToMathlib.Tables

/-! # The ROOT files of a list of MIDAS files

The events of a file are those before its first run and those of its runs. The user's code for a run
is called while the ROOT file of that run is open, and for the events before the first run while
none is. A ROOT file ends up with the last run of its name; with the default names, that is the last
run of its number, since the name gives back the number.
-/

namespace PtfConverter.Midas

variable {Class Decoded : Type} {classOf : Name → Class}

/-- A run in a file: its number, and the events behind its begin. -/
structure Run (classOf : Name → Class) where
  number : ℤ
  events : List (Occurrence classOf)

def beginsRun (occurrence : Occurrence classOf) : Bool :=
  occurrence.event.fEventHeader.fEventId == 0x8000

/-- The events before the first run, and the runs. -/
def runsOf : List (Occurrence classOf) → List (Occurrence classOf) × List (Run classOf)
  | [] => ([], [])
  | occurrence :: rest =>
      if beginsRun occurrence then
        ([], ⟨occurrence.event.fEventHeader.fSerialNumber.toInt, (runsOf rest).1⟩ :: (runsOf rest).2)
      else (occurrence :: (runsOf rest).1, (runsOf rest).2)

namespace RunSettings

/-- The ROOT file of a run, unless there are none. -/
def rootFile (loop : RunSettings) (fname : String) (run : Run classOf) : Option String :=
  if loop.fDisableRootOutput then none else some (loop.filename run.number fname)

def opening (file : Option String) : List (Action Class Decoded) :=
  match file with
  | some filename => [.opened filename]
  | none => []

/-- What happens from the first run of a file on; without a run, `EndRun` gets the
number of a run before. -/
def runsLog (loop : RunSettings) (fname : String) (current : ℤ) :
    List (Run classOf) → List (Action Class Decoded)
  | [] => [.EndRun 0 current 0]
  | run :: rest =>
      opening (loop.rootFile fname run) ++ .BeginRun 0 run.number 0 :: (run.events.flatMap loop.calls ++
        match rest with
        | [] => .EndRun 0 run.number 0 :: CloseRootFile (loop.rootFile fname run)
        | _ :: _ => CloseRootFile (loop.rootFile fname run) ++ runsLog loop fname run.number rest)

/-- The number of the last run. -/
def lastNumber (current : ℤ) (runs : List (Run classOf)) : ℤ :=
  (runs.getLast?.map Run.number).getD current

/-- What happens with all the files. -/
def filesLog (loop : RunSettings) (current : ℤ) : List (Argument classOf) → List (Action Class Decoded)
  | [] => []
  | argument :: rest =>
      match argument.file with
      | none => filesLog loop current rest
      | some events =>
          let (before, runs) := runsOf (loop.eventsRead 0 events)
          before.flatMap loop.calls ++ loop.runsLog argument.fname current runs ++
            filesLog loop (lastNumber current runs) rest

/-- What the end of a file adds, from an open ROOT file and a current run on. -/
def ending (loop : RunSettings) (fname : String) (file : Option String) (current : ℤ)
    (runs : List (Run classOf)) :
    List (Action Class Decoded) :=
  match runs with
  | [] => .EndRun 0 current 0 :: CloseRootFile file
  | _ :: _ => CloseRootFile file ++ loop.runsLog fname current runs

theorem runsLog_cons (loop : RunSettings) (fname : String) (current : ℤ) (run : Run classOf)
    (rest : List (Run classOf)) :
    (loop.runsLog fname current (run :: rest) : List (Action Class Decoded)) =
      opening (loop.rootFile fname run) ++ .BeginRun 0 run.number 0 ::
        (run.events.flatMap loop.calls ++ loop.ending fname
          (loop.rootFile fname run) run.number rest) := by
  cases rest <;> rfl

/-- A file that begins without an open ROOT file. -/
theorem ending_none (loop : RunSettings) (fname : String) (current : ℤ) (runs : List (Run classOf)) :
    (loop.ending fname none current runs : List (Action Class Decoded)) =
      loop.runsLog fname current runs := by
  cases runs <;> rfl

/-- Without ROOT output none is open. -/
structure Consistent (loop : RunSettings) (session : Session Class Decoded) : Prop where
  disabled : loop.fDisableRootOutput = true → session.fOutputFile = none

theorem OpenRootFile_eq {loop : RunSettings} {fname : String} {file : Option String}
    (consistent : loop.fDisableRootOutput = true → file = none) (run : Run classOf) :
    (loop.OpenRootFile run.number fname file : Option String × List (Action Class Decoded)) =
      (loop.rootFile fname run, CloseRootFile file ++ opening (loop.rootFile fname run)) := by
  rw [OpenRootFile, rootFile]
  split
  · rename_i disabled
    rw [consistent disabled]
    rfl
  · rfl

theorem rootFile_consistent (loop : RunSettings) (fname : String) (run : Run classOf)
    (container : TDataContainer Class Decoded) :
    loop.Consistent ⟨loop.rootFile fname run, run.number, container⟩ :=
  ⟨fun disabled => if_pos disabled⟩

variable {loop : RunSettings} {classes : BankClasses Class Decoded}

theorem readEvent_begins {fname : String} {self : Session Class Decoded}
    {occurrence : Occurrence classOf} (consistent : loop.Consistent self)
    (begins : beginsRun occurrence = true) (events : List (Occurrence classOf)) :
    let run : Run classOf := ⟨occurrence.event.fEventHeader.fSerialNumber.toInt, events⟩
    loop.readEvent classes fname self occurrence =
      .ok (⟨loop.rootFile fname run, run.number, self.fDataContainer⟩,
        CloseRootFile self.fOutputFile ++ opening
          (loop.rootFile fname run) ++ [.BeginRun 0 run.number 0]) := by
  intro run
  have opens : (loop.OpenRootFile run.number fname self.fOutputFile : Option String × List
      (Action Class Decoded)) =
      (loop.rootFile fname run, CloseRootFile self.fOutputFile ++ opening (loop.rootFile fname run)) :=
    OpenRootFile_eq consistent.disabled run
  rw [readEvent, if_pos (eq_of_beq begins)]
  change Except.ok (Session.mk
    (loop.OpenRootFile run.number fname self.fOutputFile : _ × List (Action Class Decoded)).1
    run.number _, (loop.OpenRootFile run.number fname self.fOutputFile).2 ++
      [.BeginRun 0 run.number 0]) = _
  rw [opens]

theorem readEvent_other {fname : String} {self next : Session Class Decoded}
    {occurrence : Occurrence classOf} {actions : List (Action Class Decoded)}
    (other : beginsRun occurrence = false)
    (read : loop.readEvent classes fname self occurrence = .ok (next, actions)) :
    actions = loop.calls occurrence ∧ next.fOutputFile = self.fOutputFile ∧
      next.fCurrentRunNumber = self.fCurrentRunNumber := by
  rw [readEvent, if_neg (ne_of_beq_false other)] at read
  obtain ⟨⟨container, handled⟩, -, done⟩ := Except.bind_eq_ok_iff.mp read
  cases done
  exact ⟨rfl, rfl, rfl⟩

/-- From any open ROOT file on, a file has the calls for its first events and then those of its
runs. -/
theorem run_readEvent {fname : String} {self final : Session Class Decoded}
    {events : List (Occurrence classOf)} {actions : List (Action Class Decoded)}
    (consistent : loop.Consistent self)
    (ran : Transducer.run (loop.readEvent classes fname) self events = .ok (final, actions)) :
    actions ++ .EndRun 0 final.fCurrentRunNumber 0 :: CloseRootFile final.fOutputFile =
        (runsOf events).1.flatMap loop.calls ++
          loop.ending fname self.fOutputFile self.fCurrentRunNumber (runsOf events).2 ∧
      final.fCurrentRunNumber = lastNumber self.fCurrentRunNumber (runsOf events).2 := by
  induction events generalizing self actions with
  | nil =>
    cases ran
    exact ⟨rfl, rfl⟩
  | cons occurrence rest ih =>
    obtain ⟨next, first, later, read, behind, rfl⟩ := Transducer.run_cons_ok_iff.mp ran
    cases begins : beginsRun occurrence with
    | true =>
      rw [readEvent_begins consistent begins (runsOf rest).1] at read
      cases read
      obtain ⟨log, number⟩ := ih (rootFile_consistent ..) behind
      refine ⟨?_, ?_⟩
      · rw [List.append_assoc, log, runsOf, if_pos begins, ending, runsLog_cons]
        simp only [List.flatMap_nil, List.nil_append, List.append_assoc, List.cons_append]
      · rw [number, runsOf, if_pos begins, lastNumber, lastNumber, List.getLast?_cons]
        cases (runsOf rest).2.getLast? <;> rfl
    | false =>
      obtain ⟨rfl, file, current⟩ := readEvent_other begins read
      have kept : loop.Consistent next := ⟨fun disabled => file.trans (consistent.disabled disabled)⟩
      obtain ⟨log, number⟩ := ih kept behind
      rw [file, current] at log
      rw [current] at number
      have other : runsOf (occurrence :: rest) = (occurrence :: (runsOf rest).1, (runsOf rest).2) := by
        rw [runsOf, if_neg (by rw [begins]; exact Bool.false_ne_true)]
      rw [other]
      refine ⟨?_, number⟩
      rw [List.append_assoc, log, List.flatMap_cons, List.append_assoc]

theorem ProcessMidasFile_log {argument : Argument classOf} {self final : Session Class Decoded}
    {actions : List (Action Class Decoded)} (closed : self.fOutputFile = none)
    (ran : loop.ProcessMidasFile classes self argument = .ok (final, actions)) :
    final.fOutputFile = none ∧ ∀ rest : List (Argument classOf),
      loop.filesLog self.fCurrentRunNumber (argument :: rest) =
        actions ++ loop.filesLog final.fCurrentRunNumber rest := by
  rw [ProcessMidasFile] at ran
  cases file : argument.file with
  | none =>
    rw [file] at ran
    cases ran
    refine ⟨closed, fun rest => ?_⟩
    rw [filesLog, file]
    rfl
  | some events =>
    rw [file] at ran
    obtain ⟨⟨last, before⟩, read, done⟩ := Except.bind_eq_ok_iff.mp ran
    cases done
    obtain ⟨log, number⟩ := run_readEvent ⟨fun _ => closed⟩ read
    rw [closed, ending_none] at log
    refine ⟨rfl, fun rest => ?_⟩
    rw [filesLog, file, log, number]

theorem run_ProcessMidasFile_log {arguments : List (Argument classOf)}
    {self final : Session Class Decoded} {actions : List (Action Class Decoded)}
    (closed : self.fOutputFile = none)
    (ran : Transducer.run (loop.ProcessMidasFile classes) self arguments = .ok (final, actions)) :
    final.fOutputFile = none ∧ actions = loop.filesLog self.fCurrentRunNumber arguments := by
  induction arguments generalizing self actions with
  | nil =>
    cases ran
    exact ⟨closed, rfl⟩
  | cons argument rest ih =>
    obtain ⟨next, first, later, read, behind, rfl⟩ := Transducer.run_cons_ok_iff.mp ran
    obtain ⟨still, log⟩ := ProcessMidasFile_log closed read
    obtain ⟨last, more⟩ := ih still behind
    exact ⟨last, by rw [log, more]⟩

theorem readEvent_agree {fname : String} {self : Session Class Decoded}
    (occurrence : Occurrence classOf) :
    Except.Agree (fun served plain => served.1.fDataContainer = plain.1)
      (loop.readEvent classes fname self occurrence)
      (loop.processEvent classes self.fDataContainer occurrence) := by
  rw [readEvent]
  dsimp only
  split
  · rename_i begins
    have elsewhere : loop.processed occurrence.event.fEventHeader.fEventId = false := by
      rw [TRootanaEventLoop.processed, begins]
      rfl
    rw [TRootanaEventLoop.processEvent, if_neg (by rw [elsewhere]; exact Bool.false_ne_true)]
    exact .ok rfl
  · cases loop.processEvent classes self.fDataContainer occurrence with
    | error failure => exact .error failure
    | ok served => exact .ok rfl

/-- The data container does not see the ROOT files. -/
theorem ExecuteLoop_container (loop : RunSettings) (classes : BankClasses Class Decoded)
    (arguments : List (Argument classOf)) :
    (loop.ExecuteLoop classes arguments).map (fun served => served.1.fDataContainer) =
      (loop.toTRootanaEventLoop.ExecuteLoop classes
        (arguments.map fun argument => argument.file.getD [])).map Prod.fst := by
  have reads (self : Session Class Decoded) (container : TDataContainer Class Decoded)
      (argument : Argument classOf)
      (same : self.fDataContainer = container) :
      Except.Agree (fun served plain => served.1.fDataContainer = plain.1)
        (loop.ProcessMidasFile classes self argument)
        (loop.toTRootanaEventLoop.ProcessMidasFile classes container (argument.file.getD [])) := by
    rw [ProcessMidasFile]
    cases argument.file with
    | none => exact .ok same
    | some events =>
      have agree := Transducer.run_agree_fst
        (R := fun (self : Session Class Decoded) (container : TDataContainer Class Decoded) =>
          self.fDataContainer = container)
        (f := loop.readEvent classes argument.fname) (g := loop.processEvent classes) id ?_ same
          (loop.eventsRead 0 events)
      · rw [List.map_id] at agree
        exact agree.bind_left fun _ _ same => .ok same
      · rintro self _ occurrence rfl
        exact readEvent_agree occurrence
  exact (Transducer.run_agree_fst
    (fun argument : Argument classOf => argument.file.getD []) reads rfl arguments).map_eq
    fun _ _ same => same

private theorem padded8_toList (run : ℤ) : ∃ zeros, (padded8 run).toList =
    (if run < 0 then ['-'] else []) ++ (List.replicate zeros '0' ++ Nat.toDigits 10 run.natAbs) := by
  refine ⟨8 - ((if run < 0 then "-" else "").length + (Nat.repr run.natAbs).length), ?_⟩
  rw [padded8, String.toList_append, String.toList_append, String.toList_ofList, Nat.toList_repr,
    List.append_assoc]
  split <;> rfl

/-- Zeros in front do not change a number. -/
private theorem natAbs_eq {run other : ℤ} {zeros others : ℕ}
    (same : List.replicate zeros '0' ++ Nat.toDigits 10 run.natAbs =
      List.replicate others '0' ++ Nat.toDigits 10 other.natAbs) :
    run.natAbs = other.natAbs := by
  have value (zeros n : ℕ) :
      Nat.ofDigitChars 10 (List.replicate zeros '0' ++ Nat.toDigits 10 n) 0 = n := by
    rw [Nat.ofDigitChars_append, Nat.ofDigitChars_replicate_zero, Nat.mul_zero,
      Nat.ofDigitChars_ten_toDigits]
  rw [← value zeros run.natAbs, same, value]

private theorem minus_not_mem (zeros n : ℕ) : '-' ∉ List.replicate zeros '0' ++ Nat.toDigits 10 n := by
  intro minus
  rcases List.mem_append.mp minus with zero | digit
  · exact absurd (List.eq_of_mem_replicate zero) (by decide)
  · exact absurd (Nat.isDigit_of_mem_toDigits (by decide) (by decide) digit) (by decide)

/-- The text gives back the number. -/
theorem padded8_injective : Function.Injective padded8 := by
  intro run other same
  obtain ⟨zeros, first⟩ := padded8_toList run
  obtain ⟨others, second⟩ := padded8_toList other
  rw [same, second] at first
  split at first
  · rename_i below
    split at first
    · have absolute := natAbs_eq (List.cons.inj first).2
      omega
    · exact absurd (first ▸ List.mem_cons_self) (minus_not_mem zeros run.natAbs)
  · rename_i above
    split at first
    · exact absurd (first.symm ▸ List.mem_cons_self) (minus_not_mem others other.natAbs)
    · have absolute := natAbs_eq first
      omega

/-- The events of a run that `ProcessMidasEvent` is called for. -/
def processedIn (loop : RunSettings) (events : List (Occurrence classOf)) : List TMidasEvent :=
  events.filterMap fun occurrence =>
    if loop.processed occurrence.event.fEventHeader.fEventId && occurrence.satisfied then
      some occurrence.event else none

/-- The ROOT files with the events whose histograms they have, and the open one with the events so
far. -/
structure Disk where
  files : String → Option (List TMidasEvent)
  pending : Option (String × List TMidasEvent)

/-- A file is empty when it is opened, whatever was there, and has its events when it is closed. -/
def Disk.act (disk : Disk) : Action Class Decoded → Disk
  | .opened filename => ⟨Function.update disk.files filename (some []), some (filename, [])⟩
  | .ProcessMidasEvent event =>
      { disk with pending := disk.pending.map fun (filename, events) => (filename, events ++ [event]) }
  | .closed _ =>
      match disk.pending with
      | some (filename, events) => ⟨Function.update disk.files filename (some events), none⟩
      | none => disk
  | _ => disk

/-- The files that are left. -/
def filesLeft (actions : List (Action Class Decoded)) : String → Option (List TMidasEvent) :=
  (actions.foldl Disk.act ⟨fun _ => none, none⟩).files

/-- The runs of all files. -/
def allRuns (loop : RunSettings) (arguments : List (Argument classOf)) : List (String × Run classOf) :=
  arguments.flatMap fun argument =>
    (runsOf (loop.eventsRead 0 (argument.file.getD []))).2.map (Prod.mk argument.fname)

/-- What a run leaves under a name. -/
def leaves (loop : RunSettings) (run : String × Run classOf) (name : String) :
    Option (Option (List TMidasEvent)) :=
  if loop.filename run.2.number run.1 = name then some (some (loop.processedIn run.2.events)) else none

theorem foldl_calls (disk : Disk) (occurrence : Occurrence classOf) :
    (loop.calls occurrence : List (Action Class Decoded)).foldl Disk.act disk =
      { disk with
        pending := disk.pending.map fun (filename, events) =>
          (filename, events ++ loop.processedIn [occurrence]) } := by
  have same : disk = { disk with
      pending := disk.pending.map fun (filename, events) => (filename, events ++ []) } := by
    simp
  rw [calls, processedIn, List.filterMap_cons, List.filterMap_nil]
  cases loop.processed occurrence.event.fEventHeader.fEventId with
  | false => exact same
  | true =>
    cases occurrence.satisfied with
    | false => exact same
    | true => rfl

theorem foldl_allCalls (disk : Disk) (events : List (Occurrence classOf)) :
    (events.flatMap loop.calls : List (Action Class Decoded)).foldl Disk.act disk =
      { disk with
        pending := disk.pending.map fun (filename, before) =>
          (filename, before ++ loop.processedIn events) } := by
  induction events generalizing disk with
  | nil => simp [processedIn]
  | cons occurrence rest ih =>
    have cons : loop.processedIn (occurrence :: rest) =
        loop.processedIn [occurrence] ++ loop.processedIn rest := by
      rw [processedIn, processedIn, processedIn, ← List.filterMap_append, List.singleton_append]
    rw [List.flatMap_cons, List.foldl_append, foldl_calls, ih, cons]
    cases disk.pending with
    | none => rfl
    | some pending => simp [List.append_assoc]

/-- The open file is closed behind its run. -/
theorem foldl_ending (fname name : String) (current : ℤ) (files : String → Option (List TMidasEvent))
    (filename : String) (events : List TMidasEvent) (rest : List (Run classOf)) :
    (loop.ending fname (some name) current rest : List (Action Class Decoded)).foldl Disk.act
        ⟨files, some (filename, events)⟩ =
      (loop.runsLog fname current rest : List (Action Class Decoded)).foldl Disk.act
        ⟨Function.update files filename (some events), none⟩ := by
  cases rest <;> rfl

theorem overwrite_leaves (files : String → Option (List TMidasEvent)) (run : String × Run classOf) :
    Table.overwrite files (loop.leaves run) =
      Function.update files (loop.filename run.2.number run.1)
        (some (loop.processedIn run.2.events)) := by
  funext name
  rw [Table.overwrite, leaves, Function.update_apply]
  split
  · rename_i same
    rw [if_pos same.symm]
    rfl
  · rename_i other
    rw [if_neg (Ne.symm other)]
    rfl

theorem foldl_runsLog (enabled : loop.fDisableRootOutput = false) (fname : String) (current : ℤ)
    (files : String → Option (List TMidasEvent)) (runs : List (Run classOf)) :
    (loop.runsLog fname current runs : List (Action Class Decoded)).foldl Disk.act ⟨files, none⟩ =
      ⟨Table.lastWrite loop.leaves (runs.map (Prod.mk fname)) files, none⟩ := by
  induction runs generalizing current files with
  | nil => rfl
  | cons run rest ih =>
    have root : loop.rootFile fname run = some (loop.filename run.number fname) := by
      rw [rootFile, if_neg (by rw [enabled]; exact Bool.false_ne_true)]
    have opened : Disk.act
        (Disk.act ⟨files, none⟩ (.opened (loop.filename run.number fname) : Action Class Decoded))
        (.BeginRun 0 run.number 0 : Action Class Decoded) =
          ⟨Function.update files (loop.filename run.number fname) (some []),
            some (loop.filename run.number fname, [])⟩ := rfl
    rw [runsLog_cons, root, opening, List.singleton_append, List.foldl_cons, List.foldl_cons,
      opened, List.foldl_append, foldl_allCalls]
    simp only [Option.map_some, List.nil_append]
    rw [foldl_ending, Function.update_idem, ih, List.map_cons, Table.lastWrite_cons, overwrite_leaves]

theorem foldl_filesLog (enabled : loop.fDisableRootOutput = false) (current : ℤ)
    (files : String → Option (List TMidasEvent)) (arguments : List (Argument classOf)) :
    (loop.filesLog current arguments : List (Action Class Decoded)).foldl Disk.act ⟨files, none⟩ =
      ⟨Table.lastWrite loop.leaves (loop.allRuns arguments) files, none⟩ := by
  induction arguments generalizing current files with
  | nil => rfl
  | cons argument rest ih =>
    have all : loop.allRuns (argument :: rest) =
        (runsOf (loop.eventsRead 0 (argument.file.getD []))).2.map
          (Prod.mk argument.fname) ++ loop.allRuns rest :=
      List.flatMap_cons
    rw [all, Table.lastWrite_append, filesLog]
    cases argument.file with
    | none => exact ih current files
    | some events =>
      dsimp only
      rw [List.append_assoc, List.foldl_append, List.foldl_append, foldl_allCalls, Option.map_none,
        foldl_runsLog enabled, ih]
      rfl

theorem lastWrite_leaves (runs : List (String × Run classOf)) (name : String) :
    Table.lastWrite loop.leaves runs (fun _ => none) name =
      (runs.filter fun run => loop.filename run.2.number run.1 = name).getLast?.map fun run =>
        loop.processedIn run.2.events := by
  have writes : runs.filterMap (loop.leaves · name) =
      (runs.filter fun run => loop.filename run.2.number run.1 = name).map fun run =>
        some (loop.processedIn run.2.events) := by
    rw [← List.filterMap_eq_map', List.filterMap_filter]
    refine List.filterMap_congr fun run _ => ?_
    rw [leaves]
    split
    · rename_i same
      rw [if_pos (decide_eq_true same)]
    · rename_i other
      rw [if_neg (mt of_decide_eq_true other)]
  rw [Table.lastWrite, writes, List.getLast?_map]
  cases (runs.filter fun run => loop.filename run.2.number run.1 = name).getLast? <;> rfl

/-- The default names of two runs differ as their numbers do. -/
theorem filename_eq_iff (byDefault : ∀ run fname, loop.SetFullOutputFileName run fname = "")
    (run other : ℤ)
    (fname name : String) : loop.filename run fname = loop.filename other name ↔ run = other := by
  have plain (run : ℤ) (fname : String) :
      loop.filename run fname = loop.fOutputFilename ++ padded8 run ++ ".root" := by
    rw [filename, byDefault, ite_self]
    rfl
  rw [plain, plain]
  constructor
  · intro same
    have texts := congrArg String.toList same
    simp only [String.toList_append] at texts
    exact padded8_injective
      (String.toList_inj.mp (List.append_cancel_left (List.append_cancel_right texts)))
  · rintro rfl
    rfl

/-- After the loop, each ROOT file has the events of the last run of its name. With the default
names that is the last run of its number, in whatever MIDAS file it was. -/
theorem ExecuteLoop_disk (enabled : loop.fDisableRootOutput = false)
    {arguments : List (Argument classOf)} {final : Session Class Decoded}
    {actions : List (Action Class Decoded)}
    (ran : loop.ExecuteLoop classes arguments = .ok (final, actions)) :
    (∀ name, filesLeft actions name =
      ((loop.allRuns arguments).filter fun run => loop.filename run.2.number run.1 =
        name).getLast?.map fun run =>
        loop.processedIn run.2.events) ∧
    ((∀ run fname, loop.SetFullOutputFileName run fname = "") → ∀ number,
      filesLeft actions (loop.filename number "") =
        ((loop.allRuns arguments).filter fun run => run.2.number = number).getLast?.map fun run =>
          loop.processedIn run.2.events) := by
  obtain ⟨-, log⟩ := run_ProcessMidasFile_log rfl ran
  have files : filesLeft actions =
      Table.lastWrite loop.leaves (loop.allRuns arguments) (fun _ => none) := by
    rw [filesLeft, log, foldl_filesLog enabled]
  refine ⟨fun name => by rw [files, lastWrite_leaves], fun byDefault number => ?_⟩
  have names (run : String × Run classOf) :
      decide (loop.filename run.2.number run.1 = loop.filename number "") =
        decide (run.2.number = number) :=
    decide_eq_decide.mpr (filename_eq_iff byDefault _ _ _ _)
  rw [files, lastWrite_leaves, List.filter_congr fun run _ => names run]

/-- What the loop does: the files are handled one after the other, a ROOT file is open exactly while
its run is, and none is left open. The data container works as without ROOT files. -/
theorem ExecuteLoop_runs (loop : RunSettings) (classes : BankClasses Class Decoded)
    (arguments : List (Argument classOf)) :
    (∀ {final : Session Class Decoded} {actions : List (Action Class Decoded)},
      loop.ExecuteLoop classes arguments = .ok (final, actions) →
        final.fOutputFile = none ∧ actions = loop.filesLog 0 arguments) ∧
    (loop.ExecuteLoop classes arguments).map (fun served => served.1.fDataContainer) =
      (loop.toTRootanaEventLoop.ExecuteLoop classes
        (arguments.map fun argument => argument.file.getD [])).map Prod.fst :=
  ⟨run_ProcessMidasFile_log rfl, ExecuteLoop_container loop classes arguments⟩

/-- An event without banks. -/
def numbered (fEventId : BitVec 16) (fSerialNumber : BitVec 32) : TMidasEvent :=
  ⟨⟨fEventId, 0, fSerialNumber, 0, 8⟩, .strict [0, 0, 0, 0, 0, 0, 0, 0], 0, none⟩

def occurs (fEventId : BitVec 16) (fSerialNumber : BitVec 32) : Occurrence fun _ : Name => () :=
  ⟨numbered fEventId fSerialNumber, [], true, []⟩

/-- Two files of run 12, each with an event. -/
def subruns : List (Argument fun _ : Name => ()) :=
  [⟨"run00012sub000.mid", some [occurs 0x8000 12, occurs 0 1]⟩,
    ⟨"run00012sub001.mid", some [occurs 0x8000 12, occurs 0 2]⟩]

def byDefault : RunSettings := ⟨⟨0, []⟩, false, "output", fun _ _ => ""⟩

/-- No bank is decoded. -/
def noBanks : BankClasses Unit Unit where
  dynamic_cast := fun _ _ => true
  construct := fun _ _ _ _ => .ok ()
  own := fun _ => rfl

theorem ExecuteLoop_disk_subruns :
    filesLeft (byDefault.filesLog 0 subruns : List (Action Unit Unit)) (byDefault.filename 12 "") =
      some [numbered 0 2] := by
  have ran : ∃ final, byDefault.ExecuteLoop noBanks subruns =
    .ok (final, byDefault.filesLog 0 subruns) := ⟨_, rfl⟩
  obtain ⟨final, ran⟩ := ran
  exact ((ExecuteLoop_disk rfl ran).2 (fun _ _ => rfl) 12).trans rfl

end RunSettings

end PtfConverter.Midas
