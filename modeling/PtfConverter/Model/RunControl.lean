import PtfConverter.Model.DataContainer

/-! # Runs and their ROOT files

The event loop opens a ROOT file when a run begins, and closes it behind the user's `EndRun`. From
MIDAS files it does so as it reads them. Online it is called by MIDAS for every event and every
transition, and, when the user's code waits for the windows, also while that code is running: the
calls nest, and a lock drops the events that come while another one is handled.
-/

namespace PtfConverter.Midas

variable {Class Decoded : Type}

/-- What the event loop does to its ROOT files, and the calls of the user's code: an
event is as it was read. -/
inductive Action (Class Decoded : Type) where
  | opened (filename : String)
  | closed (filename : String)
  | BeginRun (transition run time : ℤ)
  | EndRun (transition run time : ℤ)
  | PreFilter (event : TMidasEvent)
  | ProcessMidasEvent (event : TMidasEvent)
  | answered (answer : Answer Class Decoded)
  | CleanupEvent

/-- The settings of the event loop, with the name that the user may give to a ROOT file. -/
structure RunSettings extends TRootanaEventLoop where
  fDisableRootOutput : Bool
  fOutputFilename : String
  SetFullOutputFileName : ℤ → String → String

/-- `%08d`. -/
def padded8 (run : ℤ) : String :=
  let sign := if run < 0 then "-" else ""
  let digits := Nat.repr run.natAbs
  sign ++ String.ofList (List.replicate (8 - (sign.length + digits.length)) '0') ++ digits

/-- The open ROOT file, the current run and the data container. -/
structure Session (Class Decoded : Type) where
  fOutputFile : Option String
  fCurrentRunNumber : ℤ
  fDataContainer : TDataContainer Class Decoded

namespace RunSettings

/-- The name of a ROOT file. -/
def filename (loop : RunSettings) (run : ℤ) (midasFilename : String) : String :=
  let fullname := if midasFilename ≠ "" then loop.SetFullOutputFileName run midasFilename else ""
  if fullname ≠ "" then fullname else loop.fOutputFilename ++ padded8 run ++ ".root"

/-- The file that is open is written and closed. -/
def CloseRootFile (fOutputFile : Option String) : List (Action Class Decoded) :=
  match fOutputFile with
  | some filename => [.closed filename]
  | none => []

/-- The file that is open afterwards, and what is done. -/
def OpenRootFile (loop : RunSettings) (run : ℤ) (midasFilename : String) (fOutputFile : Option String) :
    Option String × List (Action Class Decoded) :=
  if loop.fDisableRootOutput then (fOutputFile, [])
  else (some (loop.filename run midasFilename),
    CloseRootFile fOutputFile ++ [.opened (loop.filename run midasFilename)])

variable {classOf : Name → Class}

/-- The user's code that is called for an event of a file. -/
def calls (loop : RunSettings) (occurrence : Occurrence classOf) : List (Action Class Decoded) :=
  if loop.processed occurrence.event.fEventHeader.fEventId then
    .PreFilter occurrence.event ::
      ((if occurrence.satisfied then [.ProcessMidasEvent occurrence.event] else []) ++ [.CleanupEvent])
  else []

/-- One event of `ProcessMidasFile`. -/
def readEvent (loop : RunSettings) (classes : BankClasses Class Decoded) (fname : String)
    (self : Session Class Decoded) (occurrence : Occurrence classOf) :
    Except Failure (Session Class Decoded × List (Action Class Decoded)) :=
  let header := occurrence.event.fEventHeader
  if header.fEventId = 0x8000 then
    let run := header.fSerialNumber.toInt
    let (fOutputFile, files) := loop.OpenRootFile run fname self.fOutputFile
    .ok (⟨fOutputFile, run, self.fDataContainer⟩, files ++ [.BeginRun 0 run 0])
  else do
    let (container, _) ← loop.processEvent classes self.fDataContainer occurrence
    return ({ self with fDataContainer := container }, loop.calls occurrence)

/-- A name of the command line, with the events of the file, if it can be opened. -/
structure Argument (classOf : Name → Class) where
  fname : String
  file : Option (List (Occurrence classOf))

def ProcessMidasFile (loop : RunSettings) (classes : BankClasses Class Decoded)
    (self : Session Class Decoded) (argument : Argument classOf) :
    Except Failure (Session Class Decoded × List (Action Class Decoded)) :=
  match argument.file with
  | none => .ok (self, [])
  | some events => do
      let (self, actions) ← Transducer.run (loop.readEvent classes argument.fname) self
        (loop.eventsRead 0 events)
      return ({ self with fOutputFile := none },
        actions ++ .EndRun 0 self.fCurrentRunNumber 0 :: CloseRootFile self.fOutputFile)

/-- `ExecuteLoop` on the files of the command line. -/
def ExecuteLoop (loop : RunSettings) (classes : BankClasses Class Decoded)
    (arguments : List (Argument classOf)) :
    Except Failure (Session Class Decoded × List (Action Class Decoded)) :=
  Transducer.run (loop.ProcessMidasFile classes) ⟨none, 0, .new⟩ arguments

end RunSettings

/-- User's code that has not returned yet. -/
inductive Frame where
  | PreFilter (event : TMidasEvent)
  | ProcessMidasEvent (event : TMidasEvent)
  | BeginRun
  | EndRun

/-- What comes from outside: an event or a transition from MIDAS; a request, or the return, of the
user's code; the end of the main loop. -/
inductive Signal (classOf : Name → Class) where
  | event (header : EventHeader) (data : List Byte)
  | starts (transition run time : ℤ)
  | stops (transition run time : ℤ)
  | asks (request : Request classOf)
  | returns (result : Bool)
  | quits

/-- The event loop online, with the calls of the user's code that have not returned,
the latest one first. -/
structure Online (Class Decoded : Type) extends Session Class Decoded where
  onlineEventLock : Bool
  numberConsSkipped : ℕ
  frames : List Frame
  quitting : Bool

/-- `SetData`, with the header that was copied before it. -/
def SetData (header : EventHeader) (size : BitVec 32) (data : List Byte) : Except Fault TMidasEvent :=
  let fEventHeader := { header with fDataSize := size }
  if ¬ fEventHeader.IsGoodSize then .error .assertion
  else do
    let (fData, _) ← SwapBytes (.strict data) size false
    return ⟨fEventHeader, fData, 0, none⟩

namespace Online

variable {classOf : Name → Class}

/-- Up to the call of `PreFilter`. -/
def onlineEventHandler (loop : RunSettings) (self : Online Class Decoded) (header : EventHeader)
    (data : List Byte) :
    Except Failure (Online Class Decoded × List (Action Class Decoded)) :=
  if self.onlineEventLock then .ok (self, [])
  else if !loop.fDisableRootOutput ∧ self.fOutputFile.isNone then
    .ok ({ self with numberConsSkipped := self.numberConsSkipped + 1 }, [])
  else do
    let event ← (SetData header header.fDataSize data).mapError .event
    let (listed, _) ← (SetBankList event).mapError .event
    if !loop.CheckEventID event.fEventHeader.fEventId then
      return ({ self with numberConsSkipped := 0 }, [])
    else do
      let container ← self.fDataContainer.SetMidasEventPointer listed
      return ({ self with
        fDataContainer := container
        onlineEventLock := true
        numberConsSkipped := 0
        frames := .PreFilter event :: self.frames }, [.PreFilter event])

/-- Up to the call of `BeginRun`. -/
def onlineBeginRunHandler (loop : RunSettings) (self : Online Class Decoded) (transition run time : ℤ) :
    Online Class Decoded × List (Action Class Decoded) :=
  let (fOutputFile, files) := loop.OpenRootFile run "" self.fOutputFile
  ({ self with fOutputFile := fOutputFile, fCurrentRunNumber := run, frames := .BeginRun :: self.frames },
    files ++ [.BeginRun transition run time])

/-- Up to the call of `EndRun`. -/
def onlineEndRunHandler (self : Online Class Decoded) (transition run time : ℤ) :
    Online Class Decoded × List (Action Class Decoded) :=
  ({ self with fCurrentRunNumber := run, frames := .EndRun :: self.frames },
    [.EndRun transition run time])

/-- The rest of `onlineEventHandler`. -/
def cleaned (self : Online Class Decoded) (rest : List Frame) :
    Online Class Decoded × List (Action Class Decoded) :=
  ({ self with
      fDataContainer := self.fDataContainer.CleanupEvent
      onlineEventLock := false
      frames := rest },
    [.CleanupEvent])

/-- What follows when the user's code returns. -/
def returned (self : Online Class Decoded) (result : Bool) :
    Online Class Decoded × List (Action Class Decoded) :=
  match self.frames with
  | [] => (self, [])
  | .PreFilter event :: rest =>
      if result then ({ self with frames := .ProcessMidasEvent event :: rest },
        [.ProcessMidasEvent event])
      else self.cleaned rest
  | .ProcessMidasEvent _ :: rest => self.cleaned rest
  | .BeginRun :: rest => ({ self with frames := rest }, [])
  | .EndRun :: rest =>
    ({ self with fOutputFile := none, frames := rest }, RunSettings.CloseRootFile self.fOutputFile)

/-- One signal. Without an event there is nothing to ask for, and once `ProcessMidasOnline` has
returned nothing comes. -/
def step (loop : RunSettings) (classes : BankClasses Class Decoded) (self : Online Class Decoded)
    (signal : Signal classOf) :
    Except Failure (Online Class Decoded × List (Action Class Decoded)) :=
  if self.quitting ∧ self.frames.isEmpty then .ok (self, [])
  else match signal with
    | .event header data => self.onlineEventHandler loop header data
    | .starts transition run time => .ok (self.onlineBeginRunHandler loop transition run time)
    | .stops transition run time => .ok (self.onlineEndRunHandler transition run time)
    | .asks request =>
        if self.onlineEventLock then do
          let (container, answers) ← TRootanaEventLoop.answer classes self.fDataContainer request
          return ({ self with fDataContainer := container }, answers.map .answered)
        else .ok (self, [])
    | .returns result => .ok (self.returned result)
    | .quits =>
        if self.quitting || !self.frames.isEmpty then .ok (self, [])
        else .ok ({ self with frames := [.EndRun], quitting := true },
          [.EndRun 0 self.fCurrentRunNumber 0])

/-- `ProcessMidasOnline`: before any handler is registered, the file of the run of the ODB is opened
and `BeginRun` is called. -/
def ProcessMidasOnline (loop : RunSettings) (classes : BankClasses Class Decoded) (run : ℤ)
    (signals : List (Signal classOf)) :
    Except Failure (Online Class Decoded × List (Action Class Decoded)) := do
  let (fOutputFile, files) := loop.OpenRootFile run "" none
  let self : Online Class Decoded := ⟨⟨fOutputFile, run, .new⟩, false, 0, [], false⟩
  let (final, actions) ← Transducer.run (step loop classes) self signals
  return (final, files ++ .BeginRun 0 run 0 :: actions)

end Online

end PtfConverter.Midas
