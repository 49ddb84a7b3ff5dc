import PtfConverter.Model.MidasEvent

/-! # TDataContainer and the event loop

A data container points to the current event and keeps the decoded banks that were asked for, so
that each bank is decoded once per event. The event loop reads events from files, hands each one to
the container, lets the user ask for banks, and cleans up. What a bank class makes of the data of a
bank is a parameter; an object is known by the place `new` made it at.
-/

namespace PtfConverter.Midas

/-- What ends a run: a fault in the event, an exception of the container, or one of a bank class. -/
inductive Failure where
  | event (fault : Fault)
  | TDataContainerBadPointerReset
  | TDataContainerNoValidMidasEvent
  | failed_midas_bank_cast
  | constructor
deriving DecidableEq, Repr

/-- A decoded bank of some class: what `TGenericData` stores, and what the class has decoded. -/
structure TGenericData (Class Decoded : Type) where
  type : Class
  fSize : ℤ
  fBankType : ℤ
  fBankName : Name
  fData : ℕ
  decoded : Decoded
deriving DecidableEq

/-- The bank classes: which classes an object of a class can be cast to, its own among them, and
what the constructor of a class reads. -/
structure BankClasses (Class Decoded : Type) where
  dynamic_cast : Class → Class → Bool
  construct : Class → Memory → Name → Found → Except Failure Decoded
  own : ∀ type, dynamic_cast type type = true

/-- A pointer to an object. -/
structure Pointer (Class Decoded : Type) where
  address : ℕ
  object : TGenericData Class Decoded
deriving DecidableEq

/-- The container; `allocated` counts the objects made so far, and the next one is made there. -/
structure TDataContainer (Class Decoded : Type) where
  fMidasEventPointer : Option TMidasEvent
  fOwnMidasEventMemory : Bool
  fEventDataList : List (Pointer Class Decoded)
  allocated : ℕ

/-- A request for a bank, by a name of four characters, in the one class that this name is asked
for. -/
structure Request {Class : Type} (classOf : Name → Class) where
  type : Class
  name : Name
  one : type = classOf name

variable {Class Decoded : Type}

/-- `new T(bklen, bktype, name, ptr)`. -/
def BankClasses.make (classes : BankClasses Class Decoded) (type : Class) (event : TMidasEvent)
    (name : Name) (found : Found) : Except Failure (TGenericData Class Decoded) := do
  let decoded ← classes.construct type event.fData name found
  return ⟨type, found.bklen, found.bktype, name, found.pdata, decoded⟩

namespace TDataContainer

/-- The constructor. -/
def new : TDataContainer Class Decoded := ⟨none, false, [], 0⟩

def SetMidasEventPointer (self : TDataContainer Class Decoded) (event : TMidasEvent) :
    Except Failure (TDataContainer Class Decoded) :=
  if self.fOwnMidasEventMemory ∧ self.fMidasEventPointer.isSome then
    .error .TDataContainerBadPointerReset
  else .ok { self with fMidasEventPointer := some event, fOwnMidasEventMemory := false }

def GetMidasData (self : TDataContainer Class Decoded) : Except Failure TMidasEvent :=
  match self.fMidasEventPointer with
  | some event => .ok event
  | none => .error .TDataContainerNoValidMidasEvent

/-- `GetEventData<T>(name)`: the first cached bank of that name, or a new one. -/
def GetEventData (classes : BankClasses Class Decoded) (self : TDataContainer Class Decoded)
    (type : Class) (name : Name) :
    Except Failure (TDataContainer Class Decoded × Option (Pointer Class Decoded)) :=
  match self.fEventDataList.find? fun bank => bank.object.fBankName = name with
  | some bank =>
      if classes.dynamic_cast bank.object.type type then
        .ok (self, some bank) else .error .failed_midas_bank_cast
  | none => do
      let event ← self.GetMidasData
      match ← (FindBank event.fData name).mapError .event with
      | none => return (self, none)
      | some found => do
          let object ← classes.make type event name found
          let bank := ⟨self.allocated, object⟩
          return ({ self with
            fEventDataList := self.fEventDataList ++ [bank], allocated :=
            self.allocated + 1 }, some bank)

/-- `CleanupEvent`: all cached banks are deleted. -/
def CleanupEvent (self : TDataContainer Class Decoded) : TDataContainer Class Decoded :=
  { self with fEventDataList := [] }

end TDataContainer

variable {classOf : Name → Class}

/-- An event of a file, with the requests that the user makes in `PreFilter` and, if that is
satisfied, in `ProcessMidasEvent`. -/
structure Occurrence (classOf : Name → Class) where
  event : TMidasEvent
  PreFilter : List (Request classOf)
  satisfied : Bool
  ProcessMidasEvent : List (Request classOf)

/-- What the user sees of a request: its answer, and the cached banks afterwards. -/
structure Answer (Class Decoded : Type) where
  name : Name
  type : Class
  pointer : Option (Pointer Class Decoded)
  cached : List (Pointer Class Decoded)

/-- What the user sees of an event. -/
structure Handled (Class Decoded : Type) where
  event : TMidasEvent
  answers : List (Answer Class Decoded)

/-- The settings of the event loop. -/
structure TRootanaEventLoop where
  fMaxEvents : ℤ
  fProcessEventIDs : List ℤ

namespace TRootanaEventLoop

/-- `CheckEventID`: without a list of accepted ids, all are. -/
def CheckEventID (loop : TRootanaEventLoop) (eventId : BitVec 16) : Bool :=
  loop.fProcessEventIDs.length == 0 || loop.fProcessEventIDs.any fun id => id == eventId.toNat

/-- The begin of a run, its end, and messages go elsewhere, and so do ids that are not accepted. -/
def processed (loop : TRootanaEventLoop) (eventId : BitVec 16) : Bool :=
  eventId != 0x8000 && eventId != 0x8001 && eventId != 0x8002 && loop.CheckEventID eventId

/-- The events of a file that are read: after each one the loop ends if it has had `fMaxEvents`. -/
def eventsRead {ε : Type} (loop : TRootanaEventLoop) : ℤ → List ε → List ε
  | _, [] => []
  | i, event :: rest =>
      if loop.fMaxEvents ≠ 0 ∧ loop.fMaxEvents ≤ i + 1 then
        [event] else event :: loop.eventsRead (i + 1) rest

/-- A request to the container. -/
def answer (classes : BankClasses Class Decoded) (self : TDataContainer Class Decoded)
    (request : Request classOf) :
    Except Failure (TDataContainer Class Decoded × List (Answer Class Decoded)) := do
  let (self, pointer) ← self.GetEventData classes request.type request.name
  return (self, [⟨request.name, request.type, pointer, self.fEventDataList⟩])

/-- One event in `ProcessMidasFile`. -/
def processEvent (loop : TRootanaEventLoop) (classes : BankClasses Class Decoded)
    (self : TDataContainer Class Decoded) (occurrence : Occurrence classOf) :
    Except Failure (TDataContainer Class Decoded × List (Handled Class Decoded)) :=
  if loop.processed occurrence.event.fEventHeader.fEventId then do
    let (event, _) ← (SetBankList occurrence.event).mapError .event
    let self ← self.SetMidasEventPointer event
    let (self, filtered) ← Transducer.run (answer classes) self occurrence.PreFilter
    let (self, answered) ←
      if occurrence.satisfied then
        Transducer.run (answer classes) self occurrence.ProcessMidasEvent else .ok (self, [])
    return (self.CleanupEvent, [⟨event, filtered ++ answered⟩])
  else .ok (self, [])

def ProcessMidasFile (loop : TRootanaEventLoop) (classes : BankClasses Class Decoded)
    (self : TDataContainer Class Decoded) (file : List (Occurrence classOf)) :
    Except Failure (TDataContainer Class Decoded × List (Handled Class Decoded)) :=
  Transducer.run (loop.processEvent classes) self (loop.eventsRead 0 file)

/-- `ExecuteLoop` on the files of the command line. -/
def ExecuteLoop (loop : TRootanaEventLoop) (classes : BankClasses Class Decoded)
    (files : List (List (Occurrence classOf))) :
    Except Failure (TDataContainer Class Decoded × List (Handled Class Decoded)) :=
  Transducer.run (loop.ProcessMidasFile classes) .new files

end TRootanaEventLoop

end PtfConverter.Midas
