import PtfConverter.Model.EventSkim
import PtfConverter.Model.DataContainer

/-! # Programs of the event loop

A program reads the events of a file, hands each one to the data container, and its
`ProcessMidasEvent` asks the container for one bank after the other. A bank that is not asked for is
not decoded. What lies behind the data of an event in the memory of the program is arbitrary. What a
program keeps between events, and what it makes of the banks, is a parameter. Its rows go into a
tree, which is deleted with the ROOT file in which it was made.
-/

namespace PtfConverter.Midas

variable {Class Decoded φ σ ρ : Type}

/-- What the event loop calls: `BeginRun` behind the opening of a ROOT file, `ProcessMidasEvent`,
and `EndRun`, behind which the ROOT file is closed. -/
inductive Call (δ : Type) where
  | BeginRun
  | ProcessMidasEvent (event : δ)
  | EndRun

/-- A pointer to a tree. -/
inductive TreePointer where
  | unset
  | made
  | deleted
deriving DecidableEq, Repr

/-- What goes wrong in a converter: a store outside an array, or a row that is filled
where there is no tree. -/
inductive TreeFault (φ : Type) where
  | store (fault : φ)
  | fill (tree : TreePointer)

namespace TreePointer

/-- The ROOT file that is open, if any, is closed. -/
def fileClosed : TreePointer → TreePointer
  | .made => .deleted
  | tree => tree

/-- `tree->Fill()`. -/
def Fill (tree : TreePointer) (row : ρ) : Except (TreeFault φ) ρ :=
  if tree = .made then .ok row else .error (.fill tree)

theorem Fill_eq_ok_iff {tree : TreePointer} {row filled : ρ} :
    (tree.Fill row : Except (TreeFault φ) ρ) = .ok filled ↔ tree = .made ∧ row = filled := by
  rw [Fill]
  split_ifs with made
  · rw [Except.ok.injEq, and_iff_right made]
  · exact iff_of_false nofun fun filled => made filled.1

end TreePointer

/-- What ends a program: a failure in reading an event, or what goes wrong in the user's code. -/
inductive Crash (φ : Type) where
  | failure (failure : Failure)
  | fault (fault : φ)

/-- The user's code for an event, with the data container. -/
abbrev Ask (Class Decoded φ : Type) := StateT (TDataContainer Class Decoded) (Except (Crash φ))

namespace Ask

/-- `GetEventData`. -/
def getEventData (classes : BankClasses Class Decoded) (type : Class) (name : Name) :
    Ask Class Decoded φ (Option Decoded) :=
  fun container => do
    let (container, pointer) ← (container.GetEventData classes type name).mapError .failure
    return (pointer.map fun bank => bank.object.decoded, container)

/-- `GetMidasData().GetTimeStamp()`. -/
def getTimeStamp : Ask Class Decoded φ (BitVec 32) := fun container => do
  let event ← container.GetMidasData.mapError .failure
  return (event.fEventHeader.fTimeStamp, container)

/-- What may go wrong in the user's code. -/
def attempt {α : Type} (result : Except φ α) : Ask Class Decoded φ α := fun container => do
  let a ← result.mapError .fault
  return (a, container)

/-- Stores in arrays. -/
def store {α : Type} (stored : Except φ α) : Ask Class Decoded (TreeFault φ) α :=
  attempt (stored.mapError .store)

end Ask

/-- The user's code, with what the ROOT files do to its tree: one is opened in front of `BeginRun`,
and closed behind `EndRun`. -/
structure UserCode (Class Decoded φ σ ρ : Type) where
  BeginRun : σ → σ
  ProcessMidasEvent : σ → Ask Class Decoded φ (σ × List ρ)
  EndRun : σ → σ

/-- The data of an event with what lies behind them. -/
def inMemory (behind : ℕ → Byte) (event : TMidasEvent) : TMidasEvent :=
  { event with fData := ⟨event.fData.data, some behind⟩ }

/-- The bytes from an offset on; a byte out of reach counts as zero. -/
def bytesAt (memory : Memory) (offset count : ℕ) : List Byte :=
  (List.range count).map fun i => (memory.readByte (offset + i)).toOption.getD 0

namespace TRootanaEventLoop

/-- One event in `ProcessMidasFile`, where `PreFilter` accepts every event. -/
def handleEvent (loop : TRootanaEventLoop) (code : UserCode Class Decoded φ σ ρ)
    (event : TMidasEvent) (s : σ) :
    Ask Class Decoded φ (σ × List ρ) := fun container =>
  if event.fEventHeader.fEventId = 0x8000 then return ((code.BeginRun s, []), container)
  else if loop.processed event.fEventHeader.fEventId then do
    let (event, _) ← (SetBankList event).mapError fun fault => .failure (.event fault)
    let container ← (container.SetMidasEventPointer event).mapError .failure
    let (result, container) ← code.ProcessMidasEvent s container
    return (result, container.CleanupEvent)
  else return ((s, []), container)

/-- The loop of `ProcessMidasFile`, with the number of events so far. -/
def readLoop (loop : TRootanaEventLoop) (code : UserCode Class Decoded φ σ ρ) (system : System)
    (behind : ℕ → Byte) (i : ℤ) (f : TMidasFile) (s : σ) (rows : List ρ)
    (container : TDataContainer Class Decoded) :
    Except (Crash φ) (σ × List ρ) :=
  match _read : TMidasFile.Read system f with
  | .error fault => .error (.failure (.event fault))
  | .ok (false, _, _) => .ok (s, rows)
  | .ok (true, event, f') => do
      let ((s, filled), container) ← loop.handleEvent code (inMemory behind event) s container
      if loop.fMaxEvents ≠ 0 ∧ loop.fMaxEvents ≤ i + 1 then return (s, rows ++ filled)
      else loop.readLoop code system behind (i + 1) f' s (rows ++ filled) container
termination_by f.fFile.unread.length
decreasing_by exact TMidasFile.Read_shrinks _read

end TRootanaEventLoop

end PtfConverter.Midas
