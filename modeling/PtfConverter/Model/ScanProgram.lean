import PtfConverter.Model.EventProgram
import PtfConverter.Model.ScanConverter

/-! # midas2root_ptf on the bytes of a file

`ProcessMidasEvent` asks the data container for one bank after the other until one is there that
ends the event. The first event makes the tree, in a ROOT file that the converter opens itself; like
the counters, the pointer to the tree is zero in the memory that a new converter finds.
-/

namespace PtfConverter.ScanTree

open Midas (Ask BankClasses Crash Name System TRootanaEventLoop TreeFault TreePointer UserCode bytesAt)

/-- The name of a bank in the data of an event: that of "EOM" ends with a null character. -/
def BankName.chars : BankName → Name
  | .EOM => #v[0x45, 0x4F, 0x4D, 0x00]
  | .BONM => #v[0x42, 0x4F, 0x4E, 0x4D]
  | .PH00 => #v[0x50, 0x48, 0x30, 0x30]
  | .PH01 => #v[0x50, 0x48, 0x30, 0x31]
  | .PH03 => #v[0x50, 0x48, 0x30, 0x33]
  | .PH04 => #v[0x50, 0x48, 0x30, 0x34]
  | .PA00 => #v[0x50, 0x41, 0x30, 0x30]
  | .ENVT => #v[0x45, 0x4E, 0x56, 0x54]
  | .CYC0 => #v[0x43, 0x59, 0x43, 0x30]
  | .MAG0 => #v[0x4D, 0x41, 0x47, 0x30]

/-- "V730". -/
def V730 : Name := #v[0x56, 0x37, 0x33, 0x30]

/-- What `FindBank` looks at of "V1730". -/
def V1730 : Name := #v[0x56, 0x31, 0x37, 0x33]

/-- The classes that are asked for. -/
inductive BankClass where
  | TGenericData
  | TV1730RawData
deriving DecidableEq, Repr

/-- An object: its data as a generic bank, and what the V1730 class has decoded, if it is one. -/
structure DecodedBank where
  generic : TGenericData
  v1730 : Option V1730.TV1730RawData

/-- `GetData64()[i]`. -/
def getData64 (memory : Midas.Memory) (pdata i : ℕ) : Double :=
  BitVec.ofNat 64 (Bytes.value (bytesAt memory (pdata + 8 * i) 8))

/-- `GetData32()[i]`. -/
def getData32 (memory : Midas.Memory) (pdata i : ℕ) : V1730.Word :=
  BitVec.ofNat 32 (Bytes.value (bytesAt memory (pdata + 4 * i) 4))

/-- The classes: every object is a `TGenericData`. -/
def bankClasses : BankClasses BankClass DecodedBank where
  dynamic_cast := fun dynamic asked => decide (asked = .TGenericData ∨ dynamic = asked)
  construct := fun type memory _ found =>
    let generic : TGenericData := ⟨getData64 memory found.pdata⟩
    match type with
    | .TGenericData => .ok ⟨generic, none⟩
    | .TV1730RawData =>
        match V1730.TV1730RawData.decode
          ((List.range found.bklen.toNat).map (getData32 memory found.pdata)) with
        | .ok bank => .ok ⟨generic, some bank⟩
        | .error _ => .error .constructor
  own := fun _ => decide_eq_true (.inr rfl)

/-- The code of the converter, with the data container. -/
abbrev Code := Ask BankClass DecodedBank (TreeFault Fault)

def askGeneric (name : BankName) : Code (Option TGenericData) := do
  return (← Ask.getEventData bankClasses .TGenericData name.chars).map DecodedBank.generic

def askV1730 (name : Name) : Code (Option V1730.TV1730RawData) := do
  return (← Ask.getEventData bankClasses .TV1730RawData name).bind DecodedBank.v1730

/-- The banks that end an event behind V730, in the order in which they are asked for. -/
def handlers : List (BankName × (Points → TGenericData → Except Fault Points)) :=
  [(.PH00, handlePH00), (.PH01, handlePH01), (.PH03, handlePH03), (.PH04, handlePH04),
    (.PA00, handlePA00)]

/-- The points after the first of these banks that the event has, if it has one. -/
def askHandlers (points : Points) :
    List (BankName × (Points → TGenericData → Except Fault Points)) → Code (Option Points)
  | [] => return none
  | (name, handle) :: rest => do
      match ← askGeneric name with
      | some bank => return some (← Ask.store (handle points bank))
      | none => askHandlers points rest

/-- The banks that do not end an event. -/
def askScalars (scalars : Scalars) : Code Scalars := do
  let envt ← askGeneric .ENVT
  let environment := (envt.map (readENVT scalars.environment)).getD scalars.environment
  let cyc0 ← askGeneric .CYC0
  let gantry := (cyc0.map readCYC0).getD scalars.gantry
  let mag0 ← askGeneric .MAG0
  let magnet := (mag0.map readMAG0).getD scalars.magnet
  return ⟨gantry, magnet, environment⟩

/-- The end of `ProcessMidasEvent`: a bank "V1730" is decoded, and only mentioned. -/
def askLast (scan : ScanToTreeConverter) : Code (ScanToTreeConverter × List Row) := do
  let _ ← askV1730 V1730
  return ({ scan with nbadTDCbanks := scan.nbadTDCbanks + 1 }, [])

/-- `ProcessMidasEvent` with the data container, where there is a tree: the state after it, and the
row that it fills, if any. -/
def processBanks (tree : TreePointer) (scan : ScanToTreeConverter) :
    Code (ScanToTreeConverter × List Row) := do
  if (← askGeneric .EOM).isSome then return ({ scan with gbl_accept_banks := true }, [])
  if (← askGeneric .BONM).isSome then
    let timestamp := Double.ofUInt32 (← Ask.getTimeStamp)
    let row ← Ask.attempt (tree.Fill ⟨timestamp, scan.scalars, scan.points.row⟩)
    return ({ scan with
        gbl_accept_banks := false
        points := scan.points.reset
        timestamp := timestamp
        ngoodTDCbanks := scan.ngoodTDCbanks + 1 }, [row])
  if scan.gbl_accept_banks || single_point then
    match ← askV1730 V730 with
    | some bank =>
        let points ← Ask.store (handleV730 scan.points (← Ask.getTimeStamp) bank)
        return ({ scan with points := points }, [])
    | none =>
        match ← askHandlers scan.points handlers with
        | some points => return ({ scan with points := points }, [])
        | none => askLast { scan with scalars := ← askScalars scan.scalars }
  else askLast scan

/-- The converter, and its pointer to the tree. -/
structure TreeConverter where
  scan : ScanToTreeConverter
  tree : TreePointer

namespace TreeConverter

/-- `initialize_tree`, where there is no tree yet: the ROOT file that is open, if any, has none. -/
def initialize_tree (self : TreeConverter) : TreeConverter :=
  if self.tree = .unset then { self with tree := .made } else self

/-- `ProcessMidasEvent`. -/
def ProcessMidasEvent (self : TreeConverter) : Code (TreeConverter × List Row) := do
  let self := self.initialize_tree
  let (scan, rows) ← processBanks self.tree self.scan
  return ({ self with scan := scan }, rows)

/-- `BeginRun` makes no tree, but the ROOT file that is opened in front of it takes the
place of the one before. -/
def BeginRun (self : TreeConverter) : TreeConverter := { self with tree := self.tree.fileClosed }

/-- `EndRun` fills no row where `single_point` is false, and the ROOT file is closed. -/
def EndRun (self : TreeConverter) : TreeConverter := { self with tree := self.tree.fileClosed }

end TreeConverter

end PtfConverter.ScanTree
