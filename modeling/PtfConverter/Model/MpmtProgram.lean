import PtfConverter.Model.MpmtConverter
import PtfConverter.Model.ScanProgram

/-! # midas2root_mpmt on the bytes of a file

An event with a BRB0 bank is a row, in the tree that the begin of a run makes; the two banks with
temperatures are asked for in the other events only.
-/

namespace PtfConverter.MpmtTree

open Midas (Ask BankClasses Crash Name System TRootanaEventLoop UserCode bytesAt)
open ScanTree (TGenericData)

def BRB0 : Name := #v[0x42, 0x52, 0x42, 0x30]

def BRT0 : Name := #v[0x42, 0x52, 0x54, 0x30]

def TMP0 : Name := #v[0x54, 0x4D, 0x50, 0x30]

/-- The classes that are asked for. -/
inductive BankClass where
  | TGenericData
  | TBRBRawData
deriving DecidableEq, Repr

/-- An object: its data as a generic bank, and as a BRB bank, if it is one. -/
structure DecodedBank where
  generic : TGenericData
  brb : Option BRB.Bank

/-- `((uint16_t*) pdata)[i]`. -/
def getData16 (memory : Midas.Memory) (pdata i : ℕ) : BitVec 16 :=
  BitVec.ofNat 16 (Bytes.value (bytesAt memory (pdata + 2 * i) 2))

/-- The classes: every object is a `TGenericData`, and no constructor fails. -/
def bankClasses : BankClasses BankClass DecodedBank where
  dynamic_cast := fun dynamic asked => decide (asked = .TGenericData ∨ dynamic = asked)
  construct := fun type memory _ found =>
    let generic : TGenericData := ⟨ScanTree.getData64 memory found.pdata⟩
    match type with
    | .TGenericData => .ok ⟨generic, none⟩
    | .TBRBRawData => .ok ⟨generic, some ⟨found.bklen, getData16 memory found.pdata⟩⟩
  own := fun _ => decide_eq_true (.inr rfl)

/-- The code of the converter, with the data container. -/
abbrev Code := Ask BankClass DecodedBank Fault

def askBRB0 : Code (Option BRB.Bank) := do
  return (← Ask.getEventData bankClasses .TBRBRawData BRB0).bind DecodedBank.brb

def askGeneric (name : Name) : Code (Option TGenericData) := do
  return (← Ask.getEventData bankClasses .TGenericData name).map DecodedBank.generic

namespace ScanToTreeConverter

/-- `ProcessMidasEvent` with the data container: the state after it, and what it is seen to do. -/
def ProcessMidasEvent (scan : ScanToTreeConverter) : Code (ScanToTreeConverter × List Sight) := do
  match ← askBRB0 with
  | some bank =>
      let (scan, said) ← Ask.store (scan.handleBRB0 (← Ask.getTimeStamp) bank)
      let row ← Ask.attempt (scan.tree.Fill scan.row)
      return (scan.reset, said ++ [.fill row])
  | none =>
      let brt0 ← askGeneric BRT0
      let scan := (brt0.map scan.readBRT0).getD scan
      let tmp0 ← askGeneric TMP0
      let scan := (tmp0.map scan.readTMP0).getD scan
      return (scan, [])

end ScanToTreeConverter

end PtfConverter.MpmtTree
