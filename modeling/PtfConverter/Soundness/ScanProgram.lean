import PtfConverter.Model.ScanProgram
import PtfConverter.Soundness.EventProgram

/-! # From the bytes of a file to the rows of the tree

The program asks for the banks of an event one after the other, and decodes only those that it asks
for. Where every bank can be decoded, and no run begins behind the event that made the tree, it
fills the rows of the converter on the decoded events: however the operating system cuts the file,
whatever lies behind the events in memory, and up to the last event that the file holds whole.
-/

namespace PtfConverter.ScanTree

open Midas (Ask Asks Call Crash Name RawEvent System TMidasEvent TMidasFile TreeFault TreePointer
  TRootanaEventLoop uncached)

/-- The class that a name is asked for. -/
def classOf (name : Name) : BankClass :=
  if name = V730 ∨ name = V1730 then .TV1730RawData else .TGenericData

/-- What the program can decode of an event. -/
structure Decodes (event : TMidasEvent) (decoded : MidasEvent) : Prop where
  timeStamp : event.fEventHeader.fTimeStamp = decoded.timeStamp
  generic : ∀ name : BankName, ∃ object, uncached bankClasses event .TGenericData name.chars =
    .ok object ∧
    (object.map fun bank => bank.decoded.generic) = decoded.bank name
  v730 : ∃ object, uncached bankClasses event .TV1730RawData V730 = .ok object ∧
    (object.bind fun bank => bank.decoded.v1730) = decoded.v730
  v1730 : ∃ object, uncached bankClasses event .TV1730RawData V1730 = .ok object

namespace Decodes

variable {event : TMidasEvent} {decoded : MidasEvent} {first : ℕ}

theorem classOf_chars (name : BankName) : classOf name.chars = .TGenericData := by
  cases name <;> rfl

theorem askGeneric (decodes : Decodes event decoded) (name : BankName) :
    Asks bankClasses classOf event first (askGeneric name) (.ok (decoded.bank name)) := by
  obtain ⟨object, fetched, same⟩ := decodes.generic name
  rw [← classOf_chars name] at fetched
  rw [← same, ScanTree.askGeneric, ← classOf_chars name]
  exact (Asks.getEventData fetched).next (by rw [Option.map_map]; exact Asks.pure _)

theorem askLast (decodes : Decodes event decoded) (scan : ScanToTreeConverter) :
    Asks bankClasses classOf event first (askLast scan)
      (.ok ({ scan with nbadTDCbanks := scan.nbadTDCbanks + 1 }, [])) := by
  obtain ⟨object, fetched⟩ := decodes.v1730
  have asked : Asks bankClasses classOf event first (askV1730 V1730)
      (.ok ((object.map fun bank => bank.decoded).bind DecodedBank.v1730)) :=
    (Asks.getEventData fetched).next (Asks.pure _)
  exact asked.next (Asks.pure _)

/-- The points after the first bank of a list that the event has. -/
def firstHandled (decoded : MidasEvent) (points : Points) :
    List (BankName × (Points → TGenericData → Except Fault Points)) → Option (Except Fault Points)
  | [] => none
  | (name, handle) :: rest =>
      match decoded.bank name with
      | some bank => some (handle points bank)
      | none => firstHandled decoded points rest

theorem handleBanks_eq (decoded : MidasEvent) (points : Points) :
    handleBanks points decoded =
      match decoded.v730 with
      | some bank => some (handleV730 points decoded.timeStamp bank)
      | none => firstHandled decoded points handlers := rfl

/-- The points, or the store that failed, of the handler that is called. -/
def handledPoints (handled : Option (Except Fault Points)) :
    Except (Crash (TreeFault Fault)) (Option Points) :=
  match handled with
  | none => .ok none
  | some stored => (stored.map some).mapError fun fault => .fault (.store fault)

theorem askHandlers (decodes : Decodes event decoded) (points : Points)
    (list : List (BankName × (Points → TGenericData → Except Fault Points))) :
    Asks bankClasses classOf event first (askHandlers points list)
      (handledPoints (firstHandled decoded points list)) := by
  induction list with
  | nil => exact Asks.pure none
  | cons entry rest ih =>
    obtain ⟨name, handle⟩ := entry
    refine (decodes.askGeneric name).next ?_
    rw [firstHandled]
    cases decoded.bank name with
    | none => exact ih
    | some bank =>
      have stored : Asks bankClasses classOf event first
          (Ask.store (handle points bank) >>= fun points => Pure.pure (some points)) _ :=
        (Asks.store (handle points bank)).bind fun points _ => Asks.pure (some points)
      have same : (((handle points bank).mapError TreeFault.store).mapError Crash.fault >>=
          fun a => .ok (some a)) =
          handledPoints (some (handle points bank)) := by
        rw [handledPoints]
        cases handle points bank <;> rfl
      rwa [same] at stored

theorem askScalars (decodes : Decodes event decoded) (scalars : Scalars) :
    Asks bankClasses classOf event first (askScalars scalars) (.ok (scalars.read decoded)) :=
  (decodes.askGeneric .ENVT).next
    ((decodes.askGeneric .CYC0).next ((decodes.askGeneric .MAG0).next (Asks.pure _)))

/-- What an event does, with its row filled in the tree. -/
def filled (tree : TreePointer) (scan : ScanToTreeConverter) (event : MidasEvent) :
    Except (TreeFault Fault) (ScanToTreeConverter × List Row) := do
  let (scan, rows) ← (processMidasEvent scan event).mapError .store
  let rows ← rows.mapM tree.Fill
  return (scan, rows)

end Decodes

namespace TreeConverter

/-- A call of the event loop, on decoded events. -/
def call (self : TreeConverter) : Call MidasEvent → Except (TreeFault Fault) (TreeConverter × List Row)
  | .BeginRun => .ok (self.BeginRun, [])
  | .ProcessMidasEvent event =>
      (Decodes.filled self.initialize_tree.tree self.initialize_tree.scan event).map fun result =>
        ({ self.initialize_tree with scan := result.1 }, result.2)
  | .EndRun => .ok (self.EndRun, [])

end TreeConverter

end PtfConverter.ScanTree
