import PtfConverter.Model.BRBRaw
import PtfConverter.Model.EventProgram
import PtfConverter.Model.ScanConverter

/-! # The converter of midas2root_mpmt

Each event with a BRB0 bank is a row of `scan_tree` of its own: the counter `num_points` goes to 1,
the waveforms are stored in point 0, the row is filled and the counter goes back to 0. The
temperatures of the other events are kept for the rows behind them. The counters and arrays
are globals, so that they start at zero; `tree` is a member that only `BeginRun` sets.
-/

namespace PtfConverter.MpmtTree

open Midas (Call TreeFault TreePointer)
open ScanTree (TGenericData Phidget)

def nPoints_max : ℕ := 1

def max_temp_sensor : ℕ := 20

def num_v1730_max : ℕ := 1024

/-- The declared waveform arrays, of which the first 20 are written. -/
abbrev Wave := Fin 24

/-- One event: its time stamp, and the banks that are asked for. -/
structure MidasEvent where
  timeStamp : BitVec 32
  brb0 : Option BRB.Bank
  brt0 : Option TGenericData
  tmp0 : Option TGenericData

/-- The arrays of a point. -/
inductive PointArray where
  | evt_timestamp
  | V1730_wave (chan : ℕ)
deriving DecidableEq, Repr

abbrev Fault := TreeFault (OutOfBounds PointArray)

/-- The converter, and the globals that it changes. -/
structure ScanToTreeConverter where
  fNChan : ℤ
  tree : TreePointer
  num_points : ℕ
  num_points_dig0 : ℕ
  num_points_dig1 : ℕ
  num_phidg_points : Phidget → ℕ
  evt_timestamp : Column nPoints_max Double
  V1730_wave : Wave → Column nPoints_max (Column num_v1730_max Double)
  temperatures : Column max_temp_sensor Double

/-- One row: the arrays below `num_points`, and the waveforms that have a branch. -/
structure Row where
  num_points : ℕ
  num_points_dig0 : ℕ
  num_points_dig1 : ℕ
  num_phidg_points : Phidget → ℕ
  evt_timestamp : List Double
  V1730_wave : Wave → Option (List (Column num_v1730_max Double))
  temperatures : Column max_temp_sensor Double

/-- What an event is seen to do: the message about too many points, and the rows. -/
inductive Sight where
  | tooManyPoints (num_points : ℕ)
  | fill (row : Row)

namespace ScanToTreeConverter

/-- A new converter, over globals that are zero. -/
def start (fNChan : ℤ) : ScanToTreeConverter where
  fNChan := fNChan
  tree := .unset
  num_points := 0
  num_points_dig0 := 0
  num_points_dig1 := 0
  num_phidg_points := fun _ => 0
  evt_timestamp := fun _ => 0
  V1730_wave := fun _ _ _ => 0
  temperatures := fun _ => 0

/-- What `tree->Fill()` copies. -/
def row (scan : ScanToTreeConverter) : Row where
  num_points := scan.num_points
  num_points_dig0 := scan.num_points_dig0
  num_points_dig1 := scan.num_points_dig1
  num_phidg_points := scan.num_phidg_points
  evt_timestamp := scan.evt_timestamp.snapshot scan.num_points
  V1730_wave wave :=
    if (wave.val : ℤ) < scan.fNChan then
      some ((scan.V1730_wave wave).snapshot scan.num_points) else none
  temperatures := scan.temperatures

/-- The counters go back to zero. -/
def reset (scan : ScanToTreeConverter) : ScanToTreeConverter :=
  { scan with
    num_points := 0
    num_points_dig0 := 0
    num_points_dig1 := 0
    num_phidg_points := fun _ => 0 }

/-- The sample loop of one measurement, into point `num_points - 1`. -/
def storeWave (scan : ScanToTreeConverter) (measurement : BRB.RawBRBMeasurement) (wave : Wave) :
    Except (OutOfBounds PointArray) ScanToTreeConverter := do
  let samples ← (List.range measurement.getNSamples).foldlM
    (fun matrix ib => matrix.store₂ (.V1730_wave wave.val) (scan.num_points - 1) ib
      (Double.ofUInt32 (measurement.getSample ib)))
    (scan.V1730_wave wave)
  return { scan with V1730_wave := Function.update scan.V1730_wave wave samples }

/-- One turn of the measurement loop: only channels 0 to 19 are stored. -/
def storeMeasurement (scan : ScanToTreeConverter) (measurement : BRB.RawBRBMeasurement) :
    Except (OutOfBounds PointArray) ScanToTreeConverter :=
  if stored : measurement.getChannel < 20 then
    scan.storeWave measurement ⟨measurement.getChannel, Nat.lt_trans stored (by decide)⟩
  else .ok scan

/-- The points of a BRB0 bank. -/
def handleBRB0 (scan : ScanToTreeConverter) (timeStamp : BitVec 32) (bank : BRB.Bank) :
    Except (OutOfBounds PointArray) (ScanToTreeConverter × List Sight) :=
  if scan.num_points < nPoints_max then do
    let scan := { scan with num_points := scan.num_points + 1 }
    let stamps ← scan.evt_timestamp.store .evt_timestamp (scan.num_points - 1)
      (Double.ofUInt32 timeStamp)
    let scan ← bank.getMeasurements.foldlM storeMeasurement { scan with evt_timestamp := stamps }
    return (scan, [])
  else .ok (scan, [.tooManyPoints scan.num_points])

/-- The mainboard temperatures, three floats. -/
def readBRT0 (scan : ScanToTreeConverter) (bank : TGenericData) : ScanToTreeConverter :=
  { scan with
    temperatures :=
      scan.temperatures.paint ((List.range 3).map fun i => Double.ofSingle (bank.single i)) }

/-- The phidget temperatures, six doubles from sensor 8 on. -/
def readTMP0 (scan : ScanToTreeConverter) (bank : TGenericData) : ScanToTreeConverter :=
  { scan with
    temperatures := fun i => if 8 ≤ i.val ∧ i.val < 14 then
      bank.getData64 (i.val - 8) else scan.temperatures i }

/-- `ProcessMidasEvent`: an event with a BRB0 bank ends with its row. -/
def processMidasEvent (scan : ScanToTreeConverter) (event : MidasEvent) :
    Except Fault (ScanToTreeConverter × List Sight) :=
  match event.brb0 with
  | some bank => do
      let (scan, said) ← (scan.handleBRB0 event.timeStamp bank).mapError .store
      let row ← scan.tree.Fill scan.row
      return (scan.reset, said ++ [.fill row])
  | none =>
      let scan := (event.brt0.map scan.readBRT0).getD scan
      let scan := (event.tmp0.map scan.readTMP0).getD scan
      .ok (scan, [])

/-- `BeginRun` makes a tree in the ROOT file that was opened for the run. -/
def BeginRun (scan : ScanToTreeConverter) : ScanToTreeConverter := { scan with tree := .made }

/-- `EndRun` changes nothing, and the ROOT file is closed. -/
def EndRun (scan : ScanToTreeConverter) : ScanToTreeConverter :=
  { scan with tree := scan.tree.fileClosed }

/-- A call of the event loop. -/
def call (scan : ScanToTreeConverter) :
    Call MidasEvent → Except Fault (ScanToTreeConverter × List Sight)
  | .BeginRun => .ok (scan.BeginRun, [])
  | .ProcessMidasEvent event => scan.processMidasEvent event
  | .EndRun => .ok (scan.EndRun, [])

end ScanToTreeConverter

end PtfConverter.MpmtTree
