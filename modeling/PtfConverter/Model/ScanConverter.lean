import PtfConverter.Model.Ieee
import PtfConverter.Model.V1730Raw
import PtfConverter.ToMathlib.Column

/-! # The scan converter of midas2root_ptf

`ScanToTreeConverter` turns a stream of MIDAS events into rows of `scan_tree`. While the gantry
stands still (`gbl_accept_banks`) each event appends to the arrays of the open scan point: one
counter for the digitizer points, one for each phidget and one for the accelerometer. The
BONM bank fills a row and resets the counters, but not the arrays.

An event is what its data container yields for the bank names the converter asks for. An array
keeps its declared capacity in its type, and a store outside it faults: what the program does
after such a store is not defined. The members that the constructor leaves unset are arbitrary
memory, with the counters at zero. The Start_time and Window_width arrays are never written.
-/

namespace PtfConverter.ScanTree

open V1730

def single_point : Bool := false
def nPoints_max : ℕ := if single_point then 1800 * 1600 else 12000
def num_phidg_max : ℕ := 10000
def max_temp_sensor : ℕ := 20
def num_v1730_max : ℕ := 70
def timeStart : ℕ := 180

/-- A bank without a decoder of its own: the 64-bit words from its data pointer on. -/
structure TGenericData where
  getData64 : ℕ → Double

/-- The same data read as floats. -/
def TGenericData.single (bank : TGenericData) (i : ℕ) : Single :=
  (bank.getData64 (i / 2)).extractLsb' (32 * (i % 2)) 32

/-- The generic banks the converter asks for. -/
inductive BankName where
  | EOM | BONM | PH00 | PH01 | PH03 | PH04 | PA00 | ENVT | CYC0 | MAG0
deriving DecidableEq, Repr

/-- One event: its time stamp and what `GetEventData` yields for each bank name. -/
structure MidasEvent where
  timeStamp : BitVec 32
  v730 : Option TV1730RawData
  bank : BankName → Option TGenericData

inductive Phidget where
  | phidg0 | phidg1 | phidg3 | phidg4
deriving DecidableEq, Repr

inductive PhidgetField where
  | acc_x | acc_y | acc_z | x_field | y_field | z_field | tot_field | tilt
deriving DecidableEq, Repr

inductive Axis where
  | acc0_x0 | acc0_y0 | acc0_z0
deriving DecidableEq, Repr

/-- The arrays of a scan point. -/
inductive PointArray where
  | evt_timestamp
  | V1730_wave (chan : ℕ)
  | phidg (phidget : Phidget) (field : PhidgetField)
  | acc (axis : Axis)
deriving DecidableEq, Repr

abbrev Fault := OutOfBounds PointArray

/-- The readings of one phidget since the last row. -/
structure PhidgetData where
  num_points : ℕ
  columns : PhidgetField → Column num_phidg_max Double

/-- The readings of the accelerometer since the last row. -/
structure AccData where
  num_points : ℕ
  columns : Axis → Column num_phidg_max Double

/-- Everything that belongs to the open scan point. -/
@[ext] structure Points where
  num_points : ℕ
  num_points_dig0 : ℕ
  num_points_dig1 : ℕ
  evt_timestamp : Column nPoints_max Double
  V1730_wave : Fin 3 → Column nPoints_max (Column num_v1730_max Double)
  phidg : Phidget → PhidgetData
  acc : AccData

/-- The gantry positions of the last CYC0 bank. -/
structure Gantry where
  counter_gant : ℤ
  x0_pos : Double
  y0_pos : Double
  z0_pos : Double
  rot0_pos : Double
  tilt0_pos : Double
  x1_pos : Double
  y1_pos : Double
  z1_pos : Double
  rot1_pos : Double
  tilt1_pos : Double
  time : Double

/-- The supplies whose current and voltage the MAG0 bank reports. -/
inductive Supply where
  | coil1 | coil2 | coil3 | coil4 | coil5 | coil6 | hpd_enable | hpd_hv_control | hpd_lv_control
  | receiver0 | receiver1 | monitor0 | monitor1
deriving DecidableEq, Repr

structure Magnet where
  counter_mag : ℤ
  curr : Supply → Double
  volt : Supply → Double

structure Environment where
  int_temp : Double
  ext1_temp : Double
  ext2_temp : Double
  temperatures : Column max_temp_sensor Double

/-- The values that are branches of the tree but belong to no scan point. -/
structure Scalars where
  gantry : Gantry
  magnet : Magnet
  environment : Environment

/-- The state of a converter process. -/
structure ScanToTreeConverter where
  gbl_accept_banks : Bool
  points : Points
  scalars : Scalars
  timestamp : Double
  ngoodTDCbanks : ℕ
  nbadTDCbanks : ℕ

/-- One row: each array branch holds the entries below its own counter. -/
structure PointRow where
  num_points : ℕ
  num_points_dig0 : ℕ
  num_points_dig1 : ℕ
  evt_timestamp : List Double
  V1730_wave : Fin 3 → List (Column num_v1730_max Double)
  num_phidg_points : Phidget → ℕ
  phidg : Phidget → PhidgetField → List Double
  num_ACC_points : ℕ
  phidgACC : Axis → List Double

structure Row where
  timestamp : Double
  scalars : Scalars
  point : PointRow

/-- What `tree->Fill()` copies from the scan-point branches. -/
def Points.row (points : Points) : PointRow where
  num_points := points.num_points
  num_points_dig0 := points.num_points_dig0
  num_points_dig1 := points.num_points_dig1
  evt_timestamp := points.evt_timestamp.snapshot points.num_points
  V1730_wave wave := (points.V1730_wave wave).snapshot points.num_points
  num_phidg_points phidget := (points.phidg phidget).num_points
  phidg phidget field :=
    ((points.phidg phidget).columns field).snapshot (points.phidg phidget).num_points
  num_ACC_points := points.acc.num_points
  phidgACC axis := (points.acc.columns axis).snapshot points.acc.num_points

/-- The counters go back to zero; the arrays keep their contents. -/
def Points.reset (points : Points) : Points :=
  { points with
    num_points := 0
    num_points_dig0 := 0
    num_points_dig1 := 0
    phidg := fun phidget => { points.phidg phidget with num_points := 0 }
    acc := { points.acc with num_points := 0 } }

/-- Waveforms 0 and 2 start at the pulse window, waveform 1 at the first sample. -/
def waveOffset : Fin 3 → ℕ
  | 0 => timeStart
  | 1 => 0
  | 2 => timeStart

/-- The sample loop of one measurement of channel 0, 1 or 2, into point `num_points - 1`. -/
def storeWave (points : Points) (measurement : RawChannelMeasurement) (wave : Fin 3) :
    Except Fault Points := do
  let samples ← (List.range (min measurement.getNSamples num_v1730_max)).foldlM
    (fun matrix ib => matrix.store₂ (.V1730_wave wave) (points.num_points - 1) ib
      (Double.ofUInt32 (measurement.getSample (ib + waveOffset wave))))
    (points.V1730_wave wave)
  return { points with V1730_wave := Function.update points.V1730_wave wave samples }

/-- One turn of the measurement loop: channels 3, 4 and 5 are looked at and stored nowhere. -/
def storeMeasurement (points : Points) (measurement : RawChannelMeasurement) : Except Fault Points :=
  if stored : measurement.getChannel < 3 then
    storeWave points measurement ⟨measurement.getChannel, stored⟩
  else .ok points

/-- The V730 handler: past `nPoints_max` points the event is dropped. -/
def handleV730 (points : Points) (timeStamp : BitVec 32) (bank : TV1730RawData) : Except Fault Points :=
  if points.num_points < nPoints_max then do
    let points := { points with num_points := points.num_points + 1 }
    let stamps ← points.evt_timestamp.store .evt_timestamp (points.num_points - 1)
      (Double.ofUInt32 timeStamp)
    bank.fMeasurements.foldlM storeMeasurement { points with evt_timestamp := stamps }
  else .ok points

/-- Which word of a phidget bank each field is read from, in the order of the stores. -/
def phidgetLayout : List (PhidgetField × ℕ) :=
  [(.acc_x, 0), (.acc_y, 1), (.acc_z, 2), (.x_field, 3), (.y_field, 4), (.z_field, 5), (.tot_field, 6),
    (.tilt, 7)]

/-- The same for phidget 1, whose total field is not stored. -/
def phidget1Layout : List (PhidgetField × ℕ) :=
  [(.acc_x, 0), (.acc_y, 1), (.acc_z, 2), (.x_field, 3), (.y_field, 4), (.z_field, 5), (.tilt, 7)]

/-- A phidget handler: the counter goes up and each field is stored below it, without a cap. -/
def handlePhidget (layout : List (PhidgetField × ℕ)) (phidget : Phidget) (points : Points)
    (bank : TGenericData) : Except Fault Points := do
  let data := { points.phidg phidget with num_points := (points.phidg phidget).num_points + 1 }
  let columns ← Column.storeEach (.phidg phidget) (data.num_points - 1) data.columns
    (layout.map fun (field, word) => (field, bank.getData64 word))
  return { points with
    phidg := Function.update points.phidg phidget { data with columns := columns } }

def handlePH00 : Points → TGenericData → Except Fault Points := handlePhidget phidgetLayout .phidg0

def handlePH01 : Points → TGenericData → Except Fault Points := handlePhidget phidget1Layout .phidg1

def handlePH03 : Points → TGenericData → Except Fault Points := handlePhidget phidgetLayout .phidg3

def handlePH04 : Points → TGenericData → Except Fault Points := handlePhidget phidgetLayout .phidg4

def accLayout : List (Axis × ℕ) := [(.acc0_x0, 0), (.acc0_y0, 1), (.acc0_z0, 2)]

/-- The accelerometer handler, with the same uncapped counter. -/
def handlePA00 (points : Points) (bank : TGenericData) : Except Fault Points := do
  let data := { points.acc with num_points := points.acc.num_points + 1 }
  let columns ← Column.storeEach .acc (data.num_points - 1) data.columns
    (accLayout.map fun (axis, word) => (axis, bank.getData64 word))
  return { points with acc := { data with columns := columns } }

def readENVT (old : Environment) (bank : TGenericData) : Environment where
  int_temp := Double.ofSingle (bank.single 0)
  ext1_temp := Double.ofSingle (bank.single 1)
  ext2_temp := Double.ofSingle (bank.single 2)
  temperatures := old.temperatures.paint ((List.range 3).map fun i => Double.ofSingle (bank.single i))

def readCYC0 (bank : TGenericData) : Gantry where
  counter_gant := (bank.getData64 0).toInt32
  x0_pos := bank.getData64 1
  y0_pos := bank.getData64 2
  z0_pos := bank.getData64 3
  rot0_pos := bank.getData64 4
  tilt0_pos := bank.getData64 5
  x1_pos := bank.getData64 6
  y1_pos := bank.getData64 7
  z1_pos := bank.getData64 8
  rot1_pos := bank.getData64 9
  tilt1_pos := bank.getData64 10
  time := bank.getData64 11

/-- The word of the MAG0 bank that holds a supply's current; its voltage is 40 words later. -/
def magnetWord : Supply → ℕ
  | .coil1 => 9 | .coil2 => 10 | .coil3 => 1 | .coil4 => 2 | .coil5 => 3 | .coil6 => 4
  | .hpd_enable => 5 | .hpd_hv_control => 6 | .hpd_lv_control => 7
  | .receiver0 => 33 | .monitor0 => 34 | .receiver1 => 35 | .monitor1 => 36

def readMAG0 (bank : TGenericData) : Magnet where
  counter_mag := (bank.getData64 0).toInt32
  curr supply := bank.getData64 (magnetWord supply)
  volt supply := bank.getData64 (magnetWord supply + 40)

/-- The banks that are read without ending the handler: ENVT, CYC0 and MAG0. -/
def Scalars.read (scalars : Scalars) (event : MidasEvent) : Scalars where
  environment := ((event.bank .ENVT).map (readENVT scalars.environment)).getD scalars.environment
  gantry := ((event.bank .CYC0).map readCYC0).getD scalars.gantry
  magnet := ((event.bank .MAG0).map readMAG0).getD scalars.magnet

/-- The bank handlers in the order they are tried; each of them ends the event. -/
def handleBanks (points : Points) (event : MidasEvent) : Option (Except Fault Points) :=
  match event.v730 with
  | some bank => some (handleV730 points event.timeStamp bank)
  | none => match event.bank .PH00 with
    | some bank => some (handlePH00 points bank)
    | none => match event.bank .PH01 with
      | some bank => some (handlePH01 points bank)
      | none => match event.bank .PH03 with
        | some bank => some (handlePH03 points bank)
        | none => match event.bank .PH04 with
          | some bank => some (handlePH04 points bank)
          | none => match event.bank .PA00 with
            | some bank => some (handlePA00 points bank)
            | none => none

/-- `ProcessMidasEvent`: the state after one event, and the row it filled, if any. -/
def processMidasEvent (scan : ScanToTreeConverter) (event : MidasEvent) :
    Except Fault (ScanToTreeConverter × List Row) :=
  if (event.bank .EOM).isSome then
    .ok ({ scan with gbl_accept_banks := true }, [])
  else if (event.bank .BONM).isSome then
    let timestamp := Double.ofUInt32 event.timeStamp
    .ok ({ scan with
        gbl_accept_banks := false
        points := scan.points.reset
        timestamp := timestamp
        ngoodTDCbanks := scan.ngoodTDCbanks + 1 },
      [⟨timestamp, scan.scalars, scan.points.row⟩])
  else if scan.gbl_accept_banks || single_point then
    match handleBanks scan.points event with
    | some handled => do
        let points ← handled
        return ({ scan with points := points }, [])
    | none =>
        .ok ({ scan with
          scalars := scan.scalars.read event
          nbadTDCbanks := scan.nbadTDCbanks + 1 }, [])
  else
    .ok ({ scan with nbadTDCbanks := scan.nbadTDCbanks + 1 }, [])

/-- The members of a new converter that its constructor does not set, apart from the counters. -/
structure Memory where
  evt_timestamp : Column nPoints_max Double
  V1730_wave : Fin 3 → Column nPoints_max (Column num_v1730_max Double)
  phidg : Phidget → PhidgetField → Column num_phidg_max Double
  acc : Axis → Column num_phidg_max Double
  scalars : Scalars
  timestamp : Double

/-- No point yet, over the arrays a new object finds in memory. -/
def Memory.points (memory : Memory) : Points where
  num_points := 0
  num_points_dig0 := 0
  num_points_dig1 := 0
  evt_timestamp := memory.evt_timestamp
  V1730_wave := memory.V1730_wave
  phidg phidget := ⟨0, memory.phidg phidget⟩
  acc := ⟨0, memory.acc⟩

/-- A new converter with the accept flag that `main` set. -/
def start (memory : Memory) (accept : Bool) : ScanToTreeConverter where
  gbl_accept_banks := accept
  points := memory.points
  scalars := memory.scalars
  timestamp := memory.timestamp
  ngoodTDCbanks := 0
  nbadTDCbanks := 0

/-- The accept flag `main` derives from its second argument; any value but 0 and 1 leaves the
static initializer. -/
def acceptOfArgument (argument : ℤ) : Bool := argument == 1

/-- One process over the events of one file: its rows and its exit status. -/
def main (memory : Memory) (argument : ℤ) (events : List MidasEvent) : Except Fault (List Row × ℤ) := do
  let (final, rows) ← Transducer.run processMidasEvent (start memory (acceptOfArgument argument)) events
  return (rows, if final.gbl_accept_banks then 1 else 0)

/-- `run_convert_to_root.sh`: one process for each file, each given the exit status of the one
before, and all rows concatenated. Every process finds the same fresh memory. -/
def runConvertToRoot (memory : Memory) (retval : ℤ) : List (List MidasEvent) → Except Fault (List Row)
  | [] => .ok []
  | file :: files => do
      let (rows, status) ← main memory retval file
      let rest ← runConvertToRoot memory status files
      return rows ++ rest

end PtfConverter.ScanTree
