import PtfConverter.ToMathlib.Window
import Mathlib.Algebra.Order.Ring.Abs
import Mathlib.Data.BitVec
import Mathlib.Data.Rat.Defs
import Mathlib.Algebra.Order.Ring.Rat

/-! # SkimSingle: finding pulses in a waveform

One loop goes over the samples of a channel and looks at the derivative around each. A large one opens
a pulse, and a small one back near the baseline closes it; the charge, the extrema and the baseline
are kept up on the way, and a closed pulse is recorded. An index past the samples reads whatever lies
in memory there, and the indices that were read are part of the state. Sums and means are exact.
-/

namespace PtfConverter.SkimSingle

structure Pulse where
  time : ℚ
  charge : ℚ
  height : ℚ
  baseline : ℚ
  width : ℤ
  startbin : ℤ
  maxd : ℤ
  maxdt : ℤ
  mind : ℤ
  mindt : ℤ
deriving DecidableEq

/-- The constructor of a pulse, which takes the baseline away. -/
def Pulse.new (_time _charge _baseline _height : ℚ)
    (_width _startbin _maxd _maxdt _mind _mindt : ℤ) : Pulse where
  time := _time
  charge := _charge - _baseline * _width
  height := _height - _baseline
  baseline := _baseline
  width := _width
  startbin := _startbin
  maxd := _maxd
  maxdt := _maxdt
  mind := _mind
  mindt := _mindt

/-- The pulses of an event, as far as the scan adds some. -/
structure ptfEvent where
  targetpmtpulses : List Pulse
  monitor0pulses : List Pulse
deriving DecidableEq

namespace ptfEvent

def AddTargetPulse (event : ptfEvent) (pulse : Pulse) : ptfEvent :=
  { event with targetpmtpulses := event.targetpmtpulses ++ [pulse] }

def AddMonitor0Pulse (event : ptfEvent) (pulse : Pulse) : ptfEvent :=
  { event with monitor0pulses := event.monitor0pulses ++ [pulse] }

/-- Channel 0 is the target, and channel 1 the first monitor. -/
def record (event : ptfEvent) (chan : ℤ) (pulse : Pulse) : ptfEvent :=
  if chan = 0 then event.AddTargetPulse pulse else if chan = 1 then
    event.AddMonitor0Pulse pulse else event

end ptfEvent

/-- The two thresholds of the scan. -/
structure Thresholds where
  DerivThreshold : ℤ
  SmallDeriv : ℤ

/-- The thresholds of the constructor. -/
def Thresholds.initial : Thresholds := ⟨12, 5⟩

/-- The samples of a channel, as many as a `size_t` counts, and what lies in memory around them. -/
structure Waveform where
  samples : List (BitVec 16)
  memory : ℤ → BitVec 16
  fits : samples.length < 2 ^ 64

namespace Waveform

def size (wave : Waveform) : ℕ := wave.samples.length

/-- `samples[j]`, as a number. -/
def sample (wave : Waveform) (j : ℤ) : ℤ :=
  match (if 0 ≤ j then wave.samples[j.toNat]? else none) with
  | some value => value.toNat
  | none => (wave.memory j).toNat

/-- `samples.size()-1`, an unsigned 64-bit number. -/
def bound (wave : Waveform) : ℕ := (wave.size + 2 ^ 64 - 1) % 2 ^ 64

def Deriv (wave : Waveform) (j : ℤ) : ℤ := wave.sample (j + 1) - wave.sample (j - 1)

/-- `j>(samples.size()-2)`. -/
def atEnd (wave : Waveform) (j : ℕ) : Bool := (wave.size + 2 ^ 64 - 2) % 2 ^ 64 < j

end Waveform

/-- The variables of the scan that count while `inpulse` is true. -/
structure OpenPulse where
  MaxV : ℤ
  MaxVT : ℤ
  Charge : ℤ
  MinD : ℤ
  MinDT : ℤ
  MaxD : ℤ
  MaxDT : ℤ
  Start : ℤ
  Baseline : ℚ
deriving DecidableEq

namespace OpenPulse

/-- The pulse that a large derivative opens. -/
def opened (wave : Waveform) (BaseSamples : List ℤ) (j : ℕ) : OpenPulse where
  MaxV := wave.sample j
  MaxVT := j
  Charge := wave.sample j + wave.sample (j - 1) + wave.sample (j - 2)
  MinD := wave.Deriv j
  MinDT := j
  MaxD := wave.Deriv j
  MaxDT := j
  Start := j - 2
  Baseline := (BaseSamples.map fun (value : ℤ) => (value : ℚ) / (BaseSamples.length : ℚ)).sum

/-- One more sample in a pulse. -/
def extend (pulse : OpenPulse) (wave : Waveform) (j : ℕ) : OpenPulse :=
  let pulse := { pulse with Charge := pulse.Charge + wave.sample j }
  let pulse := if wave.sample j < pulse.MaxV then
    { pulse with MaxVT := j, MaxV := wave.sample j } else pulse
  let pulse := if wave.Deriv j < pulse.MaxD then
    { pulse with MaxD := wave.Deriv j, MaxDT := j } else pulse
  if pulse.MinD < wave.Deriv j then { pulse with MinD := wave.Deriv j, MinDT := j } else pulse

/-- The sample that ends a pulse. -/
def closes (pulse : OpenPulse) (thresholds : Thresholds) (wave : Waveform) (j : ℕ) : Bool :=
  (|wave.Deriv j| < thresholds.SmallDeriv && (-5 : ℚ) < (wave.sample j : ℚ) - pulse.Baseline) ||
    wave.atEnd j

/-- What is recorded of a pulse that ends. -/
def recorded (pulse : OpenPulse) (j : ℕ) : Pulse :=
  .new (pulse.MaxVT * 2) pulse.Charge pulse.Baseline pulse.MaxV
    (j - pulse.Start + 1) pulse.Start pulse.MaxD pulse.MaxDT
    pulse.MinD pulse.MinDT

end OpenPulse

/-- The state of the scan. The pulse is there while `inpulse` is true. -/
structure Scan where
  inpulse : Option OpenPulse
  BaseSamples : List ℤ
  pulsecount : ℕ
  rootevent : ptfEvent
  reads : List ℤ

namespace Scan

def begin (rootevent : ptfEvent) : Scan := ⟨none, [], 0, rootevent, []⟩

/-- The loop body. -/
def step (thresholds : Thresholds) (chan : ℤ) (wave : Waveform) (scan : Scan) (j : ℕ) : Scan :=
  let scan := { scan with reads := scan.reads ++ [(j + 1 : ℤ), (j - 1 : ℤ)] }
  match scan.inpulse with
  | some pulse =>
      let scan := { scan with reads := scan.reads ++ [(j : ℤ)] }
      let pulse := pulse.extend wave j
      if pulse.closes thresholds wave j then
        { scan with
          inpulse := none
          rootevent := scan.rootevent.record chan (pulse.recorded j)
          pulsecount := if pulse.MaxVT < 4000 then scan.pulsecount + 1 else scan.pulsecount }
      else { scan with inpulse := some pulse }
  | none =>
      if thresholds.DerivThreshold < |wave.Deriv j| then
        { scan with
          inpulse := some (.opened wave scan.BaseSamples j)
          reads := scan.reads ++ [(j : ℤ), (j - 1 : ℤ), (j - 2 : ℤ)] }
      else if |wave.Deriv j| < thresholds.SmallDeriv then
        { scan with
          BaseSamples := Window.push 20 scan.BaseSamples (wave.sample j)
          reads := scan.reads ++ [(j : ℤ)] }
      else scan

/-- The state before the iteration with an index. -/
def before (thresholds : Thresholds) (chan : ℤ) (wave : Waveform) (rootevent : ptfEvent) (j : ℕ) :
    Scan :=
  (List.range' 1 (j - 1)).foldl (step thresholds chan wave) (begin rootevent)

end Scan

/-- The loop of `ProcessMidasEvent` over the samples of one measurement. -/
def scan (thresholds : Thresholds) (chan : ℤ) (wave : Waveform) (rootevent : ptfEvent) : Scan :=
  (List.range' 1 (wave.bound - 1)).foldl (Scan.step thresholds chan wave) (.begin rootevent)

end PtfConverter.SkimSingle
