import Mathlib.Data.BitVec
import Mathlib.Data.Fintype.Basic
import Mathlib.Data.List.FinRange

/-! # The raw BRB bank decoder

`TBRBRawData` decodes packets of 533 16-bit words, after 21 header words each with 512 samples of
four channels in turn. Eight packets make an ADC; the packet behind them is left out. The bank
is its length and the memory from its data pointer on: no read is tested.
-/

namespace PtfConverter.BRB

/-- A sample, as `uint32_t`. -/
abbrev Sample := BitVec 32

structure RawBRBMeasurement where
  fChan : ℕ
  fSamples : List Sample

namespace RawBRBMeasurement

def getNSamples (measurement : RawBRBMeasurement) : ℕ := measurement.fSamples.length

def getChannel (measurement : RawBRBMeasurement) : ℕ := measurement.fChan

/-- An index past the end yields the out-of-range marker. -/
def getSample (measurement : RawBRBMeasurement) (i : ℕ) : Sample :=
  measurement.fSamples[i]?.getD 9999999#32

end RawBRBMeasurement

/-- What `FindBank` yields for a bank: its length, and the words from its data pointer on. -/
structure Bank where
  bklen : ℤ
  fData : ℕ → BitVec 16

/-- From the channels of an ADC to those of its connectors. -/
def chan_map : Fin 4 → Fin 4
  | 0 => 2
  | 1 => 3
  | 2 => 0
  | 3 => 1

/-- One sample of a packet; the polarity of channels 1 and 3 is swapped. -/
def pushSample (fData : ℕ → BitVec 16) (istart : ℕ) (samples : Fin 4 → List Sample) (i : ℕ) :
    Fin 4 → List Sample :=
  let ch := chan_map ⟨i % 4, Nat.mod_lt i (by decide)⟩
  let data : Sample := (fData (i + 21 + istart) >>> 4).setWidth 32
  let data := if ch = 1 ∨ ch = 3 then 4096 - data else data
  Function.update samples ch (samples ch ++ [data])

/-- One packet. -/
def readPacket (fData : ℕ → BitVec 16) (samples : Fin 4 → List Sample) (counter : ℕ) :
    Fin 4 → List Sample :=
  (List.range 512).foldl (pushSample fData (counter * 533)) samples

/-- The samples of one ADC, from eight packets. -/
def readAdc (fData : ℕ → BitVec 16) (adc : ℕ) : Fin 4 → List Sample :=
  (List.range 8).foldl (fun samples p => readPacket fData samples (adc * 8 + p)) fun _ => []

/-- The measurements of one ADC. -/
def measurements (fData : ℕ → BitVec 16) (adc : ℕ) : List RawBRBMeasurement :=
  (List.finRange 4).map fun ach => ⟨adc * 4 + ach.val, readAdc fData adc ach⟩

/-- The ADCs of a bank; the divisions go towards zero. -/
def Bank.nadcs (bank : Bank) : ℤ := (bank.bklen.tdiv 533 - 1).tdiv 8

/-- `TBRBRawData`. -/
def Bank.getMeasurements (bank : Bank) : List RawBRBMeasurement :=
  (List.range bank.nadcs.toNat).flatMap (measurements bank.fData)

/-- A read behind the last word of a bank. -/
structure ReadFault where
  index : ℕ
deriving DecidableEq, Repr

namespace Bank

/-- `fData[index]`, for an index below the length of the bank. -/
def word (bank : Bank) (index : ℕ) : Except ReadFault (BitVec 16) :=
  if index < bank.bklen then .ok (bank.fData index) else .error ⟨index⟩

/-- One sample of a packet. -/
def takeSample (bank : Bank) (istart : ℕ) (samples : Fin 4 → List Sample) (i : ℕ) :
    Except ReadFault (Fin 4 → List Sample) := do
  let ch := chan_map ⟨i % 4, Nat.mod_lt i (by decide)⟩
  let read ← bank.word (i + 21 + istart)
  let data : Sample := (read >>> 4).setWidth 32
  let data := if ch = 1 ∨ ch = 3 then 4096 - data else data
  return Function.update samples ch (samples ch ++ [data])

/-- One packet: the four header words are read, and used by a disabled print only. -/
def takePacket (bank : Bank) (samples : Fin 4 → List Sample) (counter : ℕ) :
    Except ReadFault (Fin 4 → List Sample) := do
  let istart := counter * 533
  let _frameid ← bank.word (istart + 4)
  let _packetid ← bank.word (istart + 2)
  let _cadc0 ← bank.word (istart + 19)
  let _cadc1 ← bank.word (istart + 20)
  (List.range 512).foldlM (bank.takeSample istart) samples

/-- One ADC: eight packets, then a measurement for each of four channels. -/
def takeAdc (bank : Bank) (fMeasurements : List RawBRBMeasurement) (adc : ℕ) :
    Except ReadFault (List RawBRBMeasurement) := do
  let samples ← (List.range 8).foldlM
    (fun samples p => bank.takePacket samples (adc * 8 + p)) fun _ => []
  return fMeasurements ++ (List.finRange 4).map fun ach => ⟨adc * 4 + ach.val, samples ach⟩

/-- `TBRBRawData`, with its reads. -/
def decode (bank : Bank) : Except ReadFault (List RawBRBMeasurement) :=
  (List.range bank.nadcs.toNat).foldlM bank.takeAdc []

end Bank

end PtfConverter.BRB
