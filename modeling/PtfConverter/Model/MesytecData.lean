import Mathlib.Data.BitVec

/-! # The Mesytec MADC32 bank decoder

A bank is a list of 32-bit words: headers, data words and trailers, told apart by their top bits. The
resolution code of a header chooses the mask that `GetMeasurement` applies, but the mask is one
global of the program: a header changes it for the measurements of all banks.
-/

namespace PtfConverter.Mesytec

/-- A 32-bit word of a bank. -/
abbrev Word := BitVec 32

/-- The global `gBitResolution` of a new program, 11 bits. -/
def gBitResolution : Word := 0x7ff

structure ADCMeasMesy where
  adc_header_word : Word
  adc_measurement_word : Word
deriving DecidableEq, Repr

namespace ADCMeasMesy

/-- The value of a measurement, under the mask that the program has when it is asked. -/
def GetMeasurement (measurement : ADCMeasMesy) (gBitResolution : Word) : Word :=
  measurement.adc_measurement_word &&& gBitResolution

def GetModuleID (measurement : ADCMeasMesy) : Word :=
  (measurement.adc_header_word &&& 0xff0000#32) >>> 16

def GetChannel (measurement : ADCMeasMesy) : Word :=
  (measurement.adc_measurement_word &&& 0x1f0000#32) >>> 16

def IsOutOfRange (measurement : ADCMeasMesy) : Bool :=
  measurement.adc_measurement_word &&& 0x4000#32 == 0x4000#32

end ADCMeasMesy

/-- A bank object. The trailer is unset until a trailer word is found. -/
structure TMesytecData where
  fGlobalHeader : Word
  fGlobalTrailer : Option Word
  fMeasurements : List ADCMeasMesy
deriving DecidableEq, Repr

def isHeader (word : Word) : Bool := word &&& 0xc0000000#32 == 0x40000000#32

def isData (word : Word) : Bool :=
  word &&& 0xc0000000#32 == 0#32 && word &&& 0x3fe00000#32 == 0x04000000#32

def isTrailer (word : Word) : Bool := word &&& 0xc0000000#32 == 0xc0000000#32

/-- The mask behind a header: an unknown resolution code keeps the one before it. -/
def resolutionOf (header mask : Word) : Word :=
  let bitresolution := (header &&& 0x7000#32) >>> 12
  if bitresolution = 1 then 0x7ff
  else if bitresolution = 2 then 0xfff
  else if bitresolution = 4 then 0x1fff
  else mask

/-- One word of a bank, in the loop of the constructor: over the mask and the object so far. -/
def decodeWord (state : Word × TMesytecData) (word : Word) : Word × TMesytecData :=
  let (mask, bank) := state
  let (mask, bank) :=
    if isHeader word then
    (resolutionOf word mask, { bank with fGlobalHeader := word }) else (mask, bank)
  let bank := if isData word then
    { bank with fMeasurements := bank.fMeasurements ++ [⟨bank.fGlobalHeader, word⟩] } else bank
  let bank := if isTrailer word then { bank with fGlobalTrailer := some word } else bank
  (mask, bank)

/-- The constructor: the mask that it leaves in the program, and the object. -/
def TMesytecData.decode (mask : Word) (words : List Word) : Word × TMesytecData :=
  words.foldl decodeWord (mask, ⟨0, none, []⟩)

end PtfConverter.Mesytec
