import Mathlib.Data.BitVec

/-! # The V1190 bank decoder

A bank holds the events of a time-to-digital converter: a global header, blocks of measurements of
one chip between a header and a trailer of the chip, and a global trailer. The constructor goes
through the words once. Trailers and errors of a chip come after its measurements, and are set in
those measurements that came since the last trailer of a chip.
-/

namespace PtfConverter.TDC1190

/-- A 32-bit word of a bank. -/
abbrev Word := BitVec 32

structure TDCMeasurement where
  tdc_header_word : Word
  tdc_measurement_word : Word
  tdc_trailer_word : Word
  tdc_error_error : Word
  event_index : ℤ
deriving DecidableEq, Repr

namespace TDCMeasurement

/-- The constructor: the trailer and the error are not known yet. -/
def new (header measurement : Word) (index : ℤ) : TDCMeasurement := ⟨header, measurement, 0, 0, index⟩

def SetTrailer (trailer : Word) (measurement : TDCMeasurement) : TDCMeasurement :=
  { measurement with tdc_trailer_word := trailer }

def SetErrors (error : Word) (measurement : TDCMeasurement) : TDCMeasurement :=
  { measurement with tdc_error_error := error }

def HasTDCErrorWord (measurement : TDCMeasurement) : Bool := measurement.tdc_error_error != 0#32

end TDCMeasurement

/-- The words of a bank, and the word that lies behind them: the first word of an empty bank. -/
structure Bank where
  words : List Word
  behind : Word

/-- What the top five bits of a word say that it is. -/
def tagOf (word : Word) : Word := word &&& 0xf8000000#32

def globalHeaderTag : Word := 0x40000000
def tdcHeaderTag : Word := 0x08000000
def measurementTag : Word := 0x00000000
def tdcTrailerTag : Word := 0x18000000
def tdcErrorTag : Word := 0x20000000
def extendedTriggerTag : Word := 0x88000000
def globalTrailerTag : Word := 0x80000000

/-- The word count that a global trailer carries. -/
def wordCountOf (word : Word) : Word := (word &&& 0x1fffe0#32) >>> 5

/-- The status flags that a global trailer carries. -/
def statusOf (word : Word) : Word := (word &&& 0x07000000#32) >>> 24

/-- The variables of the loop of the constructor; `fWordCountTotal` is a 32-bit integer. -/
structure Scan where
  i : ℕ
  fGlobalHeader : List Word
  fExtendedTriggerTimeTag : List Word
  fWordCountTotal : BitVec 32
  fStatus : List Word
  fMeasurements : List TDCMeasurement
  found_trailer_word : ℤ
  current_tdc_header : Word
  index_for_trailer : ℕ
  index_for_error : ℕ
  numberEventsInBank : ℕ
deriving DecidableEq, Repr

namespace Scan

def initial : Scan where
  i := 0
  fGlobalHeader := []
  fExtendedTriggerTimeTag := []
  fWordCountTotal := 0
  fStatus := []
  fMeasurements := []
  found_trailer_word := -1
  current_tdc_header := 0
  index_for_trailer := 0
  index_for_error := 0
  numberEventsInBank := 0

/-- A change of the measurements since the last trailer of a chip. -/
def setRecent (scan : Scan) (change : TDCMeasurement → TDCMeasurement) : List TDCMeasurement :=
  scan.fMeasurements.take scan.index_for_trailer ++
    (scan.fMeasurements.drop scan.index_for_trailer).map change

/-- What a word changes; the tests exclude each other. -/
def interpret (scan : Scan) (word : Word) : Scan :=
  if tagOf word = globalHeaderTag then
    { scan with
      fGlobalHeader := scan.fGlobalHeader ++ [word]
      numberEventsInBank := scan.numberEventsInBank + 1 }
  else if tagOf word = tdcHeaderTag then
    { scan with current_tdc_header := word }
  else if tagOf word = measurementTag then
    { scan with
      fMeasurements := scan.fMeasurements ++
        [.new scan.current_tdc_header word (scan.numberEventsInBank - 1)] }
  else if tagOf word = tdcTrailerTag then
    { scan with
      fMeasurements := scan.setRecent (.SetTrailer word)
      index_for_trailer := scan.fMeasurements.length }
  else if tagOf word = tdcErrorTag then
    -- the loop starts at `index_for_trailer`: `index_for_error` is set, and read nowhere
    { scan with
      fMeasurements := scan.setRecent (.SetErrors word)
      index_for_error := scan.fMeasurements.length }
  else if tagOf word = extendedTriggerTag then
    { scan with fExtendedTriggerTimeTag := scan.fExtendedTriggerTimeTag ++ [word &&& 0x07ffffff#32] }
  else if tagOf word = globalTrailerTag then
    { scan with
      found_trailer_word := scan.i
      fWordCountTotal := scan.fWordCountTotal + wordCountOf word
      fStatus := scan.fStatus ++ [statusOf word] }
  else scan

/-- One turn of the loop. -/
def next (scan : Scan) (word : Word) : Scan := { scan.interpret word with i := scan.i + 1 }

end Scan

structure TV1190Data where
  fGlobalHeader : List Word
  fExtendedTriggerTimeTag : List Word
  fWordCountTotal : BitVec 32
  fStatus : List Word
  fMeasurements : List TDCMeasurement
  fCorruptedBank : Bool
deriving DecidableEq, Repr

/-- The constructor. -/
def TV1190Data.decode (bank : Bank) : TV1190Data :=
  let scan := bank.words.foldl Scan.next .initial
  { fGlobalHeader := scan.fGlobalHeader
    fExtendedTriggerTimeTag := scan.fExtendedTriggerTimeTag
    fWordCountTotal := scan.fWordCountTotal
    fStatus := scan.fStatus
    fMeasurements := scan.fMeasurements
    fCorruptedBank := tagOf (bank.words.headD bank.behind) ≠
      globalHeaderTag || scan.found_trailer_word = -1 ||
      scan.found_trailer_word ≠ bank.words.length - 1 || scan.fWordCountTotal.toInt ≠
        bank.words.length }

namespace TV1190Data

variable (data : TV1190Data) (index : ℕ)

-- The accessors of an event read a list at its index, which is not tested.

def GetEventCounter : Option Word :=
  data.fGlobalHeader[index]?.map fun header => (header &&& 0x07ffffe0#32) >>> 5

def GetGeoAddress : Option Word := data.fGlobalHeader[index]?.map fun header => header &&& 0x1f#32

def IsTriggerLost : Option Bool := data.fStatus[index]?.map fun status => status &&& 0x4#32 != 0#32

def HasBufferOverflow : Option Bool := data.fStatus[index]?.map fun status => status &&& 0x2#32 != 0#32

def HasTDCError : Option Bool := data.fStatus[index]?.map fun status => status &&& 0x1#32 != 0#32

def GetEventsInBank : ℕ := data.fGlobalHeader.length

def IsBankCorrupted : Bool := data.fCorruptedBank

end TV1190Data

end PtfConverter.TDC1190
