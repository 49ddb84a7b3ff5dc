import PtfConverter.ToMathlib.Transducer
import Mathlib.Data.BitVec

/-! # The raw V1730 bank decoder

`TV1730RawData` decodes one bank of 32-bit words: four header words, then the packed samples of
every enabled channel in ascending channel order. The bank is the list of its words, and a read
at an index the bank does not have is a fault, as is the division by a channel count of zero.
The bank object carries the order of its measurements, so that no user has to prove it again.
-/

namespace PtfConverter.V1730

/-- A 32-bit word of a bank. -/
abbrev Word := BitVec 32

/-- The decoded samples of one channel. -/
structure RawChannelMeasurement where
  fChan : ℕ
  fSamples : List Word
deriving DecidableEq, Repr

namespace RawChannelMeasurement

def getNSamples (measurement : RawChannelMeasurement) : ℕ := measurement.fSamples.length

def getChannel (measurement : RawChannelMeasurement) : ℕ := measurement.fChan

/-- An index past the end yields the out-of-range marker. -/
def getSample (measurement : RawChannelMeasurement) (i : ℕ) : Word :=
  measurement.fSamples[i]?.getD 9999999#32

end RawChannelMeasurement

/-- A V1730 bank object: its header words and its measurements, in ascending channel order. -/
structure TV1730RawData where
  fGlobalHeader : List Word
  fMeasurements : List RawChannelMeasurement
  ascending : (fMeasurements.map RawChannelMeasurement.fChan).Pairwise (· < ·)
deriving DecidableEq

/-- The measurement of one channel, if the bank decoded it. -/
def TV1730RawData.measurement? (bank : TV1730RawData) (chan : ℕ) : Option RawChannelMeasurement :=
  bank.fMeasurements.find? fun measurement => measurement.fChan == chan

inductive DecodeFault where
  | read (index : ℕ)
  | divisionByZero
deriving DecidableEq, Repr

/-- The size field of the first header word. -/
def getEventSize (header0 : Word) : Word := header0 &&& 0xfffffff#32

/-- The channel mask, split over the second and the third header word. -/
def getChMask (header1 header2 : Word) : Word :=
  (header1 &&& 0xff#32) + ((header2 &&& 0xff000000#32) >>> 16)

def channelEnabled (mask : Word) (ch : ℕ) : Bool := (1#32 <<< ch) &&& mask != 0#32

/-- `GetData32()[index]`, within the words of the bank. -/
def getData32 (bank : List Word) (index : ℕ) : Except DecodeFault Word :=
  match bank[index]? with
  | some word => .ok word
  | none => .error (.read index)

/-- The inner loop: two 14-bit samples from each of the next `nwords` words. -/
def readSamples (bank : List Word) : ℕ → ℕ → Except DecodeFault (List Word)
  | 0, _ => .ok []
  | nwords + 1, counter => do
      let word ← getData32 bank counter
      let rest ← readSamples bank nwords (counter + 1)
      return (word &&& 0x3fff#32) :: ((word &&& 0x3fff0000#32) >>> 16) :: rest

/-- The channel loop, from the running word counter. -/
def readChannels (bank : List Word) (mask : Word) (nwords : ℕ) :
    List ℕ → ℕ → Except DecodeFault (List RawChannelMeasurement)
  | [], _ => .ok []
  | ch :: rest, counter =>
      if channelEnabled mask ch then do
        let samples ← readSamples bank nwords counter
        let measurements ← readChannels bank mask nwords rest (counter + nwords)
        return ⟨ch, samples⟩ :: measurements
      else readChannels bank mask nwords rest counter

theorem readChannels_chans {bank : List Word} {mask : Word} {nwords : ℕ} {chans : List ℕ} {counter : ℕ}
    {measurements : List RawChannelMeasurement}
    (read : readChannels bank mask nwords chans counter = .ok measurements) :
    measurements.map RawChannelMeasurement.fChan = chans.filter (channelEnabled mask) := by
  induction chans generalizing counter measurements with
  | nil => cases read; rfl
  | cons ch rest ih =>
    rw [readChannels] at read
    split at read
    · next enabled =>
      obtain ⟨samples, _, read⟩ := Except.bind_eq_ok_iff.mp read
      obtain ⟨tail, readTail, read⟩ := Except.bind_eq_ok_iff.mp read
      cases read
      rw [List.map_cons, ih readTail, List.filter_cons_of_pos enabled]
    · next disabled => rw [ih read, List.filter_cons_of_neg disabled]

theorem readChannels_ascending {bank : List Word} {mask : Word} {nwords counter : ℕ}
    {measurements : List RawChannelMeasurement}
    (read : readChannels bank mask nwords (List.range 16) counter = .ok measurements) :
    (measurements.map RawChannelMeasurement.fChan).Pairwise (· < ·) := by
  rw [readChannels_chans read]
  exact List.pairwise_lt_range.filter _

/-- `(GetEventSize() - 4)/number_available_channels` is an unsigned division whose result is
stored in an `int`; a negative count means that no word is read. -/
def nwordsPerChannel (header0 : Word) (numberAvailableChannels : ℕ) : ℕ :=
  ((getEventSize header0 - 4#32) / BitVec.ofNat 32 numberAvailableChannels).toInt.toNat

/-- The constructor. A bank with the wrong tag keeps its header and no measurement. -/
def TV1730RawData.decode (bank : List Word) : Except DecodeFault TV1730RawData := do
  let header0 ← getData32 bank 0
  let header1 ← getData32 bank 1
  let header2 ← getData32 bank 2
  let header3 ← getData32 bank 3
  let header := [header0, header1, header2, header3]
  if header0 &&& 0xf0000000#32 != 0xa0000000#32 then
    return ⟨header, [], .nil⟩
  else
    let mask := getChMask header1 header2
    let numberAvailableChannels := ((List.range 16).filter (channelEnabled mask)).length
    if numberAvailableChannels = 0 then
      .error .divisionByZero
    else
      match read : readChannels bank mask (nwordsPerChannel header0 numberAvailableChannels)
          (List.range 16) 4 with
      | .ok measurements => return ⟨header, measurements, readChannels_ascending read⟩
      | .error fault => .error fault

end PtfConverter.V1730
