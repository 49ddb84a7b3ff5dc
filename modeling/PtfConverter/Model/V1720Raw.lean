import PtfConverter.ToMathlib.Transducer
import Mathlib.Data.BitVec

/-! # The raw V1720 bank decoder

A bank is four header words and the data of the enabled channels in ascending order. Uncompressed,
every channel has the same number of words, two samples in each. With zero-length encoding a channel
has a size word, which counts itself, and then blocks: a header word with the number of words of the
block, and the words themselves if the block is good.

The bank is the list of its words, and a read at an index the bank does not have is a fault. The
pointers into it are unsigned 32-bit integers that count words read, so that they stay natural
numbers below the length of the bank, which is an `int`; the time `iBin` wraps.
-/

namespace PtfConverter.V1720

/-- A 32-bit word of a bank. -/
abbrev Word := BitVec 32

/-- What ends the decoder early. A loop that has no turn left is not a fault of the source: no bank
reaches it. -/
inductive DecodeFault where
  | read (index : ℕ)
  | divisionByZero
  | outOfFuel
deriving DecidableEq, Repr

structure TV1720RawZlePulse where
  fFirstBin : ℤ
  fSamples : List Word
deriving DecidableEq, Repr

structure TV1720RawChannel where
  fChannelNumber : ℕ
  fIsZLECompressed : Bool
  fZlePulses : List TV1720RawZlePulse
  fWaveform : List Word
deriving DecidableEq, Repr

/-- A channel object without data. -/
def TV1720RawChannel.new (channel : ℕ) (iscompressed : Bool) : TV1720RawChannel :=
  ⟨channel, iscompressed, [], []⟩

structure TV1720RawData where
  fGlobalHeader0 : Word
  fGlobalHeader1 : Word
  fGlobalHeader2 : Word
  fGlobalHeader3 : Word
  fMeasurements : List TV1720RawChannel
deriving DecidableEq, Repr

/-- `GetData32()[index]`, within the words of the bank. -/
def getData32 (bank : List Word) (index : ℕ) : Except DecodeFault Word :=
  match bank[index]? with
  | some word => .ok word
  | none => .error (.read index)

/-- The two samples of a data word. -/
def samplesOf (word : Word) : List Word := [word &&& 0xfff#32, word >>> 16 &&& 0xfff#32]

/-- The samples of the next `nwords` words. -/
def readSamples (bank : List Word) : ℕ → ℕ → Except DecodeFault (List Word)
  | 0, _ => .ok []
  | nwords + 1, iPtr => do
      let word ← getData32 bank iPtr
      let rest ← readSamples bank nwords (iPtr + 1)
      return samplesOf word ++ rest

def IsZLECompressed (fGlobalHeader1 : Word) : Bool := fGlobalHeader1 >>> 24 &&& 1#32 != 0#32

def GetEventSize (fGlobalHeader0 : Word) : Word := fGlobalHeader0 &&& 0xffffff#32

def channelEnabled (chMask : Word) (iCh : ℕ) : Bool := chMask &&& 1#32 <<< iCh != 0#32

/-- The variables of the loop over the blocks of a channel. -/
structure Blocks where
  iPtr : ℕ
  iChPtr : ℕ
  iBin : Word
  pulses : List TV1720RawZlePulse

/-- One block, whose header is at `iPtr`. -/
def readBlock (bank : List Word) (state : Blocks) : Except DecodeFault Blocks := do
  let header ← getData32 bank state.iPtr
  let goodData := header >>> 31 &&& 0x1#32
  let nWords := header &&& 0xfffff#32
  if goodData ≠ 0 then
    let samples ← readSamples bank nWords.toNat (state.iPtr + 1)
    return {
      iPtr := state.iPtr + nWords.toNat + 1
      iChPtr := state.iChPtr + nWords.toNat + 1
      iBin := state.iBin + nWords * 2
      pulses := state.pulses ++ [⟨state.iBin.toInt, samples⟩] }
  else
    return {
      iPtr := state.iPtr + 1
      iChPtr := state.iChPtr + 1
      iBin := state.iBin + nWords * 2
      pulses := state.pulses }

/-- The loop over the blocks, as long as the channel has words. -/
def readBlocks (bank : List Word) (chSize : Word) : ℕ → Blocks → Except DecodeFault Blocks
  | 0, state => if state.iChPtr < chSize.toNat then .error .outOfFuel else .ok state
  | fuel + 1, state =>
      if state.iChPtr < chSize.toNat then do
        let next ← readBlock bank state
        readBlocks bank chSize fuel next
      else .ok state

/-- The variables of the loop over the channels. -/
structure Channels where
  fMeasurements : List TV1720RawChannel
  iPtr : ℕ

/-- A channel whose size word is at `iPtr`: a turn of the loop reads a word, so that there are no
more turns than words. -/
def readZLEChannel (bank : List Word) (state : Channels) (iCh : ℕ) : Except DecodeFault Channels := do
  let chSize ← getData32 bank state.iPtr
  let blocks ← readBlocks bank chSize bank.length ⟨state.iPtr + 1, 1, 0, []⟩
  return ⟨state.fMeasurements ++ [⟨iCh, true, blocks.pulses, []⟩], blocks.iPtr⟩

def HandlZLECompressedData (bank : List Word) : Except DecodeFault Channels := do
  let header1 ← getData32 bank 1
  let chMask := header1 &&& 0xff#32
  (List.range 8).foldlM
    (fun state iCh => if channelEnabled chMask iCh then
      readZLEChannel bank state iCh else .ok state) ⟨[], 4⟩

/-- One channel: a disabled one has an object too, without samples. -/
def readChannel (bank : List Word) (chMask : Word) (N32samples : ℕ) (state : Channels) (iCh : ℕ) :
    Except DecodeFault Channels :=
  if channelEnabled chMask iCh then do
    let samples ← readSamples bank N32samples state.iPtr
    return ⟨state.fMeasurements ++ [⟨iCh, false, [], samples⟩], state.iPtr + N32samples⟩
  else .ok ⟨state.fMeasurements ++ [.new iCh false], state.iPtr⟩

def HandlUncompressedData (bank : List Word) : Except DecodeFault Channels := do
  let header0 ← getData32 bank 0
  let header1 ← getData32 bank 1
  let chMask := header1 &&& 0xff#32
  let nActiveChannels := ((List.range 8).filter (channelEnabled chMask)).length
  if nActiveChannels = 0 then
    .error .divisionByZero
  else
    -- an unsigned division, whose result is stored in an `int`
    let N32samples := ((GetEventSize header0 - 4#32) / BitVec.ofNat 32 nActiveChannels).toInt.toNat
    (List.range 8).foldlM (readChannel bank chMask N32samples) ⟨[], 4⟩

/-- The constructor. -/
def TV1720RawData.decode (bank : List Word) : Except DecodeFault TV1720RawData := do
  let header0 ← getData32 bank 0
  let header1 ← getData32 bank 1
  let header2 ← getData32 bank 2
  let header3 ← getData32 bank 3
  let channels ← if IsZLECompressed header1 then
    HandlZLECompressedData bank else HandlUncompressedData bank
  return ⟨header0, header1, header2, header3, channels.fMeasurements⟩

/-- A channel object by its place; past the end it is an empty one of channel 0. -/
def TV1720RawData.GetChannelData (data : TV1720RawData) (i : ℤ) : TV1720RawChannel :=
  if 0 ≤ i ∧ i < data.fMeasurements.length then
    data.fMeasurements.getD i.toNat (.new 0 false) else .new 0 false

end PtfConverter.V1720
