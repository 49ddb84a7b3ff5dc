import Mathlib.Data.Stream.Init
import PtfConverter.Model.VF48Parameters
import PtfConverter.Model.VF48Read64

/-! # vf48_EventRead and vf48_EventReadSync: the FIFO of the module

The first function reads one event word by word: it skips to a header and copies up to the trailer.
The second one reads everything that the module has in block transfers, each of which begins at an
address that is a multiple of 16. What the registers and the FIFO answer is up to the module.
-/

namespace PtfConverter.VF48Vme

def VF48_ERROR : Word := -1
def VF48_ERR_NODATA : Word := 503

def VF48_CSR_FIFO_EMPTY : Word := 0x00000008
def VF48_CSR_FIFO_INCOMPLETE : Word := 0x00000010

/-- The loop that skips to a header: the countdown, the last word, and the FIFO. -/
def skipToHeader : ℕ → Stream' Word → ℕ × Word × Stream' Word
  | 0, fifo => (0, fifo.head, fifo)
  | timeout + 1, fifo =>
      if !isHeader fifo.head ∧ timeout ≠ 0 then skipToHeader timeout fifo.tail
      else (timeout, fifo.head, fifo.tail)

/-- The loop that copies up to the trailer. -/
def copyToTrailer : ℕ → List Word → Stream' Word → ℕ × List Word × Stream' Word
  | 0, pdest, fifo => (0, pdest, fifo)
  | timeout + 1, pdest, fifo =>
      if !isEnd fifo.head ∧ timeout ≠ 0 then copyToTrailer timeout (pdest ++ [fifo.head]) fifo.tail
      else (timeout, pdest ++ [fifo.head], fifo.tail)

/-- The status, the `*nentry` words of the destination, and the FIFO. -/
def EventRead (nframe : Word) (fifo : Stream' Word) : Word × List Word × Stream' Word :=
  if nframe ≠ 0 then
    let (timeout, hdata, fifo) := skipToHeader 25000 fifo
    if timeout = 0 then (VF48_ERR_NODATA, [], fifo)
    else
      let (timeout, pdest, fifo) := copyToTrailer 25000 [hdata] fifo
      if timeout = 0 then (VF48_ERROR, [], fifo) else (VF48_SUCCESS, pdest, fifo)
  else (VF48_SUCCESS, [], fifo)

/-- Successive calls, each with the number of frames that it finds: what they return, and the FIFO. -/
def eventReads : List Word → Stream' Word → List (Word × List Word) × Stream' Word
  | [], fifo => ([], fifo)
  | nframe :: nframes, fifo =>
      let (status, words, fifo) := EventRead nframe fifo
      let (results, fifo) := eventReads nframes fifo
      ((status, words) :: results, fifo)

/-- The answers of the module, by the number of the access: to reads of the status and of the frame
count, and to block transfers, which bring words or fail. -/
structure Collector where
  csr : ℕ → Word
  nframe : ℕ → Word
  word : ℕ → ℕ → Word
  succeeds : ℕ → Bool

/-- The array of the caller, of `DWORD`s: its address, and how many words it has. -/
structure Destination where
  address : ℕ
  aligned : 4 ∣ address
  max_words : ℤ

/-- The words written so far, `iptr` of them, and the numbers of the accesses. -/
structure Sync where
  pdest : List Word
  csrs : ℕ
  frames : ℕ
  blocks : ℕ
deriving DecidableEq, Repr

/-- How `vf48_EventReadSync` ends. Where a frame count makes the number of words to
transfer negative, or too large for the check of the buffer or for the number of bytes, the
behaviour is undefined. -/
inductive SyncEnd where
  | success
  | assertion
  | exit
  | undefined
deriving DecidableEq, Repr

namespace Sync

def initial : Sync where
  pdest := []
  csrs := 0
  frames := 0
  blocks := 0

variable (collector : Collector)

def csrRead (sync : Sync) : Word × Sync :=
  (collector.csr sync.csrs, { sync with csrs := sync.csrs + 1 })

def nFrameRead (sync : Sync) : Word × Sync :=
  (collector.nframe sync.frames, { sync with frames := sync.frames + 1 })

/-- Ten reads of the status, the last of which counts. -/
def csrReads : ℕ → Word → Sync → Word × Sync
  | 0, csr, sync => (csr, sync)
  | reads + 1, _, sync =>
      let (csr, sync) := sync.csrRead collector
      csrReads reads csr sync

/-- The loop that waits for an incomplete event, and the last frame count. -/
def wait : ℕ → Word → Sync → Word × Sync
  | 0, nframe, sync => (nframe, sync)
  | tries + 1, _, sync =>
      let (csr, sync) := csrReads collector 10 0 sync
      let (nframe, sync) := sync.nFrameRead collector
      if (2000#32).slt nframe ∨ csr &&& VF48_CSR_FIFO_INCOMPLETE = 0 then
        (nframe, sync) else wait tries nframe sync

/-- The frame count that a pass goes by. -/
def available (csr haveData : Word) (sync : Sync) : Word × Sync :=
  if haveData.slt 2000 ∧ csr &&& VF48_CSR_FIFO_INCOMPLETE ≠ 0 then wait collector 100 haveData sync
  else (haveData, sync)

/-- How many words to transfer. -/
def wordCount (haveData : Word) : Word :=
  let count := haveData &&& ~~~0xF
  if haveData.slt 2000 then count + 16 else count

/-- The loop that fills up to an address for the transfer; the address of a word is a multiple of
4. -/
def align (address : ℕ) : ℕ → List Word → List Word
  | 0, pdest => pdest
  | fill + 1, pdest =>
      if (address + 4 * pdest.length) % 16 ≠ 0 then
        align address fill (pdest ++ [0xdeadbeef]) else pdest

/-- The transfer of some words. -/
def block (count k : ℕ) : List Word := (List.range count).map (collector.word k)

/-- The end of a pass: the check of the buffer and the transfer. -/
def transfer (destination : Destination) (count : ℤ) (sync : Sync) : Option SyncEnd × Sync :=
  if destination.max_words < sync.pdest.length + count + 10 then (some .assertion, sync)
  else
    let sync := { sync with pdest := align destination.address 3 sync.pdest }
    if 2 ^ 29 ≤ count then (some .undefined, sync)
    else if !collector.succeeds sync.blocks then (some .exit, { sync with blocks := sync.blocks + 1 })
    else (none, { sync with
      pdest := sync.pdest ++ block collector count.toNat sync.blocks
      blocks := sync.blocks + 1 })

/-- One pass of the endless loop, and whether it ends it. -/
def pass (destination : Destination) (sync : Sync) : Option SyncEnd × Sync :=
  let (csr, sync) := sync.csrRead collector
  let (haveData, sync) := sync.nFrameRead collector
  if haveData = 0 then (some .success, sync)
  else if csr &&& VF48_CSR_FIFO_EMPTY ≠ 0 then (none, sync)
  else
    let (haveData, sync) := available collector csr haveData sync
    let count := wordCount haveData
    let (_, sync) := sync.csrRead collector
    if count = 0 then (none, sync)
    else if count.msb ∨ 2 ^ 31 ≤ sync.pdest.length + count.toNat + 10 then (some .undefined, sync)
    else transfer collector destination count.toNat sync

/-- Some passes, unless the function ends before. -/
def passes (destination : Destination) : ℕ → Sync → Option SyncEnd × Sync
  | 0, sync => (none, sync)
  | n + 1, sync =>
      match pass collector destination sync with
      | (some ended, sync) => (some ended, sync)
      | (none, sync) => passes destination n sync

end Sync

/-- `vf48_EventReadSync`, when it ends within some passes: how, and the words that are written. -/
def EventReadSync (collector : Collector) (destination : Destination) (passes : ℕ) :
    Option SyncEnd × List Word :=
  let (ended, sync) := Sync.passes collector destination passes .initial
  (ended, sync.pdest)

end PtfConverter.VF48Vme
