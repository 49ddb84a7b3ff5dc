import Mathlib.Logic.Function.Basic
import PtfConverter.Model.VF48Pio

/-! # vf48_EventRead64: one event through a local buffer

A block transfer brings as many words of the FIFO as the module announces into the array `lData`. The
function looks there for the header of an event, copies up to the trailer, and starts a transfer when
the words are over. Its position in the array and the number of words are static; the array is not:
when the function is entered again, it has what lies in the memory where it happens to be.
-/

namespace PtfConverter.VF48Vme

def VF48_IDXMAX : ℕ := 4096

/-- The first word of an event. -/
def isHeader (w : Word) : Bool := w &&& 0xF0000000 == 0x80000000

/-- The static variables, the array with the memory behind it, the destination, and the module: the
words in its FIFO and the number of transfers so far. -/
structure Reader where
  idx : ℕ
  inbuf : ℕ
  lData : ℕ → Word
  pdest : List Word
  fifo : List Word
  transfers : ℕ

namespace Reader

/-- Before the first call. -/
def initial (fifo : List Word) : Reader where
  idx := 0
  inbuf := 0
  lData _ := 0
  pdest := []
  fifo := fifo
  transfers := 0

/-- `vf48_NFrameRead`: what the module announces before a transfer, some of the words that it has. -/
def nFrameRead (offered : ℕ → ℕ) (reader : Reader) : ℕ :=
  min (offered reader.transfers) reader.fifo.length

/-- `vf48_NFrameRead` and `vf48_DataRead`: the words go to the front of the array. -/
def transfer (offered : ℕ → ℕ) (reader : Reader) : Reader :=
  let inbuf := reader.nFrameRead offered
  { reader with
    idx := 0
    inbuf
    lData := fun i => if i < inbuf then reader.fifo.getD i 0 else reader.lData i
    fifo := reader.fifo.drop inbuf
    transfers := reader.transfers + 1 }

/-- The loop to the next header among some words. -/
def scanHeader : ℕ → Reader → Reader
  | 0, reader => reader
  | words + 1, reader =>
      if isHeader (reader.lData reader.idx) then
        reader else scanHeader words { reader with idx := reader.idx + 1 }

/-- The header loop, and whether a header is found: it is copied, and overwritten in the array. -/
def findHeader (offered : ℕ → ℕ) : ℕ → Reader → Bool × Reader
  | 0, reader => (false, reader)
  | timeout + 1, reader =>
      let reader := scanHeader (reader.inbuf - reader.idx) reader
      if reader.idx < reader.inbuf then
        (true, { reader with
          pdest := reader.pdest ++ [reader.lData reader.idx]
          lData := Function.update reader.lData reader.idx 0xFFFFFFFF
          idx := reader.idx + 1 })
      else findHeader offered timeout (reader.transfer offered)

/-- The loop that copies up to the next trailer among some words. -/
def copyWords : ℕ → Reader → Reader
  | 0, reader => reader
  | words + 1, reader =>
      if isEnd (reader.lData reader.idx) then reader
      else copyWords words { reader with
        pdest := reader.pdest ++ [reader.lData reader.idx]
        idx := reader.idx + 1 }

/-- The words up to the next trailer are copied. -/
def copied (reader : Reader) : Reader := copyWords (reader.inbuf - reader.idx) reader

/-- The trailer loop, and whether the event is complete. -/
def copyEvent (offered : ℕ → ℕ) : ℕ → Reader → Bool × Reader
  | 0, reader => (false, reader)
  | timeout + 1, reader =>
      let reader := reader.copied
      -- The word at the index is tested wherever the loop has ended.
      if isEnd (reader.lData reader.idx) then
        (true, { reader with
          pdest := reader.pdest ++ [reader.lData reader.idx], idx := reader.idx + 1 })
      else copyEvent offered timeout (reader.transfer offered)

/-- The start of a call: the array has what the memory has, and is filled if the index is 0. -/
def entered (offered : ℕ → ℕ) (memory : ℕ → Word) (reader : Reader) : Reader :=
  let idx := if VF48_IDXMAX < reader.inbuf then 0 else reader.idx
  let reader := { reader with idx, lData := memory, pdest := [] }
  if idx = 0 then reader.transfer offered else reader

/-- A call, which returns an event or `VF48_ERROR`. -/
def EventRead64 (offered : ℕ → ℕ) (memory : ℕ → Word) (reader : Reader) : Option (List Word) × Reader :=
  let (markerfound, reader) := findHeader offered 16 (entered offered memory reader)
  if !markerfound then (none, { reader with idx := 0 })
  else
    let (complete, reader) := copyEvent offered 64 reader
    if complete then (some reader.pdest, reader) else (none, { reader with idx := 0 })

/-- Successive calls. -/
def afterCalls (offered : ℕ → ℕ) (memory : ℕ → ℕ → Word) (fifo : List Word) : ℕ → Reader
  | 0 => initial fifo
  | calls + 1 => (EventRead64 offered (memory calls) (afterCalls offered memory fifo calls)).2

/-- What a call returns. -/
def returned (offered : ℕ → ℕ) (memory : ℕ → ℕ → Word) (fifo : List Word) (call : ℕ) :
    Option (List Word) :=
  (EventRead64 offered (memory call) (afterCalls offered memory fifo call)).1

end Reader

end PtfConverter.VF48Vme
