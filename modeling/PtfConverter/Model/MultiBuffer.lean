import PtfConverter.ToMathlib.RingBuffer
import Mathlib.Data.BitVec

/-! # The ring buffers of the VF48 and VT48 readout

A read of a module pushes one segment into its ring buffer: a magic word, a byte count and so many
data words. The two readouts take segments out again, either word by word in a stream or up to the
next event trailer. The loops that they share are here, with the codes of the module as a parameter;
each is the body for one module, which the source runs for all of them.
-/

namespace PtfConverter.MultiBuffer

abbrev Word := BitVec 32

abbrev Ring := RingBuffer Word

/-- The size of a ring buffer in bytes. -/
def rb_size : ℕ := 4 * 1024 * 1024

/-- The first word of a segment. -/
def magic : Word := 0xabbaabba#32

inductive Fault where
  /-- A failed assertion on the status, on the magic word, or on the byte count. -/
  | status | noHeader | noBytes | tooLong
  /-- The read pointer is moved past the write pointer. -/
  | pastEnd
  /-- A loop of the model takes more turns than there are words. -/
  | stuck
deriving DecidableEq, Repr

def be2cpu (w : Word) : Word :=
  0 ||| ((w &&& 0xFF000000#32) >>> 24 ||| (w &&& 0x00FF0000#32) >>> 8 ||| (w &&& 0x0000FF00#32) <<<
    8 |||
    (w &&& 0x000000FF#32) <<< 24)

/-- A data word as it goes into a bank. -/
def order (gDmaByteswap : Bool) (w : Word) : Word := if gDmaByteswap then be2cpu w else w

/-- What a read pushes; a ring buffer has room for it. -/
structure Segment where
  data : List Word
  positive : data ≠ []
  fits : 4 * data.length + 8 ≤ rb_size

def Segment.words (segment : Segment) : List Word :=
  magic :: BitVec.ofNat 32 (4 * segment.data.length) :: segment.data

/-- The end of a read: nothing is pushed for a module without data, or after a failed transfer. -/
def push (ring : Ring) : Option Segment → Ring
  | none => ring
  | some segment => ring.push segment.words

/-- `rb_increment_rp`, by a number of bytes. -/
def rb_increment_rp (ring : Ring) (incr : ℕ) : Except Fault Ring :=
  match ring.advance (incr / 4) with
  | none => .error .pastEnd
  | some ring => .ok ring

/-- The codes of the header and trailer words, and the bits of a trailer's event number. -/
structure Format where
  HEADER : Word
  TRAILER : Word
  trailerMask : Word

namespace Format

variable (format : Format)

def isHeader (w : Word) : Bool := w &&& 0xF0000000#32 == format.HEADER

def isTrailer (w : Word) : Bool := w &&& 0xF0000000#32 == format.TRAILER

def trailerEventNo (w : Word) : ℕ := (w &&& format.trailerMask).toNat

/-- Behind a trailer, a header with the same event number. -/
def duplicate (w ww : Word) : Bool :=
  format.isHeader ww && (ww &&& 0x0000FFFF#32).toNat == format.trailerEventNo w

end Format

/-- The variables of a call for one event: the bank and its bytes, the number of the last trailer,
whether words are copied. `sizes` are the byte counts of the segments that the call rewrote. -/
structure Event where
  copy : Bool
  trailerEventNo : ℤ := -1
  bank : List Word := []
  bc : ℕ := 0
  sizes : List ℤ := []
deriving DecidableEq, Repr

/-- The body of the loop over a segment's words, up to the check behind a trailer. -/
def Event.word (format : Format) (event : Event) (w : Word) : Event :=
  let event := if format.isHeader w then { event with copy := true } else event
  let event := if event.copy then
    { event with bank := event.bank ++ [w], bc := event.bc + 4 } else event
  if format.isTrailer w then
    { event with trailerEventNo := format.trailerEventNo w, copy := false } else event

/-- The loop over a segment's words from number `j` on, and the `j` that it ends with. A trailer
ends the loop, unless the next word in memory is a duplicate header. -/
def copyLoop (format : Format) (gDmaByteswap : Bool) (src32 : ℕ → Word) : ℕ → ℕ → Event → Event × ℕ
  | 0, j, event => (event, j)
  | left + 1, j, event =>
      let w := order gDmaByteswap (src32 j)
      let event := event.word format w
      if format.isTrailer w && !format.duplicate w (order gDmaByteswap (src32 (j + 1))) then
        (event, j + 1)
      else copyLoop format gDmaByteswap src32 left (j + 1) event

/-- The loop over all data segments, which goes on until the buffer is empty. -/
def streamLoop (gDmaByteswap : Bool) : ℕ → Ring → List Word → Except Fault (List Word × Ring)
  | 0, _, _ => .error .stuck
  | fuel + 1, ring, p32 =>
      if ring.pending.isEmpty then .ok (p32, ring)
      else if ring.get 0 ≠ magic then .error .noHeader
      else do
        let nw := (ring.get 1).toNat / 4
        let p32 := p32 ++ (List.range nw).map fun j => order gDmaByteswap (ring.get (2 + j))
        let ring ← rb_increment_rp ring (4 * nw + 8)
        streamLoop gDmaByteswap fuel ring p32

/-- A bank with everything in the buffer. -/
def bankStream (gDmaByteswap : Bool) (ring : Ring) : Except Fault (List Word × Ring) :=
  streamLoop gDmaByteswap (ring.pending.length + 1) ring []

end PtfConverter.MultiBuffer
