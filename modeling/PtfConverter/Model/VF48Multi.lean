import PtfConverter.Model.MultiBuffer

/-! # The VF48 readout's banks

The stream bank takes everything out of a module's ring buffer. The event bank copies words up to
the next event trailer, wherever in a segment that is; for the rest of the segment it writes a new
segment header in place and moves the read pointer there.
-/

namespace PtfConverter.VF48Multi

open MultiBuffer

def format : Format := ⟨0x80000000#32, 0xE0000000#32, 0x00FFFFFF#32⟩

/-- The segment that `vf48_multi_read` pushes: padding to the alignment of the transfer,
and the module's words. -/
def vf48_multi_read (gDmaByteswap : Bool) (ring : Ring) (misaligned : ℕ) (transfer : List Word) :
    Ring :=
  let padding := List.replicate misaligned (if gDmaByteswap then
    be2cpu 0xdeaddead#32 else 0xdeaddead#32)
  let nb := 4 * transfer.length + 4 * misaligned
  ring.push (magic :: BitVec.ofNat 32 nb :: (padding ++ transfer))

def vf48_multi_bank_stream (gDmaByteswap : Bool) (ring : Ring) : Except Fault (List Word × Ring) :=
  bankStream gDmaByteswap ring

def isPadding (w : Word) : Bool := w == 0xdeaddead#32 || w == 0xaddeadde#32

/-- The body of the loop over the segments. -/
def bankSegment (gDmaByteswap : Bool) (event : Event) (ring : Ring) : Except Fault (Event × Ring) :=
  let src32 := fun j => ring.get (2 + j)
  if ring.get 0 ≠ magic then .error .noHeader
  else if ring.get 1 = 0#32 then .error .noBytes
  else if rb_size ≤ (ring.get 1).toNat then .error .tooLong
  else do
    let nbytes := (ring.get 1).toNat
    let nw := nbytes / 4
    let (event, j) := copyLoop format gDmaByteswap src32 nw 0 event
    -- `incr` counts the header and each word of the loop
    let incr := 8 + 4 * j
    let incr := if isPadding (src32 j) then incr + 4 else incr
    let (event, ring) :=
      if incr ≠ nbytes + 8 then
        let wp32 := incr / 4
        let size : ℤ := nbytes - incr
        ({ event with sizes := event.sizes ++ [size] },
          (ring.set wp32 magic).set (wp32 + 1) (BitVec.ofInt 32 size))
      else (event, ring)
    let ring ← rb_increment_rp ring incr
    return (event, ring)

/-- The loop over the segments, up to one with a trailer; event number 0 does not end it. -/
def eventLoop (gDmaByteswap : Bool) : ℕ → Event → Ring → Except Fault (Event × Ring)
  | 0, _, _ => .error .stuck
  | fuel + 1, event, ring =>
      if ring.pending.isEmpty then .ok (event, ring)
      else do
        let (event, ring) ← bankSegment gDmaByteswap event ring
        if 0 < event.trailerEventNo then return (event, ring)
        else eventLoop gDmaByteswap fuel event ring

def vf48_multi_bank_event (gDmaByteswap : Bool) (ring : Ring) : Except Fault (Event × Ring) :=
  eventLoop gDmaByteswap (ring.pending.length + 1) { copy := true } ring

/-- Calls for one event until the buffer is empty. -/
def drainEvents (gDmaByteswap : Bool) : ℕ → Ring → Except Fault (List Event)
  | 0, _ => .error .stuck
  | fuel + 1, ring =>
      if ring.pending.isEmpty then .ok []
      else do
        let (event, ring) ← vf48_multi_bank_event gDmaByteswap ring
        let events ← drainEvents gDmaByteswap fuel ring
        return event :: events

end PtfConverter.VF48Multi
