import PtfConverter.Model.MultiBuffer
import Mathlib.Data.Fintype.Basic

/-! # The VT48 readout

A read asks the module for as many words as its status counts. A bank is either the whole buffer, or
one event; that goes up to the event trailer, and the read pointer is left behind the trailer.
-/

namespace PtfConverter.VT48Multi

open MultiBuffer

def format : Format := ⟨0x10000000#32, 0x80000000#32, 0x0000FFFF#32⟩

/-- The number of words that a status asks for. -/
def nf (csr : Word) : ℕ := (csr &&& 0xFFF#32).toNat

theorem nf_le (csr : Word) : nf csr ≤ 0xFFF := by
  rw [nf, BitVec.toNat_and]
  exact Nat.and_le_right

/-- The data of one transfer. -/
def transferred (csr : Word) (transfer : Fin (nf csr) → Word) (some : nf csr ≠ 0) : Segment where
  data := List.ofFn transfer
  positive := List.ne_nil_of_length_pos (by rw [List.length_ofFn]; exact Nat.pos_of_ne_zero some)
  fits := by
    have few := nf_le csr
    rw [List.length_ofFn, rb_size]
    omega

/-- `vt48_multi_read` for one module; the transfer may fail. -/
def vt48_multi_read (ring : Ring) (csr : Word) (transfer : Option (Fin (nf csr) → Word)) : Ring :=
  if some : nf csr = 0 then ring
  else push ring (transfer.map fun words => transferred csr words some)

/-- The body of the loop over the segments of one event. -/
def bankSegment (gDmaByteswap : Bool) (event : Event) (ring : Ring) : Except Fault (Event × Ring) :=
  let src32 := fun j => ring.get (2 + j)
  if ring.pending.isEmpty then .error .status
  else if ring.get 0 ≠ magic then .error .noHeader
  else do
    let nbytes := (ring.get 1).toInt
    let nw := nbytes.tdiv 4
    let (event, j) := copyLoop format gDmaByteswap src32 nw.toNat 0 event
    let ring ← rb_increment_rp ring (8 + 4 * j)
    return (event, ring)

/-- The loop over the segments, up to one with a trailer. -/
def eventLoop (gDmaByteswap : Bool) : ℕ → Event → Ring → Except Fault (Event × Ring)
  | 0, _, _ => .error .stuck
  | fuel + 1, event, ring => do
      let (event, ring) ← bankSegment gDmaByteswap event ring
      if 0 ≤ event.trailerEventNo then return (event, ring)
      else eventLoop gDmaByteswap fuel event ring

/-- The bank's words and bytes, and the buffer. -/
def vt48_multi_bank (gDmaByteswap : Bool) (ring : Ring) (one_event : Bool) :
    Except Fault (List Word × ℕ × Ring) :=
  if !one_event then do
    let (bank, ring) ← bankStream gDmaByteswap ring
    return (bank, 4 * bank.length, ring)
  else do
    let (event, ring) ← eventLoop gDmaByteswap (ring.pending.length + 1) { copy := false } ring
    return (event.bank, event.bc, ring)

/-- A call of the frontend, for one module. -/
inductive Call where
  | read (csr : Word) (transfer : Option (Fin (nf csr) → Word))
  | bank

/-- The buffer after a call; the bank is for one event. -/
def Call.apply (gDmaByteswap : Bool) (ring : Ring) : Call → Except Fault Ring
  | read csr transfer => .ok (vt48_multi_read ring csr transfer)
  | bank => do
      let (_, _, ring) ← vt48_multi_bank gDmaByteswap ring true
      return ring

end PtfConverter.VT48Multi
