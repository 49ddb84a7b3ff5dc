import PtfConverter.Model.VF48Multi
import PtfConverter.ToMathlib.Transducer

/-! # The VF48 readout of all modules

`vf48_multi_read` transfers the data of all modules at once, each behind what its ring buffer holds,
and moves the write pointers only when all transfers are done. A thread repeats it, while the frontend
takes banks out of the ring buffers. `vf48_read_event` repeats it itself, until the last word of every
module is an event trailer, and compares the event numbers of the banks with its own.
-/

namespace PtfConverter.VF48Multi

open MultiBuffer

def MAX_VF48 : ℕ := 20

abbrev ModuleNo := Fin MAX_VF48

def VF48_CSR_START_ACQ : Word := 0x00000001
def VF48_CSR_FIFO_EMPTY : Word := 0x00000008
def VF48_CSR_FIFO_INCOMPLETE : Word := 0x00000010

/-- The bytes that a ring buffer has room for behind its write pointer. -/
def rb_max_event_size : ℕ := 100 + 48 * 2 * 1000

inductive ReadFault where
  /-- A failed assertion on the status of a ring buffer, or on the number of bytes of a transfer. -/
  | status | nr
  /-- A transfer goes past the room in the ring buffer. -/
  | overrun
  /-- The program ends because a list of transfers failed. -/
  | exit
  | bank (fault : Fault)
deriving DecidableEq, Repr

/-- What one call meets at a module: its registers, the ring buffer's write pointer with the word in
front of it and whether there is room, the words that a transfer brings, and its status. -/
structure Answer where
  csr : Word
  nframe : Word
  room : Bool
  ptr : ℕ
  front : Word
  data : ℕ → Word
  success : Bool

/-- A transfer into a ring buffer, behind words of padding. -/
structure Transfer where
  padding : ℕ
  words : List Word
  front : Word
  positive : words ≠ []
  fits : 4 * words.length + 4 * padding + 8 ≤ rb_max_event_size

/-- The bytes of the segment, without its header. -/
def Transfer.nb (transfer : Transfer) : ℕ := 4 * transfer.words.length + 4 * transfer.padding

/-- `while (nb%16 != 0)`, for a multiple of 4. -/
def aligned (incomplete : Bool) : ℕ → ℤ → ℤ
  | 0, nb => nb
  | turns + 1, nb => if nb % 16 ≠ 0 then
      aligned incomplete turns (if incomplete then nb - 4 else nb + 4) else nb

/-- `while (dstaddr & 0xF)`, with the destination behind a segment header. -/
def misaligned (ptr : ℕ) : ℕ := (16 - (ptr + 8) % 16) % 16 / 4

namespace Answer

/-- The transfer for a module that runs and has data. -/
def transfer (answer : Answer) : Except ReadFault (Option Transfer) :=
  if answer.csr &&& VF48_CSR_START_ACQ = 0 then .ok none
  else if answer.csr &&& VF48_CSR_FIFO_EMPTY ≠ 0 then .ok none
  else
    let nr := aligned (answer.csr &&& VF48_CSR_FIFO_INCOMPLETE != 0) 3 (answer.nframe.toInt * 4)
    let words := (List.range (nr.toNat / 4)).map answer.data
    if nr = 0 then .ok none
    -- A multiple of 16 that is not positive has no words.
    else if positive : words = [] then .error .nr
    else if !answer.room then .error .status
    else if fits : 4 * words.length + 4 * misaligned answer.ptr + 8 ≤ rb_max_event_size then
      .ok (some ⟨misaligned answer.ptr, words, answer.front, positive, fits⟩)
    else .error .overrun

end Answer

/-- A word that says nothing about the end of the data: a group marker, padding, or
what an empty FIFO gives. -/
def isFiller (w : Word) : Bool :=
  w &&& 0xF0000000#32 == 0xF0000000#32 || w == 0xdeaddead#32 || w == 0xdeadbeef#32

namespace Transfer

variable (gDmaByteswap : Bool) (transfer : Transfer)

/-- The memory of the segment, from its end to the word in front of it. -/
def backwards : List Word :=
  transfer.words.reverse ++
    List.replicate transfer.padding (if gDmaByteswap then be2cpu 0xdeaddead#32 else 0xdeaddead#32) ++
    [BitVec.ofNat 32 transfer.nb, magic, transfer.front]

/-- The last of seven words that is no filler. -/
def lastWord : Option Word :=
  (((transfer.backwards gDmaByteswap).take 7).map (order gDmaByteswap)).find? fun w => !isFiller w

end Transfer

/-- A word in front of the header. -/
def isLeading (w : Word) : Bool :=
  w &&& 0xF0000000#32 == 0xD0000000#32 || w &&& 0xF0000000#32 == 0xF0000000#32

/-- The first word of a bank with something else, of ten words in memory. -/
def firstWord (p32 : List Word) (behind : ℕ → Word) : Option Word :=
  ((List.range 10).map fun j => p32.getD j (behind (j - p32.length))).find? fun w => !isLeading w

/-- The number in an event header or trailer, or -1. -/
def eventNo (numbered : Bool) (w : Word) : ℤ := if numbered then (w &&& 0xFFFFFF#32).toNat else -1

structure VF48MultiBuffer where
  vf48_addr : ModuleNo → Word
  rb : ModuleNo → Ring
  vf48_first_word : ModuleNo → Word
  vf48_last_word : ModuleNo → Word

/-- A bank of a module. -/
abbrev Bank := ModuleNo × List Word

namespace VF48MultiBuffer

/-- The modules that there are. -/
def modules (self : VF48MultiBuffer) : List ModuleNo :=
  (List.finRange MAX_VF48).filter fun i => self.vf48_addr i != 0

/-- The loop over the modules up to the transfers. -/
def transfers (answers : ModuleNo → Answer) :
    List ModuleNo → Except ReadFault (List (ModuleNo × Transfer))
  | [] => .ok []
  | i :: rest => do
      let transfer ← (answers i).transfer
      let transfers ← transfers answers rest
      return (transfer.map (Prod.mk i)).toList ++ transfers

/-- The loop over the modules behind the transfers: the last word, and the write pointer. -/
def commit (gDmaByteswap : Bool) (self : VF48MultiBuffer) (read : ModuleNo × Transfer) :
    VF48MultiBuffer :=
  let (i, transfer) := read
  { self with
    rb := Function.update self.rb i
      (VF48Multi.vf48_multi_read gDmaByteswap (self.rb i) transfer.padding transfer.words)
    vf48_last_word :=
      Function.update self.vf48_last_word i
        ((transfer.lastWord gDmaByteswap).getD (self.vf48_last_word i)) }

/-- A failed transfer ends the program where the modules are read in one list, and else the call. -/
def failed (gDmaByteswap : Bool) : Except ReadFault ℤ := if gDmaByteswap then .error .exit else .ok (-1)

/-- `vf48_multi_read`, with the number of bytes and the transfers. -/
def vf48_multi_read (gDmaByteswap : Bool) (self : VF48MultiBuffer) (answers : ModuleNo → Answer) :
    Except ReadFault (ℤ × List (ModuleNo × Transfer) × VF48MultiBuffer) := do
  let reads ← transfers answers self.modules
  if reads.all fun read => (answers read.1).success then
    return ((reads.map fun read => (read.2.nb : ℤ)).sum, reads, reads.foldl (commit gDmaByteswap) self)
  else
    let rd ← failed gDmaByteswap
    return (rd, [], self)

/-- The loop of `vf48_multi_bank_stream` over the modules. -/
def banks (gDmaByteswap : Bool) :
    List ModuleNo → VF48MultiBuffer → Except ReadFault (List Bank × VF48MultiBuffer)
  | [], self => .ok ([], self)
  | i :: rest, self => do
      let (p32, ring) ← (bankStream gDmaByteswap (self.rb i)).mapError .bank
      let (later, self) ← banks gDmaByteswap rest { self with rb := Function.update self.rb i ring }
      return ((i, p32) :: later, self)

def vf48_multi_bank_stream (gDmaByteswap : Bool) (self : VF48MultiBuffer) :
    Except ReadFault (List Bank × VF48MultiBuffer) := banks gDmaByteswap self.modules self

/-- The reads of `vf48_read_event`, with their transfers, and whether they came to an
end before the limit. -/
def readLoop (gDmaByteswap : Bool) (answers : ℕ → ModuleNo → Answer) :
    ℕ → ℕ → VF48MultiBuffer → Except ReadFault (Bool × List (ModuleNo × Transfer) × VF48MultiBuffer)
  | 0, _, self => .ok (false, [], self)
  | turns + 1, loop, self => do
      let (rd, reads, self) ← self.vf48_multi_read gDmaByteswap (answers loop)
      if rd ≤ 0 ∧ self.modules.all (fun i => format.isTrailer (self.vf48_last_word i)) then
        return (true, reads, self)
      else
        let (ended, later, self) ← readLoop gDmaByteswap answers turns (loop + 1) self
        return (ended, reads ++ later, self)

/-- The check of a bank; the event counters mismatch or not. -/
def checkBank (behind : ModuleNo → ℕ → Word) (expectedEventNo : Word) (self : VF48MultiBuffer)
    (bank : Bank) :
    VF48MultiBuffer × Bool :=
  let (i, p32) := bank
  let first := (firstWord p32 (behind i)).getD (self.vf48_first_word i)
  let feEventNo : ℤ := (expectedEventNo &&& 0xFFFFFF#32).toNat
  let headerEventNo := eventNo (format.isHeader first) first
  let trailerEventNo := eventNo (format.isTrailer (self.vf48_last_word i)) (self.vf48_last_word i)
  ({ self with vf48_first_word := Function.update self.vf48_first_word i first },
    headerEventNo != feEventNo || trailerEventNo != feEventNo)

/-- The loop of `vf48_read_event` over the modules, with those whose event counters mismatch. -/
def checkBanks (behind : ModuleNo → ℕ → Word) (expectedEventNo : Word) :
    List Bank → VF48MultiBuffer → List ModuleNo × VF48MultiBuffer
  | [], self => ([], self)
  | bank :: rest, self =>
      let (next, mismatch) := checkBank behind expectedEventNo self bank
      let (mismatches, final) := checkBanks behind expectedEventNo rest next
      (if mismatch then bank.1 :: mismatches else mismatches, final)

/-- The words that a call forgets. -/
def forget (self : VF48MultiBuffer) : VF48MultiBuffer :=
  { self with
    vf48_first_word := fun i => if self.vf48_addr i != 0 then 0 else self.vf48_first_word i
    vf48_last_word := fun i => if self.vf48_addr i != 0 then 0 else self.vf48_last_word i }

/-- What `vf48_read_event` gives. -/
structure EventRead where
  ended : Bool
  reads : List (ModuleNo × Transfer)
  banks : List Bank
  mismatches : List ModuleNo
  final : VF48MultiBuffer

def vf48_read_event (gDmaByteswap : Bool) (answers : ℕ → ModuleNo → Answer)
    (behind : ModuleNo → ℕ → Word) (expectedEventNo : Word) (self : VF48MultiBuffer) :
    Except ReadFault EventRead := do
  let (ended, reads, self) ← readLoop gDmaByteswap answers 20 0 self.forget
  let (banks, self) ← self.vf48_multi_bank_stream gDmaByteswap
  let (mismatches, final) := checkBanks behind expectedEventNo banks self
  return ⟨ended, reads, banks, mismatches, final⟩

end VF48MultiBuffer

/-- A call of `vf48_multi_bank_stream` that is under way: the bank of a module, and the modules
behind it. -/
structure Banking where
  unit : ModuleNo
  p32 : List Word
  rest : List ModuleNo

/-- The two sides: a `vf48_multi_read` that has still write pointers to move, and a call for banks. -/
structure Readout where
  buffer : VF48MultiBuffer
  writing : List (ModuleNo × Transfer)
  banking : Option Banking

/-- What the sides do next. -/
inductive Move where
  /-- `vf48_multi_read` begins, up to the transfers. -/
  | read (answers : ModuleNo → Answer)
  /-- It goes on to the next module behind the transfers. -/
  | commit
  /-- `vf48_multi_bank_stream` begins. -/
  | bank
  /-- It takes a segment, or ends a bank. -/
  | take

/-- What can be seen of a move. -/
inductive Seen where
  | committed (unit : ModuleNo) (transfer : Transfer)
  | closed (unit : ModuleNo) (p32 : List Word)

/-- The body of the loop of `vf48_multi_bank_stream` over the segments. -/
def takeSegment (gDmaByteswap : Bool) (ring : Ring) (p32 : List Word) :
    Except Fault (List Word × Ring) :=
  if ring.get 0 ≠ magic then .error .noHeader
  else do
    let nw := (ring.get 1).toNat / 4
    let p32 := p32 ++ (List.range nw).map fun j => order gDmaByteswap (ring.get (2 + j))
    let ring ← rb_increment_rp ring (4 * nw + 8)
    return (p32, ring)

namespace Readout

/-- The next bank of a call. -/
def nextBank : List ModuleNo → Option Banking
  | [] => none
  | i :: rest => some ⟨i, [], rest⟩

/-- A move; a side that cannot take it waits. -/
def step (gDmaByteswap : Bool) (self : Readout) : Move → Except ReadFault (Readout × List Seen)
  | .read answers =>
      if self.writing.isEmpty then do
        let reads ← VF48MultiBuffer.transfers answers self.buffer.modules
        if reads.all fun read => (answers read.1).success then
          return ({ self with writing := reads }, [])
        else
          let _ ← VF48MultiBuffer.failed gDmaByteswap
          return (self, [])
      else .ok (self, [])
  | .commit =>
      match self.writing with
      | [] => .ok (self, [])
      | read :: rest =>
          .ok ({ self with buffer := self.buffer.commit gDmaByteswap read, writing := rest },
            [.committed read.1 read.2])
  | .bank =>
      match self.banking with
      | some _ => .ok (self, [])
      | none => .ok ({ self with banking := nextBank self.buffer.modules }, [])
  | .take =>
      match self.banking with
      | none => .ok (self, [])
      | some ⟨unit, p32, rest⟩ =>
          if (self.buffer.rb unit).pending.isEmpty then
            .ok ({ self with banking := nextBank rest }, [.closed unit p32])
          else do
            let (p32, ring) ← (takeSegment gDmaByteswap (self.buffer.rb unit) p32).mapError .bank
            return ({ self with
              buffer := { self.buffer with rb := Function.update self.buffer.rb unit ring }
              banking := some ⟨unit, p32, rest⟩ }, [])

end Readout

end PtfConverter.VF48Multi
