import PtfConverter.ToMathlib.Bytes
import PtfConverter.ToMathlib.Transducer

/-! # The data buffer of a MIDAS event

The buffer is the list of its bytes. What lies past it is either out of reach, so that any access
there faults, or readable memory with arbitrary contents. Offsets count from the start of the
buffer. Numbers are read on a little-endian host, and a byte swap exchanges bytes in place.
-/

namespace PtfConverter.Midas

/-- What ends a walk over the data: an access past the buffer, an index past `TID_SIZE`, a failed
assertion, or a write past the bank list. -/
inductive Fault where
  | access (offset : ℕ)
  | tidSize (index : ℕ)
  | assertion
  | bankList (index : ℕ)
deriving DecidableEq, Repr

/-- Four characters of a bank name. -/
abbrev Name := Vector Byte 4

/-- The bytes of the buffer, and those that can be accessed past it, if any can. -/
structure Memory where
  data : List Byte
  beyond : Option (ℕ → Byte)

namespace Memory

/-- A buffer past which every access faults. -/
def strict (data : List Byte) : Memory := ⟨data, none⟩

def readByte (memory : Memory) (offset : ℕ) : Except Fault Byte :=
  match memory.data[offset]?, memory.beyond with
  | some byte, _ => .ok byte
  | none, some bytes => .ok (bytes (offset - memory.data.length))
  | none, none => .error (.access offset)

def writeByte (memory : Memory) (offset : ℕ) (byte : Byte) : Except Fault Memory :=
  if offset < memory.data.length then .ok { memory with data := memory.data.set offset byte }
  else match memory.beyond with
    | some bytes =>
        .ok { memory with beyond := some (Function.update bytes (offset - memory.data.length) byte) }
    | none => .error (.access offset)

def readBytes (memory : Memory) (offset : ℕ) : ℕ → Except Fault (List Byte)
  | 0 => .ok []
  | count + 1 => do
      let byte ← memory.readByte offset
      let rest ← memory.readBytes (offset + 1) count
      return byte :: rest

/-- A `uint16_t` at an offset. -/
def uint16 (memory : Memory) (offset : ℕ) : Except Fault (BitVec 16) := do
  let bytes ← memory.readBytes offset 2
  return BitVec.ofNat 16 (Bytes.value bytes)

/-- A `uint32_t` at an offset. -/
def uint32 (memory : Memory) (offset : ℕ) : Except Fault (BitVec 32) := do
  let bytes ← memory.readBytes offset 4
  return BitVec.ofNat 32 (Bytes.value bytes)

def exchange (memory : Memory) (first second : ℕ) : Except Fault Memory := do
  let a ← memory.readByte first
  let b ← memory.readByte second
  let memory ← memory.writeByte first b
  memory.writeByte second a

/-- Reverse the `width` bytes at an offset, pair by pair from the outside. -/
def swap (width : ℕ) (memory : Memory) (offset : ℕ) : Except Fault Memory :=
  (List.range (width / 2)).foldlM
    (fun memory k => memory.exchange (offset + k) (offset + (width - 1 - k))) memory

def WORD_SWAP : Memory → ℕ → Except Fault Memory := swap 2

def DWORD_SWAP : Memory → ℕ → Except Fault Memory := swap 4

end Memory

end PtfConverter.Midas
