import Mathlib.Data.List.Basic
import Mathlib.Data.BitVec

/-! # vf48_EventReadPio: reading a VF48 word by word

The function reads registers over the VME bus: the status of the FIFO of each enabled group, and as
many data words as the status announces, up to the word that ends an event. What the module answers
is in a trace of the bus, which the function follows access by access; a loop that goes on as long as
the module says so ends, if at all, at the end of the trace.
-/

namespace PtfConverter.VF48Vme

abbrev Word := BitVec 32

def VF48_CSR_REG_RW : ℕ := 0x0000
def VF48_GRP_REG_RW : ℕ := 0x0090
def VF48_FifoStat10 : ℕ := 0x0120
def VF48_FifoData0 : ℕ := 0x0150

def VF48_CSR_FIFO_DISABLE : Word := 0x00020000

/-- Why a run ends early: a failed assertion, or a trace that has no answer to the next access. -/
inductive Stop where
  | assertion
  | noAnswer
deriving DecidableEq, Repr

/-- The registers that are read, each with the answer of the module. -/
abbrev Trace := List (ℕ × Word)

/-- `vf48_RegisterRead`: the next access in the trace. -/
def RegisterRead (reg : ℕ) : Trace → Except Stop (Word × Trace)
  | [] => .error .noAnswer
  | (register, value) :: rest => if register = reg then .ok (value, rest) else .error .noAnswer

/-- The words written so far, the count of them, and the answers to come. -/
structure Pio where
  pdest : List Word
  nread : ℕ
  trace : Trace
deriving DecidableEq

/-- `*pdest++ = w; nread++`. -/
def Pio.put (pio : Pio) (w : Word) : Pio :=
  { pio with pdest := pio.pdest ++ [w], nread := pio.nread + 1 }

@[simp] theorem Pio.put_nread (pio : Pio) (w : Word) : (pio.put w).nread = pio.nread + 1 := rfl

@[simp] theorem Pio.put_trace (pio : Pio) (w : Word) : (pio.put w).trace = pio.trace := rfl

/-- The last word of an event. -/
def isEnd (w : Word) : Bool := w &&& 0xF0000000 == 0xE0000000

/-- The loop over the data words of a group, and whether it ends the group. -/
def readWords (addr max_words : ℕ) : ℕ → Pio → Except Stop (Bool × Pio)
  | 0, pio => .ok (false, pio)
  | nw + 1, pio => do
      let (w, trace) ← RegisterRead addr pio.trace
      let pio := Pio.put { pio with trace } w
      if isEnd w then return (true, pio)
      else if max_words ≤ pio.nread then return (true, pio)
      else readWords addr max_words nw pio

/-- The 16 status bits of a group. -/
def fifoStatus (i : ℕ) (status : Word) : Word :=
  (if i % 2 = 1 then status.sshiftRight 16 else status) &&& 0xFFFF

/-- The FIFO of a group is empty. -/
def fifoEmpty (i : ℕ) (status : Word) : Bool := fifoStatus i status &&& 0x8000 != 0

/-- How many words the FIFO of a group holds. -/
def fifoCount (i : ℕ) (status : Word) : ℕ := (fifoStatus i status &&& 0x0FFF).toNat

/-- The word in front of the data of a group. -/
def groupMarker (i : ℕ) : Word := 0xFFFFFFF0 + BitVec.ofNat 32 i

theorem RegisterRead_ok {reg : ℕ} {trace rest : Trace} {w : Word}
    (read : RegisterRead reg trace = .ok (w, rest)) :
    trace = (reg, w) :: rest := by
  cases trace with
  | nil => cases read
  | cons access trace =>
    obtain ⟨register, value⟩ := access
    rw [RegisterRead] at read
    split_ifs at read with same
    cases read
    rw [same]

theorem readWords_trace {addr max_words nw : ℕ} {pio next : Pio} {done : Bool}
    (ran : readWords addr max_words nw pio = .ok (done, next)) :
    next.trace.length ≤ pio.trace.length := by
  induction nw generalizing pio with
  | zero =>
    cases ran
    exact le_rfl
  | succ nw ih =>
    rw [readWords] at ran
    cases read : RegisterRead addr pio.trace with
    | error stop =>
      rw [read] at ran
      cases ran
    | ok answer =>
      obtain ⟨w, trace⟩ := answer
      have shorter : trace.length ≤ pio.trace.length := by
        rw [RegisterRead_ok read]
        exact Nat.le_succ _
      rw [read] at ran
      change (if isEnd w then _ else _) = _ at ran
      split_ifs at ran
      · cases ran
        exact shorter
      · cases ran
        exact shorter
      · exact (ih ran).trans shorter

/-- The loop over the FIFO of a group, until it is empty or the event ends. -/
def readGroup (i max_words : ℕ) (pio : Pio) : Except Stop Pio :=
  match _read : RegisterRead (VF48_FifoStat10 + 0x10 * (i / 2)) pio.trace with
  | .error stop => .error stop
  | .ok (status, trace) =>
      if fifoEmpty i status then .ok { pio with trace }
      else
        match _ran : readWords (VF48_FifoData0 + 0x10 * i) max_words (fifoCount i status)
            (Pio.put { pio with trace } (groupMarker i)) with
        | .error stop => .error stop
        | .ok (true, next) => .ok next
        | .ok (false, next) => readGroup i max_words next
termination_by pio.trace.length
decreasing_by
  have shorter := readWords_trace _ran
  rw [RegisterRead_ok _read]
  exact Nat.lt_succ_of_le shorter

/-- The loop over the groups, which stops when the words are as many as asked for. -/
def readGroups (grpEnable : Word) (max_words : ℕ) : List ℕ → Pio → Except Stop Pio
  | [], pio => .ok pio
  | i :: groups, pio =>
      if (1#32 <<< i) &&& grpEnable != 0 then do
        let pio ← readGroup i max_words pio
        if max_words ≤ pio.nread then return pio else readGroups grpEnable max_words groups pio
      else readGroups grpEnable max_words groups pio

/-- `vf48_EventReadPio`: what is written behind `pdest`, and `*nwords`. -/
def EventReadPio (max_words : ℕ) (trace : Trace) : Except Stop Pio := do
  let (csr, trace) ← RegisterRead VF48_CSR_REG_RW trace
  if csr &&& VF48_CSR_FIFO_DISABLE == 0 then .error .assertion
  else do
    let (grpEnable, trace) ← RegisterRead VF48_GRP_REG_RW trace
    readGroups grpEnable max_words (List.range 6) ⟨[], 0, trace⟩

end PtfConverter.VF48Vme
