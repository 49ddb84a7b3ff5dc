import PtfConverter.Model.MidasMemory

/-! # TMidasEvent: bank traversals and byte order

A bank event starts with `TMidas_BANK_HEADER` (data size, flags). The banks follow it, each a
header, its data and the padding to eight bytes. `IterateBank` and `IterateBank32` step from bank
to bank, `SetBankList` and `FindBank` are loops over them (`FindBank` walks 16-bit banks on its
own), and `SwapBytes` turns an event of the other byte order into native order in place. Pointers
are offsets from the start of the data, and the null pointer is `none`.
-/

namespace PtfConverter.Midas

def TID_SIZE : List (BitVec 32) := [0, 1, 1, 1, 2, 2, 4, 4, 4, 4, 8, 1, 0, 0, 0, 0, 0]

def TID_MAX : BitVec 32 := BitVec.ofNat 32 TID_SIZE.length

/-- `TID_SIZE[type & 0xFF]`. -/
def tidSize (type : BitVec 32) : Except Fault (BitVec 32) :=
  match TID_SIZE[(type &&& 0xff#32).toNat]? with
  | some size => .ok size
  | none => .error (.tidSize (type &&& 0xff#32).toNat)

/-- `(length + 7) & ~7`. -/
def align8 (length : BitVec 32) : BitVec 32 := (length + 7#32) &&& ~~~7#32

structure EventHeader where
  fEventId : BitVec 16
  fTriggerMask : BitVec 16
  fSerialNumber : BitVec 32
  fTimeStamp : BitVec 32
  fDataSize : BitVec 32
deriving DecidableEq, Repr

/-- An event with its data buffer. The bank list is `none` until it is made; a byte of it is `none`
until it is written. -/
structure TMidasEvent where
  fEventHeader : EventHeader
  fData : Memory
  fBanksN : ℕ
  fBankList : Option (List (Option Byte))

def EventHeader.IsGoodSize (header : EventHeader) : Prop :=
  0 < header.fDataSize.toNat ∧ header.fDataSize.toNat ≤ 500 * 1024 * 1024

instance (header : EventHeader) : Decidable header.IsGoodSize := inferInstanceAs (Decidable (_ ∧ _))

def IsBank32 (memory : Memory) : Except Fault Bool := do
  let fFlags ← memory.uint32 4
  return fFlags &&& (1#32 <<< 4) != 0#32

/-- A bank that an iteration reached: it lies behind the bank before it, and in reach of a 32-bit
size. -/
structure BankPointer (previous : Option ℕ) where
  offset : ℕ
  advances : ∀ bank ∈ previous, bank < offset
  below : offset < 2 ^ 32 + 8

/-- What an iteration yields for a bank: where it is, where its data is, and its size. -/
structure Iterated (previous : Option ℕ) where
  pbk : BankPointer previous
  pdata : ℕ
  fDataSize : BitVec 32

/-- Where `IterateBank` looks for the next bank. -/
def nextBank (memory : Memory) : Option ℕ → Except Fault ℕ
  | none => .ok 8
  | some pbk => do
      let length ← memory.uint16 (pbk + 6)
      return pbk + 8 + (align8 (length.setWidth 32)).toNat

/-- Where `IterateBank32` looks for the next bank. -/
def nextBank32 (memory : Memory) : Option ℕ → Except Fault ℕ
  | none => .ok 8
  | some pbk => do
      let length ← memory.uint32 (pbk + 8)
      return pbk + 12 + (align8 length).toNat

theorem nextBank_advances {memory : Memory} {previous : Option ℕ} {next : ℕ}
    (found : nextBank memory previous = .ok next) : ∀ bank ∈ previous, bank < next := by
  cases previous with
  | none => exact fun bank member => by cases member
  | some pbk =>
    obtain ⟨length, _, rest⟩ := Except.bind_eq_ok_iff.mp found
    cases rest
    rintro bank ⟨⟩
    omega

theorem nextBank32_advances {memory : Memory} {previous : Option ℕ} {next : ℕ}
    (found : nextBank32 memory previous = .ok next) : ∀ bank ∈ previous, bank < next := by
  cases previous with
  | none => exact fun bank member => by cases member
  | some pbk =>
    obtain ⟨length, _, rest⟩ := Except.bind_eq_ok_iff.mp found
    cases rest
    rintro bank ⟨⟩
    omega

/-- `IterateBank`: the end of the banks is tested before the bank is read. -/
def IterateBank (memory : Memory) (previous : Option ℕ) : Except Fault (Option (Iterated previous)) :=
  match found : nextBank memory previous with
  | .error fault => .error fault
  | .ok pbk => do
      let size ← memory.uint32 0
      if inside : pbk < size.toNat + 8 then do
        let fDataSize ← memory.uint16 (pbk + 6)
        return some ⟨⟨pbk, nextBank_advances found, by have := size.isLt; omega⟩, pbk + 8,
          fDataSize.setWidth 32⟩
      else return none

/-- Where the bank at `pbk` really starts: one word later when its type is unknown but the type one
word later is known, and nowhere when both are unknown. -/
def skipStrayWord (memory : Memory) (pbk : ℕ) : Except Fault (Option {bank : ℕ // pbk ≤ bank}) := do
  let type ← memory.uint32 (pbk + 4)
  if type > TID_MAX then do
    let type4 ← memory.uint32 (pbk + 4 + 4)
    if type4 ≤ TID_MAX then return some ⟨pbk + 4, by omega⟩ else return none
  else return some ⟨pbk, le_rfl⟩

/-- `IterateBank32`: the type words are read before the end of the banks is tested. -/
def IterateBank32 (memory : Memory) (previous : Option ℕ) : Except Fault (Option (Iterated previous)) :=
  match found : nextBank32 memory previous with
  | .error fault => .error fault
  | .ok candidate => do
      match ← skipStrayWord memory candidate with
      | none => return none
      | some pbk => do
          let size ← memory.uint32 0
          if inside : pbk.val < size.toNat + 8 then do
            let fDataSize ← memory.uint32 (pbk + 8)
            return some
              ⟨⟨pbk, fun bank member =>
                lt_of_lt_of_le (nextBank32_advances found bank member) pbk.property,
                by have := size.isLt; omega⟩, pbk + 12, fDataSize⟩
          else return none

/-- The name comparison stops at the first character that differs. -/
def matchName (memory : Memory) : ℕ → List Byte → Except Fault Bool
  | _, [] => .ok true
  | offset, char :: rest => do
      let byte ← memory.readByte offset
      if char = byte then matchName memory (offset + 1) rest else return false

/-- What `FindBank` reports for a bank: element count, type and data pointer. -/
structure Found where
  bklen : ℤ
  bktype : ℤ
  pdata : ℕ
deriving DecidableEq, Repr

/-- `bklen` is the size in units of the type, or the size itself when the type has no unit. -/
def foundBank (type fDataSize : BitVec 32) (pdata : ℕ) : Except Fault Found := do
  let size ← tidSize type
  if size = 0 then return ⟨fDataSize.toInt, type.toInt, pdata⟩
  else return ⟨(fDataSize / size).toInt, type.toInt, pdata⟩

/-- The loop of `FindBank` over 16-bit banks: the bank is looked at before the end is tested. -/
def findBankLoop (memory : Memory) (name : Name) (pbk : ℕ) : Except Fault (Option Found) := do
  if ← matchName memory pbk name.toList then do
    let type ← memory.uint16 (pbk + 4)
    let fDataSize ← memory.uint16 (pbk + 6)
    let found ← foundBank (type.setWidth 32) (fDataSize.setWidth 32) (pbk + 8)
    return some found
  else do
    let length ← memory.uint16 (pbk + 6)
    let size ← memory.uint32 0
    if pbk + 8 + (align8 (length.setWidth 32)).toNat < size.toNat + 8 then
      findBankLoop memory name (pbk + 8 + (align8 (length.setWidth 32)).toNat)
    else return none
termination_by 2 ^ 32 + 8 - pbk
decreasing_by have := size.isLt; omega

/-- How far a traversal of the banks can still go. -/
def remaining : Option ℕ → ℕ
  | none => 2 ^ 32 + 9
  | some bank => 2 ^ 32 + 8 - bank

theorem BankPointer.remaining_lt {previous : Option ℕ} (pbk : BankPointer previous) :
    remaining (some pbk.offset) < remaining previous := by
  have bound := pbk.below
  cases previous with
  | none => simp only [remaining]; omega
  | some bank =>
    have ahead := pbk.advances bank rfl
    simp only [remaining]
    omega

/-- The loop of `FindBank` over 32-bit banks. -/
def findBank32Loop (memory : Memory) (name : Name) (previous : Option ℕ) :
    Except Fault (Option Found) := do
  match ← IterateBank32 memory previous with
  | none => return none
  | some bank =>
      if ← matchName memory bank.pbk.offset name.toList then do
        let type ← memory.uint32 (bank.pbk.offset + 4)
        let fDataSize ← memory.uint32 (bank.pbk.offset + 8)
        let found ← foundBank type fDataSize bank.pdata
        return some found
      else findBank32Loop memory name (some bank.pbk.offset)
termination_by remaining previous
decreasing_by exact bank.pbk.remaining_lt

def FindBank (memory : Memory) (name : Name) : Except Fault (Option Found) := do
  if ← IsBank32 memory then findBank32Loop memory name none else findBankLoop memory name 8

/-- `memcpy` of a bank name into the bank list. -/
def appendName (list : List (Option Byte)) (index : ℕ) (name : List Byte) :
    Except Fault (List (Option Byte)) :=
  if index + name.length ≤ list.length then
    .ok (list.take index ++ name.map some ++ list.drop (index + name.length))
  else .error (.bankList index)

/-- One more bank wherever the format finds it. -/
def iterate (memory : Memory) (b32 : Bool) (previous : Option ℕ) :
    Except Fault (Option (BankPointer previous)) := do
  if b32 then return (← IterateBank32 memory previous).map (·.pbk)
  else return (← IterateBank memory previous).map (·.pbk)

/-- The loop of `SetBankList`: the list grows by 400 bytes whenever it is full. -/
def setBankListLoop (memory : Memory) (fBankList : List (Option Byte)) (fBanksN : ℕ)
    (previous : Option ℕ) :
    Except Fault (ℕ × List (Option Byte)) := do
  let fBankList := if fBanksN * 4 ≥ fBankList.length then
    fBankList ++ List.replicate 400 none else fBankList
  let b32 ← IsBank32 memory
  match ← iterate memory b32 previous with
  | none => return (fBanksN, fBankList)
  | some pbk => do
      let fName ← memory.readBytes pbk.offset 4
      let fBankList ← appendName fBankList (fBanksN * 4) fName
      setBankListLoop memory fBankList (fBanksN + 1) (some pbk.offset)
termination_by remaining previous
decreasing_by exact pbk.remaining_lt

/-- `SetBankList`: an event with id 0 or with a list is left alone. -/
def SetBankList (event : TMidasEvent) : Except Fault (TMidasEvent × ℕ) :=
  if event.fEventHeader.fEventId = 0 then .ok (event, 0)
  else if event.fBankList.isSome then .ok (event, event.fBanksN)
  else do
    let (fBanksN, fBankList) ← setBankListLoop event.fData [] 0 none
    let fBankList ← appendName fBankList (fBanksN * 4) [0]
    return ({ event with fBanksN := fBanksN, fBankList := some fBankList }, fBanksN)

/-- The bank list is all that `SetBankList` changes. -/
theorem SetBankList_keeps {event listed : TMidasEvent} {count : ℕ}
    (set : SetBankList event = .ok (listed, count)) :
    listed.fEventHeader = event.fEventHeader ∧ listed.fData = event.fData := by
  rw [SetBankList] at set
  split at set
  · cases set
    exact ⟨rfl, rfl⟩
  · split at set
    · cases set
      exact ⟨rfl, rfl⟩
    · obtain ⟨⟨number, names⟩, -, set⟩ := Except.bind_eq_ok_iff.mp set
      obtain ⟨terminated, -, set⟩ := Except.bind_eq_ok_iff.mp set
      cases set
      exact ⟨rfl, rfl⟩

/-- The value of a `uint32_t` after its bytes are reversed. -/
def swapped (value : BitVec 32) : BitVec 32 :=
  BitVec.ofNat 32 (Bytes.value (Bytes.encode 4 value.toNat).reverse)

/-- `while (pdata < pbk)`: swap each element of a bank's data and padding. -/
def swapData (unit : ℕ) (memory : Memory) (pdata pbk : ℕ) : Except Fault Memory :=
  if 0 < unit ∧ pdata < pbk then do
    let memory ← memory.swap unit pdata
    swapData unit memory (pdata + unit) pbk
  else .ok memory
termination_by pbk - pdata

/-- The element size of the switch in `SwapBytes`; 0 where nothing is swapped. -/
def swapUnit (type : BitVec 16) : ℕ :=
  if type = 4 ∨ type = 5 then 2
  else if type = 6 ∨ type = 7 ∨ type = 8 ∨ type = 9 then 4
  else if type = 10 then 8
  else 0

/-- Swap a bank header; the type, the size and the start of the data as they are afterwards. -/
def swapBankHeader (memory : Memory) (b32 : Bool) (pbk : ℕ) :
    Except Fault (Memory × BitVec 16 × BitVec 32 × ℕ) :=
  if b32 then do
    let memory ← memory.DWORD_SWAP (pbk + 4)
    let memory ← memory.DWORD_SWAP (pbk + 8)
    let type ← memory.uint32 (pbk + 4)
    let fDataSize ← memory.uint32 (pbk + 8)
    return (memory, type.setWidth 16, fDataSize, pbk + 12)
  else do
    let memory ← memory.WORD_SWAP (pbk + 4)
    let memory ← memory.WORD_SWAP (pbk + 6)
    let type ← memory.uint16 (pbk + 4)
    let fDataSize ← memory.uint16 (pbk + 6)
    return (memory, type, fDataSize.setWidth 32, pbk + 8)

/-- The scan of `SwapBytes`; the size of a bank is asserted to be near the size of the event. -/
def swapBanks (memory : Memory) (eventSize : BitVec 32) (b32 : Bool) (pbk : ℕ) :
    Except Fault Memory := do
  let size ← memory.uint32 0
  if pbk < size.toNat + 8 then do
    let (memory, type, fDataSize, pdata) ← swapBankHeader memory b32 pbk
    if fDataSize < eventSize + 100 then do
      let next := (if b32 then pbk + 12 else pbk + 8) + (align8 fDataSize).toNat
      let memory ← swapData (swapUnit type) memory pdata next
      swapBanks memory eventSize b32 ((if b32 then pbk + 12 else pbk + 8) + (align8 fDataSize).toNat)
    else .error .assertion
  else return memory
termination_by 2 ^ 32 + 8 - pbk
decreasing_by have := size.isLt; split <;> omega

/-- `SwapBytes(force)` on the data of an event of `eventSize` bytes. -/
def SwapBytes (memory : Memory) (eventSize : BitVec 32) (force : Bool) : Except Fault (Memory × ℤ) := do
  let fDataSize ← memory.uint32 0
  let dssw := swapped fDataSize
  let fFlags ← memory.uint32 4
  if fFlags < 0x10000 ∧ ¬ force then return (memory, 0)
  else if fDataSize = 0x6d783f3c then return (memory, 1)
  else if fDataSize = 0x3c3f786d then return (memory, 1)
  else if dssw > eventSize + 100 then return (memory, 1)
  else do
    let memory ← memory.DWORD_SWAP 0
    let memory ← memory.DWORD_SWAP 4
    let b32 ← IsBank32 memory
    let memory ← swapBanks memory eventSize b32 8
    return (memory, 1)

end PtfConverter.Midas
