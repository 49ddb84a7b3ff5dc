import PtfConverter.Model.MidasMemory

/-! # What a MIDAS bank event says

The content of a bank event, apart from any buffer: a list of named banks with typed data. An
event is laid out in the 16-bit or in the 32-bit bank format, in the byte order of the reading
host or in the other one. Every value of `BankEvent` is well formed, so its encoding can always
be the data of an event.
-/

namespace PtfConverter.Midas

/-- The size of one element, by which the length of a bank is counted; 0 when bytes are counted. -/
def unitOf : ℕ → ℕ
  | 1 | 2 | 3 | 11 => 1
  | 4 | 5 => 2
  | 6 | 7 | 8 | 9 => 4
  | 10 => 8
  | _ => 0

/-- The size of the elements that have a byte order; 0 when the data have none. -/
def elementOf : ℕ → ℕ
  | 4 | 5 => 2
  | 6 | 7 | 8 | 9 => 4
  | 10 => 8
  | _ => 0

/-- A bank with a printable name, a known type, and data in whole elements. -/
structure Bank where
  name : Name
  type : ℕ
  data : List Byte
  printable : ∀ char ∈ name.toList, 0x20 ≤ char.toNat ∧ char.toNat ≤ 0x7e
  known : 1 ≤ type ∧ type ≤ 16
  whole : unitOf type ≠ 0 → unitOf type ∣ data.length

/-- The length that is reported for a bank. -/
def Bank.count (bank : Bank) : ℕ :=
  if unitOf bank.type = 0 then bank.data.length else bank.data.length / unitOf bank.type

/-- A bank behind the stray word that some 32-bit files have in front of a header. -/
structure Entry where
  stray : List Byte
  bank : Bank

inductive ByteOrder where
  | native | foreign
deriving DecidableEq, Repr

namespace ByteOrder

/-- A number field. -/
def field (order : ByteOrder) (width n : ℕ) : List Byte :=
  match order with
  | native => Bytes.encode width n
  | foreign => (Bytes.encode width n).reverse

/-- The data of a bank, given in native order. -/
def elements (order : ByteOrder) (type : ℕ) (data : List Byte) : List Byte :=
  match order with
  | native => data
  | foreign => Bytes.swapEach (elementOf type) data

@[simp] theorem field_length (order : ByteOrder) (width n : ℕ) :
    (order.field width n).length = width := by
  cases order with
  | native => exact Bytes.encode_length width n
  | foreign => rw [field, List.length_reverse, Bytes.encode_length]

@[simp] theorem elements_length (order : ByteOrder) (type : ℕ) (data : List Byte) :
    (order.elements type data).length = data.length := by
  cases order with
  | native => rfl
  | foreign => exact Bytes.swapEach_length ..

end ByteOrder

/-- The width of the type and size fields of a bank header. -/
def fieldWidth (b32 : Bool) : ℕ := if b32 then 4 else 2

/-- A size rounded up to eight bytes. -/
def padded (size : ℕ) : ℕ := (size + 7) / 8 * 8

theorem le_padded (size : ℕ) : size ≤ padded size := by
  unfold padded
  omega

def Bank.encode (order : ByteOrder) (b32 : Bool) (bank : Bank) : List Byte :=
  bank.name.toList ++ order.field (fieldWidth b32) bank.type ++ order.field
    (fieldWidth b32) bank.data.length ++
    order.elements bank.type bank.data ++ List.replicate (padded bank.data.length - bank.data.length) 0

def Entry.encode (order : ByteOrder) (b32 : Bool) (entry : Entry) : List Byte :=
  entry.stray ++ entry.bank.encode order b32

/-- The banks of an event, one behind the other. -/
def encodeEntries (order : ByteOrder) (b32 : Bool) (entries : List Entry) : List Byte :=
  entries.flatMap (Entry.encode order b32)

theorem Bank.encode_length (order : ByteOrder) (b32 : Bool) (bank : Bank) :
    (bank.encode order b32).length = 4 + 2 * fieldWidth b32 + padded bank.data.length := by
  have bound := le_padded bank.data.length
  simp only [Bank.encode, List.length_append, Vector.length_toList, ByteOrder.field_length,
    ByteOrder.elements_length, List.length_replicate]
  omega

theorem Entry.encode_length (order : ByteOrder) (b32 : Bool) (entry : Entry) :
    (entry.encode order b32).length =
      entry.stray.length + (4 + 2 * fieldWidth b32 + padded entry.bank.data.length) := by
  rw [Entry.encode, List.length_append, Bank.encode_length]

@[simp] theorem encodeEntries_nil (order : ByteOrder) (b32 : Bool) :
    encodeEntries order b32 [] = [] :=
  rfl

theorem encodeEntries_cons (order : ByteOrder) (b32 : Bool) (entry : Entry) (entries : List Entry) :
    encodeEntries order b32 (entry :: entries) =
      entry.encode order b32 ++ encodeEntries order b32 entries :=
  List.flatMap_cons

theorem encodeEntries_append (order : ByteOrder) (b32 : Bool) (first second : List Entry) :
    encodeEntries order b32 (first ++ second) =
      encodeEntries order b32 first ++ encodeEntries order b32 second :=
  List.flatMap_append

/-- The length of an encoding does not depend on the byte order. -/
theorem encodeEntries_length_eq (order other : ByteOrder) (b32 : Bool) (entries : List Entry) :
    (encodeEntries order b32 entries).length = (encodeEntries other b32 entries).length := by
  induction entries with
  | nil => rfl
  | cons entry entries ih =>
    simp only [encodeEntries_cons, List.length_append, Entry.encode_length, ih]

/-- The largest event that a file can hold. -/
def maxEventSize : ℕ := 500 * 1024 * 1024

/-- A bank event: its format is the one its flags announce, its sizes fit their fields, and only
32-bit banks have stray words. -/
structure BankEvent where
  b32 : Bool
  flags : BitVec 32
  entries : List Entry
  announced : (flags &&& (1#32 <<< 4) != 0#32) = b32
  sizes : b32 = false → ∀ entry ∈ entries, entry.bank.data.length < 2 ^ 16
  strays : ∀ entry ∈ entries, entry.stray = [] ∨ b32 = true ∧ entry.stray.length = 4
  good : 8 + (encodeEntries .native b32 entries).length ≤ maxEventSize

/-- The data of the event. -/
def BankEvent.encode (order : ByteOrder) (event : BankEvent) : List Byte :=
  order.field 4 (encodeEntries .native event.b32 event.entries).length ++
    order.field 4 event.flags.toNat ++
    encodeEntries order event.b32 event.entries

theorem BankEvent.encode_length (order : ByteOrder) (event : BankEvent) :
    (event.encode order).length = 8 + (encodeEntries .native event.b32 event.entries).length := by
  simp only [BankEvent.encode, List.length_append, ByteOrder.field_length,
    encodeEntries_length_eq order .native]

end PtfConverter.Midas
