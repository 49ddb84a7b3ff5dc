import PtfConverter.Soundness.EventProgram

/-! # The data of a bank in memory

Where an event is the encoding of a list of banks, `FindBank` finds the first bank of a name, and
the bytes at its data pointer are its data. What lies behind them is arbitrary, and belongs to
other banks or to no event.
-/

namespace PtfConverter.Midas

/-- The first bank of a name. -/
def BankEvent.firstBank (banks : BankEvent) (name : Name) : Option Bank :=
  (banks.entries.find? fun entry => entry.bank.name = name).map Entry.bank

/-- Where `FindBank` finds a bank, its data are in memory. -/
theorem FindBank_firstBank {banks : BankEvent} (nonempty : banks.entries ≠ []) (behind : ℕ → Byte)
    (name : Name) :
    (banks.firstBank name = none ∧ FindBank ⟨banks.encode .native, some behind⟩ name = .ok none) ∨
      ∃ bank pdata, banks.firstBank name = some bank ∧
        FindBank ⟨banks.encode .native, some behind⟩ name = .ok (some ⟨bank.count, bank.type, pdata⟩) ∧
        Memory.peekBytes ⟨banks.encode .native, some behind⟩ pdata bank.data.length = bank.data := by
  have read := banksRead_encode banks nonempty ⟨1, 0, 0, 0, 0⟩ (by decide) behind
  cases found : banks.entries.find? fun entry => entry.bank.name = name with
  | none =>
    refine .inl ⟨by rw [BankEvent.firstBank, found]; rfl, read.absent name fun entry member => ?_⟩
    have other := List.find?_eq_none.mp found entry member
    simpa using other
  | some entry =>
    obtain ⟨named, before, after, split, others⟩ := List.find?_eq_some_iff_append.mp found
    have named : entry.bank.name = name := of_decide_eq_true named
    obtain ⟨pdata, ran, -, data⟩ := read.found before entry after split fun other member => by
      have differs := others other member
      simpa [named] using differs
    rw [named] at ran
    exact .inr ⟨entry.bank, pdata, by rw [BankEvent.firstBank, found]; rfl, ran, data⟩

section Memory

variable {memory : Memory} {behind : ℕ → Byte} {pdata : ℕ} {data : List Byte}

/-- A byte of the data, where they are in memory. -/
theorem byte_of_peekBytes (readable : memory.beyond = some behind)
    (there : memory.peekBytes pdata data.length = data) {k : ℕ} (inside : k < data.length) :
    (memory.readByte (pdata + k)).toOption.getD 0 = data.getD k 0 := by
  have reach : memory.Reaches (pdata + k + 1) := fun none => by
    rw [readable] at none
    cases none
  have byte := congrArg (fun bytes => bytes.getD k 0) there
  rw [Memory.readByte_of_reaches reach, ← byte]
  simp [Memory.peekBytes, inside, Except.toOption]

/-- Bytes of the data, where they are in memory. -/
theorem bytesAt_of_peekBytes (readable : memory.beyond = some behind)
    (there : memory.peekBytes pdata data.length = data) {offset count : ℕ}
    (inside : offset + count ≤ data.length) :
    bytesAt memory (pdata + offset) count = (data.drop offset).take count := by
  apply List.ext_getElem
  · rw [bytesAt, List.length_map, List.length_range, List.length_take, List.length_drop]
    omega
  · intro k short long
    rw [bytesAt, List.length_map, List.length_range] at short
    have below : offset + k < data.length := by omega
    have byte := byte_of_peekBytes readable there below
    rw [List.getD_eq_getElem _ _ below] at byte
    simp only [bytesAt, List.getElem_map, List.getElem_range, List.getElem_take, List.getElem_drop,
      ← byte, Nat.add_assoc]

end Memory

end PtfConverter.Midas
