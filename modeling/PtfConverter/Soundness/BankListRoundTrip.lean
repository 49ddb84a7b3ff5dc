import PtfConverter.Model.MidasBanks
import PtfConverter.Model.MidasFile
import PtfConverter.Soundness.BankWalk

/-! # Every bank list is read back

The walk over an encoded event lands on the start of each of its banks, in order, and ends behind
the last one whatever lies there. So `SetBankList` lists exactly the names, and `FindBank` reports
the first bank of a name. The invariant of both loops is the split of the event into the banks
behind the candidate and the banks in front of it.
-/

namespace PtfConverter.Midas

open Memory

theorem headerSize_eq (b32 : Bool) : headerSize b32 = 4 + 2 * fieldWidth b32 := by
  cases b32 <;> rfl

/-- The memory holds a bank at an offset. -/
structure Holds (memory : Memory) (b32 : Bool) (start : ℕ) (bank : Bank) : Prop where
  name : nameAt memory start = bank.name.toList
  type : typeAt memory b32 start = BitVec.ofNat 32 bank.type
  size : sizeAt memory b32 start = BitVec.ofNat 32 bank.data.length
  data : memory.peekBytes (start + headerSize b32) bank.data.length = bank.data

private theorem typeAt_segment {memory : Memory} {b32 : Bool} {start n : ℕ} (before : List Byte)
    {after : List Byte}
    (layout : memory.data = before ++ (ByteOrder.native.field (fieldWidth b32) n ++ after))
    (offset : start + 4 = before.length) (small : n < 2 ^ 16) :
    typeAt memory b32 start = BitVec.ofNat 32 n := by
  have value : Bytes.value (ByteOrder.native.field (fieldWidth b32) n) = n :=
    Bytes.value_encode_of_lt (by cases b32 <;>
      simp only [fieldWidth, Bool.false_eq_true, ↓reduceIte] <;> omega)
  unfold typeAt
  rw [offset]
  cases b32 with
  | true => rw [if_pos rfl, peek32_segment layout (ByteOrder.field_length ..), value]
  | false =>
    rw [if_neg Bool.false_ne_true, peek16_segment layout (ByteOrder.field_length ..), value]
    apply BitVec.eq_of_toNat_eq
    simp only [BitVec.toNat_setWidth, BitVec.toNat_ofNat]
    omega

private theorem sizeAt_segment {memory : Memory} {b32 : Bool} {start n : ℕ} (before : List Byte)
    {after : List Byte}
    (layout : memory.data = before ++ (ByteOrder.native.field (fieldWidth b32) n ++ after))
    (offset : start + 4 + fieldWidth b32 = before.length) (small : n < 256 ^ fieldWidth b32) :
    sizeAt memory b32 start = BitVec.ofNat 32 n := by
  have value : Bytes.value (ByteOrder.native.field (fieldWidth b32) n) = n :=
    Bytes.value_encode_of_lt small
  unfold sizeAt
  cases b32 with
  | true =>
    have place : start + 8 = before.length := offset
    rw [if_pos rfl, place, peek32_segment layout (ByteOrder.field_length ..), value]
  | false =>
    have place : start + 6 = before.length := offset
    rw [if_neg Bool.false_ne_true, place, peek16_segment layout (ByteOrder.field_length ..), value]
    apply BitVec.eq_of_toNat_eq
    simp only [fieldWidth, Bool.false_eq_true, ↓reduceIte] at small
    simp only [BitVec.toNat_setWidth, BitVec.toNat_ofNat]
    omega

/-- A bank laid out at an offset is held there. -/
theorem holds_of_layout {memory : Memory} {b32 : Bool} {bank : Bank} {before after : List Byte}
    (layout : memory.data = before ++ (bank.encode .native b32 ++ after))
    (small : bank.data.length < 256 ^ fieldWidth b32) : Holds memory b32 before.length bank := by
  have known := bank.known
  have chars : bank.name.toList.length = 4 := bank.name.length_toList
  simp only [Bank.encode, List.append_assoc] at layout
  have afterName := layout.trans (List.append_assoc ..).symm
  have afterType := afterName.trans (List.append_assoc ..).symm
  have afterSize := afterType.trans (List.append_assoc ..).symm
  refine ⟨?_, typeAt_segment _ afterName ?_ (by omega), sizeAt_segment _ afterType ?_ small, ?_⟩
  · have segment := peekBytes_segment layout
    rwa [chars] at segment
  · rw [List.length_append, chars]
  · rw [List.length_append, List.length_append, chars, ByteOrder.field_length]
  · have segment := peekBytes_segment afterSize
    simp only [List.length_append, chars, ByteOrder.field_length] at segment
    rw [headerSize_eq, Nat.two_mul, ← Nat.add_assoc, ← Nat.add_assoc]
    exact segment

theorem after_of_holds {memory : Memory} {b32 : Bool} {start : ℕ} {bank : Bank}
    (held : Holds memory b32 start bank) (small : bank.data.length ≤ maxEventSize) :
    after memory b32 start = start + (bank.encode .native b32).length := by
  rw [maxEventSize] at small
  rw [after, held.size, align8_toNat, BitVec.toNat_ofNat, Bank.encode_length, headerSize_eq, padded]
  omega

private theorem type_le_max {bank : Bank} : ¬ BitVec.ofNat 32 bank.type > TID_MAX := by
  have known := bank.known
  have small : bank.type % 2 ^ 32 = bank.type := Nat.mod_eq_of_lt (by omega)
  rw [gt_iff_lt, BitVec.lt_def, BitVec.toNat_ofNat, small]
  change ¬ 17 < bank.type
  omega

/-- The characters of a name are no type code, so a stray word shows. -/
private theorem name_gt_max {bank : Bank} :
    BitVec.ofNat 32 (Bytes.value bank.name.toList) > TID_MAX := by
  have chars : bank.name.toList.length = 4 := bank.name.length_toList
  have printable := bank.printable
  have bound := Bytes.value_lt bank.name.toList
  rw [chars] at bound
  match listed : bank.name.toList with
  | [] => rw [listed] at chars; cases chars
  | char :: rest =>
    have text := (printable char (by rw [listed]; exact List.mem_cons_self)).1
    rw [listed, Bytes.value_cons] at bound
    rw [gt_iff_lt, BitVec.lt_def, BitVec.toNat_ofNat, Bytes.value_cons, Nat.mod_eq_of_lt (by omega)]
    change 17 < _
    omega

/-- The walk lands on an entry's bank, stray word or not. -/
theorem landing_of_layout {memory : Memory} {b32 : Bool} {entry : Entry} {before after : List Byte}
    (layout : memory.data = before ++ (entry.encode .native b32 ++ after))
    (stray : entry.stray = [] ∨ b32 = true ∧ entry.stray.length = 4)
    (small : entry.bank.data.length < 256 ^ fieldWidth b32)
    (inside : before.length + entry.stray.length < endOf memory) :
    landing memory b32 before.length = some (before.length + entry.stray.length) ∧
      Holds memory b32 (before.length + entry.stray.length) entry.bank := by
  rw [Entry.encode, List.append_assoc] at layout
  have shifted := layout.trans (List.append_assoc ..).symm
  have held := holds_of_layout shifted small
  rw [List.length_append] at held
  refine ⟨Option.filter_eq_some_iff.mpr ⟨?_, decide_eq_true inside⟩, held⟩
  unfold aligned
  cases b32 with
  | false =>
    rcases stray with none | ⟨absurd32, _⟩
    · rw [none]
      rfl
    · cases absurd32
  | true =>
    have type : memory.peek32 (before.length + entry.stray.length + 4) =
      BitVec.ofNat 32 entry.bank.type := held.type
    rw [if_pos rfl]
    rcases stray with none | ⟨_, four⟩
    · rw [none, List.length_nil, Nat.add_zero] at type ⊢
      rw [type, if_neg type_le_max, Nat.add_zero]
    · have name : memory.peek32 (before.length + 4) =
        BitVec.ofNat 32 (Bytes.value entry.bank.name.toList) := by
        simp only [Bank.encode, List.append_assoc] at shifted
        have segment := peek32_segment
          (shifted.trans (List.append_assoc ..).symm) entry.bank.name.length_toList
        rwa [List.length_append, four] at segment
      rw [four, Nat.add_assoc] at type
      rw [name, if_pos name_gt_max, type, if_pos (BitVec.not_lt.mp type_le_max), four]

/-- Behind the last bank nothing is found, whatever lies there. -/
private theorem landing_at_end {memory : Memory} {b32 : Bool} {candidate : ℕ}
    (ended : endOf memory ≤ candidate) :
    landing memory b32 candidate = none := by
  cases landed : landing memory b32 candidate with
  | none => rfl
  | some bank =>
    have order := le_of_landing landed
    omega

theorem candidateReaches_of_beyond {data : List Byte} (bytes : ℕ → Byte) (b32 : Bool) (candidate : ℕ) :
    CandidateReaches ⟨data, some bytes⟩ b32 candidate :=
  ⟨fun _ => reaches_of_beyond bytes _, fun _ _ => reaches_of_beyond bytes _,
    fun _ _ => reaches_of_beyond bytes _⟩

/-- The entries in front of a candidate, and the sizes that a walk over them relies on. -/
structure Ahead (memory : Memory) (b32 : Bool) (before : List Byte) (entries : List Entry) : Prop where
  layout : memory.data = before ++ encodeEntries .native b32 entries
  ends : endOf memory = memory.data.length
  strays : ∀ entry ∈ entries, entry.stray = [] ∨ b32 = true ∧ entry.stray.length = 4
  sizes : ∀ entry ∈ entries, entry.bank.data.length < 256 ^ fieldWidth b32
  good : memory.data.length ≤ maxEventSize

theorem Ahead.size_le {memory : Memory} {b32 : Bool} {before : List Byte} {entry : Entry}
    {entries : List Entry} (ahead : Ahead memory b32 before (entry :: entries)) :
    entry.bank.data.length ≤ maxEventSize := by
  have bound := ahead.good
  have dataSize := le_padded entry.bank.data.length
  rw [ahead.layout, encodeEntries_cons, List.length_append, List.length_append,
    Entry.encode_length] at bound
  omega

/-- The walk lands on the first entry ahead, and the rest are ahead of what follows it. -/
theorem Ahead.step {memory : Memory} {b32 : Bool} {before : List Byte} {entry : Entry}
    {entries : List Entry} (ahead : Ahead memory b32 before (entry :: entries)) :
    landing memory b32 before.length = some (before.length + entry.stray.length) ∧
      Holds memory b32 (before.length + entry.stray.length) entry.bank ∧
      after memory b32 (before.length + entry.stray.length) =
        (before ++ entry.encode .native b32).length ∧
      Ahead memory b32 (before ++ entry.encode .native b32) entries := by
  obtain ⟨layout, ends, strays, sizes, good⟩ := ahead
  rw [encodeEntries_cons] at layout
  have size := Ahead.size_le ⟨by rw [encodeEntries_cons]; exact layout, ends, strays, sizes, good⟩
  have inside : before.length + entry.stray.length < endOf memory := by
    rw [ends, layout, List.length_append, List.length_append, Entry.encode_length]
    omega
  obtain ⟨landed, held⟩ :=
    landing_of_layout layout (strays entry List.mem_cons_self)
    (sizes entry List.mem_cons_self) inside
  refine ⟨landed, held, ?_, ?_⟩
  · rw [after_of_holds held size, List.length_append, Entry.encode, List.length_append, Nat.add_assoc]
  · exact ⟨by rw [layout, List.append_assoc], ends,
      fun other member => strays other (List.mem_cons_of_mem _ member),
      fun other member => sizes other (List.mem_cons_of_mem _ member), good⟩

theorem Ahead.landing_nil {memory : Memory} {b32 : Bool} {before : List Byte}
    (ahead : Ahead memory b32 before []) : landing memory b32 before.length = none := by
  have layout := ahead.layout
  rw [encodeEntries_nil, List.append_nil] at layout
  exact landing_at_end (by rw [ahead.ends, layout])

/-- The same after any number of entries. -/
theorem Ahead.drop {memory : Memory} {b32 : Bool} {before : List Byte} {passed entries : List Entry}
    (ahead : Ahead memory b32 before (passed ++ entries)) :
    Ahead memory b32 (before ++ encodeEntries .native b32 passed) entries := by
  induction passed generalizing before with
  | nil => rwa [encodeEntries_nil, List.append_nil]
  | cons entry passed ih =>
    rw [encodeEntries_cons, ← List.append_assoc]
    exact ih ahead.step.2.2.2

/-- A walk visits the banks ahead in order. -/
theorem visited_names {memory : Memory} {b32 : Bool} {before : List Byte} {entries : List Entry}
    (ahead : Ahead memory b32 before entries) :
    (visited memory b32 before.length).map (nameAt memory) = entries.map (·.bank.name.toList) := by
  induction entries generalizing before with
  | nil => rw [visited_none ahead.landing_nil]; rfl
  | cons entry entries ih =>
    obtain ⟨landed, held, next, more⟩ := ahead.step
    rw [visited_some landed, List.map_cons, List.map_cons, held.name, next, ih more]

/-- The first bank of a name, from the entries at an offset on. -/
def locate (b32 : Bool) (name : Name) : ℕ → List Entry → Option Found
  | _, [] => none
  | offset, entry :: entries =>
      if entry.bank.name = name then
        some ⟨entry.bank.count, entry.bank.type, offset + entry.stray.length + headerSize b32⟩
      else locate b32 name (offset + (entry.encode .native b32).length) entries

private theorem tidSize_of_known {type : ℕ} (known : 1 ≤ type ∧ type ≤ 16) :
    tidSize (BitVec.ofNat 32 type) = .ok (BitVec.ofNat 32 (unitOf type)) := by
  obtain ⟨low, high⟩ := known
  interval_cases type <;> rfl

private theorem unitOf_le (type : ℕ) : unitOf type ≤ 8 := by
  unfold unitOf
  split <;> omega

private theorem toInt_ofNat {n : ℕ} (small : n ≤ maxEventSize) : (BitVec.ofNat 32 n).toInt = n := by
  rw [maxEventSize] at small
  rw [BitVec.toInt_ofNat', Int.bmod_eq_of_le] <;> omega

/-- What is reported for a bank that the memory holds. -/
theorem report_of_holds {memory : Memory} {b32 : Bool} {start : ℕ} {bank : Bank}
    (held : Holds memory b32 start bank) (small : bank.data.length ≤ maxEventSize) :
    report memory b32 start = .ok (some ⟨bank.count, bank.type, start + headerSize b32⟩) := by
  have unit := unitOf_le bank.type
  have sizeSmall := small
  have type : (BitVec.ofNat 32 bank.type).toInt = bank.type :=
    toInt_ofNat (by have known := bank.known; rw [maxEventSize]; omega)
  rw [maxEventSize] at sizeSmall
  rw [report, held.type, held.size, foundBank, tidSize_of_known bank.known, Except.ok_bind, Bank.count]
  by_cases bytes : unitOf bank.type = 0
  · rw [if_pos bytes, bytes, if_pos (show 0#32 = 0 from rfl), type, toInt_ofNat small]
    rfl
  · have elements : BitVec.ofNat 32 (unitOf bank.type) ≠ 0 := by
      intro zero
      have value := congrArg BitVec.toNat zero
      rw [BitVec.toNat_ofNat, Nat.mod_eq_of_lt (by omega)] at value
      exact bytes value
    have quotient : BitVec.ofNat 32 bank.data.length / BitVec.ofNat 32 (unitOf bank.type) =
        BitVec.ofNat 32 (bank.data.length / unitOf bank.type) := by
      have below := Nat.div_le_self bank.data.length (unitOf bank.type)
      apply BitVec.eq_of_toNat_eq
      rw [BitVec.toNat_udiv, BitVec.toNat_ofNat, BitVec.toNat_ofNat, BitVec.toNat_ofNat,
        Nat.mod_eq_of_lt (by omega), Nat.mod_eq_of_lt (by omega), Nat.mod_eq_of_lt (by omega)]
    rw [if_neg bytes, if_neg elements, quotient, type, toInt_ofNat ((Nat.div_le_self ..).trans small)]
    rfl

private theorem name_iff {memory : Memory} {b32 : Bool} {start : ℕ} {bank : Bank}
    (held : Holds memory b32 start bank) (name : Name) :
    nameAt memory start = name.toList ↔ bank.name = name := by
  rw [held.name, Vector.toList_inj]

/-- The search over 32-bit banks finds the first bank of the name. -/
theorem findBank32Loop_of_ahead {data : List Byte} {beyond : ℕ → Byte} {name : Name}
    {before : List Byte} {entries : List Entry} {previous : Option ℕ}
    (ahead : Ahead ⟨data, some beyond⟩ true before entries)
    (next : nextOf ⟨data, some beyond⟩ true previous = .ok before.length) :
    findBank32Loop ⟨data, some beyond⟩ name previous =
      .ok (locate true name before.length entries) := by
  induction entries generalizing before previous with
  | nil =>
    rw [findBank32Loop_of_reaches next (reaches_of_beyond _ _) (candidateReaches_of_beyond _ _ _),
      ahead.landing_nil, locate]
  | cons entry entries ih =>
    obtain ⟨landed, held, behind, more⟩ := ahead.step
    have small := ahead.size_le
    rw [findBank32Loop_of_reaches next (reaches_of_beyond _ _) (candidateReaches_of_beyond _ _ _),
      landed, locate]
    by_cases same : entry.bank.name = name
    · simp only [if_pos same, if_pos ((name_iff held name).mpr same), report_of_holds held small]
    · have goes : nextOf ⟨data, some beyond⟩ true (some (before.length + entry.stray.length)) = .ok _ :=
        nextOf_some (reaches_of_beyond _ _)
      simp only [if_neg same, if_neg (mt (name_iff held name).mp same)]
      rw [behind] at goes
      rw [ih more goes, List.length_append]

private theorem Ahead.stray_nil {memory : Memory} {before : List Byte} {entry : Entry}
    {entries : List Entry} (ahead : Ahead memory false before (entry :: entries)) :
    entry.stray = [] := by
  rcases ahead.strays entry List.mem_cons_self with none | ⟨absurd32, _⟩
  · exact none
  · cases absurd32

/-- The search over 16-bit banks does too, as long as there is a bank to look at. -/
theorem findBankLoop_of_ahead {data : List Byte} {beyond : ℕ → Byte} {name : Name}
    {before : List Byte} {entry : Entry} {entries : List Entry}
    (ahead : Ahead ⟨data, some beyond⟩ false before (entry :: entries)) :
    findBankLoop ⟨data, some beyond⟩ name before.length =
      .ok (locate false name before.length (entry :: entries)) := by
  induction entries generalizing before entry with
  | nil =>
    obtain ⟨_, held, behind, more⟩ := ahead.step
    rw [ahead.stray_nil, List.length_nil, Nat.add_zero] at held behind
    have layout := more.layout
    rw [encodeEntries_nil, List.append_nil] at layout
    have ended : ¬ after ⟨data, some beyond⟩ false before.length < endOf ⟨data, some beyond⟩ := by
      rw [behind, more.ends, layout]
      exact lt_irrefl _
    rw [findBankLoop_of_reaches (reaches_of_beyond _ _) (reaches_of_beyond _ _), locate,
      ahead.stray_nil, List.length_nil, Nat.add_zero]
    by_cases same : entry.bank.name = name
    · rw [if_pos same, if_pos ((name_iff held name).mpr same), report_of_holds held ahead.size_le]
    · rw [if_neg same, if_neg (mt (name_iff held name).mp same), if_neg ended, locate]
  | cons next entries ih =>
    obtain ⟨_, held, behind, more⟩ := ahead.step
    rw [ahead.stray_nil, List.length_nil, Nat.add_zero] at held behind
    have inside : after ⟨data, some beyond⟩ false before.length < endOf ⟨data, some beyond⟩ := by
      have positive : 0 < (next.encode .native false).length := by rw [Entry.encode_length]; omega
      rw [behind, more.ends, more.layout, encodeEntries_cons]
      simp only [List.length_append]
      omega
    rw [findBankLoop_of_reaches (reaches_of_beyond _ _) (reaches_of_beyond _ _), locate,
      ahead.stray_nil, List.length_nil, Nat.add_zero]
    by_cases same : entry.bank.name = name
    · rw [if_pos same, if_pos ((name_iff held name).mpr same), report_of_holds held ahead.size_le]
    · rw [if_neg same, if_neg (mt (name_iff held name).mp same), if_pos inside, behind, ih more,
        List.length_append]

theorem locate_append {b32 : Bool} {name : Name} {offset : ℕ} {before : List Entry}
    (none : ∀ entry ∈ before, entry.bank.name ≠ name) (entries : List Entry) :
    locate b32 name offset (before ++ entries) =
      locate b32 name (offset + (encodeEntries .native b32 before).length) entries := by
  induction before generalizing offset with
  | nil => rfl
  | cons entry rest ih =>
    obtain ⟨other, others⟩ := List.forall_mem_cons.mp none
    rw [List.cons_append, locate, if_neg other, ih others, encodeEntries_cons, List.length_append,
      Nat.add_assoc]

/-- The bank header of an encoded event. -/
def BankEvent.header (banks : BankEvent) : List Byte :=
  ByteOrder.native.field 4 (encodeEntries .native banks.b32 banks.entries).length ++
    ByteOrder.native.field 4 banks.flags.toNat

theorem BankEvent.header_length (banks : BankEvent) : banks.header.length = 8 := by
  rw [header, List.length_append, ByteOrder.field_length, ByteOrder.field_length]

theorem BankEvent.ahead (banks : BankEvent) (beyond : Option (ℕ → Byte)) :
    Ahead ⟨banks.encode .native, beyond⟩ banks.b32 banks.header banks.entries := by
  have good := banks.good
  have maximum : maxEventSize = 500 * 1024 * 1024 := rfl
  refine ⟨rfl, ?_, banks.strays, fun entry member => ?_, ?_⟩
  · have layout : (Memory.mk (banks.encode .native) beyond).data = [] ++
        (ByteOrder.native.field 4 (encodeEntries .native banks.b32 banks.entries).length ++
          (ByteOrder.native.field 4 banks.flags.toNat ++
            encodeEntries .native banks.b32 banks.entries)) := by
      rw [List.nil_append, ← List.append_assoc]
      rfl
    have size := peek32_segment layout (ByteOrder.field_length ..)
    rw [List.length_nil] at size
    rw [endOf, size, ByteOrder.field, Bytes.value_encode_of_lt (by omega), BitVec.toNat_ofNat,
      Nat.mod_eq_of_lt (by omega), banks.encode_length, Nat.add_comm]
  · cases format : banks.b32 with
    | false => exact banks.sizes format entry member
    | true =>
      obtain ⟨before, after, split⟩ := List.append_of_mem member
      rw [split, encodeEntries_append, encodeEntries_cons, List.length_append, List.length_append,
        Entry.encode_length] at good
      have dataSize := le_padded entry.bank.data.length
      change _ < 4294967296
      omega
  · rw [banks.encode_length]
    exact good

private theorem IsBank32_encode (banks : BankEvent) (beyond : Option (ℕ → Byte)) :
    IsBank32 ⟨banks.encode .native, beyond⟩ = .ok banks.b32 := by
  have reach : Reaches ⟨banks.encode .native, beyond⟩ 8 := by
    intro _
    rw [banks.encode_length]
    omega
  have layout : (Memory.mk (banks.encode .native) beyond).data =
      ByteOrder.native.field 4 (encodeEntries .native banks.b32 banks.entries).length ++
        (ByteOrder.native.field 4 banks.flags.toNat ++ encodeEntries .native banks.b32 banks.entries) :=
    List.append_assoc ..
  have flags := peek32_segment layout (ByteOrder.field_length ..)
  rw [ByteOrder.field_length, ByteOrder.field, Bytes.value_encode_of_lt banks.flags.isLt,
    BitVec.ofNat_toNat, BitVec.setWidth_eq] at flags
  rw [IsBank32_of_reaches reach, flags, banks.announced]

/-- The banks of an event are listed and found. -/
structure BanksRead (event : TMidasEvent) (banks : BankEvent) : Prop where
  /-- The list holds exactly the names, in order, and ends with a zero byte. -/
  listed : ∃ list rest, list = (banks.entries.flatMap (·.bank.name.toList)).map some ++ some 0 :: rest ∧
    SetBankList event = .ok ({ event with fBanksN := banks.entries.length, fBankList := some list },
      banks.entries.length)
  /-- The first bank of a name is found, with its length, type and data. -/
  found : ∀ before entry after, banks.entries = before ++ entry :: after →
    (∀ other ∈ before, other.bank.name ≠ entry.bank.name) →
    ∃ pdata, FindBank event.fData entry.bank.name =
      .ok (some ⟨entry.bank.count, entry.bank.type, pdata⟩) ∧
      pdata = (banks.header ++ encodeEntries .native banks.b32 before).length + entry.stray.length +
        headerSize banks.b32 ∧
      event.fData.peekBytes pdata entry.bank.data.length = entry.bank.data
  /-- No other name is found. -/
  absent : ∀ name, (∀ entry ∈ banks.entries, entry.bank.name ≠ name) →
    FindBank event.fData name = .ok none

private theorem FindBank_encode (banks : BankEvent) (nonempty : banks.entries ≠ [])
    (beyond : ℕ → Byte) (name : Name) :
    FindBank ⟨banks.encode .native, some beyond⟩ name =
      .ok (locate banks.b32 name banks.header.length banks.entries) := by
  have ahead := banks.ahead (some beyond)
  rw [FindBank, IsBank32_encode, Except.ok_bind]
  cases format : banks.b32 with
  | true =>
    rw [format] at ahead
    rw [if_pos rfl]
    refine findBank32Loop_of_ahead ahead ?_
    rw [banks.header_length]
    rfl
  | false =>
    rw [format] at ahead
    rw [if_neg Bool.false_ne_true, ← banks.header_length]
    match entries : banks.entries, nonempty with
    | entry :: rest, _ => exact findBankLoop_of_ahead (entries ▸ ahead)

/-- Every bank list that is laid out in an event is read back, whatever lies past the event. -/
theorem banksRead_encode (banks : BankEvent) (nonempty : banks.entries ≠ []) (header : EventHeader)
    (id : header.fEventId ≠ 0) (beyond : ℕ → Byte) :
    BanksRead (.fresh header ⟨banks.encode .native, some beyond⟩) banks := by
  have ahead := banks.ahead (some beyond)
  refine ⟨?_, fun before entry after split first => ⟨_, ?_, rfl, ?_⟩, fun name absent => ?_⟩
  · have names := visited_names ahead
    rw [banks.header_length] at names
    have count : (visited ⟨banks.encode .native, some beyond⟩ banks.b32 8).length =
        banks.entries.length := by
      have lengths := congrArg List.length names
      rwa [List.length_map, List.length_map] at lengths
    have flat : (visited ⟨banks.encode .native, some beyond⟩ banks.b32 8).flatMap
        (nameAt ⟨banks.encode .native, some beyond⟩) = banks.entries.flatMap (·.bank.name.toList) := by
      rw [List.flatMap_def, names, ← List.flatMap_def]
    have listed := @SetBankList_of_reaches (.fresh header ⟨banks.encode .native, some beyond⟩) _
      (reaches_of_beyond beyond 8)
      (IsBank32_encode banks _) (fun _ _ => candidateReaches_of_beyond _ _ _) id rfl
    simp only [TMidasEvent.fresh, count, flat] at listed
    obtain ⟨rest, listed⟩ := listed
    exact ⟨_, rest, rfl, listed⟩
  · rw [TMidasEvent.fresh, FindBank_encode banks nonempty, split, locate_append first, locate,
      if_pos rfl, List.length_append]
  · rw [split] at ahead
    exact ahead.drop.step.2.1.data
  · have missing : locate banks.b32 name banks.header.length (banks.entries ++ []) = _ :=
      locate_append absent []
    rw [List.append_nil] at missing
    rw [TMidasEvent.fresh, FindBank_encode banks nonempty, missing, locate]

/-- A bank of two words. -/
def twoWords (name : Name)
    (printable : ∀ char ∈ name.toList, 0x20 ≤ char.toNat ∧ char.toNat ≤ 0x7e) : Bank :=
  ⟨name, 4, [1, 2, 3, 4], printable, by decide, by decide⟩

theorem announced_wide : ((0x11#32 &&& (1#32 <<< 4)) != 0#32) = true := by decide

/-- A 32-bit event with two banks of one name, the second behind a stray word. -/
def twoBanks : BankEvent where
  b32 := true
  flags := 0x11
  entries :=
    [⟨[], twoWords #v[0x41, 0x44, 0x43, 0x30] (by decide)⟩,
      ⟨[9, 9, 9, 9], ⟨#v[0x41, 0x44, 0x43, 0x30], 6, [5, 6, 7, 8], by decide, by decide, by decide⟩⟩]
  announced := announced_wide
  sizes := by decide
  strays := by decide
  good := by decide

theorem banksRead_twoBanks :
    BanksRead (.fresh ⟨1, 0, 0, 0, 0⟩ ⟨twoBanks.encode .native, some fun _ => 0xff⟩) twoBanks :=
  banksRead_encode twoBanks (List.cons_ne_nil _ _) ⟨1, 0, 0, 0, 0⟩ (by decide) fun _ => 0xff

end PtfConverter.Midas
