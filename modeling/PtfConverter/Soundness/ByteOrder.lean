import PtfConverter.Soundness.BankListRoundTrip

/-! # SwapBytes brings event data into native byte order

`toNative` says what `SwapBytes` makes of the bytes of an event, as a function on lists: nothing,
when the bank header does not look foreign, and otherwise the event with its bank header, its bank
headers and its elements reversed. The code computes exactly this, and faults exactly where it is
undefined. On the foreign encoding of a bank event it is the native encoding.
-/

namespace PtfConverter.Midas

open Memory

/-- The banks in the next `budget` bytes, with their headers and elements reversed. -/
def nativeBanks (b32 : Bool) (limit budget : ℕ) (rest : List Byte) : Option (List Byte) :=
  if 0 < budget then
    if headerSize b32 ≤ rest.length then
      let type := (rest.drop 4).take (fieldWidth b32)
      let size := (rest.drop (4 + fieldWidth b32)).take (fieldWidth b32)
      let unit := elementOf (Bytes.value type.reverse % 2 ^ 16)
      let span := padded (Bytes.value size.reverse)
      let behind := rest.drop (headerSize b32)
      if Bytes.value size.reverse < limit ∧ (unit = 0 ∨ span ≤ behind.length) then
        (nativeBanks b32 limit (budget - (headerSize b32 + span)) (behind.drop span)).map
          (rest.take 4 ++ type.reverse ++ size.reverse ++ Bytes.swapEach unit (behind.take span) ++ ·)
      else none
    else none
  else some rest
termination_by budget
decreasing_by
  have positive : 0 < headerSize b32 := by unfold headerSize; split <;> omega
  omega

/-- The bank format that the flags announce. -/
def formatOf (flags : BitVec 32) : Bool := flags &&& (1#32 <<< 4) != 0#32

/-- The bank header reads as one of the other byte order: high flags, and a size that fits the
event once it is swapped. -/
structure Foreign (data : List Byte) : Prop where
  flags : 0x10000 ≤ Bytes.value ((data.drop 4).take 4)
  text : Bytes.value (data.take 4) ≠ 0x6d783f3c ∧ Bytes.value (data.take 4) ≠ 0x3c3f786d
  size : Bytes.value (data.take 4).reverse ≤ data.length + 100

instance (data : List Byte) : Decidable (Foreign data) :=
  decidable_of_iff (0x10000 ≤ Bytes.value ((data.drop 4).take 4) ∧
      (Bytes.value (data.take 4) ≠ 0x6d783f3c ∧ Bytes.value (data.take 4) ≠ 0x3c3f786d) ∧
      Bytes.value (data.take 4).reverse ≤ data.length + 100)
    ⟨fun ⟨flags, text, size⟩ => ⟨flags, text, size⟩, fun ⟨flags, text, size⟩ => ⟨flags, text, size⟩⟩

/-- The data of an event in native byte order, if the scan over them stays inside them. -/
def toNative (data : List Byte) : Option (List Byte) :=
  if 8 ≤ data.length then
    if Foreign data then
      let size := (data.take 4).reverse
      let flags := ((data.drop 4).take 4).reverse
      (nativeBanks (formatOf (BitVec.ofNat 32 (Bytes.value flags))) (data.length + 100)
        (Bytes.value size)
        (data.drop 8)).map (size ++ flags ++ ·)
    else some data
  else none

private theorem nativeBanks_length {b32 : Bool} {limit budget : ℕ} {rest native : List Byte}
    (found : nativeBanks b32 limit budget rest = some native) : native.length = rest.length := by
  fun_induction nativeBanks b32 limit budget rest generalizing native with
  | case1 budget rest inside long type size unit span behind goes =>
    rename_i ih
    obtain ⟨further, scanned, rfl⟩ := Option.map_eq_some_iff.mp found
    have typeLength : type.length = fieldWidth b32 := by
      rw [List.length_take, List.length_drop]
      rw [headerSize_eq] at long
      omega
    have sizeLength : size.length = fieldWidth b32 := by
      rw [List.length_take, List.length_drop]
      rw [headerSize_eq] at long
      omega
    have behindLength : behind.length = rest.length - headerSize b32 := List.length_drop ..
    simp only [List.length_append, List.length_reverse, Bytes.swapEach_length, List.length_take,
      ih scanned, List.length_drop, typeLength, sizeLength, behindLength]
    rw [headerSize_eq] at long ⊢
    omega
  | case2 | case3 => cases found
  | case4 => cases found; rfl

/-- Swapping keeps the length. -/
theorem toNative_length {data native : List Byte} (found : toNative data = some native) :
    native.length = data.length := by
  rw [toNative] at found
  split_ifs at found with long foreign
  · obtain ⟨banks, scanned, rfl⟩ := Option.map_eq_some_iff.mp found
    simp only [List.length_append, List.length_reverse, List.length_take, List.length_drop,
      nativeBanks_length scanned]
    omega
  · cases found
    rfl

private theorem swap_layout {data before segment after : List Byte} {offset width : ℕ}
    (layout : data = before ++ (segment ++ after)) (start : offset = before.length)
    (size : segment.length = width) :
    swap width (strict data) offset = .ok (strict (before ++ (segment.reverse ++ after))) := by
  have swapped := swap_segment before segment after none
  rw [List.append_assoc, List.append_assoc, ← layout, ← start, size] at swapped
  exact swapped

/-- Elements up to the end of a region are swapped in place. -/
private theorem swapData_region {unit : ℕ} (before region after : List Byte)
    (whole : unit ≠ 0 → unit ∣ region.length) :
    swapData unit (strict (before ++ (region ++ after))) before.length (before.length + region.length) =
      .ok (strict (before ++ (Bytes.swapEach unit region ++ after))) := by
  fun_induction Bytes.swapEach unit region generalizing before with
  | case1 region full ih =>
    obtain ⟨positive, fits⟩ := full
    have run : (region.take unit).length = unit := by rw [List.length_take]; omega
    have rest : (region.drop unit).length = region.length - unit := List.length_drop ..
    have swapped : swap unit (strict (before ++ (region ++ after))) before.length =
        .ok (strict (before ++ ((region.take unit).reverse ++ (region.drop unit ++ after)))) :=
      swap_layout (by rw [← List.append_assoc (region.take unit), List.take_append_drop]) rfl run
    have length : (before ++ (region.take unit).reverse).length = before.length + unit := by
      rw [List.length_append, List.length_reverse, run]
    have loop := ih (before ++ (region.take unit).reverse)
      (fun nonzero => by rw [rest]; exact Nat.dvd_sub (whole nonzero) (dvd_refl unit))
    have stop : before.length + unit + (region.length - unit) = before.length + region.length := by
      omega
    rw [length, rest, stop, List.append_assoc, List.append_assoc] at loop
    rw [swapData, if_pos ⟨positive, by omega⟩, swapped, Except.ok_bind, loop, List.append_assoc]
  | case2 region short =>
    have stop : ¬ (0 < unit ∧ before.length < before.length + region.length) := by
      rintro ⟨positive, some⟩
      have fits := Nat.le_of_dvd (by omega) (whole (by omega))
      exact short ⟨positive, fits⟩
    rw [swapData, if_neg stop]

/-- A region that ends past the buffer is not swapped to its end. -/
private theorem swapData_outside {unit : ℕ} (pairs : 1 < unit) (before rest : List Byte) {next : ℕ}
    (out : before.length + rest.length < next) :
    ∃ fault, swapData unit (strict (before ++ rest)) before.length next = .error fault := by
  rw [swapData, if_pos ⟨by omega, by omega⟩]
  by_cases fits : unit ≤ rest.length
  · have run : (rest.take unit).length = unit := by rw [List.length_take]; omega
    have swapped : swap unit (strict (before ++ rest)) before.length =
        .ok (strict (before ++ ((rest.take unit).reverse ++ rest.drop unit))) :=
      swap_layout (by rw [List.take_append_drop]) rfl run
    have length : (before ++ (rest.take unit).reverse).length = before.length + unit := by
      rw [List.length_append, List.length_reverse, run]
    have still : (before ++ (rest.take unit).reverse).length + (rest.drop unit).length < next := by
      rw [length, List.length_drop]
      omega
    have further := swapData_outside pairs _ _ still
    rw [length, List.append_assoc] at further
    rw [swapped, Except.ok_bind]
    exact further
  · have short : (before ++ rest).length < before.length + unit := by rw [List.length_append]; omega
    obtain ⟨fault, failed⟩ := swap_of_not_reaches pairs short
    rw [failed]
    exact ⟨fault, rfl⟩
termination_by rest.length
decreasing_by rw [List.length_drop]; omega

private theorem WORD_SWAP_layout {data before segment after : List Byte} {offset : ℕ}
    (layout : data = before ++ (segment ++ after)) (start : offset = before.length)
    (size : segment.length = 2) :
    WORD_SWAP (strict data) offset = .ok (strict (before ++ (segment.reverse ++ after))) :=
  swap_layout layout start size

private theorem DWORD_SWAP_layout {data before segment after : List Byte} {offset : ℕ}
    (layout : data = before ++ (segment ++ after)) (start : offset = before.length)
    (size : segment.length = 4) :
    DWORD_SWAP (strict data) offset = .ok (strict (before ++ (segment.reverse ++ after))) :=
  swap_layout layout start size

private theorem uint16_layout {data before segment after : List Byte} {offset : ℕ}
    (layout : data = before ++ (segment ++ after)) (start : offset = before.length)
    (size : segment.length = 2) :
    (strict data).uint16 offset = .ok (BitVec.ofNat 16 (Bytes.value segment)) := by
  have reach : (strict data).Reaches (offset + 2) := by
    rw [reaches_strict, layout, start]
    simp only [List.length_append]
    omega
  rw [uint16_of_reaches reach, start, peek16_segment layout size]

private theorem uint32_layout {data before segment after : List Byte} {offset : ℕ}
    (layout : data = before ++ (segment ++ after)) (start : offset = before.length)
    (size : segment.length = 4) :
    (strict data).uint32 offset = .ok (BitVec.ofNat 32 (Bytes.value segment)) := by
  have reach : (strict data).Reaches (offset + 4) := by
    rw [reaches_strict, layout, start]
    simp only [List.length_append]
    omega
  rw [uint32_of_reaches reach, start, peek32_segment layout size]

/-- The header of a bank inside the buffer is swapped in place and read back. -/
private theorem swapBankHeader_layout {b32 : Bool} (before : List Byte)
    {name type size : List Byte} (after : List Byte) (chars : name.length = 4)
    (typeWidth : type.length = fieldWidth b32) (sizeWidth : size.length = fieldWidth b32) :
    swapBankHeader (strict (before ++ (name ++ (type ++ (size ++ after))))) b32 before.length =
      .ok (strict (before ++ (name ++ (type.reverse ++ (size.reverse ++ after)))),
        BitVec.ofNat 16 (Bytes.value type.reverse), BitVec.ofNat 32 (Bytes.value size.reverse),
        before.length + headerSize b32) := by
  have typeStart : before.length + 4 = (before ++ name).length := by rw [List.length_append, chars]
  have sizeStart : before.length + 4 + fieldWidth b32 = (before ++ name ++ type.reverse).length := by
    rw [List.length_append, List.length_reverse, typeStart, typeWidth]
  have first : before ++ (name ++ (type ++ (size ++ after))) =
      (before ++ name) ++ (type ++ (size ++ after)) :=
    (List.append_assoc ..).symm
  have second : (before ++ name) ++ (type.reverse ++ (size ++ after)) =
      (before ++ name ++ type.reverse) ++ (size ++ after) := (List.append_assoc ..).symm
  have third : (before ++ name ++ type.reverse) ++ (size.reverse ++ after) =
      (before ++ name) ++ (type.reverse ++ (size.reverse ++ after)) := List.append_assoc ..
  have last : (before ++ name ++ type.reverse) ++ (size.reverse ++ after) =
      before ++ (name ++ (type.reverse ++ (size.reverse ++ after))) := by simp only [List.append_assoc]
  have typeReversed : type.reverse.length = fieldWidth b32 := by rw [List.length_reverse, typeWidth]
  have sizeReversed : size.reverse.length = fieldWidth b32 := by rw [List.length_reverse, sizeWidth]
  have sizeBound := Bytes.value_lt size.reverse
  rw [sizeReversed] at sizeBound
  cases b32 with
  | true =>
    have sizePlace : before.length + 8 = (before ++ name ++ type.reverse).length := sizeStart
    rw [swapBankHeader, if_pos rfl, first, DWORD_SWAP_layout rfl typeStart typeWidth,
      Except.ok_bind, DWORD_SWAP_layout second sizePlace sizeWidth, Except.ok_bind,
      uint32_layout third typeStart typeReversed, Except.ok_bind,
      uint32_layout rfl sizePlace sizeReversed, Except.ok_bind, last]
    have type16 : (BitVec.ofNat 32 (Bytes.value type.reverse)).setWidth 16 =
        BitVec.ofNat 16 (Bytes.value type.reverse) := by
      apply BitVec.eq_of_toNat_eq
      simp only [BitVec.toNat_setWidth, BitVec.toNat_ofNat]
      omega
    rw [type16]
    rfl
  | false =>
    have sizePlace : before.length + 6 = (before ++ name ++ type.reverse).length := sizeStart
    rw [swapBankHeader, if_neg Bool.false_ne_true, first, WORD_SWAP_layout rfl typeStart typeWidth,
      Except.ok_bind, WORD_SWAP_layout second sizePlace sizeWidth, Except.ok_bind,
      uint16_layout third typeStart typeReversed, Except.ok_bind,
      uint16_layout rfl sizePlace sizeReversed, Except.ok_bind, last]
    have size32 : (BitVec.ofNat 16 (Bytes.value size.reverse)).setWidth 32 =
        BitVec.ofNat 32 (Bytes.value size.reverse) := by
      simp only [fieldWidth, Bool.false_eq_true, ↓reduceIte] at sizeBound
      apply BitVec.eq_of_toNat_eq
      simp only [BitVec.toNat_setWidth, BitVec.toNat_ofNat]
      omega
    rw [size32]
    rfl

/-- A header that is not whole is not swapped. -/
private theorem swapBankHeader_outside {b32 : Bool} {data : List Byte} {pbk : ℕ}
    (out : data.length < pbk + headerSize b32) :
    ∃ fault, swapBankHeader (strict data) b32 pbk = .error fault := by
  have swaps {width : ℕ} (pairs : 1 < width) (short : data.length < pbk + 4 + width + width) :
      (∃ fault, swap width (strict data) (pbk + 4) = .error fault) ∨
        ∃ next, swap width (strict data) (pbk + 4) = .ok next ∧
          ∃ fault, swap width next (pbk + 4 + width) = .error fault := by
    by_cases first : data.length < pbk + 4 + width
    · exact .inl (swap_of_not_reaches pairs first)
    · have start : pbk + 4 = (data.take (pbk + 4)).length := by rw [List.length_take]; omega
      have size : ((data.drop (pbk + 4)).take width).length = width := by
        rw [List.length_take, List.length_drop]
        omega
      have layout : data =
          data.take (pbk + 4) ++
          ((data.drop (pbk + 4)).take width ++ (data.drop (pbk + 4)).drop width) := by
        rw [List.take_append_drop, List.take_append_drop]
      have same := congrArg List.length layout
      simp only [List.length_append] at same
      refine .inr ⟨_, swap_layout layout start size, swap_of_not_reaches pairs ?_⟩
      simp only [List.length_append, List.length_reverse]
      omega
  cases b32 with
  | true =>
    rw [swapBankHeader, if_pos rfl]
    obtain ⟨fault, failed⟩ | ⟨next, swapped, fault, failed⟩ := swaps (by decide : 1 < 4) out
    · rw [DWORD_SWAP, failed]
      exact ⟨fault, rfl⟩
    · rw [DWORD_SWAP, swapped, Except.ok_bind, failed]
      exact ⟨fault, rfl⟩
  | false =>
    rw [swapBankHeader, if_neg Bool.false_ne_true]
    obtain ⟨fault, failed⟩ | ⟨next, swapped, fault, failed⟩ := swaps (by decide : 1 < 2) out
    · rw [WORD_SWAP, failed]
      exact ⟨fault, rfl⟩
    · rw [WORD_SWAP, swapped, Except.ok_bind, failed]
      exact ⟨fault, rfl⟩

theorem swapUnit_eq (type : BitVec 16) : swapUnit type = elementOf type.toNat := by
  have literal (code : BitVec 16) : type = code ↔ type.toNat = code.toNat := BitVec.toNat_inj.symm
  simp only [swapUnit, literal, BitVec.reduceToNat]
  generalize type.toNat = code
  obtain small | large := Nat.lt_or_ge code 11
  · interval_cases code <;> rfl
  · obtain ⟨more, rfl⟩ := Nat.exists_eq_add_of_le' large
    rw [if_neg (by omega), if_neg (by omega), if_neg (by omega)]
    rfl

private theorem elementOf_cases (type : ℕ) :
    elementOf type = 0 ∨ 1 < elementOf type ∧ elementOf type ∣ 8 := by
  unfold elementOf
  split <;> decide

/-- A run on a strict buffer ends with the given bytes, or with a fault when there are none. -/
def Computes (run : Except Fault Memory) : Option (List Byte) → Prop
  | some data => run = .ok (strict data)
  | none => ∃ fault, run = .error fault

private theorem nativeBanks_header {b32 : Bool} {limit budget : ℕ} {name type size : List Byte}
    (behind : List Byte) (inside : 0 < budget) (chars : name.length = 4)
    (typeWidth : type.length = fieldWidth b32) (sizeWidth : size.length = fieldWidth b32) :
    nativeBanks b32 limit budget (name ++ (type ++ (size ++ behind))) =
      let unit := elementOf (Bytes.value type.reverse % 2 ^ 16)
      let span := padded (Bytes.value size.reverse)
      if Bytes.value size.reverse < limit ∧ (unit = 0 ∨ span ≤ behind.length) then
        (nativeBanks b32 limit (budget - (headerSize b32 + span)) (behind.drop span)).map
          (name ++ type.reverse ++ size.reverse ++ Bytes.swapEach unit (behind.take span) ++ ·)
      else none := by
  have long : headerSize b32 ≤ (name ++ (type ++ (size ++ behind))).length := by
    simp only [List.length_append]
    rw [headerSize_eq]
    omega
  have atType : (name ++ (type ++ (size ++ behind))).drop 4 = type ++ (size ++ behind) :=
    List.drop_left' chars
  have atSize : (name ++ (type ++ (size ++ behind))).drop (4 + fieldWidth b32) = size ++ behind := by
    rw [← List.drop_drop, atType, List.drop_left' typeWidth]
  have atData : (name ++ (type ++ (size ++ behind))).drop (headerSize b32) = behind := by
    rw [headerSize_eq, Nat.two_mul, ← Nat.add_assoc, ← List.drop_drop, atSize,
      List.drop_left' sizeWidth]
  rw [nativeBanks, if_pos inside, if_pos long, atType, atSize, atData, List.take_left' chars,
    List.take_left' typeWidth, List.take_left' sizeWidth]

private theorem header_split {b32 : Bool} {rest : List Byte} (long : headerSize b32 ≤ rest.length) :
    ∃ name type size behind, rest = name ++ (type ++ (size ++ behind)) ∧ name.length = 4 ∧
      type.length = fieldWidth b32 ∧ size.length = fieldWidth b32 := by
  rw [headerSize_eq] at long
  refine ⟨rest.take 4, (rest.drop 4).take (fieldWidth b32),
    ((rest.drop 4).drop (fieldWidth b32)).take (fieldWidth b32),
    ((rest.drop 4).drop (fieldWidth b32)).drop (fieldWidth b32), ?_, ?_, ?_, ?_⟩
  · rw [List.take_append_drop, List.take_append_drop, List.take_append_drop]
  all_goals simp only [List.length_take, List.length_drop]; omega

/-- The data of a bank are swapped, unless they have a byte order and end past the buffer. -/
private theorem swapData_computes {unit : ℕ} (known : unit = 0 ∨ 1 < unit ∧ unit ∣ 8)
    (before behind : List Byte) {span : ℕ} (whole : 8 ∣ span) :
    Computes (swapData unit (strict (before ++ behind)) before.length (before.length + span))
      (if unit = 0 ∨ span ≤ behind.length then
        some (before ++ (Bytes.swapEach unit (behind.take span) ++ behind.drop span))
      else none) := by
  obtain rfl | ⟨pairs, divides⟩ := known
  · have same : Bytes.swapEach 0 (behind.take span) = behind.take span := by
      rw [Bytes.swapEach, if_neg (by omega)]
    rw [if_pos (.inl rfl), same, List.take_append_drop, swapData, if_neg (by omega)]
    rfl
  · by_cases fits : span ≤ behind.length
    · have length : (behind.take span).length = span := by rw [List.length_take]; omega
      have region := swapData_region before (behind.take span) (behind.drop span)
        (fun _ => by rw [length]; exact divides.trans whole : unit ≠ 0 → unit ∣ _)
      rw [length, List.take_append_drop] at region
      rw [if_pos (.inr fits)]
      exact region
    · rw [if_neg (by omega)]
      exact swapData_outside pairs before behind (by omega)

private theorem dvd_padded (size : ℕ) : 8 ∣ padded size := Nat.dvd_mul_left 8 _

private theorem next_place {b32 : Bool} {pbk length : ℕ} (small : length < maxEventSize + 100) :
    (if b32 then pbk + 12 else pbk + 8) + (align8 (BitVec.ofNat 32 length)).toNat =
      pbk + headerSize b32 + padded length := by
  rw [maxEventSize] at small
  rw [align8_toNat, BitVec.toNat_ofNat, padded]
  cases b32 with
  | true => rw [if_pos rfl, headerSize, if_pos rfl]; omega
  | false => rw [if_neg Bool.false_ne_true, headerSize, if_neg Bool.false_ne_true]; omega

private theorem near_size {eventSize : BitVec 32} {length : ℕ}
    (good : eventSize.toNat ≤ maxEventSize) (small : length < 2 ^ 32) :
    BitVec.ofNat 32 length < eventSize + 100 ↔ length < eventSize.toNat + 100 := by
  rw [maxEventSize] at good
  have hundred : (100 : BitVec 32).toNat = 100 := rfl
  rw [BitVec.lt_def, BitVec.toNat_ofNat, BitVec.toNat_add, hundred]
  omega

/-- The number of banks' bytes in the bank header of a buffer. -/
private theorem uint32_size {before : List Byte} (header : 8 ≤ before.length) (rest : List Byte) :
    (strict (before ++ rest)).uint32 0 = .ok (BitVec.ofNat 32 (Bytes.value (before.take 4))) := by
  have layout : before ++ rest = [] ++ (before.take 4 ++ (before.drop 4 ++ rest)) := by
    rw [List.nil_append, ← List.append_assoc, List.take_append_drop]
  exact uint32_layout layout List.length_nil.symm (by rw [List.length_take]; omega)

private theorem size_toNat {before : List Byte} (header : 8 ≤ before.length) :
    (BitVec.ofNat 32 (Bytes.value (before.take 4))).toNat = Bytes.value (before.take 4) := by
  have small := Bytes.value_lt (before.take 4)
  rw [List.length_take, Nat.min_eq_left (by omega)] at small
  rw [BitVec.toNat_ofNat]
  omega

/-- The scan over one bank goes on behind the swapped bank, or faults. -/
private theorem swapBanks_bank {b32 : Bool} {eventSize : BitVec 32}
    {before name type size : List Byte} (behind : List Byte) (header : 8 ≤ before.length)
    (inside : before.length < Bytes.value (before.take 4) + 8)
    (good : eventSize.toNat ≤ maxEventSize) (chars : name.length = 4)
    (typeWidth : type.length = fieldWidth b32) (sizeWidth : size.length = fieldWidth b32) :
    let unit := elementOf (Bytes.value type.reverse % 2 ^ 16)
    let span := padded (Bytes.value size.reverse)
    if Bytes.value size.reverse < eventSize.toNat + 100 ∧ (unit = 0 ∨ span ≤ behind.length) then
      swapBanks (strict (before ++ (name ++ (type ++ (size ++ behind))))) eventSize b32 before.length =
        swapBanks (strict (before ++ (name ++ (type.reverse ++ (size.reverse ++
          (Bytes.swapEach unit (behind.take span) ++ behind.drop span)))))) eventSize b32
          (before.length + headerSize b32 + span)
    else ∃ fault, swapBanks
      (strict (before ++ (name ++ (type ++ (size ++ behind))))) eventSize b32 before.length =
      .error fault := by
  intro unit span
  have element : swapUnit (BitVec.ofNat 16 (Bytes.value type.reverse)) = unit := by
    rw [swapUnit_eq, BitVec.toNat_ofNat]
  have bound : Bytes.value size.reverse < 2 ^ 32 := by
    refine (Bytes.value_lt size.reverse).trans_le ?_
    rw [List.length_reverse, sizeWidth]
    cases b32 <;> decide
  have place : (before ++ (name ++ (type.reverse ++ size.reverse))).length =
      before.length + headerSize b32 := by
    simp only [List.length_append, List.length_reverse, chars, typeWidth, sizeWidth, headerSize_eq]
    omega
  have data := swapData_computes (elementOf_cases _ : unit = 0 ∨ _)
    (before ++ (name ++ (type.reverse ++ size.reverse))) behind (dvd_padded (Bytes.value size.reverse))
  rw [place] at data
  simp only [List.append_assoc] at data
  rw [swapBanks, uint32_size header, Except.ok_bind]
  simp only [size_toNat header]
  rw [if_pos inside, swapBankHeader_layout before behind chars typeWidth sizeWidth, Except.ok_bind]
  simp only [near_size good bound, element]
  by_cases small : Bytes.value size.reverse < eventSize.toNat + 100
  · rw [if_pos small, next_place (small.trans_le (by omega))]
    by_cases fits : unit = 0 ∨ span ≤ behind.length
    · rw [if_pos ⟨small, fits⟩]
      rw [if_pos fits] at data
      rw [data, Except.ok_bind]
    · rw [if_neg (mt And.right fits)]
      rw [if_neg fits] at data
      obtain ⟨fault, failed⟩ := data
      rw [failed]
      exact ⟨fault, rfl⟩
  · rw [if_neg (mt And.left small), if_neg small]
    exact ⟨_, rfl⟩

/-- The scan computes the native banks. -/
private theorem swapBanks_computes {b32 : Bool} {eventSize : BitVec 32} {before rest : List Byte}
    {pbk : ℕ} (header : 8 ≤ before.length) (good : eventSize.toNat ≤ maxEventSize)
    (place : before.length = pbk ∨ rest = [] ∧ before.length ≤ pbk) :
    Computes (swapBanks (strict (before ++ rest)) eventSize b32 pbk)
      ((nativeBanks b32 (eventSize.toNat + 100) (Bytes.value (before.take 4) + 8 - pbk) rest).map
        (before ++ ·)) := by
  by_cases inside : pbk < Bytes.value (before.take 4) + 8
  · have budget : 0 < Bytes.value (before.take 4) + 8 - pbk := by omega
    by_cases long : headerSize b32 ≤ rest.length
    · have start : before.length = pbk := by
        refine place.resolve_right ?_
        rintro ⟨rfl, _⟩
        rw [List.length_nil, headerSize_eq] at long
        omega
      subst start
      obtain ⟨name, type, size, behind, rfl, chars, typeWidth, sizeWidth⟩ := header_split long
      have bank := swapBanks_bank behind header inside good chars typeWidth sizeWidth
      rw [nativeBanks_header behind budget chars typeWidth sizeWidth]
      dsimp only at bank ⊢
      generalize padded (Bytes.value size.reverse) = span at *
      generalize elementOf (Bytes.value type.reverse % 2 ^ 16) = unit at *
      split_ifs at bank ⊢ with goes
      · obtain ⟨passed, shape⟩ : ∃ passed, passed =
          name ++ (type.reverse ++ (size.reverse ++ Bytes.swapEach unit (behind.take span))) := ⟨_, rfl⟩
        have length : (before ++ passed).length =
            before.length + headerSize b32 + min span behind.length := by
          simp only [shape, List.length_append, List.length_reverse, Bytes.swapEach_length,
            List.length_take, chars, typeWidth, sizeWidth, headerSize_eq]
          omega
        have further : (before ++ passed).length = before.length + headerSize b32 + span ∨
            behind.drop span = [] ∧
              (before ++ passed).length ≤ before.length + headerSize b32 + span := by
          rw [length, List.drop_eq_nil_iff]
          omega
        have same : (before ++ passed).take 4 = before.take 4 :=
          List.take_append_of_le_length (by omega)
        have again : Computes (swapBanks _ eventSize b32 _) _ :=
          swapBanks_computes (by omega) good further
        have left : Bytes.value (before.take 4) + 8 - (before.length + headerSize b32 + span) =
            Bytes.value (before.take 4) + 8 - before.length - (headerSize b32 + span) := by omega
        rw [same, left] at again
        rw [bank, Option.map_map]
        simpa only [shape, List.append_assoc, Function.comp_def] using again
      · exact bank
    · have out : (before ++ rest).length < pbk + headerSize b32 := by
        rw [List.length_append]
        rcases place with here | ⟨none, past⟩
        · omega
        · rw [none, List.length_nil] at long ⊢
          omega
      obtain ⟨fault, failed⟩ := swapBankHeader_outside out
      rw [nativeBanks, if_pos budget, if_neg long, swapBanks, uint32_size header, Except.ok_bind]
      simp only [size_toNat header]
      rw [if_pos inside, failed]
      exact ⟨fault, rfl⟩
  · rw [nativeBanks, if_neg (by omega), swapBanks, uint32_size header, Except.ok_bind]
    simp only [size_toNat header]
    rw [if_neg inside]
    rfl
termination_by Bytes.value (before.take 4) + 8 - pbk
decreasing_by rw [same, headerSize_eq]; omega

private theorem event_split {data : List Byte} (long : 8 ≤ data.length) :
    ∃ size flags rest, data = size ++ (flags ++ rest) ∧ size.length = 4 ∧ flags.length = 4 := by
  refine ⟨data.take 4, (data.drop 4).take 4, (data.drop 4).drop 4, ?_, ?_, ?_⟩
  · rw [List.take_append_drop, List.take_append_drop]
  all_goals simp only [List.length_take, List.length_drop]; omega

/-- The fields of the bank header of an event. -/
private theorem event_fields {size flags : List Byte} (rest : List Byte) (sizeWidth : size.length = 4)
    (flagsWidth : flags.length = 4) : (size ++ (flags ++ rest)).take 4 = size ∧
      ((size ++ (flags ++ rest)).drop 4).take 4 = flags ∧ (size ++ (flags ++ rest)).drop 8 = rest := by
  have atFlags : (size ++ (flags ++ rest)).drop 4 = flags ++ rest := List.drop_left' sizeWidth
  refine ⟨List.take_left' sizeWidth, ?_, ?_⟩
  · rw [atFlags, List.take_left' flagsWidth]
  · rw [← List.drop_drop (i := 4) (j := 4), atFlags, List.drop_left' flagsWidth]

private theorem ofNat_value_toNat {field : List Byte} (width : field.length = 4) :
    (BitVec.ofNat 32 (Bytes.value field)).toNat = Bytes.value field := by
  have small := Bytes.value_lt field
  rw [width] at small
  rw [BitVec.toNat_ofNat]
  omega

private theorem swapped_value {field : List Byte} (width : field.length = 4) :
    swapped (BitVec.ofNat 32 (Bytes.value field)) = BitVec.ofNat 32 (Bytes.value field.reverse) := by
  have bytes := Bytes.encode_value field
  rw [width] at bytes
  rw [swapped, ofNat_value_toNat width, bytes]

private theorem Computes.result {run : Except Fault Memory} {result : Option (List Byte)} (code : ℤ)
    (computes : Computes run result) :
    Computes ((run >>= fun memory =>
      (pure (memory, code) : Except Fault (Memory × ℤ))).map Prod.fst) result := by
  cases result with
  | some data => rw [Computes] at computes; rw [computes]; rfl
  | none =>
    obtain ⟨fault, failed⟩ := computes
    rw [failed]
    exact ⟨fault, rfl⟩

/-- A comparison of a 32-bit word is one of the number that its bytes spell. -/
theorem ofNat_value_eq {bytes : List Byte} (width : bytes.length = 4) (word : BitVec 32) :
    BitVec.ofNat 32 (Bytes.value bytes) = word ↔ Bytes.value bytes = word.toNat := by
  rw [← BitVec.toNat_inj, ofNat_value_toNat width]

/-- `SwapBytes` computes the native event. -/
theorem SwapBytes_computes {data : List Byte} (good : data.length ≤ maxEventSize) :
    Computes ((SwapBytes (strict data) (BitVec.ofNat 32 data.length) false).map Prod.fst)
      (toNative data) := by
  by_cases long : 8 ≤ data.length
  · obtain ⟨size, flags, rest, rfl, sizeWidth, flagsWidth⟩ := event_split long
    have layout : size ++ (flags ++ rest) = [] ++ (size ++ (flags ++ rest)) := (List.nil_append _).symm
    have sizeRead := uint32_layout layout List.length_nil.symm sizeWidth
    have flagsRead : (strict (size ++ (flags ++ rest))).uint32 4 = _ :=
      uint32_layout rfl sizeWidth.symm flagsWidth
    have limit : (BitVec.ofNat 32 (size ++ (flags ++ rest)).length).toNat =
        (size ++ (flags ++ rest)).length := by
      rw [maxEventSize] at good
      rw [BitVec.toNat_ofNat]
      omega
    have low : BitVec.ofNat 32 (Bytes.value flags) < 0x10000 ↔ ¬ 0x10000 ≤ Bytes.value flags := by
      rw [BitVec.lt_def, ofNat_value_toNat flagsWidth, not_le]
      rfl
    have text : BitVec.ofNat 32 (Bytes.value size) = 0x6d783f3c ↔ Bytes.value size = 0x6d783f3c :=
      ofNat_value_eq sizeWidth 0x6d783f3c
    have text' : BitVec.ofNat 32 (Bytes.value size) = 0x3c3f786d ↔ Bytes.value size = 0x3c3f786d :=
      ofNat_value_eq sizeWidth 0x3c3f786d
    have near : swapped (BitVec.ofNat 32 (Bytes.value size)) >
        BitVec.ofNat 32 (size ++ (flags ++ rest)).length + 100 ↔
        ¬ Bytes.value size.reverse ≤ (size ++ (flags ++ rest)).length + 100 := by
      have hundred : (100 : BitVec 32).toNat = 100 := rfl
      rw [maxEventSize] at good
      rw [swapped_value sizeWidth, gt_iff_lt, BitVec.lt_def,
        ofNat_value_toNat (by rwa [List.length_reverse]), BitVec.toNat_add, limit, hundred, not_le,
        Nat.mod_eq_of_lt (by omega)]
    obtain ⟨atSize, atFlags, atRest⟩ := event_fields rest sizeWidth flagsWidth
    rw [toNative, if_pos long, SwapBytes, sizeRead, Except.ok_bind, flagsRead, Except.ok_bind]
    simp only [low, text, text', near, atSize, atFlags, atRest, Bool.false_eq_true,
      not_false_eq_true, and_true]
    by_cases foreign : Foreign (size ++ (flags ++ rest))
    · have high := foreign.flags
      obtain ⟨notText, notText'⟩ := foreign.text
      have fits := foreign.size
      rw [atFlags] at high
      rw [atSize] at notText notText' fits
      have sizeReversed : size.reverse.length = 4 := by rw [List.length_reverse, sizeWidth]
      have flagsReversed : flags.reverse.length = 4 := by rw [List.length_reverse, flagsWidth]
      have swappedFlags : DWORD_SWAP (strict (size.reverse ++ (flags ++ rest))) 4 = _ :=
        DWORD_SWAP_layout rfl sizeReversed.symm flagsWidth
      have format : (strict (size.reverse ++ (flags.reverse ++ rest))).uint32 4 = _ :=
        uint32_layout rfl sizeReversed.symm flagsReversed
      have header : (size.reverse ++ flags.reverse).length = 8 := by
        rw [List.length_append, sizeReversed, flagsReversed]
      have scan : Computes (swapBanks (strict ((size.reverse ++ flags.reverse) ++ rest)) _
          (formatOf (BitVec.ofNat 32 (Bytes.value flags.reverse))) 8) _ :=
        swapBanks_computes (by omega) (by rw [limit]; exact good) (.inl header)
      rw [limit, List.take_left' sizeReversed, Nat.add_sub_cancel, List.append_assoc] at scan
      rw [if_pos foreign, if_neg (not_not.mpr high), if_neg notText, if_neg notText',
        if_neg (not_not.mpr fits), DWORD_SWAP_layout layout List.length_nil.symm sizeWidth,
        Except.ok_bind, List.nil_append, swappedFlags, Except.ok_bind, IsBank32, format,
        Except.ok_bind]
      exact scan.result 1
    · rw [if_neg foreign]
      split_ifs with high text text' fits
      · rfl
      · rfl
      · exact absurd ⟨by rwa [atFlags], by rw [atSize]; exact ⟨text, text'⟩, by rwa [atSize]⟩ foreign
      · rfl
      · rfl
  · have none : toNative data = none := if_neg long
    obtain ⟨fault, failed⟩ :=
      uint32_of_not_reaches (show ¬ (strict data).Reaches (4 + 4) by rwa [reaches_strict])
    rw [none, SwapBytes, failed]
    rcases (strict data).uint32 0 with fault' | fDataSize
    · exact ⟨fault', rfl⟩
    · exact ⟨fault, rfl⟩

theorem toNative_of_low_flags {data : List Byte} (long : 8 ≤ data.length)
    (low : Bytes.value ((data.drop 4).take 4) < 0x10000) : toNative data = some data := by
  rw [toNative, if_pos long, if_neg]
  intro foreign
  have high := foreign.flags
  omega

/-- A text character at the front makes the swapped size too large. -/
theorem toNative_of_text {data : List Byte} (long : 8 ≤ data.length) (good : data.length ≤ maxEventSize)
    (text : ∀ first ∈ data.head?, 0x20 ≤ first.toNat) : toNative data = some data := by
  rw [toNative, if_pos long, if_neg]
  intro foreign
  have fits := foreign.size
  match data, long with
  | first :: rest, long =>
    have character := text first rfl
    have width : (rest.take 3).reverse.length = 3 := by
      rw [List.length_cons] at long
      rw [List.length_reverse, List.length_take]
      omega
    rw [maxEventSize] at good
    rw [List.take_succ_cons, List.reverse_cons, Bytes.value_append, width, Bytes.value_cons] at fits
    omega

private theorem value_field (n : ℕ) {width : ℕ} (small : n < 256 ^ width) :
    Bytes.value (ByteOrder.foreign.field width n).reverse = n := by
  rw [ByteOrder.field, List.reverse_reverse, Bytes.value_encode_of_lt small]

/-- Elements that have a byte order are the units in which the data are counted. -/
private theorem unitOf_of_element {type : ℕ} (pairs : 1 < elementOf type) :
    unitOf type = elementOf type := by
  revert pairs
  unfold elementOf
  split
  all_goals intro pairs
  all_goals first | rfl | omega

private theorem swapEach_data {bank : Bank} :
    Bytes.swapEach (elementOf bank.type) (ByteOrder.foreign.elements bank.type bank.data ++
      List.replicate (padded bank.data.length - bank.data.length) 0) =
      bank.data ++ List.replicate (padded bank.data.length - bank.data.length) 0 := by
  obtain none | ⟨pairs, _⟩ := elementOf_cases bank.type
  · have same (bytes : List Byte) : Bytes.swapEach 0 bytes = bytes := by
      rw [Bytes.swapEach, if_neg (by omega)]
    rw [ByteOrder.elements, none, same, same]
  · have whole : elementOf bank.type ∣ (ByteOrder.foreign.elements bank.type bank.data).length := by
      have unit := unitOf_of_element pairs
      rw [ByteOrder.elements_length, ← unit]
      exact bank.whole (by omega)
    rw [Bytes.swapEach_append whole, Bytes.swapEach_replicate, ByteOrder.elements,
      Bytes.swapEach_swapEach]

/-- One bank of the other byte order becomes native, and the scan goes on behind it. -/
private theorem nativeBanks_bank {b32 : Bool} {limit budget : ℕ} {bank : Bank} (rest : List Byte)
    (inside : 0 < budget) (small : bank.data.length < 256 ^ fieldWidth b32)
    (limited : bank.data.length < limit) :
    nativeBanks b32 limit budget (bank.encode .foreign b32 ++ rest) =
      (nativeBanks b32 limit (budget - (bank.encode .foreign b32).length) rest).map
        (bank.encode .native b32 ++ ·) := by
  have known := bank.known
  have type : Bytes.value (ByteOrder.foreign.field (fieldWidth b32) bank.type).reverse % 2 ^ 16 =
      bank.type := by
    have fits : bank.type < 256 ^ fieldWidth b32 := by
      cases b32 <;> simp only [fieldWidth, Bool.false_eq_true, ↓reduceIte] <;> omega
    rw [value_field _ fits, Nat.mod_eq_of_lt (by omega)]
  have size := value_field bank.data.length small
  have bound := le_padded bank.data.length
  have region : (ByteOrder.foreign.elements bank.type bank.data ++
      List.replicate (padded bank.data.length - bank.data.length) 0).length =
        padded bank.data.length := by
    rw [List.length_append, ByteOrder.elements_length, List.length_replicate]
    omega
  have layout : bank.encode .foreign b32 ++ rest = bank.name.toList ++
      (ByteOrder.foreign.field (fieldWidth b32) bank.type ++
        (ByteOrder.foreign.field (fieldWidth b32) bank.data.length ++
          ((ByteOrder.foreign.elements bank.type bank.data ++
            List.replicate (padded bank.data.length - bank.data.length) 0) ++ rest))) := by
    simp only [Bank.encode, List.append_assoc]
  have span : headerSize b32 + padded bank.data.length = (bank.encode .foreign b32).length := by
    rw [Bank.encode_length, headerSize_eq]
  have fits : padded bank.data.length ≤ ((ByteOrder.foreign.elements bank.type bank.data ++
      List.replicate (padded bank.data.length - bank.data.length) 0) ++ rest).length := by
    rw [List.length_append, region]
    omega
  rw [layout, nativeBanks_header _ inside bank.name.length_toList (ByteOrder.field_length ..)
    (ByteOrder.field_length ..)]
  simp only [type, size]
  rw [if_pos ⟨limited, .inr fits⟩, List.take_left' region, List.drop_left' region, swapEach_data, span]
  simp only [Bank.encode, ByteOrder.field, ByteOrder.elements, List.reverse_reverse, List.append_assoc]

/-- A list of banks of the other byte order becomes native. -/
private theorem nativeBanks_encode {b32 : Bool} {limit : ℕ} {entries : List Entry}
    (plain : ∀ entry ∈ entries, entry.stray = [])
    (sizes : ∀ entry ∈ entries, entry.bank.data.length < 256 ^ fieldWidth b32)
    (limited : (encodeEntries .foreign b32 entries).length < limit) :
    nativeBanks b32 limit (encodeEntries .foreign b32 entries).length
      (encodeEntries .foreign b32 entries) =
      some (encodeEntries .native b32 entries) := by
  induction entries with
  | nil => rw [encodeEntries_nil, List.length_nil, nativeBanks, if_neg (lt_irrefl 0), encodeEntries_nil]
  | cons entry entries ih =>
    obtain ⟨none, plain⟩ := List.forall_mem_cons.mp plain
    obtain ⟨small, sizes⟩ := List.forall_mem_cons.mp sizes
    have dataSize := le_padded entry.bank.data.length
    have length := entry.bank.encode_length .foreign b32
    rw [encodeEntries_cons, Entry.encode, none, List.nil_append, List.length_append] at limited
    simp only [encodeEntries_cons, Entry.encode, none, List.nil_append]
    rw [nativeBanks_bank _ (by rw [List.length_append]; omega) small (by omega), List.length_append,
      Nat.add_sub_cancel_left, ih plain sizes (by omega), Option.map_some]

private theorem value_foreign_field (n : ℕ) : Bytes.value (ByteOrder.foreign.field 4 n) =
    n / 256 / 256 / 256 % 256 + 256 *
      (n / 256 / 256 % 256 + 256 * (n / 256 % 256 + 256 * (n % 256))) := by
  simp only [ByteOrder.field, Bytes.encode, List.reverse_cons, List.reverse_nil, List.nil_append,
    List.cons_append, Bytes.value_cons, Bytes.value_nil, BitVec.toNat_ofNat, Nat.reducePow,
    Nat.mul_zero, Nat.add_zero]

/-- A bank event of the other byte order becomes the native encoding of the same banks. -/
theorem toNative_encode (banks : BankEvent) (plain : ∀ entry ∈ banks.entries, entry.stray = [])
    (some : 0 < banks.flags) (low : banks.flags < 0x10000) :
    toNative (banks.encode .foreign) = .some (banks.encode .native) := by
  have good := banks.good
  rw [maxEventSize] at good
  have length := banks.encode_length .foreign
  have positive : 0 < banks.flags.toNat := BitVec.lt_def.mp some
  have below : banks.flags.toNat < 0x10000 := BitVec.lt_def.mp low
  have layout : banks.encode .foreign =
      ByteOrder.foreign.field 4 (encodeEntries .native banks.b32 banks.entries).length ++
      (ByteOrder.foreign.field 4 banks.flags.toNat ++ encodeEntries .foreign banks.b32 banks.entries) :=
    List.append_assoc ..
  obtain ⟨atSize, atFlags, atRest⟩ := event_fields (encodeEntries .foreign banks.b32 banks.entries)
    (ByteOrder.field_length .foreign 4 (encodeEntries .native banks.b32 banks.entries).length)
    (ByteOrder.field_length .foreign 4 banks.flags.toNat)
  rw [← layout] at atSize atFlags atRest
  have size := value_field (encodeEntries .native banks.b32 banks.entries).length
    (show _ < 256 ^ 4 from by omega)
  have flags := value_field banks.flags.toNat (show banks.flags.toNat < 256 ^ 4 from by omega)
  have foreign : Foreign (banks.encode .foreign) := by
    refine ⟨?_, ?_, ?_⟩
    · rw [atFlags, value_foreign_field]
      omega
    · rw [atSize, value_foreign_field]
      omega
    · rw [atSize, size, length]
      omega
  have same := encodeEntries_length_eq .native .foreign banks.b32 banks.entries
  have announced : formatOf (BitVec.ofNat 32 banks.flags.toNat) = banks.b32 := by
    rw [BitVec.ofNat_toNat, BitVec.setWidth_eq]
    exact banks.announced
  rw [toNative, if_pos (by omega), if_pos foreign, atSize, atFlags, atRest]
  simp only [size, flags]
  rw [announced, same, nativeBanks_encode plain (banks.ahead none).sizes (by omega),
    Option.map_some, ← same]
  simp only [BankEvent.encode, ByteOrder.field, List.reverse_reverse]

/-- `SwapBytes(false)` turns the data of an event into other data, without an access past them. -/
def Swaps (data native : List Byte) : Prop :=
  ∃ code, SwapBytes (strict data) (BitVec.ofNat 32 data.length) false = .ok (strict native, code)

theorem swaps_of_toNative {data native : List Byte} (good : data.length ≤ maxEventSize)
    (found : toNative data = some native) : Swaps data native := by
  have computes := SwapBytes_computes good
  rw [found] at computes
  change (SwapBytes _ _ _).map Prod.fst = _ at computes
  unfold Swaps
  match run : SwapBytes (strict data) (BitVec.ofNat 32 data.length) false with
  | .error fault => rw [run] at computes; cases computes
  | .ok (memory, code) => rw [run] at computes; cases computes; exact ⟨code, rfl⟩

/-- The first call yields the native data, and a second one leaves them alone. -/
structure Canonicalises (data native : List Byte) : Prop where
  first : Swaps data native
  second : Swaps native native

theorem toNative_native (banks : BankEvent) (low : banks.flags < 0x10000) :
    toNative (banks.encode .native) = some (banks.encode .native) := by
  have layout : banks.encode .native =
      ByteOrder.native.field 4 (encodeEntries .native banks.b32 banks.entries).length ++
      (ByteOrder.native.field 4 banks.flags.toNat ++ encodeEntries .native banks.b32 banks.entries) :=
    List.append_assoc ..
  obtain ⟨_, atFlags, _⟩ := event_fields (encodeEntries .native banks.b32 banks.entries)
    (ByteOrder.field_length .native 4 (encodeEntries .native banks.b32 banks.entries).length)
    (ByteOrder.field_length .native 4 banks.flags.toNat)
  rw [← layout] at atFlags
  refine toNative_of_low_flags (by rw [banks.encode_length]; omega) ?_
  rw [atFlags, ByteOrder.field, Bytes.value_encode_of_lt banks.flags.isLt]
  exact BitVec.lt_def.mp low

/-- Native bank events and texts stay as they are, and bank events of the other byte order become
native. -/
theorem SwapBytes_canonicalises :
    (∀ banks : BankEvent, banks.flags < 0x10000 →
      Canonicalises (banks.encode .native) (banks.encode .native)) ∧
    (∀ data : List Byte, 8 ≤ data.length → data.length ≤ maxEventSize →
      (∀ first ∈ data.head?, 0x20 ≤ first.toNat) →
      Canonicalises data data) ∧
    (∀ banks : BankEvent, (∀ entry ∈ banks.entries, entry.stray = []) → 0 < banks.flags →
      banks.flags < 0x10000 →
      Canonicalises (banks.encode .foreign) (banks.encode .native)) := by
  have good (order : ByteOrder) (banks : BankEvent) : (banks.encode order).length ≤ maxEventSize := by
    rw [banks.encode_length]
    exact banks.good
  refine ⟨fun banks low => ?_, fun data long fits text => ?_, fun banks plain some low => ?_⟩
  · have alone := swaps_of_toNative (good .native banks) (toNative_native banks low)
    exact ⟨alone, alone⟩
  · have alone := swaps_of_toNative fits (toNative_of_text long fits text)
    exact ⟨alone, alone⟩
  · exact ⟨swaps_of_toNative (good .foreign banks) (toNative_encode banks plain some low),
      swaps_of_toNative (good .native banks) (toNative_native banks low)⟩

/-- A 16-bit event with a bank of two words. -/
def wordBank : BankEvent where
  b32 := false
  flags := 1
  entries := [⟨[], twoWords #v[0x41, 0x44, 0x43, 0x31] (by decide)⟩]
  announced := by decide
  sizes := by decide
  strays := by decide
  good := by decide

theorem SwapBytes_wordBank :
    Canonicalises (twoBanks.encode .native) (twoBanks.encode .native) ∧
      Canonicalises [0x3c, 0x3f, 0x78, 0x6d, 0x6c, 0x3e, 0x0a, 0x00] [0x3c, 0x3f, 0x78, 0x6d, 0x6c,
        0x3e, 0x0a, 0x00] ∧
      Canonicalises (wordBank.encode .foreign) (wordBank.encode .native) :=
  ⟨SwapBytes_canonicalises.1 twoBanks (by decide),
    SwapBytes_canonicalises.2.1 _ (by decide) (by decide) (by decide),
    SwapBytes_canonicalises.2.2 wordBank (by decide) (by decide) (by decide)⟩

end PtfConverter.Midas
