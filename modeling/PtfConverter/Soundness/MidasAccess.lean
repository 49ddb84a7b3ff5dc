import PtfConverter.Model.MidasEvent
import PtfConverter.ToMathlib.BitFields

/-! # What the accesses to an event's data yield

`peek` is the byte an access yields wherever it is allowed. A read succeeds exactly inside the
readable range, with the peeked bytes; a swap inside the buffer reverses a segment of the list and
leaves the rest.
-/

namespace PtfConverter.Midas

namespace Memory

/-- The byte at an offset, if it can be read. -/
def peek (memory : Memory) (offset : ℕ) : Byte :=
  memory.data[offset]?.getD
    ((memory.beyond.map fun bytes => bytes (offset - memory.data.length)).getD 0)

def peekBytes (memory : Memory) (offset count : ℕ) : List Byte :=
  (List.range count).map fun i => memory.peek (offset + i)

def peek16 (memory : Memory) (offset : ℕ) : BitVec 16 :=
  BitVec.ofNat 16 (Bytes.value (memory.peekBytes offset 2))

def peek32 (memory : Memory) (offset : ℕ) : BitVec 32 :=
  BitVec.ofNat 32 (Bytes.value (memory.peekBytes offset 4))

/-- An access below `last` does not fault. -/
def Reaches (memory : Memory) (last : ℕ) : Prop := memory.beyond = none → last ≤ memory.data.length

theorem reaches_strict {data : List Byte} {last : ℕ} :
    (strict data).Reaches last ↔ last ≤ data.length :=
  ⟨fun reach => reach rfl, fun inside _ => inside⟩

theorem reaches_of_beyond {data : List Byte} (bytes : ℕ → Byte) (last : ℕ) :
    Reaches ⟨data, some bytes⟩ last := fun none => by cases none

theorem Reaches.mono {memory : Memory} {last first : ℕ} (reach : memory.Reaches last)
    (before : first ≤ last) :
    memory.Reaches first := fun none => before.trans (reach none)

theorem readByte_of_reaches {memory : Memory} {offset : ℕ} (reach : memory.Reaches (offset + 1)) :
    memory.readByte offset = .ok (memory.peek offset) := by
  obtain ⟨data, beyond⟩ := memory
  simp only [readByte, peek]
  cases inside : data[offset]? with
  | some byte => rfl
  | none =>
    cases beyond with
    | some bytes => rfl
    | none =>
      have short := List.getElem?_eq_none_iff.mp inside
      have enough : offset + 1 ≤ data.length := reach rfl
      omega

theorem readByte_of_not_reaches {memory : Memory} {offset : ℕ} (out : ¬ memory.Reaches (offset + 1)) :
    memory.readByte offset = .error (.access offset) := by
  obtain ⟨data, beyond⟩ := memory
  simp only [Reaches, Classical.not_imp, not_le] at out
  obtain ⟨rfl, short⟩ := out
  have none : data[offset]? = none := List.getElem?_eq_none (by omega)
  simp only [readByte, none]

@[simp] theorem peekBytes_length (memory : Memory) (offset count : ℕ) :
    (memory.peekBytes offset count).length = count := by
  rw [peekBytes, List.length_map, List.length_range]

theorem peekBytes_succ (memory : Memory) (offset count : ℕ) :
    memory.peekBytes offset (count + 1) =
      memory.peek offset :: memory.peekBytes (offset + 1) count := by
  simp only [peekBytes, List.range_succ_eq_map, List.map_cons, List.map_map, Nat.add_zero]
  congr 2
  funext i
  simp only [Function.comp_apply, Nat.succ_eq_add_one]
  congr 1
  omega

theorem readBytes_of_reaches {memory : Memory} {offset count : ℕ}
    (reach : memory.Reaches (offset + count)) :
    memory.readBytes offset count = .ok (memory.peekBytes offset count) := by
  induction count generalizing offset with
  | zero => rfl
  | succ count ih =>
    have rest : memory.Reaches (offset + 1 + count) := reach.mono (by omega)
    rw [readBytes, readByte_of_reaches (reach.mono (by omega)), Except.ok_bind, ih rest, peekBytes_succ]
    rfl

theorem readBytes_of_not_reaches {memory : Memory} {offset count : ℕ} (some : 0 < count)
    (out : ¬ memory.Reaches (offset + count)) :
    ∃ fault, memory.readBytes offset count = .error fault := by
  induction count generalizing offset with
  | zero => omega
  | succ count ih =>
    rw [readBytes]
    by_cases first : memory.Reaches (offset + 1)
    · rcases Nat.eq_zero_or_pos count with rfl | more
      · exact absurd first out
      · have rest : ¬ memory.Reaches (offset + 1 + count) := fun reach => out (reach.mono (by omega))
        obtain ⟨fault, failed⟩ := ih more rest
        rw [readByte_of_reaches first, Except.ok_bind, failed]
        exact ⟨fault, rfl⟩
    · rw [readByte_of_not_reaches first]
      exact ⟨_, rfl⟩

theorem uint16_of_reaches {memory : Memory} {offset : ℕ} (reach : memory.Reaches (offset + 2)) :
    memory.uint16 offset = .ok (memory.peek16 offset) := by
  rw [uint16, readBytes_of_reaches reach]
  rfl

theorem uint32_of_reaches {memory : Memory} {offset : ℕ} (reach : memory.Reaches (offset + 4)) :
    memory.uint32 offset = .ok (memory.peek32 offset) := by
  rw [uint32, readBytes_of_reaches reach]
  rfl

theorem uint16_of_not_reaches {memory : Memory} {offset : ℕ} (out : ¬ memory.Reaches (offset + 2)) :
    ∃ fault, memory.uint16 offset = .error fault := by
  obtain ⟨fault, failed⟩ := readBytes_of_not_reaches (Nat.succ_pos 1) out
  rw [uint16, failed]
  exact ⟨fault, rfl⟩

theorem uint32_of_not_reaches {memory : Memory} {offset : ℕ} (out : ¬ memory.Reaches (offset + 4)) :
    ∃ fault, memory.uint32 offset = .error fault := by
  obtain ⟨fault, failed⟩ := readBytes_of_not_reaches (Nat.succ_pos 3) out
  rw [uint32, failed]
  exact ⟨fault, rfl⟩

theorem peekBytes_segment {memory : Memory} {before segment after : List Byte}
    (layout : memory.data = before ++ (segment ++ after)) :
    memory.peekBytes before.length segment.length = segment := by
  refine List.ext_getElem (peekBytes_length ..) fun i _ inside => ?_
  simp only [peekBytes, List.getElem_map, List.getElem_range, peek, layout]
  rw [List.getElem?_append_right (Nat.le_add_right ..), Nat.add_sub_cancel_left,
    List.getElem?_append_left inside, List.getElem?_eq_getElem inside, Option.getD_some]

theorem peek16_segment {memory : Memory} {before segment after : List Byte}
    (layout : memory.data = before ++ (segment ++ after)) (width : segment.length = 2) :
    memory.peek16 before.length = BitVec.ofNat 16 (Bytes.value segment) := by
  rw [peek16, ← width, peekBytes_segment layout]

theorem peek32_segment {memory : Memory} {before segment after : List Byte}
    (layout : memory.data = before ++ (segment ++ after)) (width : segment.length = 4) :
    memory.peek32 before.length = BitVec.ofNat 32 (Bytes.value segment) := by
  rw [peek32, ← width, peekBytes_segment layout]

private theorem exchange_segment (before segment after : List Byte) (beyond : Option (ℕ → Byte))
    {i j : ℕ} (first : i < segment.length) (second : j < segment.length) :
    exchange ⟨before ++ segment ++ after, beyond⟩ (before.length + i) (before.length + j) =
      .ok ⟨before ++ (segment.set i segment[j]).set j segment[i] ++ after, beyond⟩ := by
  have readAt (segment : List Byte) {k : ℕ} (inside : k < segment.length) :
      readByte ⟨before ++ segment ++ after, beyond⟩ (before.length + k) = .ok segment[k] := by
    have found : (before ++ segment ++ after)[before.length + k]? = some segment[k] := by
      rw [List.append_assoc, List.getElem?_append_right (Nat.le_add_right ..), Nat.add_sub_cancel_left,
        List.getElem?_append_left inside, List.getElem?_eq_getElem inside]
    simp only [readByte, found]
  have writeAt (segment : List Byte) {k : ℕ} (inside : k < segment.length) (byte : Byte) :
      writeByte ⟨before ++ segment ++ after, beyond⟩ (before.length + k) byte =
        .ok ⟨before ++ segment.set k byte ++ after, beyond⟩ := by
    have bound : before.length + k < (before ++ segment ++ after).length := by
      simp only [List.length_append]
      omega
    rw [writeByte, if_pos bound, List.append_assoc, List.set_append_right _ _ (Nat.le_add_right ..),
      Nat.add_sub_cancel_left, List.set_append_left _ _ inside, List.append_assoc]
  rw [exchange, readAt segment first, Except.ok_bind, readAt segment second, Except.ok_bind,
    writeAt segment first, Except.ok_bind, writeAt _ (by rwa [List.length_set])]

/-- A segment whose outermost `k` pairs are exchanged. -/
private def mirrored (segment : List Byte) (k : ℕ) : List Byte :=
  (List.range segment.length).map fun i =>
    segment[if i < k ∨ segment.length ≤ i + k then segment.length - 1 - i else i]?.getD 0

private theorem mirrored_length (segment : List Byte) (k : ℕ) :
    (mirrored segment k).length = segment.length := by
  rw [mirrored, List.length_map, List.length_range]

private theorem mirrored_getElem (segment : List Byte) (k : ℕ) {i : ℕ}
    (inside : i < (mirrored segment k).length) :
    (mirrored segment k)[i] =
      segment[if i < k ∨ segment.length ≤ i + k then segment.length - 1 - i else i]?.getD 0 := by
  simp only [mirrored, List.getElem_map, List.getElem_range]

private theorem mirrored_zero (segment : List Byte) : mirrored segment 0 = segment := by
  refine List.ext_getElem (mirrored_length ..) fun i left right => ?_
  rw [mirrored_getElem, if_neg (by omega), List.getElem?_eq_getElem right, Option.getD_some]

private theorem mirrored_half (segment : List Byte) :
    mirrored segment (segment.length / 2) = segment.reverse := by
  refine List.ext_getElem (by rw [mirrored_length, List.length_reverse]) fun i left right => ?_
  rw [mirrored_length] at left
  have mirror : (if i < segment.length / 2 ∨ segment.length ≤ i + segment.length / 2 then
    segment.length - 1 - i
      else i) = segment.length - 1 - i := by
    split <;> omega
  rw [mirrored_getElem, mirror, List.getElem_reverse, List.getElem?_eq_getElem (by omega),
    Option.getD_some]

private theorem mirrored_succ (segment : List Byte) {k : ℕ} (pair : k < segment.length / 2)
    (first : k < (mirrored segment k).length)
    (second : segment.length - 1 - k < (mirrored segment k).length) :
    ((mirrored segment k).set k (mirrored segment k)[segment.length - 1 - k]).set
      (segment.length - 1 - k)
      (mirrored segment k)[k] = mirrored segment (k + 1) := by
  refine List.ext_getElem (by simp only [List.length_set, mirrored_length]) fun i left right => ?_
  rw [mirrored_length] at right
  simp only [List.getElem_set, mirrored_getElem]
  split_ifs <;> first | omega | rfl | (congr 2; omega)

/-- A swap inside the buffer reverses its segment. -/
theorem swap_segment (before segment after : List Byte) (beyond : Option (ℕ → Byte)) :
    swap segment.length ⟨before ++ segment ++ after, beyond⟩ before.length =
      .ok ⟨before ++ segment.reverse ++ after, beyond⟩ := by
  have loop (pairs : ℕ) (half : pairs ≤ segment.length / 2) :
      (List.range pairs).foldlM (fun memory k =>
        exchange memory (before.length + k) (before.length + (segment.length - 1 - k)))
        ⟨before ++ segment ++ after, beyond⟩ =
          .ok ⟨before ++ mirrored segment pairs ++ after, beyond⟩ := by
    induction pairs with
    | zero => rw [mirrored_zero]; rfl
    | succ k ih =>
      have first : k < (mirrored segment k).length := by rw [mirrored_length]; omega
      have second : segment.length - 1 - k < (mirrored segment k).length := by
        rw [mirrored_length]; omega
      have exchanged := exchange_segment before (mirrored segment k) after beyond first second
      rw [mirrored_succ segment half first second] at exchanged
      rw [List.range_succ, List.foldlM_append, ih (by omega), Except.ok_bind, List.foldlM_cons,
        exchanged]
      rfl
  rw [swap, loop _ le_rfl, mirrored_half]

/-- A swap that reaches past a strict buffer faults. -/
theorem swap_of_not_reaches {width : ℕ} (pairs : 1 < width) {data : List Byte} {offset : ℕ}
    (out : data.length < offset + width) : ∃ fault, swap width (strict data) offset = .error fault := by
  obtain ⟨half, more⟩ : ∃ half, width / 2 = half + 1 := ⟨width / 2 - 1, by omega⟩
  have first : ∃ fault, exchange (strict data) (offset + 0) (offset + (width - 1 - 0)) =
      .error fault := by
    rw [exchange]
    rw [Nat.add_zero]
    by_cases here : (strict data).Reaches (offset + 1)
    · rw [readByte_of_reaches here, Except.ok_bind, readByte_of_not_reaches]
      · exact ⟨_, rfl⟩
      · rw [reaches_strict]
        omega
    · rw [readByte_of_not_reaches here]
      exact ⟨_, rfl⟩
  obtain ⟨fault, failed⟩ := first
  refine ⟨fault, ?_⟩
  rw [swap, more, List.range_succ_eq_map, List.foldlM_cons, failed]
  rfl

end Memory

theorem align8_toNat (length : BitVec 32) :
    (align8 length).toNat = (length.toNat + 7) % 2 ^ 32 / 8 * 8 := by
  have masked := BitVec.toNat_and_field (length + 7#32) 0xfffffff8 3 29 rfl (by decide)
  have small := (length + 7#32).isLt
  rw [align8]
  refine masked.trans ?_
  rw [BitVec.toNat_add] at small ⊢
  rw [Nat.mod_eq_of_lt (b := 2 ^ 29) (by omega)]
  rfl

end PtfConverter.Midas
