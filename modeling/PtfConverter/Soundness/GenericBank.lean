import PtfConverter.Model.ScanProgram
import PtfConverter.Soundness.BankContents

/-! # Generic banks over bytes

A generic bank is read as doubles or as floats. Which numbers it has in its first bytes
depends on these bytes only.
-/

namespace PtfConverter.ScanTree

open Midas (bytesAt)

/-- Two banks with the same numbers in so many bytes. -/
structure ReadAlike (length : ℕ) (bank other : TGenericData) : Prop where
  words : ∀ i, 8 * i + 8 ≤ length → bank.getData64 i = other.getData64 i
  singles : ∀ i, 4 * i + 4 ≤ length → bank.single i = other.single i

/-- What reads no more than that of a bank gets the same from both. -/
theorem ReadAlike.map_eq {β : Type} {length : ℕ} {bank other : Option TGenericData}
    (alike : Option.Rel (ReadAlike length) bank other) {handle : TGenericData → β}
    (congr : ∀ {bank other}, ReadAlike length bank other → handle bank = handle other) :
    bank.map handle = other.map handle := by
  cases alike with
  | none => rfl
  | some same => exact congrArg some (congr same)

/-- The bank over some bytes. -/
def TGenericData.ofBytes (byte : ℕ → Byte) : TGenericData where
  getData64 i := BitVec.ofNat 64 (Bytes.value ((List.range 8).map fun j => byte (8 * i + j)))

theorem single_ofBytes (byte : ℕ → Byte) (i : ℕ) :
    (TGenericData.ofBytes byte).single i =
      BitVec.ofNat 32 (Bytes.value ((List.range 4).map fun j => byte (4 * i + j))) := by
  let half (start : ℕ) : List Byte := (List.range 4).map fun j => byte (start + j)
  have length (start : ℕ) : (half start).length = 4 := by rw [List.length_map, List.length_range]
  have small (start : ℕ) : Bytes.value (half start) < 256 ^ 4 := by
    have bound := Bytes.value_lt (half start)
    rwa [length] at bound
  have halves : ((List.range 8).map fun j => byte (8 * (i / 2) + j)) =
    half (8 * (i / 2)) ++ half (8 * (i / 2) + 4) := rfl
  have low := small (8 * (i / 2))
  have high := small (8 * (i / 2) + 4)
  apply BitVec.eq_of_toNat_eq
  rw [TGenericData.single, TGenericData.ofBytes, BitVec.extractLsb'_toNat, BitVec.toNat_ofNat,
    BitVec.toNat_ofNat, halves, Bytes.value_append, length, Nat.shiftRight_eq_div_pow]
  obtain even | odd := Nat.mod_two_eq_zero_or_one i
  · have start : 4 * i = 8 * (i / 2) := by omega
    rw [even, start]
    change _ = Bytes.value (half (8 * (i / 2))) % 2 ^ 32
    omega
  · have start : 4 * i = 8 * (i / 2) + 4 := by omega
    rw [odd, start]
    change _ = Bytes.value (half (8 * (i / 2) + 4)) % 2 ^ 32
    omega

theorem readAlike_ofBytes {length : ℕ} {byte other : ℕ → Byte} (same : ∀ k < length, byte k = other k) :
    ReadAlike length (.ofBytes byte) (.ofBytes other) := by
  constructor
  · intro i inside
    have bytes : ((List.range 8).map fun j => byte (8 * i + j)) = (List.range 8).map fun j =>
        other (8 * i + j) :=
      List.map_congr_left fun j member => same _ (by have := List.mem_range.mp member; omega)
    exact congrArg (fun bytes => BitVec.ofNat 64 (Bytes.value bytes)) bytes
  · intro i inside
    have bytes : ((List.range 4).map fun j => byte (4 * i + j)) = (List.range 4).map fun j =>
        other (4 * i + j) :=
      List.map_congr_left fun j member => same _ (by have := List.mem_range.mp member; omega)
    rw [single_ofBytes, single_ofBytes, bytes]

/-- The generic bank over the data, where they are in memory. -/
theorem getData64_eq (memory : Midas.Memory) (pdata : ℕ) :
    TGenericData.mk (getData64 memory pdata) = .ofBytes fun k =>
      (memory.readByte (pdata + k)).toOption.getD 0 := by
  rw [TGenericData.ofBytes, TGenericData.mk.injEq]
  funext i
  simp only [getData64, bytesAt, Nat.add_assoc]

end PtfConverter.ScanTree
