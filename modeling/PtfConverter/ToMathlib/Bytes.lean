import Mathlib.Data.BitVec
import Mathlib.Data.Nat.Digits.Lemmas

/-! # Bytes of numbers

`encode width n` are the low `width` bytes of `n`, least significant first, and `value` reads them
back. `swapEach unit` reverses every run of `unit` bytes, which turns the elements of an array from
one byte order into the other. All three are plain list functions.
-/

abbrev Byte := BitVec 8

namespace Bytes

/-- The number with the given bytes, least significant first. -/
def value (bytes : List Byte) : ℕ := Nat.ofDigits 256 (bytes.map BitVec.toNat)

/-- The low `width` bytes of a number, least significant first. -/
def encode : ℕ → ℕ → List Byte
  | 0, _ => []
  | width + 1, n => BitVec.ofNat 8 n :: encode width (n / 256)

@[simp] theorem value_nil : value [] = 0 := rfl

@[simp] theorem value_cons (byte : Byte) (rest : List Byte) :
    value (byte :: rest) = byte.toNat + 256 * value rest := by
  simp only [value, List.map_cons, Nat.ofDigits_cons]

theorem value_append (first second : List Byte) :
    value (first ++ second) = value first + 256 ^ first.length * value second := by
  simp only [value, List.map_append, Nat.ofDigits_append, List.length_map]

theorem value_lt (bytes : List Byte) : value bytes < 256 ^ bytes.length := by
  have digits : ∀ digit ∈ bytes.map BitVec.toNat, digit < 254 + 2 := by
    intro digit member
    obtain ⟨byte, _, rfl⟩ := List.mem_map.mp member
    exact byte.isLt
  have bound := Nat.ofDigits_lt_base_pow_length' digits
  rwa [List.length_map] at bound

@[simp] theorem encode_length (width n : ℕ) : (encode width n).length = width := by
  induction width generalizing n with
  | zero => rfl
  | succ width ih => rw [encode, List.length_cons, ih]

theorem value_encode (width n : ℕ) : value (encode width n) = n % 256 ^ width := by
  induction width generalizing n with
  | zero => simp [encode, Nat.mod_one]
  | succ width ih =>
    have wider : 256 ^ (width + 1) = 256 * 256 ^ width := pow_succ' 256 width
    rw [encode, value_cons, ih, wider, Nat.mod_mul, BitVec.toNat_ofNat]

theorem value_encode_of_lt {width n : ℕ} (small : n < 256 ^ width) : value (encode width n) = n := by
  rw [value_encode, Nat.mod_eq_of_lt small]

theorem encode_value (bytes : List Byte) : encode bytes.length (value bytes) = bytes := by
  induction bytes with
  | nil => rfl
  | cons byte rest ih =>
    have small := byte.isLt
    have quotient : (byte.toNat + 256 * value rest) / 256 = value rest := by omega
    rw [List.length_cons, value_cons, encode, quotient, ih]
    congr 1
    apply BitVec.eq_of_toNat_eq
    rw [BitVec.toNat_ofNat]
    omega

/-- Reverse every run of `unit` bytes; what is left over stays. -/
def swapEach (unit : ℕ) (bytes : List Byte) : List Byte :=
  if 0 < unit ∧ unit ≤ bytes.length then
    (bytes.take unit).reverse ++ swapEach unit (bytes.drop unit)
  else bytes
termination_by bytes.length
decreasing_by rw [List.length_drop]; omega

@[simp] theorem swapEach_length (unit : ℕ) (bytes : List Byte) :
    (swapEach unit bytes).length = bytes.length := by
  fun_induction swapEach unit bytes with
  | case1 bytes whole ih =>
    rw [List.length_append, List.length_reverse, List.length_take, ih, List.length_drop]
    omega
  | case2 bytes short => rfl

/-- A run at the front is reversed on its own. -/
theorem swapEach_run {unit : ℕ} {run : List Byte} (size : run.length = unit) (positive : 0 < unit)
    (rest : List Byte) : swapEach unit (run ++ rest) = run.reverse ++ swapEach unit rest := by
  rw [swapEach, if_pos ⟨positive, by rw [List.length_append]; omega⟩, List.take_left' size,
    List.drop_left' size]

theorem swapEach_append {unit : ℕ} {first : List Byte} (whole : unit ∣ first.length)
    (second : List Byte) :
    swapEach unit (first ++ second) = swapEach unit first ++ swapEach unit second := by
  fun_induction swapEach unit first with
  | case1 first full ih =>
    obtain ⟨positive, fits⟩ := full
    have rest : unit ∣ (first.drop unit).length := by
      rw [List.length_drop]
      exact Nat.dvd_sub whole (dvd_refl unit)
    have size : (first.take unit).length = unit := by rw [List.length_take]; omega
    rw [← List.take_append_drop unit first, List.append_assoc, swapEach_run size positive, ih rest,
      List.take_append_drop, List.append_assoc]
  | case2 first short =>
    have none : first = [] := by
      rcases Nat.eq_zero_or_pos unit with rfl | positive
      · exact List.length_eq_zero_iff.mp (Nat.zero_dvd.mp whole)
      · by_contra some
        have fits := Nat.le_of_dvd (List.length_pos_iff.mpr some) whole
        exact short ⟨positive, fits⟩
    rw [none, List.nil_append, List.nil_append]

/-- Reversing the runs twice gives the bytes back. -/
theorem swapEach_swapEach (unit : ℕ) (bytes : List Byte) :
    swapEach unit (swapEach unit bytes) = bytes := by
  fun_induction swapEach unit bytes with
  | case1 bytes whole ih =>
    have size : (bytes.take unit).reverse.length = unit := by
      rw [List.length_reverse, List.length_take]
      omega
    rw [swapEach_run size whole.1, List.reverse_reverse, ih, List.take_append_drop]
  | case2 bytes short => rw [swapEach, if_neg short]

theorem swapEach_replicate (unit count : ℕ) (byte : Byte) :
    swapEach unit (List.replicate count byte) = List.replicate count byte := by
  induction count using Nat.strong_induction_on with
  | _ count ih =>
    rw [swapEach]
    split
    · next whole =>
      rw [List.length_replicate] at whole
      rw [List.take_replicate, List.reverse_replicate, List.drop_replicate,
        ih (count - unit) (by omega), List.replicate_append_replicate]
      congr 1
      omega
    · rfl

end Bytes
