import Mathlib.Data.BitVec
import Mathlib.Data.Nat.Bitwise
import Mathlib.Data.Rat.Cast.Order
import Mathlib.Tactic.Linarith
import Mathlib.Tactic.Ring

/-! # Bit fields of machine words

Masking a word with a block of ones is division and remainder on its value. With these
equations a packed word is taken apart by linear arithmetic instead of bit by bit. Differences to
a base wrap around below it.
-/

namespace Nat

/-- Masking with `width` ones above `shift` zeros keeps exactly that field, in place. -/
theorem and_field (x shift width : ℕ) :
    x &&& (2 ^ width - 1) * 2 ^ shift = x / 2 ^ shift % 2 ^ width * 2 ^ shift := by
  apply Nat.eq_of_testBit_eq
  intro i
  simp only [Nat.testBit_and, Nat.testBit_mul_two_pow, Nat.testBit_mod_two_pow, Nat.testBit_div_two_pow,
    Nat.testBit_two_pow_sub_one]
  by_cases low : shift ≤ i
  · simp only [low, decide_true, Bool.true_and, Nat.sub_add_cancel low]
    exact Bool.and_comm _ _
  · simp [low]

end Nat

namespace BitVec

variable {w : ℕ}

/-- A mask of low ones is a remainder. -/
theorem toNat_and_low (x : BitVec w) (mask width : ℕ) (ones : mask = 2 ^ width - 1)
    (fits : mask < 2 ^ w) :
    (x &&& BitVec.ofNat w mask).toNat = x.toNat % 2 ^ width := by
  rw [BitVec.toNat_and, BitVec.toNat_ofNat, Nat.mod_eq_of_lt fits, ones, Nat.and_two_pow_sub_one_eq_mod]

/-- A mask of shifted ones is a quotient's remainder, back in place. -/
theorem toNat_and_field (x : BitVec w) (mask shift width : ℕ)
    (ones : mask = (2 ^ width - 1) * 2 ^ shift) (fits : mask < 2 ^ w) :
    (x &&& BitVec.ofNat w mask).toNat = x.toNat / 2 ^ shift % 2 ^ width * 2 ^ shift := by
  rw [BitVec.toNat_and, BitVec.toNat_ofNat, Nat.mod_eq_of_lt fits, ones, Nat.and_field]

/-- Concatenation adds the high part above the low one. -/
theorem toNat_append_eq {v : ℕ} (high : BitVec w) (low : BitVec v) :
    (high ++ low).toNat = high.toNat * 2 ^ v + low.toNat := by
  rw [BitVec.toNat_append, ← Nat.shiftLeft_add_eq_or_of_lt low.isLt, Nat.shiftLeft_eq]

/-- A loop that sets the bits of the places it likes sets those, and keeps the others. -/
theorem getLsbD_foldl_or {α : Type*} (place : α → ℕ) (likes : α → Prop) [DecidablePred likes]
    (places : List α) (mask : BitVec w) {i : ℕ} (inside : i < w) :
    (places.foldl (fun mask x => if likes x then mask ||| 1#w <<< place x else mask) mask).getLsbD i =
      (mask.getLsbD i || places.any fun x => decide (likes x) && place x == i) := by
  induction places generalizing mask with
  | nil => exact (Bool.or_false _).symm
  | cons x places ih =>
    rw [List.foldl_cons, ih, List.any_cons, ← Bool.or_assoc]
    congr 1
    split_ifs with liked
    · have bit : (1#w <<< place x).getLsbD i = (place x == i) := by
        rw [← BitVec.twoPow_eq, BitVec.getLsbD_twoPow, ← Bool.decide_and, beq_eq_decide]
        exact decide_eq_decide.mpr (and_iff_right_of_imp fun here => here ▸ inside)
      rw [BitVec.getLsbD_or, bit, decide_eq_true liked, Bool.true_and]
    · rw [decide_eq_false liked, Bool.false_and, Bool.or_false]

/-- A difference of unsigned numbers wraps around below the subtrahend. -/
theorem toNat_sub_base (x b : BitVec w) :
    ((x - b).toNat : ℚ) = x.toNat - b.toNat + if b ≤ x then 0 else 2 ^ w := by
  rw [BitVec.toNat_sub]
  have xs := x.isLt
  have bs := b.isLt
  split_ifs with below
  · have order : b.toNat ≤ x.toNat := below
    have value : (2 ^ w - b.toNat + x.toNat) % 2 ^ w = x.toNat - b.toNat := by
      have shape : 2 ^ w - b.toNat + x.toNat = (x.toNat - b.toNat) + 2 ^ w := by omega
      rw [shape, Nat.add_mod_right, Nat.mod_eq_of_lt (by omega)]
    rw [value, Nat.cast_sub order, add_zero]
  · have order : x.toNat < b.toNat := not_le.mp below
    have value : (2 ^ w - b.toNat + x.toNat) % 2 ^ w = 2 ^ w - b.toNat + x.toNat :=
      Nat.mod_eq_of_lt (by omega)
    rw [value, Nat.cast_add, Nat.cast_sub bs.le]
    push_cast
    ring

/-- Two differences to one base are as far apart as the numbers are, or, when the base stands
between these, as far as around the other side. -/
theorem abs_sub_base (x y b : BitVec w) :
    |((x - b).toNat : ℚ) - (y - b).toNat| =
      if b ≤ x ↔ b ≤ y then |(x.toNat : ℚ) - y.toNat| else 2 ^ w - |(x.toNat : ℚ) - y.toNat| := by
  have small (z : BitVec w) : (z.toNat : ℚ) < 2 ^ w := by exact_mod_cast z.isLt
  have positive (z : BitVec w) : (0 : ℚ) ≤ z.toNat := Nat.cast_nonneg _
  rw [toNat_sub_base, toNat_sub_base]
  by_cases left : b ≤ x <;> by_cases right : b ≤ y
  · simp only [left, right, if_true]
    congr 1
    ring
  · have above : (y.toNat : ℚ) < x.toNat := by exact_mod_cast (not_le.mp right).trans_le left
    simp only [left, right, if_true, if_false, true_iff]
    rw [abs_of_pos (sub_pos.mpr above), abs_of_neg]
    · ring
    · linarith [small x, positive y]
  · have above : (x.toNat : ℚ) < y.toNat := by exact_mod_cast (not_le.mp left).trans_le right
    simp only [left, right, if_true, if_false, false_iff, not_true]
    rw [abs_sub_comm (x.toNat : ℚ), abs_of_pos (sub_pos.mpr above), abs_of_pos]
    · ring
    · linarith [small y, positive x]
  · simp only [left, right, if_false, if_true]
    congr 1
    ring

end BitVec
