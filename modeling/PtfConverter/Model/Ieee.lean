import Mathlib.Data.BitVec

/-! # The floating-point conversions of the converter

The converter copies doubles and never computes with them, so a double is its bit pattern. Three
conversions are performed: an unsigned integer and a float widen exactly to a double, and a
double truncates to an `int`.
-/

namespace PtfConverter

/-- An IEEE double, as its bit pattern. -/
abbrev Double := BitVec 64

/-- An IEEE float, as its bit pattern. -/
abbrev Single := BitVec 32

namespace Double

/-- The double `mantissa * 2^(exponent - 1023 - log2 mantissa)`, for a nonzero mantissa below
`2^53`. -/
def normalized (sign exponent mantissa : ℕ) : Double :=
  let lead := mantissa.log2
  BitVec.ofNat 64 (sign * 2 ^ 63 + exponent * 2 ^ 52 + (mantissa - 2 ^ lead) * 2 ^ (52 - lead))

/-- `(double) n` for an unsigned 32-bit integer: exact. -/
def ofUInt32 (n : BitVec 32) : Double :=
  if n = 0 then 0 else normalized 0 (1023 + n.toNat.log2) n.toNat

/-- `(double) f`: exact, with subnormal floats renormalized. -/
def ofSingle (f : Single) : Double :=
  let sign := f.toNat / 2 ^ 31
  let exponent := f.toNat / 2 ^ 23 % 2 ^ 8
  let mantissa := f.toNat % 2 ^ 23
  if exponent = 0 then
    if mantissa = 0 then BitVec.ofNat 64 (sign * 2 ^ 63)
    else normalized sign (874 + mantissa.log2) mantissa
  else
    let widened := if exponent = 255 then 2047 else exponent + 896
    BitVec.ofNat 64 (sign * 2 ^ 63 + widened * 2 ^ 52 + mantissa * 2 ^ 29)

/-- `(int) d`: truncation toward zero. Out of range the x86 conversion yields the smallest `int`. -/
def toInt32 (d : Double) : ℤ :=
  let exponent := d.toNat / 2 ^ 52 % 2 ^ 11
  let mantissa := 2 ^ 52 + d.toNat % 2 ^ 52
  let magnitude : ℕ :=
    if exponent < 1023 then 0
    else if exponent ≤ 1075 then mantissa / 2 ^ (1075 - exponent)
    else 2 ^ 31
  let value : ℤ := if d.toNat / 2 ^ 63 = 1 then -magnitude else magnitude
  if -2 ^ 31 ≤ value ∧ value < 2 ^ 31 then value else -2 ^ 31

example : [0, 1, 70, 9999999].map (fun n => toInt32 (ofUInt32 n)) = [0, 1, 70, 9999999] := by decide

end Double

end PtfConverter
