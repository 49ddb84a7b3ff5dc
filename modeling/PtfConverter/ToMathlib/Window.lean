import Mathlib.Data.List.DropRight
import Mathlib.Order.Defs.Unbundled

/-! # Rolling windows and running extrema

A window holds the last entries of a list, at most `n` of them. A new entry goes to the end, and the
first one leaves when the window is full. A running extremum is the value of a function that comes in
front of all others on a range, with a place where it is attained.
-/

namespace Window

variable {α : Type*} (n : ℕ)

def push (window : List α) (x : α) : List α :=
  if n < (window ++ [x]).length then (window ++ [x]).tail else window ++ [x]

/-- The window of a longer list. -/
theorem push_rtake (l : List α) (x : α) : push n (l.rtake n) x = (l ++ [x]).rtake n := by
  rw [push, ← List.rtake_concat_succ]
  have length : ((l ++ [x]).rtake (n + 1)).length = min (n + 1) (l ++ [x]).length := by
    rw [List.rtake, List.length_drop]
    omega
  rw [length]
  split_ifs with full
  · rw [List.rtake, List.tail_drop, List.rtake]
    congr 1
    omega
  · have all (m : ℕ) (short : (l ++ [x]).length ≤ m) : (l ++ [x]).rtake m = l ++ [x] := by
      rw [List.rtake, Nat.sub_eq_zero_of_le short, List.drop_zero]
    rw [all (n + 1) (by omega), all n (by omega)]

end Window

/-- `value` comes in front of all values of `f` from `first` up to `last`, and is the one at
`place`. -/
structure Extremum {α : Type*} (r : α → α → Prop) (f : ℕ → α) (first last : ℕ) (value : α)
    (place : ℕ) : Prop where
  inside : first ≤ place ∧ place < last
  attained : value = f place
  extreme : ∀ i, first ≤ i → i < last → r value (f i)

namespace Extremum

variable {α : Type*} {r : α → α → Prop} {f : ℕ → α} {first last place : ℕ} {value : α}

theorem single (refl : r (f first) (f first)) : Extremum r f first (first + 1) (f first) first := by
  refine ⟨⟨le_rfl, Nat.lt_succ_self _⟩, rfl, fun i low high => ?_⟩
  obtain rfl := Nat.le_antisymm (Nat.le_of_lt_succ high) low
  exact refl

/-- The next value does not come in front. -/
theorem keep (extremum : Extremum r f first last value place) (behind : r value (f last)) :
    Extremum r f first (last + 1) value place := by
  refine ⟨⟨extremum.inside.1, Nat.lt_succ_of_lt extremum.inside.2⟩, extremum.attained,
    fun i low high => ?_⟩
  rcases Nat.lt_succ_iff_lt_or_eq.mp high with before | rfl
  · exact extremum.extreme i low before
  · exact behind

/-- The next value comes in front of all others. -/
theorem replace [IsTrans α r] (extremum : Extremum r f first last value place)
    (refl : r (f last) (f last)) (front : r (f last) value) :
    Extremum r f first (last + 1) (f last) last := by
  have below := extremum.inside
  refine ⟨⟨by omega, Nat.lt_succ_self _⟩, rfl, fun i low high => ?_⟩
  rcases Nat.lt_succ_iff_lt_or_eq.mp high with before | rfl
  · exact IsTrans.trans _ _ _ front (extremum.extreme i low before)
  · exact refl

end Extremum
