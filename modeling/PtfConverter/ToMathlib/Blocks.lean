import Mathlib.Data.List.Basic

/-! # Lists laid out in blocks of one size

Blocks of `m` entries behind each other are one list, whose entry `k` is entry `k % m` of block
`k / m`. A loop over blocks and a loop inside each block are one loop over that list.
-/

namespace List

variable {α : Type*}

theorem flatMap_range_blocks {m : ℕ} (positive : 0 < m) (f : ℕ → ℕ → α) (n : ℕ) :
    ((range n).flatMap fun i => (range m).map (f i)) = (range (n * m)).map fun k =>
      f (k / m) (k % m) := by
  induction n with
  | zero => rw [Nat.zero_mul]; rfl
  | succ n ih =>
    rw [range_succ, flatMap_append, ih, Nat.succ_mul, range_add, map_append, flatMap_singleton, map_map]
    refine congrArg _ (map_congr_left fun j member => ?_)
    have inside := mem_range.mp member
    change f n j = f ((n * m + j) / m) ((n * m + j) % m)
    rw [Nat.mul_comm, Nat.mul_add_div positive, Nat.div_eq_of_lt inside, Nat.add_zero, Nat.mul_add_mod,
      Nat.mod_eq_of_lt inside]

/-- The entry of a list of blocks. -/
theorem getElem?_flatMap_range_blocks {m : ℕ} (f : ℕ → ℕ → α) {n i j : ℕ} (block : i < n)
    (entry : j < m) :
    ((range n).flatMap fun i => (range m).map (f i))[i * m + j]? = some (f i j) := by
  have positive : 0 < m := Nat.zero_lt_of_lt entry
  have inside : i * m + j < n * m := calc
    i * m + j < (i + 1) * m := by rw [Nat.succ_mul]; exact Nat.add_lt_add_left entry _
    _ ≤ n * m := Nat.mul_le_mul_right m block
  rw [flatMap_range_blocks positive, getElem?_map, getElem?_range inside, Option.map_some,
    Nat.mul_comm, Nat.mul_add_div positive, Nat.div_eq_of_lt entry, Nat.add_zero, Nat.mul_add_mod,
    Nat.mod_eq_of_lt entry]

theorem range_eq_flatMap_blocks {m : ℕ} (positive : 0 < m) (n : ℕ) :
    range (n * m) = (range n).flatMap fun i => (range m).map (i * m + ·) := by
  rw [flatMap_range_blocks positive fun i j => i * m + j]
  simp only [Nat.mul_comm _ m, Nat.div_add_mod, map_id']

/-- A fold that appends to every member of a family appends everything to each. -/
theorem foldl_append_family {ι β : Type*} (f : β → ι → List α) (events : List β) (family : ι → List α) :
    events.foldl (fun family event i => family i ++ f event i) family = fun i =>
      family i ++ events.flatMap (f · i) := by
  induction events generalizing family with
  | nil => simp only [foldl_nil, flatMap_nil, append_nil]
  | cons event rest ih =>
    rw [foldl_cons, ih]
    simp only [append_assoc, flatMap_cons]

end List
