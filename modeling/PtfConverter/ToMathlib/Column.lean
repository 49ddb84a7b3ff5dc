import PtfConverter.ToMathlib.Transducer
import Mathlib.Data.Fintype.Basic
import Mathlib.Logic.Function.Basic

/-! # Fixed-capacity columns

A column is an array whose capacity is part of its type. A store names the array it writes and
the index it uses, and faults when the index is not below the capacity. `paint base xs` is the
closed form of writing `xs` from index zero over old contents `base`; each store at the next
index extends it by one entry, and a snapshot below the number of entries shows exactly `xs`.
-/

/-- An array of `capacity` cells. -/
abbrev Column (capacity : ℕ) (α : Type*) := Fin capacity → α

/-- A write outside an array: which array, and at which index. -/
structure OutOfBounds (τ : Type*) where
  array : τ
  index : ℕ
deriving DecidableEq, Repr

namespace Column

universe u

variable {n m : ℕ} {α β τ : Type u}

/-- Write one cell, or report the write that missed the array. -/
def store (array : τ) (column : Column n α) (index : ℕ) (value : α) :
    Except (OutOfBounds τ) (Column n α) :=
  if bound : index < n then .ok (Function.update column ⟨index, bound⟩ value)
  else .error ⟨array, index⟩

/-- Write one cell of a two-dimensional array. -/
def store₂ (array : τ) (matrix : Column n (Column m α)) (row index : ℕ) (value : α) :
    Except (OutOfBounds τ) (Column n (Column m α)) :=
  if bound : row < n then do
    let cells ← store array (matrix ⟨row, bound⟩) index value
    return Function.update matrix ⟨row, bound⟩ cells
  else .error ⟨array, row⟩

/-- Store one value in each named column, all at the same index. -/
def storeEach {κ : Type u} [DecidableEq κ] (array : κ → τ) (index : ℕ) :
    (κ → Column n α) → List (κ × α) → Except (OutOfBounds τ) (κ → Column n α)
  | columns, [] => .ok columns
  | columns, (key, value) :: rest => do
      let column ← store (array key) (columns key) index value
      storeEach array index (Function.update columns key column) rest

/-- The first `count` cells, as an output routine reads them. -/
def snapshot (column : Column n α) (count : ℕ) : List α :=
  (List.range count).filterMap fun i => if bound : i < n then some (column ⟨i, bound⟩) else none

/-- `xs` written from index zero over the old contents. -/
def paint (base : Column n α) (xs : List α) : Column n α := fun i => xs[i.val]?.getD (base i)

@[simp] theorem paint_nil (base : Column n α) : base.paint [] = base := rfl

theorem paint_apply_of_lt (base : Column n α) {xs : List α} {i : Fin n} (inside : i.val < xs.length) :
    base.paint xs i = xs[i.val] := by
  simp only [paint, List.getElem?_eq_getElem inside, Option.getD_some]

theorem paint_apply_of_le (base : Column n α) {xs : List α} {i : Fin n} (outside : xs.length ≤ i.val) :
    base.paint xs i = base i := by
  simp only [paint, List.getElem?_eq_none outside, Option.getD_none]

theorem store_of_lt (array : τ) (column : Column n α) {index : ℕ} (value : α) (bound : index < n) :
    column.store array index value = .ok (Function.update column ⟨index, bound⟩ value) := dif_pos bound

theorem store_of_le (array : τ) (column : Column n α) {index : ℕ} (value : α) (outside : n ≤ index) :
    column.store array index value = .error ⟨array, index⟩ := dif_neg (by omega)

theorem update_paint (base : Column n α) (xs : List α) (value : α) (bound : xs.length < n) :
    Function.update (base.paint xs) ⟨xs.length, bound⟩ value = base.paint (xs ++ [value]) := by
  funext i
  rcases Nat.lt_trichotomy i.val xs.length with before | at_end | after
  · rw [Function.update_of_ne (by simp only [ne_eq, Fin.ext_iff]; omega), paint_apply_of_lt _ before,
      paint_apply_of_lt _ (by simp only [List.length_append, List.length_singleton]; omega)]
    exact (List.getElem_append_left before).symm
  · obtain rfl : i = ⟨xs.length, bound⟩ := Fin.ext at_end
    rw [Function.update_self, paint_apply_of_lt _ (by simp)]
    simp
  · rw [Function.update_of_ne (by simp only [ne_eq, Fin.ext_iff]; omega),
      paint_apply_of_le _ (by omega),
      paint_apply_of_le _ (by simp only [List.length_append, List.length_singleton]; omega)]

/-- A store at the next index extends the painting by one entry. -/
theorem store_paint (array : τ) (base : Column n α) (xs : List α) (value : α) (bound : xs.length < n) :
    (base.paint xs).store array xs.length value = .ok (base.paint (xs ++ [value])) := by
  rw [store_of_lt _ _ _ bound, update_paint]

/-- The same loop inside one row of a matrix. -/
theorem foldlM_store₂_range (array : τ) (base : Column n (Column m α)) (row : Fin n) (f : ℕ → α)
    {count : ℕ} (bound : count ≤ m) :
    (List.range count).foldlM (fun matrix i => matrix.store₂ array row.val i (f i)) base =
      .ok (Function.update base row ((base row).paint ((List.range count).map f))) := by
  induction count with
  | zero => simp [pure, Except.pure]
  | succ count ih =>
    have next := store_paint array (base row) ((List.range count).map f) (f count)
      (by simp only [List.length_map, List.length_range]; omega)
    rw [List.length_map, List.length_range] at next
    rw [List.range_succ, List.foldlM_append, ih (by omega), Except.ok_bind, List.map_append,
      List.foldlM_cons]
    simp only [store₂, row.isLt, ↓reduceDIte, Fin.eta, Function.update_self, next, Except.ok_bind,
      pure, Except.pure, Function.update_idem, List.foldlM_nil, List.map_cons, List.map_nil]

section StoreEach

variable {κ : Type u} [DecidableEq κ]

/-- Inside the capacity, each listed column is updated and no other. -/
theorem storeEach_of_lt (array : κ → τ) (columns : κ → Column n α) {values : List (κ × α)} {index : ℕ}
    (distinct : (values.map Prod.fst).Nodup) (bound : index < n) :
    storeEach array index columns values = .ok fun key =>
      ((values.lookup key).map fun value => Function.update (columns key) ⟨index, bound⟩ value).getD
        (columns key) := by
  induction values generalizing columns with
  | nil => rfl
  | cons entry rest ih =>
    obtain ⟨key, value⟩ := entry
    obtain ⟨fresh, distinctRest⟩ := List.nodup_cons.mp distinct
    rw [storeEach, store_of_lt _ _ _ bound, Except.ok_bind, ih _ distinctRest]
    congr 1
    funext other
    by_cases same : other = key
    · subst other
      have absent : rest.lookup key = none := by
        rw [List.lookup_eq_none_iff]
        intro entry member
        have apart : key ≠ entry.1 := by
          rintro rfl
          exact fresh (List.mem_map.mpr ⟨entry, member, rfl⟩)
        simpa using apart
      simp [absent]
    · simp [List.lookup_cons, beq_false_of_ne same, Function.update_of_ne same]

/-- Past the capacity, the first store of the list faults. -/
theorem storeEach_of_le (array : κ → τ) (columns : κ → Column n α) (key : κ) (value : α)
    (rest : List (κ × α)) {index : ℕ} (outside : n ≤ index) :
    storeEach array index columns ((key, value) :: rest) = .error ⟨array key, index⟩ := by
  rw [storeEach, store_of_le _ _ _ outside, Except.error_bind]

end StoreEach

theorem snapshot_succ (column : Column n α) {count : ℕ} (bound : count < n) :
    column.snapshot (count + 1) = column.snapshot count ++ [column ⟨count, bound⟩] := by
  simp only [snapshot, List.range_succ, List.filterMap_append, List.filterMap_cons, bound,
    ↓reduceDIte, List.filterMap_nil]

theorem snapshot_length (column : Column n α) {count : ℕ} (bound : count ≤ n) :
    (column.snapshot count).length = count := by
  induction count with
  | zero => rfl
  | succ count ih =>
    rw [snapshot_succ column (by omega), List.length_append, ih (by omega), List.length_singleton]

theorem snapshot_getElem? (column : Column n α) {count : ℕ} (bound : count ≤ n) {i : ℕ}
    (inside : i < count) : (column.snapshot count)[i]? = some (column ⟨i, by omega⟩) := by
  induction count with
  | zero => omega
  | succ count ih =>
    rw [snapshot_succ column (by omega)]
    rcases Nat.lt_succ_iff_lt_or_eq.mp inside with before | rfl
    · rw [List.getElem?_append_left (by rw [snapshot_length column (by omega)]; exact before),
        ih (by omega) before]
    · rw [List.getElem?_append_right (by rw [snapshot_length column (by omega)]),
        snapshot_length column (by omega), Nat.sub_self]
      rfl

/-- Snapshots agree exactly when the cells below the counter do. -/
theorem snapshot_congr {column other : Column n α} {count : ℕ} (bound : count ≤ n)
    (same : ∀ i : Fin n, i.val < count → column i = other i) :
    column.snapshot count = other.snapshot count := by
  induction count with
  | zero => rfl
  | succ count ih =>
    rw [snapshot_succ column (by omega), snapshot_succ other (by omega),
      ih (by omega) fun i inside => same i (by omega), same ⟨count, by omega⟩ (Nat.lt_succ_self _)]

/-- What was painted is what the snapshot shows. -/
theorem snapshot_paint (base : Column n α) {xs : List α} (bound : xs.length ≤ n) :
    (base.paint xs).snapshot xs.length = xs := by
  apply List.ext_getElem?
  intro i
  rcases Nat.lt_or_ge i xs.length with inside | outside
  · rw [snapshot_getElem? _ bound inside, paint_apply_of_lt base (i := ⟨i, by omega⟩) inside,
      List.getElem?_eq_getElem inside]
  · rw [List.getElem?_eq_none outside,
      List.getElem?_eq_none (by rw [snapshot_length _ bound]; exact outside)]

theorem snapshot_paint_map {γ : Type*} (base : Column n α) (f : γ → α) {ys : List γ}
    (bound : ys.length ≤ n) :
    (base.paint (ys.map f)).snapshot ys.length = ys.map f := by
  rw [← List.length_map f, snapshot_paint base (by rwa [List.length_map])]

end Column
