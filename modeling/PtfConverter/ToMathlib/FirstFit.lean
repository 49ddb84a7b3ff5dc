import Mathlib.Data.List.Nodup

/-! # Items that go into the first bin that takes them

Items come one by one, and each goes into the first of a list of bins that takes it, or into a new
bin at the end. `Grouped` says that the bins are the groups of the items with equal keys, each
gathered in order. It is kept as long as a bin takes exactly the items with the key of its own.
-/

namespace FirstFit

variable {α β κ : Type*} [DecidableEq κ]

/-- The items of a key. -/
def group (key : α → κ) (items : List α) (k : κ) : List α := items.filter fun x => key x = k

/-- The bins hold the groups of the items with equal keys, under different keys. -/
structure Grouped (key : α → κ) (gather : List α → β) (items : List α) (keys : List κ)
    (bins : List β) : Prop where
  nodup : keys.Nodup
  mem_iff : ∀ k, k ∈ keys ↔ ∃ x ∈ items, key x = k
  bins : bins = keys.map fun k => gather (group key items k)

variable {key : α → κ} {gather : List α → β} {items : List α} {keys : List κ} {bins : List β} {x : α}

theorem mem_group {k : κ} : x ∈ group key items k ↔ x ∈ items ∧ key x = k := by
  rw [group, List.mem_filter, decide_eq_true_eq]

theorem group_concat_self : group key (items ++ [x]) (key x) = group key items (key x) ++ [x] := by
  rw [group, List.filter_append, List.filter_singleton, decide_eq_true rfl]
  rfl

theorem group_concat_other {k : κ} (ne : key x ≠ k) :
    group key (items ++ [x]) k = group key items k := by
  rw [group, List.filter_append, List.filter_singleton, decide_eq_false ne]
  exact List.append_nil _

theorem group_eq_nil (absent : ∀ y ∈ items, key y ≠ key x) : group key items (key x) = [] := by
  apply List.filter_eq_nil_iff.mpr
  intro y member
  rw [decide_eq_true_eq]
  exact absent y member

namespace Grouped

theorem nil : Grouped key gather [] [] [] := by
  refine ⟨List.nodup_nil, fun k => ?_, rfl⟩
  constructor
  · intro member
    cases member
  · rintro ⟨_, member, _⟩
    cases member

theorem getElem? (grouped : Grouped key gather items keys bins) (i : ℕ) :
    bins[i]? = keys[i]?.map fun k => gather (group key items k) := by
  rw [grouped.bins, List.getElem?_map]

/-- The first bin that takes an item holds its key. -/
theorem found (grouped : Grouped key gather items keys bins) {takes : β → Bool}
    (apart : ∀ k ∈ keys, takes (gather (group key items k)) = true → k = key x) {i : ℕ}
    (first : bins.findIdx? takes = some i) : keys[i]? = some (key x) := by
  obtain ⟨inside, taken, _⟩ := List.findIdx?_eq_some_iff_getElem.mp first
  have place := grouped.getElem? i
  rw [List.getElem?_eq_getElem inside] at place
  obtain ⟨k, here, bin⟩ := Option.map_eq_some_iff.mp place.symm
  rw [← bin] at taken
  rw [here, apart k (List.mem_of_getElem? here) taken]

/-- When no bin takes an item, its key is new. -/
theorem unfound (grouped : Grouped key gather items keys bins) {takes : β → Bool}
    (near : key x ∈ keys → takes (gather (group key items (key x))) = true)
    (absent : bins.findIdx? takes = none) : key x ∉ keys := by
  intro member
  have bin : gather (group key items (key x)) ∈ bins := by
    rw [grouped.bins]
    exact List.mem_map.mpr ⟨key x, member, rfl⟩
  have refused := List.findIdx?_eq_none_iff.mp absent _ bin
  rw [near member] at refused
  cases refused

private theorem mem_concat (grouped : Grouped key gather items keys bins) (k : κ) :
    (∃ y ∈ items ++ [x], key y = k) ↔ k ∈ keys ∨ k = key x := by
  rw [grouped.mem_iff]
  constructor
  · rintro ⟨y, member, same⟩
    obtain earlier | last := List.mem_append.mp member
    · exact .inl ⟨y, earlier, same⟩
    · rw [List.mem_singleton.mp last] at same
      exact .inr same.symm
  · rintro (⟨y, member, same⟩ | rfl)
    · exact ⟨y, List.mem_append_left _ member, same⟩
    · exact ⟨x, List.mem_append_right _ (List.mem_singleton.mpr rfl), rfl⟩

/-- An item goes into the bin of its key. -/
theorem join (grouped : Grouped key gather items keys bins) {i : ℕ}
    (here : keys[i]? = some (key x)) {add : β → β}
    (added : add (gather (group key items (key x))) = gather (group key items (key x) ++ [x])) :
    Grouped key gather (items ++ [x]) keys (bins.modify i add) := by
  refine ⟨grouped.nodup, fun k => ?_, ?_⟩
  · rw [grouped.mem_concat, or_iff_left_of_imp]
    rintro rfl
    exact List.mem_of_getElem? here
  · apply List.ext_getElem?
    intro j
    rw [List.getElem?_modify, grouped.getElem?, List.getElem?_map, Option.map_eq_map, Option.map_map]
    by_cases same : i = j
    · subst same
      rw [here, Option.map_some, Option.map_some, group_concat_self, ← added, Function.comp_apply,
        if_pos rfl]
    · cases place : keys[j]? with
      | none => rfl
      | some k =>
        have ne : key x ≠ k := by
          rintro rfl
          have bound := (List.getElem?_eq_some_iff.mp here).1
          exact same ((List.getElem?_inj bound grouped.nodup).mp (here.trans place.symm))
        rw [Option.map_some, Option.map_some, group_concat_other ne, Function.comp_apply, if_neg same]

/-- An item with a new key goes into a new bin. -/
theorem concat (grouped : Grouped key gather items keys bins) (new : key x ∉ keys) :
    Grouped key gather (items ++ [x]) (keys ++ [key x]) (bins ++ [gather [x]]) := by
  have fresh : ∀ y ∈ items, key y ≠ key x :=
    fun y member same => new ((grouped.mem_iff _).mpr ⟨y, member, same⟩)
  refine ⟨?_, fun k => ?_, ?_⟩
  · rw [List.nodup_append]
    refine ⟨grouped.nodup, List.nodup_singleton _, ?_⟩
    intro k member _ last same
    rw [same, List.mem_singleton.mp last] at member
    exact new member
  · rw [grouped.mem_concat, List.mem_append, List.mem_singleton]
  · rw [List.map_append, List.map_singleton, group_concat_self, group_eq_nil fresh, List.nil_append,
      grouped.bins]
    congr 1
    apply List.map_congr_left
    intro k member
    have ne : key x ≠ k := by
      rintro rfl
      exact new member
    rw [group_concat_other ne]

end Grouped

end FirstFit
