import Mathlib.Data.Finset.Card
import Mathlib.Data.List.Basic

/-! # Searching a list for every key

A search goes through a list, must be able to read each place it looks at, and stops at the first
place that holds the key it looks for, which it then reports. `Ends` says that it gets through.
Searches for all keys get through exactly when every place can be read and the first place of each
key can be reported, as long as some key is nowhere in the list.
-/

namespace Search

variable {α β κ : Type*} [DecidableEq κ] (readable : α → Prop) (pick : α → Option β) (key : β → κ)
  (fine : β → Prop)

/-- The search for a key gets through. -/
def Ends (wanted : κ) : List α → Prop
  | [] => True
  | a :: rest => readable a ∧ match pick a with
    | none => Ends wanted rest
    | some b => if key b = wanted then fine b else Ends wanted rest

/-- What the search for a key finds. -/
def first (wanted : κ) (list : List α) : Option β := (list.filterMap pick).find? fun b => key b = wanted

variable {readable pick key fine}

theorem first_none {a : α} {rest : List α} {wanted : κ} (none : pick a = none) :
    first pick key wanted (a :: rest) = first pick key wanted rest := by
  rw [first, List.filterMap_cons_none none, first]

theorem first_some {a : α} {b : β} {rest : List α} {wanted : κ} (some : pick a = some b) :
    first pick key wanted (a :: rest) = if key b = wanted then
      .some b else first pick key wanted rest := by
  rw [first, List.filterMap_cons_some some, List.find?_cons]
  split_ifs with same
  · rw [decide_eq_true same]
  · rw [decide_eq_false same, first]

/-- The first place of the key is reported. -/
theorem Ends.first_fine {wanted : κ} {list : List α} (ends : Ends readable pick key fine wanted list) :
    ∀ b ∈ first pick key wanted list, fine b := by
  induction list with
  | nil => exact fun b member => by cases member
  | cons a rest ih =>
    obtain ⟨_, ends⟩ := ends
    cases picked : pick a with
    | none =>
      rw [picked] at ends
      rw [first_none picked]
      exact ih ends
    | some b =>
      rw [picked] at ends
      rw [first_some picked]
      simp only at ends
      split_ifs at ends ⊢ with same
      · rintro _ ⟨⟩
        exact ends
      · exact ih ends

/-- A search that finds nothing looks at every place. -/
theorem Ends.all_readable {wanted : κ} {list : List α} (ends : Ends readable pick key fine wanted list)
    (absent : first pick key wanted list = none) : ∀ a ∈ list, readable a := by
  induction list with
  | nil => exact fun a member => by cases member
  | cons a rest ih =>
    obtain ⟨here, ends⟩ := ends
    refine List.forall_mem_cons.mpr ⟨here, ?_⟩
    cases picked : pick a with
    | none =>
      rw [picked] at ends
      rw [first_none picked] at absent
      exact ih ends absent
    | some b =>
      rw [picked] at ends
      rw [first_some picked] at absent
      simp only at ends
      split_ifs at ends absent
      exact ih ends absent

theorem ends_of_readable {wanted : κ} {list : List α} (every : ∀ a ∈ list, readable a)
    (report : ∀ b ∈ first pick key wanted list, fine b) : Ends readable pick key fine wanted list := by
  induction list with
  | nil => trivial
  | cons a rest ih =>
    obtain ⟨here, every⟩ := List.forall_mem_cons.mp every
    refine ⟨here, ?_⟩
    cases picked : pick a with
    | none =>
      rw [first_none picked] at report
      exact ih every report
    | some b =>
      rw [first_some picked] at report
      simp only
      split_ifs at report ⊢
      · exact report b rfl
      · exact ih every report

/-- The searches for all keys get through exactly when every place is readable and each first one is
fine. -/
theorem forall_ends_iff {list : List α} (fresh : ∃ wanted, ∀ b ∈ list.filterMap pick, key b ≠ wanted) :
    (∀ wanted, Ends readable pick key fine wanted list) ↔
      (∀ a ∈ list, readable a) ∧ ∀ wanted, ∀ b ∈ first pick key wanted list, fine b := by
  obtain ⟨unused, nowhere⟩ := fresh
  constructor
  · intro ends
    have absent : first pick key unused list = none := by
      refine List.find?_eq_none.mpr fun b member => ?_
      rw [decide_eq_true_eq]
      exact nowhere b member
    exact ⟨(ends unused).all_readable absent, fun wanted => (ends wanted).first_fine⟩
  · rintro ⟨every, report⟩ wanted
    exact ends_of_readable every (report wanted)

/-- A list that is shorter than a bound misses a number below it. -/
theorem exists_lt_notMem {list : List ℕ} {bound : ℕ} (short : list.length < bound) :
    ∃ n < bound, n ∉ list := by
  have few : list.toFinset.card < (Finset.range bound).card := by
    rw [Finset.card_range]
    exact (List.toFinset_card_le list).trans_lt short
  obtain ⟨n, inside, missing⟩ := Finset.exists_mem_notMem_of_card_lt_card few
  exact ⟨n, Finset.mem_range.mp inside, fun member => missing (List.mem_toFinset.mpr member)⟩

end Search
