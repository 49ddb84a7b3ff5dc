import PtfConverter.Soundness.BankSafety

/-! # FindBank and the list of 16-bit banks

`IterateBank` tests for the end of the banks before it looks at a bank, and `FindBank` looks at the
first bank before it tests. So an event without banks has none to list, but `FindBank` compares the
name with whatever lies behind the header of the event. Wherever a bank is, the two walks agree.
-/

namespace PtfConverter.Midas

open Memory

/-- The calls of `IterateBank` that enumerate all banks behind one, with the data pointer of each. -/
def enumerate (memory : Memory) (previous : Option ℕ) : Except Fault (List (ℕ × ℕ)) := do
  match ← IterateBank memory previous with
  | none => return []
  | some bank => do
      let rest ← enumerate memory (some bank.pbk.offset)
      return (bank.pbk.offset, bank.pdata) :: rest
termination_by remaining previous
decreasing_by exact bank.pbk.remaining_lt

/-- `FindBank` and the enumeration say the same about a name, and the list of an event
holds the same banks. -/
structure FindsEnumerated (memory : Memory) (name : Name) (banks : List (ℕ × ℕ)) : Prop where
  enumerated : enumerate memory none = .ok banks
  listed : ∀ header : EventHeader, header.fEventId ≠ 0 →
    ∃ rest, SetBankList (.fresh header memory) = .ok
    (⟨header, memory, banks.length,
      some ((banks.flatMap fun bank => nameAt memory bank.1).map some ++ some 0 :: rest)⟩,
      banks.length)
  /-- The data pointer of the first bank of the name, when there is one. -/
  found : ∃ found, FindBank memory name = .ok found ∧
    found.map Found.pdata = (banks.find? fun bank => nameAt memory bank.1 = name.toList).map Prod.snd

section Readable

variable {memory : Memory} {bytes : ℕ → Byte} {name : Name}

private theorem reaches (readable : memory.beyond = some bytes) (last : ℕ) : memory.Reaches last := by
  intro strict
  rw [readable] at strict
  cases strict

private theorem candidateReaches (readable : memory.beyond = some bytes) (b32 : Bool) (candidate : ℕ) :
    CandidateReaches memory b32 candidate :=
  ⟨fun _ => reaches readable _, fun _ _ => reaches readable _, fun _ _ => reaches readable _⟩

theorem IterateBank_pdata {previous : Option ℕ} {bank : Iterated previous}
    (ran : IterateBank memory previous = .ok (some bank)) : bank.pdata = bank.pbk.offset + 8 := by
  unfold IterateBank at ran
  split at ran
  · cases ran
  · obtain ⟨size, _, ran⟩ := Except.bind_eq_ok_iff.mp ran
    split_ifs at ran
    · obtain ⟨fDataSize, _, ran⟩ := Except.bind_eq_ok_iff.mp ran
      cases ran
      rfl
    · cases ran

theorem enumerate_eq (readable : memory.beyond = some bytes) {previous : Option ℕ} {candidate : ℕ}
    (next : nextOf memory false previous = .ok candidate) :
    enumerate memory previous =
      .ok ((visited memory false candidate).map fun bank => (bank, bank + 8)) := by
  obtain ⟨found, iterated, landed⟩ :=
    IterateBank_of_reaches next (reaches readable 8) (candidateReaches readable _ _)
  rw [enumerate, iterated, Except.ok_bind]
  cases found with
  | none =>
    rw [visited_none landed.symm]
    rfl
  | some bank =>
    have behind : nextOf memory false (some bank.pbk.offset) =
        .ok (after memory false bank.pbk.offset) :=
      nextOf_some (reaches readable _)
    have rest := enumerate_eq readable behind
    rw [Option.map_some] at landed
    rw [visited_some landed.symm, List.map_cons, ← IterateBank_pdata iterated]
    simp only [rest, Except.ok_bind]
    rfl
termination_by 2 ^ 33 - candidate
decreasing_by
  have order : candidate ≤ bank.pbk.offset ∧ bank.pbk.offset < endOf memory := le_of_landing landed.symm
  have bound := endOf_lt memory
  have ahead := after_gt memory false bank.pbk.offset
  omega

theorem landing_narrow (memory : Memory) (candidate : ℕ) :
    landing memory false candidate = if candidate < endOf memory then some candidate else none := by
  rw [landing, aligned, if_neg Bool.false_ne_true, Option.filter_some]
  simp only [decide_eq_true_eq]

/-- The loop of `FindBank` reports the first bank of the name, where the bank it starts with
counts. -/
theorem findBankLoop_eq (readable : memory.beyond = some bytes) (name : Name) (bank : ℕ) :
    findBankLoop memory name bank =
      match (bank :: visited memory false (after memory false bank)).find? fun bank =>
        nameAt memory bank = name.toList with
      | none => .ok none
      | some bank => report memory false bank := by
  rw [findBankLoop_of_reaches (reaches readable 8) (reaches readable _), List.find?_cons]
  by_cases same : nameAt memory bank = name.toList
  · rw [if_pos same, decide_eq_true same]
  · have landed := landing_narrow memory (after memory false bank)
    rw [if_neg same, decide_eq_false same]
    split_ifs with inside
    · rw [if_pos inside] at landed
      rw [visited_some landed]
      exact findBankLoop_eq readable name (after memory false bank)
    · rw [if_neg inside] at landed
      rw [visited_none landed]
      rfl
termination_by 2 ^ 33 - bank
decreasing_by
  have ahead := after_gt memory false bank
  have bound := endOf_lt memory
  omega

theorem report_pdata {bank : ℕ} {found : Option Found} (ran : report memory false bank = .ok found) :
    found.map Found.pdata = some (bank + 8) := by
  obtain ⟨reported, made, done⟩ := Except.bind_eq_ok_iff.mp ran
  obtain ⟨size, _, made⟩ := Except.bind_eq_ok_iff.mp made
  split_ifs at made
  all_goals
    cases made
    cases done
    rfl

/-- The search from a bank agrees with a list of the banks from there when the first bank of the
name has a type with a size. -/
private theorem findBankLoop_agrees_iff (readable : memory.beyond = some bytes) (bank : ℕ) :
    (∃ found, findBankLoop memory name bank = .ok found ∧ found.map Found.pdata =
        (((bank :: visited memory false (after memory false bank)).map fun bank =>
          (bank, bank + 8)).find? fun bank =>
          nameAt memory bank.1 = name.toList).map Prod.snd) ↔
      ∀ first ∈ (bank :: visited memory false (after memory false bank)).find?
          fun bank => nameAt memory bank = name.toList,
        Sized memory false first := by
  have places : (((bank :: visited memory false (after memory false bank)).map fun bank =>
      (bank, bank + 8)).find?
      fun bank => nameAt memory bank.1 = name.toList).map Prod.snd =
        ((bank :: visited memory false (after memory false bank)).find? fun bank =>
          nameAt memory bank = name.toList).map fun bank => bank + 8 := by
    rw [List.find?_map, Option.map_map]
    rfl
  rw [places, findBankLoop_eq readable]
  cases (bank :: visited memory false (after memory false bank)).find? fun bank =>
      nameAt memory bank = name.toList with
  | none => exact iff_of_true ⟨none, rfl, rfl⟩ fun first member => by cases member
  | some first =>
    constructor
    · rintro ⟨found, ran, _⟩ _ ⟨⟩
      exact report_ok_iff.mp ⟨found, ran⟩
    · intro sized
      obtain ⟨found, ran⟩ := report_ok_iff.mpr (sized first rfl)
      exact ⟨found, ran, report_pdata ran⟩

theorem visited_eq (memory : Memory) :
    visited memory false 8 = if memory.peek32 0 = 0 then
      [] else 8 :: visited memory false (after memory false 8) := by
  have landed := landing_narrow memory 8
  by_cases zero : memory.peek32 0 = 0
  · have ended : ¬ 8 < endOf memory := by
      rw [endOf, zero]
      decide
    rw [if_neg ended] at landed
    rw [if_pos zero, visited_none landed]
  · have inside : 8 < endOf memory := by
      have positive : (memory.peek32 0).toNat ≠ 0 := fun same => zero (BitVec.eq_of_toNat_eq same)
      unfold endOf
      omega
    rw [if_pos inside] at landed
    rw [if_neg zero, visited_some landed]

theorem listed_visited (readable : memory.beyond = some bytes) (narrow : IsBank32 memory = .ok false)
    (header : EventHeader) (id : header.fEventId ≠ 0) :
    ∃ rest, SetBankList (.fresh header memory) = .ok
      (⟨header, memory, (visited memory false 8).length,
        some (((visited memory false 8).flatMap (nameAt memory)).map some ++ some 0 :: rest)⟩,
        (visited memory false 8).length) :=
  @SetBankList_of_reaches (.fresh header memory) false (reaches readable 8) narrow
    (fun _ _ => candidateReaches readable _ _) id rfl

/-- Without banks, nothing is enumerated, and `FindBank` looks at the first bank nevertheless. -/
private theorem findBankLoop_empty_iff (readable : memory.beyond = some bytes)
    (empty : memory.peek32 0 = 0) :
    (∃ found, findBankLoop memory name 8 = .ok found ∧ found.map Found.pdata = none) ↔
      nameAt memory 8 ≠ name.toList := by
  have alone : visited memory false (after memory false 8) = [] := by
    apply visited_none
    have ahead := after_gt memory false 8
    rw [landing_narrow, endOf, empty]
    apply if_neg
    intro inside
    have below : after memory false 8 < 8 := inside
    omega
  rw [findBankLoop_eq readable, alone, List.find?_singleton]
  by_cases same : nameAt memory 8 = name.toList
  · refine iff_of_false ?_ fun other => other same
    rintro ⟨found, ran, place⟩
    rw [decide_eq_true same] at ran
    have pointer := report_pdata ran
    rw [place] at pointer
    cases pointer
  · rw [decide_eq_false same]
    exact iff_of_true ⟨none, rfl, rfl⟩ same

/-- For a name, `FindBank` agrees with the enumeration of the 16-bit banks exactly when
there are banks, or at least not that name behind the header, and the first bank of the name
has a type with a size. -/
theorem findsEnumerated_iff (readable : memory.beyond = some bytes)
    (narrow : IsBank32 memory = .ok false) (name : Name) :
    (∃ banks, FindsEnumerated memory name banks) ↔
      (memory.peek32 0 ≠ 0 ∨ nameAt memory 8 ≠ name.toList) ∧
        ∀ first ∈ (visited memory false 8).find? fun bank => nameAt memory bank = name.toList,
          Sized memory false first := by
  have enumerated := enumerate_eq readable (rfl : nextOf memory false none = .ok 8)
  have search : FindBank memory name = findBankLoop memory name 8 := by
    rw [FindBank, narrow, Except.ok_bind, if_neg Bool.false_ne_true]
  have agrees : (∃ banks, FindsEnumerated memory name banks) ↔
      ∃ found, findBankLoop memory name 8 = .ok found ∧ found.map Found.pdata =
        (((visited memory false 8).map fun bank => (bank, bank + 8)).find? fun bank =>
          nameAt memory bank.1 = name.toList).map Prod.snd := by
    constructor
    · rintro ⟨banks, same, _, found, ran, place⟩
      cases enumerated.symm.trans same
      exact ⟨found, search ▸ ran, place⟩
    · rintro ⟨found, ran, place⟩
      refine ⟨_, enumerated, ?_, found, search.trans ran, place⟩
      intro header id
      rw [List.length_map, List.flatMap_map]
      exact listed_visited readable narrow header id
  rw [agrees, visited_eq]
  split_ifs with empty
  · refine (findBankLoop_empty_iff readable empty).trans
      ⟨fun other => ⟨.inr other, fun first member => by cases member⟩, ?_⟩
    intro fits
    exact fits.1.resolve_left fun some => some empty
  · rw [findBankLoop_agrees_iff readable, and_iff_right (.inl empty)]

end Readable

/-- An event with an id, a size of 0 in its bank header, and a name behind that. -/
def noBanks : Memory := ⟨[0, 0, 0, 0, 1, 0, 0, 0], some fun i => if i < 4 then 0x41 else 1⟩

theorem findsEnumerated_iff_noBanks :
    (∃ banks, FindsEnumerated noBanks #v[0x42, 0x42, 0x42, 0x42] banks) ↔
      (noBanks.peek32 0 ≠ 0 ∨ nameAt noBanks 8 ≠ [0x42, 0x42, 0x42, 0x42]) ∧
        ∀ first ∈ (visited noBanks false 8).find?
            fun bank => nameAt noBanks bank = [0x42, 0x42, 0x42, 0x42],
          Sized noBanks false first :=
  findsEnumerated_iff rfl (by decide) #v[0x42, 0x42, 0x42, 0x42]

/-- No bank is enumerated, and `FindBank` finds one behind the header. -/
theorem noBanks_found : enumerate noBanks none = .ok [] ∧
    FindBank noBanks #v[0x41, 0x41, 0x41, 0x41] = .ok (some ⟨257, 257, 16⟩) := by
  have readable : noBanks.beyond = some fun i => if i < 4 then 0x41 else 1 := rfl
  have narrow : IsBank32 noBanks = .ok false := by decide
  constructor
  · rw [enumerate_eq readable (rfl : nextOf noBanks false none = .ok 8), visited_eq, if_pos (by decide)]
    rfl
  · rw [FindBank, narrow, Except.ok_bind, if_neg Bool.false_ne_true,
      findBankLoop_of_reaches (reaches readable 8) (reaches readable _), if_pos (by decide)]
    decide

end PtfConverter.Midas
