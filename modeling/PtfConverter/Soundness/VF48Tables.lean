import PtfConverter.Model.VF48Config
import PtfConverter.ToMathlib.Tables
import PtfConverter.ToMathlib.Transducer

/-! # What the setters leave in the tables

A call of a setter writes the entry of one unit, or the entries of all units below `fNumModules`, so
that each entry has the value of the last call for it. `SetTsFreq` keeps to that for a single unit;
for all units it stores at a negative index, in front of the table.
-/

namespace PtfConverter.VF48

namespace TableCall

def unit : TableCall → ℤ
  | SetGroupEnableMask unit _ => unit
  | SetNumSamples unit _ => unit
  | SetTsFreq unit _ => unit

/-- The call is for a unit: for it alone, or for all units in use. -/
def Addresses (fNumModules : ℤ) (call : TableCall) (i : UnitNo) : Prop :=
  (i.val : ℤ) < fNumModules ∧ ((i.val : ℤ) = call.unit ∨ call.unit < 0)

instance (fNumModules : ℤ) (call : TableCall) (i : UnitNo) : Decidable (call.Addresses fNumModules i) :=
  inferInstanceAs (Decidable (_ ∧ _))

def groupMask? : TableCall → Option Word
  | SetGroupEnableMask _ groupMask => some groupMask
  | _ => none

def num_samples? : TableCall → Option ℤ
  | SetNumSamples _ num_samples => some num_samples
  | _ => none

def ts_freq_hz? : TableCall → Option ℚ
  | SetTsFreq _ ts_freq_hz => some ts_freq_hz
  | _ => none

/-- What a call gives the entry of a unit in one of the tables. -/
def writes {α : Type} (value : TableCall → Option α) (fNumModules : ℤ) (call : TableCall)
    (i : UnitNo) : Option α :=
  if call.Addresses fNumModules i then value call else none

/-- A `SetTsFreq` for all units. -/
def FreqOfAll (call : TableCall) : Prop := call.ts_freq_hz?.isSome ∧ call.unit < 0

end TableCall

open TableCall

namespace Settings

/-- Settings in which each entry has the value that the last call for it gave, and
nothing else is different. -/
def effective (settings : Settings) (calls : List TableCall) : Settings :=
  { settings with
    fGroupEnabled := Table.lastWrite
      (writes groupMask? settings.fNumModules) calls settings.fGroupEnabled
    fNumSamples := Table.lastWrite (writes num_samples? settings.fNumModules) calls settings.fNumSamples
    fFreq := Table.lastWrite (writes ts_freq_hz? settings.fNumModules) calls settings.fFreq }

theorem effective_cons (settings : Settings) (call : TableCall) (calls : List TableCall) :
    settings.effective (call :: calls) = (settings.effective [call]).effective calls := by
  simp only [effective, Table.lastWrite_cons, Table.lastWrite_nil]

/-- A write of one value to some entries. -/
private theorem overwrite_writes {α : Type} (value : TableCall → Option α) {call : TableCall} {a : α}
    (gives : value call = some a) (fNumModules : ℤ) (table : UnitNo → α) :
    Table.lastWrite (writes value fNumModules) [call] table =
      fun i => if call.Addresses fNumModules i then a else table i := by
  funext i
  rw [Table.lastWrite_cons, Table.lastWrite_nil, Table.overwrite, writes, gives]
  split_ifs <;> rfl

/-- A call for another table. -/
private theorem lastWrite_other {α : Type} (value : TableCall → Option α) {call : TableCall}
    (none : value call = none) (fNumModules : ℤ) (table : UnitNo → α) :
    Table.lastWrite (writes value fNumModules) [call] table = table := by
  funext i
  apply Table.lastWrite_of_none
  intro other member
  rw [List.mem_singleton.mp member, writes, none, ite_self]

theorem storeFreq_unit {settings : Settings} (i : UnitNo) (ts_freq_hz : ℚ) :
    settings.storeFreq i.val ts_freq_hz =
      .ok { settings with fFreq := Function.update settings.fFreq i ts_freq_hz } :=
  dif_pos ⟨Int.natCast_nonneg i.val, i.isLt⟩

/-- The loop over the units stores when it is at the unit. -/
private theorem foldl_store (settings : Settings) (i : UnitNo) (ts_freq_hz : ℚ) (n : ℕ) :
    (List.range n).foldl
        (fun settings k =>
          if k = i.val then { settings with fFreq := Function.update settings.fFreq i ts_freq_hz }
            else settings) settings =
      if i.val < n then { settings with fFreq := Function.update settings.fFreq i ts_freq_hz }
        else settings := by
  induction n with
  | zero => rfl
  | succ n ih =>
    rw [List.range_succ, List.foldl_append, ih, List.foldl_cons, List.foldl_nil]
    rcases Nat.lt_trichotomy i.val n with before | here | behind
    · rw [if_pos before, if_neg before.ne', if_pos (before.trans (Nat.lt_succ_self n))]
    · rw [if_neg here.not_lt, if_pos here.symm, if_pos (here.le.trans_lt (Nat.lt_succ_self n))]
    · rw [if_neg behind.not_gt, if_neg behind.ne, if_neg (by omega)]

/-- For one unit, the loop stores once. -/
theorem SetTsFreq_unit {settings : Settings} {i : UnitNo}
    (inUse : (i.val : ℤ) < settings.fNumModules) (ts_freq_hz : ℚ) :
    settings.SetTsFreq i.val ts_freq_hz =
      .ok { settings with fFreq := Function.update settings.fFreq i ts_freq_hz } := by
  have store (settings : Settings) (k : ℕ) :
      (if (k : ℤ) = i.val ∨ (i.val : ℤ) < 0 then
        settings.storeFreq i.val ts_freq_hz else .ok settings) =
        .ok (if k = i.val then
          { settings with fFreq := Function.update settings.fFreq i ts_freq_hz }
          else settings) := by
    by_cases here : k = i.val
    · rw [if_pos here, if_pos (.inl (congrArg Nat.cast here)), storeFreq_unit]
    · rw [if_neg here, if_neg (by omega)]
  rw [SetTsFreq, Except.foldlM_eq_ok fun k _ settings => store settings k, foldl_store,
    if_pos (by omega)]

/-- For all units, the first store misses the table. -/
theorem SetTsFreq_all {settings : Settings} {unit : ℤ} (some : 0 < settings.fNumModules)
    (all : unit < 0) (ts_freq_hz : ℚ) :
    settings.SetTsFreq unit ts_freq_hz = .error (.fFreq unit) := by
  obtain ⟨n, count⟩ : ∃ n, settings.fNumModules.toNat = n + 1 :=
    ⟨settings.fNumModules.toNat - 1, by omega⟩
  have out : ¬ (0 ≤ unit ∧ unit.toNat < VF48_MAX_MODULES) := by omega
  rw [SetTsFreq, count, List.range_succ_eq_map, List.foldlM_cons, if_pos (.inr all), storeFreq,
    dif_neg out]
  rfl

/-- A call does what it says, unless it is a `SetTsFreq` for all units. -/
theorem setTable_effective {settings : Settings} {call : TableCall}
    (inUse : call.unit < settings.fNumModules)
    (few : settings.fNumModules < (VF48_MAX_MODULES : ℕ)) (single : ¬ call.FreqOfAll) :
    settings.setTable call = .ok (settings.effective [call]) := by
  cases call with
  | SetGroupEnableMask unit groupMask =>
    rw [setTable, effective, overwrite_writes groupMask? rfl, lastWrite_other num_samples? rfl,
      lastWrite_other ts_freq_hz? rfl]
    rfl
  | SetNumSamples unit num_samples =>
    rw [setTable, effective, overwrite_writes num_samples? rfl, lastWrite_other groupMask? rfl,
      lastWrite_other ts_freq_hz? rfl]
    rfl
  | SetTsFreq unit ts_freq_hz =>
    have inside : 0 ≤ unit := Int.not_lt.mp fun all => single ⟨rfl, all⟩
    obtain ⟨i, rfl⟩ := Int.eq_ofNat_of_zero_le inside
    change (i : ℤ) < settings.fNumModules at inUse
    have stored := SetTsFreq_unit (i := ⟨i, by omega⟩) inUse ts_freq_hz
    rw [setTable]
    refine stored.trans ?_
    rw [effective, overwrite_writes ts_freq_hz? rfl, lastWrite_other groupMask? rfl,
      lastWrite_other num_samples? rfl]
    congr 2
    funext k
    have same : (TableCall.SetTsFreq i ts_freq_hz).Addresses settings.fNumModules k ↔
        k = ⟨i, by omega⟩ := by
      rw [Addresses, Fin.ext_iff, TableCall.unit]
      constructor
      · rintro ⟨-, here | all⟩
        · exact Int.ofNat_inj.mp here
        · omega
      · intro here
        exact ⟨here ▸ inUse, .inl (Int.ofNat_inj.mpr here)⟩
    rw [Function.update_apply]
    exact (if_congr same rfl rfl).symm

/-- Calls for units in use do what they say exactly when no frequency is set for all units. -/
theorem setTables_effective_iff {settings start : Settings} {num_modules : ℤ}
    (counted : settings.SetNumModules num_modules = .ok start) (calls : List TableCall)
    (inUse : ∀ call ∈ calls, call.unit < num_modules) :
    start.setTables calls = .ok (start.effective calls) ↔ ∀ call ∈ calls, ¬ call.FreqOfAll := by
  rw [SetNumModules] at counted
  split_ifs at counted with inside
  obtain ⟨positive, few⟩ := inside
  have number : start.fNumModules = num_modules := by
    cases counted
    rfl
  clear counted
  induction calls generalizing start with
  | nil => exact ⟨fun _ call member => absurd member List.not_mem_nil, fun _ => rfl⟩
  | cons call calls ih =>
    obtain ⟨here, later⟩ := List.forall_mem_cons.mp inUse
    rw [List.forall_mem_cons, effective_cons]
    change (start.setTable call >>= fun next => next.setTables calls) = _ ↔ _
    by_cases all : call.FreqOfAll
    · obtain ⟨freq, negative⟩ := all
      cases call with
      | SetTsFreq unit ts_freq_hz =>
        have failed : start.setTable (.SetTsFreq unit ts_freq_hz) = .error (.fFreq unit) :=
          SetTsFreq_all (number ▸ positive) negative ts_freq_hz
        rw [failed, Except.error_bind]
        constructor
        · intro run
          cases run
        · intro none
          exact absurd ⟨freq, negative⟩ none.1
      | SetGroupEnableMask => cases freq
      | SetNumSamples => cases freq
    · have done := setTable_effective (number ▸ here) (number ▸ few) all
      rw [done, Except.ok_bind, and_iff_right all]
      exact ih later number

/-- Two units, one of which gets its own numbers. -/
theorem setTables_effective_iff_twoUnits :
    (∃ start, Settings.initial.SetNumModules 2 = .ok start ∧
      start.setTables [.SetGroupEnableMask (-1) 1, .SetNumSamples 1 500, .SetTsFreq 1 20000000] =
        .ok (start.effective [.SetGroupEnableMask (-1) 1, .SetNumSamples 1 500,
          .SetTsFreq 1 20000000])) := by
  have counted : Settings.initial.SetNumModules 2 = .ok _ := rfl
  refine ⟨_, counted, (setTables_effective_iff counted _ ?_).mpr ?_⟩
  · decide
  · rintro call member ⟨freq, negative⟩
    simp only [List.mem_cons, List.not_mem_nil, or_false] at member
    rcases member with rfl | rfl | rfl
    · cases freq
    · cases freq
    · exact absurd negative (by decide)

/-- A frequency for all of two units: the store goes in front of the table. -/
theorem freqOfAll_not_effective :
    ¬ ∀ (settings start : Settings) (num_modules : ℤ), settings.SetNumModules num_modules = .ok start →
      ∀ calls : List TableCall, (∀ call ∈ calls, call.unit < num_modules) →
        start.setTables calls = .ok (start.effective calls) := by
  intro claim
  have run := claim .initial _ 2 rfl [.SetTsFreq (-1) 50000000] (by decide)
  have failed := @SetTsFreq_all { Settings.initial with fNumModules := 2, fModulesMask := 3 } (-1)
    (by decide) (by decide)
    50000000
  cases failed.symm.trans run

end Settings

end PtfConverter.VF48
