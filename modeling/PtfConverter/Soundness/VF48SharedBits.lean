import PtfConverter.Soundness.VF48ParameterAccess

/-! # Two fields in one parameter

The divisor and the channel suppression read `MBIT2`, replace their own field, and write it back. When
the read gives the value of the group, no write differs from the group in another field. A read that
fails gives -1, which no caller tells from a value: the field is put into 0xFFFF and the rest of the
group is lost.
-/

namespace PtfConverter.VF48Vme

/-- Outside of the field the value is the one that the group had. -/
def ParameterAccess.changesOnly (field : BitVec 16) (access : ParameterAccess) : Prop :=
  (access.value ^^^ access.current) &&& ~~~field = 0

instance (field : BitVec 16) (access : ParameterAccess) : Decidable (access.changesOnly field) :=
  inferInstanceAs (Decidable (_ = _))

/-- A field of a value that was read is replaced. -/
theorem replace_field (current : BitVec 16) (field value : Word) (inField : value &&& ~~~field = 0) :
    ((((current.setWidth 32 &&& ~~~field) ||| value).setWidth 16 ^^^ current) &&&
      ~~~(field.setWidth 16)) = 0 := by
  ext i bound
  have bit : (value &&& ~~~field).getLsbD i = (0#32).getLsbD i := congrArg (·.getLsbD i) inField
  have small : i < 32 := by omega
  simp [small] at bit ⊢
  grind

theorem suppression_in_field (value : Word) : (value &&& 1) &&& ~~~(1 : Word) = 0 := by
  rw [BitVec.and_assoc, show (1 : Word) &&& ~~~1 = 0 by decide]
  exact BitVec.and_zero

theorem divisor_in_field (value : Word) (small : value.toNat < 256) :
    (value <<< 8) &&& ~~~(0xFF00 : Word) = 0 := by
  have mask : ∀ i : Fin 32, (~~~(0xFF00 : Word)).getLsbD i = decide (i.val < 8 ∨ 16 ≤ i.val) := by
    decide
  apply BitVec.eq_of_getLsbD_eq
  intro i bound
  have cut : 8 ≤ i - 8 → value.getLsbD (i - 8) = false := by
    intro past
    exact Nat.testBit_lt_two_pow (small.trans_le (Nat.pow_le_pow_right Nat.two_pos past))
  simp only [BitVec.getLsbD_and, BitVec.getLsbD_shiftLeft, mask ⟨i, bound⟩]
  grind

theorem updateMbit2_eq (module : Module) (grp : ℤ) (field value : Word) (valid : ValidGroup grp) :
    updateMbit2 module grp field value =
      (writeRetries grp VF48_MBIT2
        ((((ParameterRead module grp VF48_MBIT2).1 &&& ~~~field) ||| value) &&& 0xFFFF) 20
        (ParameterRead module grp VF48_MBIT2).2).2 := by
  have inRange : ¬(grp < 0 ∨ 6 ≤ grp) := by omega
  change (ParameterWrite _ grp VF48_MBIT2 _).2 = _
  rw [ParameterWrite, if_neg inRange]
  rfl

theorem updateMbit2_invalid (module : Module) (grp : ℤ) (field value : Word)
    (invalid : ¬ValidGroup grp) :
    OnlyRead module (updateMbit2 module grp field value) := by
  have outside : grp < 0 ∨ 6 ≤ grp := by omega
  change OnlyRead module (ParameterWrite _ grp VF48_MBIT2 _).2
  rw [ParameterWrite, if_pos outside]
  exact ParameterRead_onlyRead module grp

/-- The value that an update writes. -/
def updated (module : Module) (grp : ℤ) (field value : Word) : BitVec 16 :=
  (((ParameterRead module grp VF48_MBIT2).1 &&& ~~~field) ||| value).setWidth 16

theorem setWidth_low_half (value : Word) : (value &&& 0xFFFF).setWidth 16 = value.setWidth 16 := by
  rw [BitVec.setWidth_and, show (0xFFFF : Word).setWidth 16 = BitVec.allOnes 16 by decide]
  exact BitVec.and_allOnes

theorem updateMbit2_rewritten (module : Module) (grp : ℤ) (field value : Word)
    (valid : ValidGroup grp) :
    Rewritten grp.toNat (updated module grp field value) module
      (updateMbit2 module grp field value) := by
  have read := ParameterRead_onlyRead module grp
  rw [updateMbit2_eq module grp field value valid, updated, ← setWidth_low_half]
  exact (Rewritten.of_onlyRead read _ _).trans (writeRetries_rewritten _ grp _ 20 valid)

theorem updateMbit2_writes (module : Module) (grp : ℤ) (field value : Word) (valid : ValidGroup grp) :
    newWrites module (updateMbit2 module grp field value) ≠ [] := by
  have read := ParameterRead_onlyRead module grp
  have written := writeRetries_writes (ParameterRead module grp VF48_MBIT2).2 grp
    ((((ParameterRead module grp VF48_MBIT2).1 &&& ~~~field) ||| value) &&& 0xFFFF) 19 valid
  rw [newWrites, read.writes] at written
  rw [updateMbit2_eq module grp field value valid]
  exact written

/-- Where the module answers, an update changes its field only. -/
theorem updateMbit2_changesOnly (module : Module) (grp : ℤ) (field value : Word)
    (valid : ValidGroup grp) (answers : Answers module) (inField : value &&& ~~~field = 0) :
    ∀ access ∈ newWrites module (updateMbit2 module grp field value),
      access.changesOnly (field.setWidth 16) := by
  intro access mem
  obtain ⟨-, -, stored, current⟩ := (updateMbit2_rewritten module grp field value valid).new access mem
  rw [updated, ParameterRead_value, if_pos ⟨valid, answers⟩] at stored current
  rw [ParameterAccess.changesOnly, stored]
  rcases current with current | current
  · rw [current]
    exact replace_field _ field value inField
  · rw [current, BitVec.xor_self]
    exact BitVec.zero_and

/-- Each write of `vf48_ChSuppSet` is one of `MBIT2` of the group, which changes bit 0 only; there
is none when the parameter could not be read. -/
def SuppressionKept (module : Module) (grp : ℤ) (value : Word) : Prop :=
  (∀ access ∈ newWrites module (ChSuppSet module grp value).2,
    access.grp = grp.toNat ∧ access.param = VF48_MBIT2.toNat ∧ access.changesOnly 1) ∧
  ((ParameterRead module grp VF48_MBIT2).1 = VF48_ERR_PARM →
    newWrites module (ChSuppSet module grp value).2 = [])

instance (module : Module) (grp : ℤ) (value : Word) : Decidable (SuppressionKept module grp value) :=
  inferInstanceAs (Decidable (_ ∧ _))

theorem suppressionKept_iff (module : Module) (grp : ℤ) (value : Word) :
    SuppressionKept module grp value ↔ (ValidGroup grp → Answers module) := by
  rw [SuppressionKept, ChSuppSet]
  constructor
  · rintro ⟨-, silent⟩ valid
    by_contra lost
    have error : (ParameterRead module grp VF48_MBIT2).1 = VF48_ERR_PARM :=
      (ParameterRead_error_iff module grp).mpr fun both => lost both.2
    exact updateMbit2_writes module grp _ _ valid (silent error)
  · intro answers
    by_cases valid : ValidGroup grp
    · refine ⟨?_, ?_⟩
      · intro access mem
        obtain ⟨group, param, -⟩ := (updateMbit2_rewritten module grp _ _ valid).new access mem
        exact ⟨group, param, updateMbit2_changesOnly module grp 1 _ valid (answers valid)
          (suppression_in_field value) access mem⟩
      · intro error
        exact absurd ⟨valid, answers valid⟩ ((ParameterRead_error_iff module grp).mp error)
    · have none : newWrites module (updateMbit2 module grp 1 (value &&& 0x1)) = [] := by
        rw [newWrites, (updateMbit2_invalid module grp _ _ valid).writes, List.drop_length]
      rw [none]
      exact ⟨fun _ mem => absurd mem List.not_mem_nil, fun _ => rfl⟩

/-- The module when `vf48_DivisorWrite` comes to a group. -/
def turn (module : Module) (value : Word) (i : ℕ) : Module :=
  writeDivisors (module.read VF48_GRP_REG_RW).1 value (List.range i) (module.read VF48_GRP_REG_RW).2

/-- Whether `vf48_DivisorWrite` finds a group enabled. -/
def updates (module : Module) (i : ℕ) : Bool := groupEnabled (module.read VF48_GRP_REG_RW).1 i

theorem turn_succ (module : Module) (value : Word) (i : ℕ) :
    turn module value (i + 1) =
      if updates module i then
        updateMbit2 (turn module value i) i 0xFF00 (value <<< 8) else turn module value i := by
  rw [turn, writeDivisors, List.range_succ, List.foldl_append]
  rfl

theorem turn_step (module : Module) (value : Word) (i : ℕ) (group : i < 6) :
    (turn module value i).writes <+: (turn module value (i + 1)).writes := by
  rw [turn_succ]
  split
  · exact (updateMbit2_rewritten _ i _ _ (by omega)).grows
  · exact List.prefix_rfl

theorem turn_grows (module : Module) (value : Word) {i j : ℕ} (order : i ≤ j) (groups : j ≤ 6) :
    (turn module value i).writes <+: (turn module value j).writes := by
  induction j, order using Nat.le_induction with
  | base => exact List.prefix_rfl
  | succ j order ih => exact (ih (by omega)).trans (turn_step module value j (by omega))

theorem turn_keeps (module : Module) (value : Word) {j : ℕ} (groups : j ≤ 6) :
    module.writes <+: (turn module value j).writes := turn_grows module value (Nat.zero_le j) groups

theorem checkDivisors_onlyRead (grp value : Word) (groups : List ℕ) (module : Module) :
    OnlyRead module (checkDivisors grp value groups module).2 := by
  induction groups generalizing module with
  | nil => exact .refl module
  | cons i groups ih =>
    have read := ParameterRead_onlyRead module i
    rw [checkDivisors]
    split
    · change OnlyRead module (if (DivisorRead module i).1 ≠ value then _ else _ : Ended × Module).2
      split
      · exact read
      · exact read.trans (ih _)
    · exact ih _

/-- The value passes the assertions. -/
abbrev ValidDivisor (value : Word) : Prop := ¬(value = 0 ∨ 256 ≤ value.toNat)

theorem DivisorWrite_writes (module : Module) (value : Word) (valid : ValidDivisor value) :
    newWrites module (DivisorWrite module value).2 = newWrites module (turn module value 6) := by
  have check := checkDivisors_onlyRead (module.read VF48_GRP_REG_RW).1 value (List.range 6)
    (turn module value 6)
  rw [DivisorWrite, if_neg valid]
  exact congrArg (List.drop module.writes.length) check.writes

/-- Where each enabled group answers in its turn, the writes change the divisors only. -/
theorem turn_changesOnly (module : Module) (value : Word) (small : value.toNat < 256) (n : ℕ)
    (groups : n ≤ 6) (answers : ∀ i < n, updates module i → Answers (turn module value i)) :
    ∀ access ∈ newWrites module (turn module value n),
      access.param = VF48_MBIT2.toNat ∧ access.changesOnly 0xFF00 := by
  induction n with
  | zero =>
    intro access mem
    rw [show newWrites module (turn module value 0) = [] from newWrites_self _] at mem
    cases mem
  | succ n ih =>
    have earlier := ih (by omega) fun i bound => answers i (by omega)
    intro access mem
    rw [newWrites_trans (turn_keeps module value (by omega)) (turn_step module value n (by omega)),
      List.mem_append] at mem
    rcases mem with mem | mem
    · exact earlier access mem
    · rw [turn_succ] at mem
      split at mem
      · rename_i enabled
        have group : ValidGroup n := by omega
        exact ⟨((updateMbit2_rewritten _ n _ _ group).new access mem).2.1,
          updateMbit2_changesOnly _ n 0xFF00 _ group (answers n (by omega) enabled)
            (divisor_in_field value small)
            access mem⟩
      · rw [newWrites_self] at mem
        cases mem

/-- Each write of `vf48_DivisorWrite` is one of `MBIT2`, which changes the bits 8 to 15 only; there
is none to a group whose parameter could not be read in its turn. -/
def DivisorKept (module : Module) (value : Word) : Prop :=
  (∀ access ∈ newWrites module (DivisorWrite module value).2,
    access.param = VF48_MBIT2.toNat ∧ access.changesOnly 0xFF00) ∧
  ∀ i < 6, updates module i → (ParameterRead (turn module value i) i VF48_MBIT2).1 = VF48_ERR_PARM →
    ∀ access ∈ newWrites module (DivisorWrite module value).2, access.grp ≠ i

instance (module : Module) (value : Word) : Decidable (DivisorKept module value) :=
  inferInstanceAs (Decidable (_ ∧ _))

theorem divisorKept_iff (module : Module) (value : Word) :
    DivisorKept module value ↔
      (ValidDivisor value → ∀ i < 6, updates module i → Answers (turn module value i)) := by
  rw [DivisorKept]
  by_cases valid : ValidDivisor value
  · rw [DivisorWrite_writes module value valid]
    constructor
    · rintro ⟨-, silent⟩ - i bound enabled
      by_contra lost
      have error : (ParameterRead (turn module value i) i VF48_MBIT2).1 = VF48_ERR_PARM :=
        (ParameterRead_error_iff _ _).mpr fun both => lost both.2
      have group : ValidGroup i := by omega
      obtain ⟨access, mem⟩ := List.exists_mem_of_ne_nil _
        (updateMbit2_writes (turn module value i) i 0xFF00 (value <<< 8) group)
      have own := ((updateMbit2_rewritten (turn module value i) i _ _ group).new access mem).1
      -- What the turn writes is still there behind the last group.
      have step : updateMbit2 (turn module value i) i 0xFF00 (value <<< 8) =
          turn module value (i + 1) := by
        rw [turn_succ, if_pos enabled]
      rw [step] at mem
      refine silent i bound enabled error access ?_ own
      rw [newWrites_trans (turn_keeps module value bound) (turn_grows module value bound le_rfl),
        newWrites_trans (turn_keeps module value bound.le) (turn_step module value i bound)]
      exact List.mem_append_left _ (List.mem_append_right _ mem)
    · intro answers
      refine ⟨turn_changesOnly module value (by omega) 6 le_rfl (answers valid), ?_⟩
      intro i bound enabled error
      exact absurd ⟨by omega, answers valid i bound enabled⟩ ((ParameterRead_error_iff _ _).mp error)
  · have none : newWrites module (DivisorWrite module value).2 = [] := by
      rw [DivisorWrite, if_pos (not_not.mp valid)]
      exact newWrites_self module
    rw [none]
    exact ⟨fun _ ok => absurd ok valid,
      fun _ => ⟨fun _ mem => absurd mem List.not_mem_nil,
        fun _ _ _ _ _ mem => absurd mem List.not_mem_nil⟩⟩

/-- The updates of `MBIT2` keep the other fields, and write nothing that could not be read, exactly
when the module answers each read of the parameter. -/
theorem mbit2_kept_iff (module : Module) (grp : ℤ) (value : Word) :
    (SuppressionKept module grp value ↔ (ValidGroup grp → Answers module)) ∧
      (DivisorKept module value ↔
        (ValidDivisor value → ∀ i < 6, updates module i → Answers (turn module value i))) :=
  ⟨suppressionKept_iff module grp value, divisorKept_iff module value⟩

/-- A group with the divisor 5, and a module that never says that data are ready. -/
def neverReady : Module where
  parameter _ _ := 0x0500
  selected := 0
  answers _ := 0x1
  arrives _ := true
  reads := 0
  writes := []

/-- The suppression of a group is set, and its divisor becomes 255. -/
theorem mbit2_lost :
    (ParameterRead neverReady 0 VF48_MBIT2).1 = VF48_ERR_PARM ∧
      newWrites neverReady (ChSuppSet neverReady 0 1).2 = [⟨0, 11, 0xFFFF, 0x0500⟩] ∧
        ¬SuppressionKept neverReady 0 1 ∧ ¬DivisorKept neverReady 2 := by
  decide +kernel

end PtfConverter.VF48Vme
