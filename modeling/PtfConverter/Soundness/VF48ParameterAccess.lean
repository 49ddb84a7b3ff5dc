import Mathlib.Tactic.IntervalCases
import PtfConverter.Model.VF48Parameters

/-! # Reads and writes of the parameters

A read gives the value of the group when the module is present and says in one of the retries that
the data are ready, and the error code otherwise. A write stores its value at least once, and touches
no other parameter; where it says that it succeeded, the parameter has the value.
-/

namespace PtfConverter.VF48Vme

/-- The data register gives the parameter in its low half. -/
theorem low_half (answer : Word) (value : BitVec 16) :
    ((answer &&& 0xFFFF0000) ||| value.setWidth 32) &&& 0xFFFF = value.setWidth 32 := by
  have high : ∀ i : Fin 32, (0xFFFF0000 : Word).getLsbD i = decide (16 ≤ i.val) := by decide
  have low : ∀ i : Fin 32, (0xFFFF : Word).getLsbD i = decide (i.val < 16) := by decide
  apply BitVec.eq_of_getLsbD_eq
  intro i bound
  simp only [BitVec.getLsbD_and, BitVec.getLsbD_or, BitVec.getLsbD_setWidth, high ⟨i, bound⟩,
    low ⟨i, bound⟩]
  grind

/-- What fits into half a word is not the error code. -/
theorem setWidth_ne_error (value : BitVec 16) : value.setWidth 32 ≠ VF48_ERR_PARM := by
  intro equal
  have number := congrArg BitVec.toNat equal
  have small := value.isLt
  rw [BitVec.toNat_setWidth_of_le (by decide),
    show VF48_ERR_PARM.toNat = 4294967295 by decide] at number
  omega

/-- Only the identifier register and the number of the reads have changed. -/
structure OnlyRead (before after : Module) : Prop where
  parameter : after.parameter = before.parameter
  answers : after.answers = before.answers
  writes : after.writes = before.writes

theorem OnlyRead.refl (module : Module) : OnlyRead module module := ⟨rfl, rfl, rfl⟩

theorem OnlyRead.trans {first second third : Module} (early : OnlyRead first second)
    (late : OnlyRead second third) :
    OnlyRead first third :=
  ⟨late.parameter.trans early.parameter, late.answers.trans early.answers,
    late.writes.trans early.writes⟩

theorem OnlyRead.read (module : Module) (reg : ℕ) : OnlyRead module (module.read reg).2 :=
  ⟨rfl, rfl, rfl⟩

@[simp] theorem read_reads (module : Module) (reg : ℕ) :
    (module.read reg).2.reads = module.reads + 1 :=
  rfl

/-- The module has data in one of ten polls, the first of which is a given read. -/
def Ready (module : Module) (first : ℕ) : Prop :=
  ∃ poll < 10, module.answers (first + poll) &&& VF48_CSR_PARM_DATA_RDY ≠ 0

/-- The module is there, and has data in one of the twenty retries. -/
def Answers (module : Module) : Prop :=
  module.answers module.reads ≠ 0xFFFFFFFF ∧ module.answers (module.reads + 1) ≠ 0xFFFFFFFF ∧
    ∃ retry < 20, Ready module (module.reads + 2 + 12 * retry + 2)

instance (module : Module) (first : ℕ) : Decidable (Ready module first) :=
  inferInstanceAs (Decidable (∃ poll < 10, _))

instance (module : Module) : Decidable (Answers module) := inferInstanceAs (Decidable (_ ∧ _ ∧ _))

theorem waitReady_succ (tries : ℕ) (csr : Word) (module : Module) :
    waitReady (tries + 1) csr module =
      if module.answers module.reads &&& VF48_CSR_PARM_DATA_RDY ≠ 0 then
        (module.answers module.reads, (module.read VF48_CSR_REG_RW).2)
      else waitReady tries (module.answers module.reads) (module.read VF48_CSR_REG_RW).2 := rfl

theorem waitReady_onlyRead (tries : ℕ) (csr : Word) (module : Module) :
    OnlyRead module (waitReady tries csr module).2 := by
  induction tries generalizing csr module with
  | zero => exact .refl module
  | succ tries ih =>
    have first := OnlyRead.read module VF48_CSR_REG_RW
    rw [waitReady_succ]
    split
    · exact first
    · exact first.trans (ih _ _)

theorem waitReady_ready (tries : ℕ) (csr : Word) (module : Module)
    (ready : ∃ poll < tries, module.answers (module.reads + poll) &&& VF48_CSR_PARM_DATA_RDY ≠ 0) :
    (waitReady tries csr module).1 &&& VF48_CSR_PARM_DATA_RDY ≠ 0 := by
  induction tries generalizing csr module with
  | zero => obtain ⟨poll, bound, -⟩ := ready; omega
  | succ tries ih =>
    rw [waitReady_succ]
    split
    · assumption
    · rename_i busy
      obtain ⟨poll, bound, there⟩ := ready
      apply ih
      cases poll with
      | zero => exact absurd there busy
      | succ poll =>
        refine ⟨poll, by omega, ?_⟩
        rw [read_reads, Nat.add_right_comm]
        exact there

theorem waitReady_busy (tries : ℕ) (csr : Word) (module : Module)
    (start : csr &&& VF48_CSR_PARM_DATA_RDY = 0)
    (busy : ¬∃ poll < tries, module.answers (module.reads + poll) &&& VF48_CSR_PARM_DATA_RDY ≠ 0) :
    (waitReady tries csr module).1 &&& VF48_CSR_PARM_DATA_RDY = 0 ∧
      (waitReady tries csr module).2.reads = module.reads + tries := by
  induction tries generalizing csr module with
  | zero => exact ⟨start, rfl⟩
  | succ tries ih =>
    have now : module.answers module.reads &&& VF48_CSR_PARM_DATA_RDY = 0 := by
      by_contra there
      exact busy ⟨0, by omega, there⟩
    rw [waitReady_succ]
    simp only [now, ne_eq, not_true_eq_false, if_false]
    have later := ih (module.answers module.reads) (module.read VF48_CSR_REG_RW).2 now (by
      rintro ⟨poll, bound, there⟩
      refine busy ⟨poll + 1, by omega, ?_⟩
      rw [read_reads, Nat.add_right_comm] at there
      exact there)
    rw [read_reads] at later
    exact ⟨later.1, by omega⟩

/-- A group of the module, as the driver takes it. -/
abbrev ValidGroup (grp : ℤ) : Prop := 0 ≤ grp ∧ grp < 6

/-- A number that the identifier of a parameter has room for. -/
abbrev ValidParam (param : Word) : Prop := param.toNat < 64

/-- The identifier is written for a read, and the data register, which has no effect then. -/
def asked (module : Module) (grp : ℤ) (param : Word) : Module :=
  ((((module.write VF48_PARAM_ID_W (VF48_PARMA_BIT_RD ||| parameterId grp param)).read
    VF48_CSR_REG_RW).2.write
    VF48_PARAM_DATA_RW 0xFFFFFFFF).read VF48_CSR_REG_RW).2

/-- The identifier of a read asks, whatever the parameter is. -/
theorem readId_asks (grp : ℤ) (param : Word) :
    (VF48_PARMA_BIT_RD ||| parameterId grp param) &&& VF48_PARMA_BIT_RD ≠ 0 := by
  intro none
  have bit : ((VF48_PARMA_BIT_RD ||| parameterId grp param) &&& VF48_PARMA_BIT_RD).getLsbD 7 =
      false := by
    rw [none]
    rfl
  rw [BitVec.getLsbD_and, BitVec.getLsbD_or, show VF48_PARMA_BIT_RD.getLsbD 7 = true by decide] at bit
  simp at bit

/-- The fields of an identifier do not overlap. -/
theorem id_fields (param : BitVec 6) (grp : Fin 6) :
    parameterId grp.val (param.setWidth 32) &&& VF48_PARMA_BIT_RD = 0 ∧
      ((parameterId grp.val (param.setWidth 32) >>> VF48_GRP_OFFSET) &&& 0xF).toNat = grp.val ∧
      (parameterId grp.val (param.setWidth 32) &&& 0x3F).toNat = param.toNat ∧
      (((VF48_PARMA_BIT_RD ||| parameterId grp.val (param.setWidth 32)) >>> VF48_GRP_OFFSET) &&&
        0xF).toNat = grp.val ∧
      ((VF48_PARMA_BIT_RD ||| parameterId grp.val (param.setWidth 32)) &&& 0x3F).toNat =
        param.toNat := by
  revert param grp
  decide +kernel

theorem ValidParam.toNat_setWidth {param : Word} (named : ValidParam param) :
    (param.setWidth 6).toNat = param.toNat := by
  have small : param.toNat < 2 ^ 6 := named
  rw [BitVec.toNat_setWidth, Nat.mod_eq_of_lt small]

theorem ValidParam.setWidth {param : Word} (named : ValidParam param) :
    (param.setWidth 6).setWidth 32 = param := by
  apply BitVec.eq_of_toNat_eq
  rw [BitVec.toNat_setWidth_of_le (by decide), named.toNat_setWidth]

/-- What the identifiers of a write and of a read select. -/
theorem selects (grp : ℤ) (param : Word) (valid : ValidGroup grp) (named : ValidParam param) :
    parameterId grp param &&& VF48_PARMA_BIT_RD = 0 ∧
      ((parameterId grp param >>> VF48_GRP_OFFSET) &&& 0xF).toNat = grp.toNat ∧
      (parameterId grp param &&& 0x3F).toNat = param.toNat ∧
      (((VF48_PARMA_BIT_RD ||| parameterId grp param) >>> VF48_GRP_OFFSET) &&& 0xF).toNat = grp.toNat ∧
      ((VF48_PARMA_BIT_RD ||| parameterId grp param) &&& 0x3F).toNat = param.toNat := by
  have fields := id_fields (param.setWidth 6) ⟨grp.toNat, by omega⟩
  rwa [named.setWidth, named.toNat_setWidth, Int.toNat_of_nonneg valid.1] at fields

@[simp] theorem write_id (module : Module) (value : Word) :
    module.write VF48_PARAM_ID_W value = { module with selected := value } := rfl

theorem write_data_asked (module : Module) (value : Word)
    (asks : module.selected &&& VF48_PARMA_BIT_RD ≠ 0) :
    module.write VF48_PARAM_DATA_RW value = module := by
  rw [Module.write, if_neg (by decide), if_pos rfl, if_neg asks]

theorem write_data_selected (module : Module) (value : Word)
    (selects : module.selected &&& VF48_PARMA_BIT_RD = 0) :
    module.write VF48_PARAM_DATA_RW value = module.store (value.setWidth 16) := by
  rw [Module.write, if_neg (by decide), if_pos rfl, if_pos selects]

theorem asked_eq (module : Module) (grp : ℤ) (param : Word) :
    asked module grp param = { module with
      selected := VF48_PARMA_BIT_RD ||| parameterId grp param
      reads := module.reads + 2 } := by
  rw [asked, write_data_asked _ _ (readId_asks grp param)]
  rfl

theorem asked_selected (module : Module) (grp : ℤ) (param : Word) (valid : ValidGroup grp)
    (named : ValidParam param) :
    (asked module grp param).selectedGroup = grp.toNat ∧
      (asked module grp param).selectedParam = param.toNat := by
  rw [asked_eq module grp param]
  exact (selects grp param valid named).2.2.2

theorem asked_onlyRead (module : Module) (grp : ℤ) (param : Word) :
    OnlyRead module (asked module grp param) := by
  rw [asked_eq module grp param]
  exact ⟨rfl, rfl, rfl⟩

theorem waitReady_selected (tries : ℕ) (csr : Word) (module : Module) :
    (waitReady tries csr module).2.selected = module.selected := by
  induction tries generalizing csr module with
  | zero => rfl
  | succ tries ih =>
    rw [waitReady_succ]
    split
    · rfl
    · exact ih _ _

/-- The last status before the polls, and the polls. -/
def polled (module : Module) (grp : ℤ) (param : Word) : Word × Module :=
  waitReady 10 (module.answers (module.reads + 1)) (asked module grp param)

theorem readRetries_succ (module : Module) (grp : ℤ) (param : Word) (retry : ℕ) :
    readRetries grp param (retry + 1) module =
      if (polled module grp param).1 &&& VF48_CSR_PARM_DATA_RDY = 0 then
        readRetries grp param retry (polled module grp param).2
      else
        (((polled module grp param).2.read VF48_PARAM_DATA_RW).1 &&& 0xFFFF,
          (((polled module grp param).2.read VF48_PARAM_DATA_RW).2.read VF48_CSR_REG_RW).2) := by
  have status : ((((module.write VF48_PARAM_ID_W (VF48_PARMA_BIT_RD ||| parameterId grp param)).read
      VF48_CSR_REG_RW).2.write VF48_PARAM_DATA_RW 0xFFFFFFFF).read VF48_CSR_REG_RW).1 =
        module.answers (module.reads + 1) := by
    rw [write_data_asked _ _ (readId_asks grp param)]
    rfl
  rw [polled, ← status]
  rfl

theorem polled_onlyRead (module : Module) (grp : ℤ) (param : Word) :
    OnlyRead module (polled module grp param).2 :=
  (asked_onlyRead module grp param).trans (waitReady_onlyRead 10 _ _)

theorem polled_ready (module : Module) (grp : ℤ) (param : Word)
    (ready : Ready module (module.reads + 2)) :
    (polled module grp param).1 &&& VF48_CSR_PARM_DATA_RDY ≠ 0 := by
  apply waitReady_ready
  rw [asked_eq module grp param]
  exact ready

/-- A status before the polls is not looked at: the first poll replaces it. -/
theorem waitReady_start (tries : ℕ) (csr start : Word) (module : Module) :
    waitReady (tries + 1) csr module = waitReady (tries + 1) start module := rfl

theorem polled_busy (module : Module) (grp : ℤ) (param : Word)
    (busy : ¬Ready module (module.reads + 2)) :
    (polled module grp param).1 &&& VF48_CSR_PARM_DATA_RDY = 0 ∧
      (polled module grp param).2.reads = module.reads + 12 := by
  have late := waitReady_busy 10 0 (asked module grp param) rfl
    (by rw [asked_eq module grp param]; exact busy)
  rw [polled, waitReady_start 9 _ 0]
  refine ⟨late.1, late.2.trans ?_⟩
  rw [asked_eq module grp param]

/-- What the data register gives is the parameter of the group. -/
theorem polled_data (module : Module) (grp : ℤ) (param : Word) (valid : ValidGroup grp)
    (named : ValidParam param) :
    ((polled module grp param).2.read VF48_PARAM_DATA_RW).1 &&& 0xFFFF =
      (module.parameter grp.toNat param.toNat).setWidth 32 := by
  have selected := waitReady_selected 10 (module.answers (module.reads + 1)) (asked module grp param)
  have place := asked_selected module grp param valid named
  have group : (polled module grp param).2.selectedGroup = grp.toNat := by
    rw [← place.1, Module.selectedGroup, Module.selectedGroup, polled, selected]
  have number : (polled module grp param).2.selectedParam = param.toNat := by
    rw [← place.2, Module.selectedParam, Module.selectedParam, polled, selected]
  rw [Module.read, if_pos rfl, low_half, group, number, (polled_onlyRead module grp param).parameter]

theorem readRetries_onlyRead (module : Module) (grp : ℤ) (param : Word) (retries : ℕ) :
    OnlyRead module (readRetries grp param retries module).2 := by
  induction retries generalizing module with
  | zero => exact .refl module
  | succ retries ih =>
    have polls := polled_onlyRead module grp param
    rw [readRetries_succ]
    split
    · exact polls.trans (ih _)
    · exact (polls.trans (.read _ VF48_PARAM_DATA_RW)).trans (.read _ VF48_CSR_REG_RW)

theorem readRetries_value (module : Module) (grp : ℤ) (param : Word) (retries : ℕ)
    (valid : ValidGroup grp) (named : ValidParam param) :
    (readRetries grp param retries module).1 =
      if ∃ retry < retries, Ready module (module.reads + 12 * retry + 2) then
        (module.parameter grp.toNat param.toNat).setWidth 32
      else VF48_ERR_PARM := by
  induction retries generalizing module with
  | zero => exact (if_neg fun ⟨_, bound, _⟩ => absurd bound (Nat.not_lt_zero _)).symm
  | succ retries ih =>
    rw [readRetries_succ]
    by_cases ready : Ready module (module.reads + 2)
    · rw [if_neg (polled_ready module grp param ready), if_pos ⟨0, by omega, ready⟩]
      exact polled_data module grp param valid named
    · obtain ⟨status, reads⟩ := polled_busy module grp param ready
      have same := polled_onlyRead module grp param
      rw [if_pos status, ih, same.parameter]
      congr 1
      apply propext
      -- The first retry is over, and each poll of the others is twelve reads further.
      constructor
      · rintro ⟨retry, bound, poll, few, there⟩
        refine ⟨retry + 1, by omega, poll, few, ?_⟩
        rwa [same.answers, reads,
          show module.reads + 12 + 12 * retry = module.reads + 12 * (retry + 1) by omega] at there
      · rintro ⟨retry, bound, there⟩
        cases retry with
        | zero => exact absurd there ready
        | succ retry =>
          obtain ⟨poll, few, there⟩ := there
          refine ⟨retry, by omega, poll, few, ?_⟩
          rwa [same.answers, reads,
            show module.reads + 12 + 12 * retry = module.reads + 12 * (retry + 1) by omega]

theorem isPresent_eq (module : Module) :
    isPresent module = (module.answers module.reads != 0xFFFFFFFF && module.answers
      (module.reads + 1) != 0xFFFFFFFF,
      { module with reads := module.reads + 2 }) := rfl

theorem ParameterRead_eq (module : Module) (grp : ℤ) (param : Word) :
    ParameterRead module grp param =
      if !(isPresent module).1 then (VF48_ERR_PARM, (isPresent module).2)
      else if grp < 0 ∨ 6 ≤ grp then (VF48_ERR_PARM, (isPresent module).2)
      else readRetries grp param 20 (isPresent module).2 := rfl

/-- A read writes nothing. -/
theorem ParameterRead_reads (module : Module) (grp : ℤ) (param : Word) :
    OnlyRead module (ParameterRead module grp param).2 := by
  have start : OnlyRead module (isPresent module).2 := ⟨rfl, rfl, rfl⟩
  rw [ParameterRead_eq]
  split
  · exact start
  · split
    · exact start
    · exact start.trans (readRetries_onlyRead _ grp param 20)

/-- A read gives the value of the group, or the error code where the module does not answer. -/
theorem ParameterRead_gives (module : Module) (grp : ℤ) (param : Word) (named : ValidParam param) :
    (ParameterRead module grp param).1 =
      if ValidGroup grp ∧ Answers module then (module.parameter grp.toNat param.toNat).setWidth 32
      else VF48_ERR_PARM := by
  rw [ParameterRead_eq, isPresent_eq]
  by_cases absent : module.answers module.reads = 0xFFFFFFFF ∨
    module.answers (module.reads + 1) = 0xFFFFFFFF
  · rw [if_pos (by simpa only [Bool.not_and, bne, Bool.not_not, Bool.or_eq_true, beq_iff_eq] using absent),
      if_neg]
    rintro ⟨-, first, second, -⟩
    exact absent.elim first second
  · rw [if_neg (by simpa only [Bool.not_and, bne, Bool.not_not, Bool.or_eq_true,
      beq_iff_eq] using absent)]
    obtain ⟨first, second⟩ := not_or.mp absent
    by_cases valid : ValidGroup grp
    · rw [if_neg (by omega), readRetries_value _ grp param 20 valid named]
      congr 1
      exact propext ⟨fun ready => ⟨valid, first, second, ready⟩, fun answers => answers.2.2.2⟩
    · rw [if_pos (by omega), if_neg fun both => valid both.1]

theorem ParameterRead_fails_iff (module : Module) (grp : ℤ) (param : Word) (named : ValidParam param) :
    (ParameterRead module grp param).1 = VF48_ERR_PARM ↔ ¬(ValidGroup grp ∧ Answers module) := by
  rw [ParameterRead_gives module grp param named]
  split <;> simp [*, setWidth_ne_error]

theorem mbit2_named : ValidParam VF48_MBIT2 := by decide

theorem ParameterRead_onlyRead (module : Module) (grp : ℤ) :
    OnlyRead module (ParameterRead module grp VF48_MBIT2).2 := ParameterRead_reads module grp VF48_MBIT2

theorem ParameterRead_value (module : Module) (grp : ℤ) :
    (ParameterRead module grp VF48_MBIT2).1 =
      if ValidGroup grp ∧ Answers module then
        (module.parameter grp.toNat 11).setWidth 32 else VF48_ERR_PARM :=
  ParameterRead_gives module grp VF48_MBIT2 mbit2_named

theorem ParameterRead_error_iff (module : Module) (grp : ℤ) :
    (ParameterRead module grp VF48_MBIT2).1 = VF48_ERR_PARM ↔ ¬(ValidGroup grp ∧ Answers module) :=
  ParameterRead_fails_iff module grp VF48_MBIT2 mbit2_named

/-- The writes of a call, in order. -/
def newWrites (before after : Module) : List ParameterAccess := after.writes.drop before.writes.length

theorem newWrites_self (module : Module) : newWrites module module = [] := List.drop_length

theorem newWrites_trans {first second third : Module} (early : first.writes <+: second.writes)
    (late : second.writes <+: third.writes) :
    newWrites first third = newWrites first second ++ newWrites second third := by
  obtain ⟨added, second_eq⟩ := early
  obtain ⟨more, third_eq⟩ := late
  simp [newWrites, ← third_eq, ← second_eq]

/-- The identifier is written for a write, and the value. -/
def stored (module : Module) (grp : ℤ) (param value : Word) : Module :=
  ((((module.write VF48_PARAM_ID_W (parameterId grp param)).read VF48_CSR_REG_RW).2.write
    VF48_PARAM_DATA_RW value).read VF48_CSR_REG_RW).2

section
variable (module : Module) (grp : ℤ) (param value : Word) (valid : ValidGroup grp)
  (named : ValidParam param)
include valid named

theorem stored_eq :
    stored module grp param value =
      ((((module.write VF48_PARAM_ID_W (parameterId grp param)).read VF48_CSR_REG_RW).2.store
        (value.setWidth 16)).read VF48_CSR_REG_RW).2 := by
  rw [stored, write_data_selected _ _ (selects grp param valid named).1]

theorem stored_writes :
    (stored module grp param value).writes =
      module.writes ++ [⟨grp.toNat, param.toNat, value.setWidth 16,
        module.parameter grp.toNat param.toNat⟩] := by
  obtain ⟨-, group, number, -⟩ := selects grp param valid named
  rw [stored_eq module grp param value valid named]
  conv_rhs => rw [← group, ← number]
  rfl

theorem stored_parameter :
    (stored module grp param value).parameter =
      if module.arrives module.writes.length then
        Function.update module.parameter grp.toNat
          (Function.update (module.parameter grp.toNat) param.toNat (value.setWidth 16))
      else module.parameter := by
  obtain ⟨-, group, number, -⟩ := selects grp param valid named
  rw [stored_eq module grp param value valid named]
  conv_rhs => rw [← group, ← number]
  rfl

end

theorem writeRetries_succ (module : Module) (grp : ℤ) (param value : Word) (retries : ℕ) :
    writeRetries grp param value (retries + 1) module =
      if (ParameterRead (stored module grp param value) grp param).1 = VF48_ERR_PARM then
        (VF48_ERR_PARM, (ParameterRead (stored module grp param value) grp param).2)
      else if (ParameterRead (stored module grp param value) grp param).1 = value then
        (VF48_SUCCESS, (ParameterRead (stored module grp param value) grp param).2)
      else writeRetries grp param value retries
        (ParameterRead (stored module grp param value) grp param).2 := rfl

/-- `MBIT2` of one group was written any number of times, with one value. -/
structure Rewritten (grp : ℕ) (value : BitVec 16) (before after : Module) : Prop where
  grows : before.writes <+: after.writes
  current : after.parameter grp 11 = before.parameter grp 11 ∨ after.parameter grp 11 = value
  new : ∀ access ∈ newWrites before after, access.grp = grp ∧ access.param = 11 ∧ access.value = value ∧
    (access.current = before.parameter grp 11 ∨ access.current = value)

theorem Rewritten.of_onlyRead {before after : Module} (same : OnlyRead before after) (grp : ℕ)
    (value : BitVec 16) :
    Rewritten grp value before after where
  grows := by rw [same.writes]
  current := .inl (by rw [same.parameter])
  new access mem := by
    rw [newWrites, same.writes, List.drop_length] at mem
    cases mem

theorem Rewritten.trans {grp : ℕ} {value : BitVec 16} {first second third : Module}
    (early : Rewritten grp value first second) (late : Rewritten grp value second third) :
    Rewritten grp value first third where
  grows := early.grows.trans late.grows
  current := by
    have before := early.current
    have after := late.current
    grind
  new access mem := by
    rw [newWrites_trans early.grows late.grows, List.mem_append] at mem
    have before := early.current
    rcases mem with mem | mem
    · exact early.new access mem
    · have new := late.new access mem
      grind

theorem stored_rewritten (module : Module) (grp : ℤ) (value : Word) (valid : ValidGroup grp) :
    Rewritten grp.toNat (value.setWidth 16) module (stored module grp VF48_MBIT2 value) where
  grows := by
    rw [stored_writes module grp VF48_MBIT2 value valid mbit2_named]
    exact List.prefix_append _ _
  current := by
    rw [stored_parameter module grp VF48_MBIT2 value valid mbit2_named]
    split
    · exact .inr (by rw [Function.update_self]; exact Function.update_self _ _ _)
    · exact .inl rfl
  new access mem := by
    rw [newWrites, stored_writes module grp VF48_MBIT2 value valid mbit2_named, List.drop_left,
      List.mem_singleton] at mem
    subst mem
    exact ⟨rfl, rfl, rfl, .inl rfl⟩

theorem writeRetries_rewritten (module : Module) (grp : ℤ) (value : Word) (retries : ℕ)
    (valid : ValidGroup grp) :
    Rewritten grp.toNat (value.setWidth 16) module
      (writeRetries grp VF48_MBIT2 value retries module).2 := by
  induction retries generalizing module with
  | zero => exact .of_onlyRead (.refl module) _ _
  | succ retries ih =>
    have once := (stored_rewritten module grp value valid).trans
      (.of_onlyRead (ParameterRead_onlyRead (stored module grp VF48_MBIT2 value) grp) _ _)
    rw [writeRetries_succ]
    split
    · exact once
    · split
      · exact once
      · exact once.trans (ih _)

/-- A write that is tried at all is made at least once. -/
theorem writeRetries_writes (module : Module) (grp : ℤ) (value : Word) (retries : ℕ)
    (valid : ValidGroup grp) :
    newWrites module (writeRetries grp VF48_MBIT2 value (retries + 1) module).2 ≠ [] := by
  have first := stored_writes module grp VF48_MBIT2 value valid mbit2_named
  have read := ParameterRead_onlyRead (stored module grp VF48_MBIT2 value) grp
  have grows : (stored module grp VF48_MBIT2 value).writes <+:
      (writeRetries grp VF48_MBIT2 value (retries + 1) module).2.writes := by
    rw [writeRetries_succ, ← read.writes]
    split
    · exact List.prefix_rfl
    · split
      · exact List.prefix_rfl
      · exact (writeRetries_rewritten _ grp value retries valid).grows
  intro none
  rw [newWrites, List.drop_eq_nil_iff] at none
  have length := grows.length_le
  rw [first, List.length_append, List.length_singleton] at length
  omega

end PtfConverter.VF48Vme
