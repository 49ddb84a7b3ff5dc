import PtfConverter.Soundness.VF48SharedBits

/-! # The parameters behind the calls of the driver

Writes may be lost and reads may fail, and most of the functions do not look at the status. Over any
calls the parameters of a module are still a store: a call changes none but those it is about, a
parameter has the value that it had or one that was written to it, and a write that was reported as a
success stays until the next call about the same parameter.
-/

namespace PtfConverter.VF48Vme

/-- The parameters, by group and number, that a call is about. -/
def Call.addresses (grp param : ℕ) : Call → Prop
  | .parameterRead _ _ => False
  | .parameterWrite g p _ => (grp : ℤ) = g ∧ param = p.toNat
  | .segmentSizeSet _ => param = VF48_SEGMENT_SIZE.toNat
  | .trgThresholdSet g _ => (grp : ℤ) = g ∧ param = VF48_TRIG_THRESHOLD.toNat
  | .hitThresholdSet g _ => (grp : ℤ) = g ∧ param = VF48_HIT_THRESHOLD.toNat
  | .activeChMaskSet g _ => (grp : ℤ) = g ∧ param = VF48_ACTIVE_CH_MASK.toNat
  | .rawDataSuppSet g _ => (grp : ℤ) = g ∧ param = VF48_MBIT1.toNat
  | .chSuppSet g _ => (grp : ℤ) = g ∧ param = VF48_MBIT2.toNat
  | .divisorWrite _ => param = VF48_MBIT2.toNat
  | .setup mode => mode = 3 ∧ param = VF48_SEGMENT_SIZE.toNat

/-- The identifier has room for the parameter that a call writes. -/
def Call.Named : Call → Prop
  | .parameterWrite _ param _ => ValidParam param
  | _ => True

/-- What may happen to the parameters: accesses are made to some of them only, and a parameter that
is not as before has the value of an access to it. -/
structure Stores (addressed : ℕ → ℕ → Prop) (before after : Module) : Prop where
  grows : before.writes <+: after.writes
  new : ∀ access ∈ newWrites before after, addressed access.grp access.param
  value : ∀ grp param, after.parameter grp param = before.parameter grp param ∨
    ∃ access ∈ newWrites before after,
      access.grp = grp ∧ access.param = param ∧ access.value = after.parameter grp param

namespace Stores

variable {addressed wider : ℕ → ℕ → Prop} {first second third : Module}

theorem of_onlyRead (same : OnlyRead first second) : Stores addressed first second where
  grows := by rw [same.writes]
  new access mem := by
    rw [newWrites, same.writes, List.drop_length] at mem
    cases mem
  value grp param := .inl (by rw [same.parameter])

theorem refl (module : Module) : Stores addressed module module := of_onlyRead (.refl module)

theorem trans (early : Stores addressed first second) (late : Stores addressed second third) :
    Stores addressed first third where
  grows := early.grows.trans late.grows
  new access mem := by
    rw [newWrites_trans early.grows late.grows, List.mem_append] at mem
    exact mem.elim (early.new access) (late.new access)
  value grp param := by
    rw [newWrites_trans early.grows late.grows]
    obtain same | ⟨access, mem, place⟩ := late.value grp param
    · rw [same]
      obtain same | ⟨access, mem, place⟩ := early.value grp param
      · exact .inl same
      · exact .inr ⟨access, List.mem_append_left _ mem, place⟩
    · exact .inr ⟨access, List.mem_append_right _ mem, place⟩

theorem mono (stores : Stores addressed first second)
    (within : ∀ grp param, addressed grp param → wider grp param) :
    Stores wider first second :=
  ⟨stores.grows, fun access mem => within _ _ (stores.new access mem), stores.value⟩

/-- A parameter that is not addressed has not changed. -/
theorem unaddressed (stores : Stores addressed first second) {grp param : ℕ}
    (other : ¬addressed grp param) :
    second.parameter grp param = first.parameter grp param := by
  obtain same | ⟨access, mem, rfl, rfl, -⟩ := stores.value grp param
  · exact same
  · exact absurd (stores.new access mem) other

/-- A loop over groups addresses what its turns address. -/
theorem foldl (turn : Module → ℕ → Module) (groups : List ℕ)
    (each : ∀ module, ∀ i ∈ groups, Stores addressed module (turn module i)) (module : Module) :
    Stores addressed module (groups.foldl turn module) := by
  induction groups generalizing module with
  | nil => exact .refl module
  | cons i groups ih =>
    rw [List.foldl_cons]
    apply (each module i List.mem_cons_self).trans
    exact ih (fun module j mem => each module j (List.mem_cons_of_mem _ mem)) _

end Stores

/-- The parameter that a write is about. -/
abbrev written (grp : ℤ) (param : Word) (g p : ℕ) : Prop := (g : ℤ) = grp ∧ p = param.toNat

theorem stored_stores (module : Module) (grp : ℤ) (param value : Word) (valid : ValidGroup grp)
    (named : ValidParam param) : Stores (written grp param) module (stored module grp param value) where
  grows := by
    rw [stored_writes module grp param value valid named]
    exact List.prefix_append _ _
  new access mem := by
    rw [newWrites, stored_writes module grp param value valid named, List.drop_left,
      List.mem_singleton] at mem
    subst mem
    exact ⟨Int.toNat_of_nonneg valid.1, rfl⟩
  value g p := by
    rw [newWrites, stored_writes module grp param value valid named, List.drop_left,
      stored_parameter module grp param value valid named]
    by_cases place : module.arrives module.writes.length ∧ g = grp.toNat ∧ p = param.toNat
    · obtain ⟨arrives, rfl, rfl⟩ := place
      refine .inr ⟨_, List.mem_singleton_self _, rfl, rfl, ?_⟩
      rw [if_pos arrives, Function.update_self, Function.update_self]
    · left
      split
      · by_cases group : g = grp.toNat
        · subst group
          rw [Function.update_self, Function.update_of_ne]
          rintro rfl
          exact place ⟨‹_›, rfl, rfl⟩
        · rw [Function.update_of_ne group]
      · rfl

theorem ParameterWrite_stores (module : Module) (grp : ℤ) (param value : Word)
    (named : ValidParam param) :
    Stores (written grp param) module (ParameterWrite module grp param value).2 := by
  rw [ParameterWrite]
  split
  · exact .refl module
  · rename_i valid
    generalize (20 : ℕ) = retries
    induction retries generalizing module with
    | zero => exact .refl module
    | succ retries ih =>
      have once : Stores (written grp param) module
          (ParameterRead (stored module grp param (truncated param value &&& 0xFFFF)) grp param).2 :=
        (stored_stores module grp param _ (by omega) named).trans
          (.of_onlyRead (ParameterRead_reads _ grp param))
      rw [writeRetries_succ]
      split
      · exact once
      · split
        · exact once
        · exact once.trans (ih _)

theorem updateMbit2_stores (module : Module) (grp : ℤ) (field value : Word) :
    Stores (written grp VF48_MBIT2) module (updateMbit2 module grp field value) := by
  have read := ParameterRead_reads module grp VF48_MBIT2
  exact (Stores.of_onlyRead read).trans (ParameterWrite_stores _ grp VF48_MBIT2 _ mbit2_named)

/-- The parameter that a call for all groups is about. -/
abbrev writtenAll (param : Word) (_ p : ℕ) : Prop := p = param.toNat

theorem writeDivisors_stores (grp value : Word) (groups : List ℕ) (module : Module) :
    Stores (writtenAll VF48_MBIT2) module (writeDivisors grp value groups module) := by
  apply Stores.foldl
  intro module i _
  split
  · exact (updateMbit2_stores module i 0xFF00 (value <<< 8)).mono fun _ _ place => place.2
  · exact .refl module

theorem DivisorWrite_stores (module : Module) (value : Word) :
    Stores (writtenAll VF48_MBIT2) module (DivisorWrite module value).2 := by
  rw [DivisorWrite]
  split
  · exact .refl module
  · have grpRead := OnlyRead.read module VF48_GRP_REG_RW
    have writes := writeDivisors_stores (module.read VF48_GRP_REG_RW).1 value (List.range 6)
      (module.read VF48_GRP_REG_RW).2
    exact ((Stores.of_onlyRead grpRead).trans writes).trans
      (.of_onlyRead (checkDivisors_onlyRead _ value _ _))

theorem writeAll_stores (param value : Word) (groups : List ℕ) (module : Module)
    (named : ValidParam param) :
    Stores (writtenAll param) module (writeAll param value groups module) := by
  refine Stores.foldl _ groups ?_ module
  intro module i _
  exact (ParameterWrite_stores module i param value named).mono fun _ _ place => place.2

theorem readAll_onlyRead (param : Word) (groups : List ℕ) (module : Module) :
    OnlyRead module (readAll param groups module) := by
  induction groups generalizing module with
  | nil => exact .refl module
  | cons i groups ih => exact (ParameterRead_reads module i param).trans (ih _)

/-- The trigger bits are not a parameter. -/
theorem ExtTrgSet_onlyRead (module : Module) : OnlyRead module (ExtTrgSet module).2 := ⟨rfl, rfl, rfl⟩

/-- The third mode writes the segment sizes, and prints them. -/
theorem segmentSizes_stores (module : Module) (groups : List ℕ) :
    Stores (writtenAll VF48_SEGMENT_SIZE) module
      (readAll VF48_SEGMENT_SIZE groups
        (writeAll VF48_SEGMENT_SIZE 16 groups (ExtTrgSet module).2)) := by
  have trigger : Stores (writtenAll VF48_SEGMENT_SIZE) module (ExtTrgSet module).2 :=
    .of_onlyRead (ExtTrgSet_onlyRead module)
  have writes := writeAll_stores VF48_SEGMENT_SIZE 16 groups (ExtTrgSet module).2 (by decide)
  exact (trigger.trans writes).trans (.of_onlyRead (readAll_onlyRead _ groups _))

theorem Setup_stores (module : Module) (mode : ℤ) :
    Stores (fun _ p => mode = 3 ∧ p = VF48_SEGMENT_SIZE.toNat) module (Setup module mode).2 := by
  rw [Setup]
  split
  · exact .refl module
  · split
    · exact .of_onlyRead (ExtTrgSet_onlyRead module)
    · split
      · rename_i third
        dsimp only
        exact (segmentSizes_stores module (List.range 6)).mono fun _ _ place => ⟨third, place⟩
      · exact .refl module

/-- A call changes none but the parameters that it is about. -/
theorem Call.run_stores (module : Module) (call : Call) (named : call.Named) :
    Stores (fun grp param => call.addresses grp param) module (call.run module).2 := by
  cases call with
  | parameterRead grp param => exact .of_onlyRead (ParameterRead_reads module grp param)
  | parameterWrite grp param value => exact ParameterWrite_stores module grp param value named
  | segmentSizeSet size =>
    rw [Call.run, SegmentSizeSet]
    split
    · exact .refl module
    · exact writeAll_stores VF48_SEGMENT_SIZE size _ module (by decide)
  | trgThresholdSet grp size =>
    exact ParameterWrite_stores module grp VF48_TRIG_THRESHOLD size (by decide)
  | hitThresholdSet grp size =>
    exact ParameterWrite_stores module grp VF48_HIT_THRESHOLD size (by decide)
  | activeChMaskSet grp size =>
    exact ParameterWrite_stores module grp VF48_ACTIVE_CH_MASK size (by decide)
  | rawDataSuppSet grp size => exact ParameterWrite_stores module grp VF48_MBIT1 size (by decide)
  | chSuppSet grp value => exact updateMbit2_stores module grp 1 (value &&& 0x1)
  | divisorWrite value => exact DivisorWrite_stores module value
  | setup mode => exact Setup_stores module mode

theorem runCalls_cons (module : Module) (call : Call) (calls : List Call) :
    runCalls (call :: calls) module =
      match call.run module with
      | (.returned _, module) => runCalls calls module
      | (_, module) => module := rfl

/-- Over any calls, only parameters that a call is about are written to the module, and each
parameter has the value that it had or one that was written to it. -/
theorem runCalls_stores (module : Module) (calls : List Call) (named : ∀ call ∈ calls, call.Named) :
    Stores (fun grp param => ∃ call ∈ calls, call.addresses grp param) module
      (runCalls calls module) := by
  induction calls generalizing module with
  | nil => exact .refl module
  | cons call calls ih =>
    have first : Stores (fun grp param => ∃ c ∈ call :: calls, c.addresses grp param) module
        (call.run module).2 :=
      (call.run_stores module (named call List.mem_cons_self)).mono fun _ _ place =>
        ⟨call, List.mem_cons_self, place⟩
    rw [runCalls_cons]
    split
    · rename_i value after ran
      rw [ran] at first
      apply first.trans
      apply (ih after fun c mem => named c (List.mem_cons_of_mem _ mem)).mono
      rintro grp param ⟨c, mem, place⟩
      exact ⟨c, List.mem_cons_of_mem _ mem, place⟩
    · rename_i ended after _ ran
      rw [ran] at first
      exact first

theorem error_ne_success : VF48_ERR_PARM ≠ VF48_SUCCESS := by decide

theorem writeRetries_success (module : Module) (grp : ℤ) (param value : Word) (retries : ℕ)
    (named : ValidParam param)
    (success : (writeRetries grp param value retries module).1 = VF48_SUCCESS) :
    ((writeRetries grp param value retries module).2.parameter grp.toNat param.toNat).setWidth 32 =
      value := by
  induction retries generalizing module with
  | zero => exact absurd success error_ne_success
  | succ retries ih =>
    rw [writeRetries_succ] at success ⊢
    split at success
    · exact absurd success error_ne_success
    · rename_i answered
      rw [if_neg answered]
      split at success
      · rename_i equal
        rw [if_pos equal, (ParameterRead_reads _ grp param).parameter]
        have gives := ParameterRead_gives (stored module grp param value) grp param named
        rw [if_pos (not_not.mp (mt (ParameterRead_fails_iff _ grp param named).mpr answered)),
          equal] at gives
        exact gives.symm
      · rename_i different
        rw [if_neg different]
        exact ih _ success

/-- The value that a write leaves, if it succeeds. -/
def kept (param value : Word) : Word := truncated param value &&& 0xFFFF

/-- A write that reports a success has left its value in the group. -/
theorem ParameterWrite_success (module : Module) (grp : ℤ) (param value : Word)
    (named : ValidParam param)
    (success : (ParameterWrite module grp param value).1 = VF48_SUCCESS) :
    ValidGroup grp ∧
      ((ParameterWrite module grp param value).2.parameter grp.toNat param.toNat).setWidth 32 =
        kept param value := by
  rw [ParameterWrite] at success ⊢
  split at success
  · exact absurd success error_ne_success
  · rename_i valid
    rw [if_neg valid]
    have group : ValidGroup grp := by omega
    exact ⟨group, writeRetries_success module grp param _ 20 named success⟩

/-- A write that reported a success stays over any calls about other parameters: a later read
gives its value, or fails. -/
theorem acknowledged_write_kept (module : Module) (grp : ℤ) (param value : Word)
    (later : List Call) (success : (ParameterWrite module grp param value).1 = VF48_SUCCESS)
    (named : ValidParam param) (laterNamed : ∀ call ∈ later, call.Named)
    (others : ∀ call ∈ later, ¬call.addresses grp.toNat param.toNat) :
    ((runCalls later (ParameterWrite module grp param value).2).parameter grp.toNat
        param.toNat).setWidth 32 =
        kept param value ∧
      ((ParameterRead (runCalls later (ParameterWrite module grp param value).2) grp param).1 =
        kept param value ∨
        (ParameterRead (runCalls later (ParameterWrite module grp param value).2) grp param).1 =
          VF48_ERR_PARM) := by
  obtain ⟨-, left⟩ := ParameterWrite_success module grp param value named success
  have stays : (runCalls later (ParameterWrite module grp param value).2).parameter grp.toNat
      param.toNat =
      (ParameterWrite module grp param value).2.parameter grp.toNat param.toNat :=
    (runCalls_stores (ParameterWrite module grp param value).2 later laterNamed).unaddressed
      fun ⟨call, mem, place⟩ => others call mem place
  have holds := (congrArg (BitVec.setWidth 32) stays).trans left
  refine ⟨holds, ?_⟩
  rw [ParameterRead_gives _ grp param named]
  split
  · exact .inl holds
  · exact .inr rfl

/-- A module that is always ready, and loses the first write. -/
def losesFirst : Module where
  parameter _ _ := 0x0500
  selected := 0
  answers _ := 0x24
  arrives write := write != 0
  reads := 0
  writes := []

theorem acknowledged_write_kept_second :
    ((runCalls [.trgThresholdSet 2 7, .chSuppSet 2 1, .divisorWrite 3]
      (ParameterWrite losesFirst 2 VF48_SEGMENT_SIZE 2000).2).parameter (2 : ℤ).toNat
        VF48_SEGMENT_SIZE.toNat).setWidth 32 = kept VF48_SEGMENT_SIZE 2000 :=
  (acknowledged_write_kept losesFirst 2 VF48_SEGMENT_SIZE 2000 [.trgThresholdSet 2 7,
    .chSuppSet 2 1, .divisorWrite 3]
    (by decide +kernel) (by decide) (by simp [Call.Named])
    (by simp [Call.addresses, VF48_SEGMENT_SIZE, VF48_TRIG_THRESHOLD, VF48_MBIT2])).1

/-- The divisor of a group. -/
def divisor (module : Module) (grp : ℕ) : ℕ := (module.parameter grp VF48_MBIT2.toNat).toNat / 256

theorem high_byte (parameter : BitVec 16) :
    (((parameter.setWidth 32).sshiftRight 8) &&& (0xff : Word)).toNat = parameter.toNat / 256 := by
  have small := parameter.isLt
  have positive : (parameter.setWidth 32).msb = false := by
    rw [BitVec.msb_setWidth]
    simp
  rw [BitVec.sshiftRight_eq_of_msb_false positive, BitVec.toNat_and, BitVec.toNat_ushiftRight,
    BitVec.toNat_setWidth_of_le (by decide), Nat.shiftRight_eq_div_pow,
    show (0xff : Word).toNat = 2 ^ 8 - 1 by decide, Nat.and_two_pow_sub_one_eq_mod]
  omega

/-- The module after the read-backs of some groups. -/
def readBack (grp : Word) (groups : List ℕ) (module : Module) : Module :=
  groups.foldl (fun module (i : ℕ) => if groupEnabled grp i then
    (DivisorRead module i).2 else module) module

theorem readBack_onlyRead (grp : Word) (groups : List ℕ) (module : Module) :
    OnlyRead module (readBack grp groups module) := by
  induction groups generalizing module with
  | nil => exact .refl module
  | cons i groups ih =>
    have read : OnlyRead module (DivisorRead module i).2 := ParameterRead_reads module i VF48_MBIT2
    rw [readBack, List.foldl_cons]
    split
    · exact read.trans (ih _)
    · exact ih _

theorem checkDivisors_cons (grp value : Word) (i : ℕ) (groups : List ℕ) (module : Module) :
    checkDivisors grp value (i :: groups) module =
      if groupEnabled grp i then
        if (DivisorRead module i).1 ≠ value then (.aborted, (DivisorRead module i).2)
        else checkDivisors grp value groups (DivisorRead module i).2
      else checkDivisors grp value groups module := rfl

/-- A property of every place in a list, at the first place and at the others. -/
private theorem forall_split_cons (P : List ℕ → ℕ → Prop) (i : ℕ) (groups : List ℕ) :
    (∀ earlier j later, i :: groups = earlier ++ j :: later → P earlier j) ↔
      P [] i ∧ ∀ earlier j later, groups = earlier ++ j :: later → P (i :: earlier) j := by
  constructor
  · intro all
    refine ⟨all [] i groups rfl, ?_⟩
    rintro earlier j later rfl
    exact all (i :: earlier) j later rfl
  · rintro ⟨first, rest⟩ earlier j later parts
    cases earlier with
    | nil =>
      obtain ⟨rfl, rfl⟩ := List.cons.inj parts
      exact first
    | cons k earlier =>
      obtain ⟨rfl, tail⟩ := List.cons.inj parts
      exact rest earlier j later tail

/-- The second loop comes to its end exactly when each enabled group reads back the value. -/
theorem checkDivisors_returned_iff (grp value : Word) (groups : List ℕ) (module : Module) :
    (checkDivisors grp value groups module).1 = .returned value ↔
      ∀ earlier i later, groups = earlier ++ i :: later → groupEnabled grp i →
        (DivisorRead (readBack grp earlier module) i).1 = value := by
  induction groups generalizing module with
  | nil => simp [checkDivisors]
  | cons i groups ih =>
    rw [checkDivisors_cons,
      forall_split_cons fun earlier j => groupEnabled grp j → (DivisorRead (readBack grp earlier module) j).1 = value]
    by_cases enabled : groupEnabled grp i
    · rw [if_pos enabled]
      by_cases reads : (DivisorRead module i).1 = value
      · rw [if_neg (not_not_intro reads), ih]
        simp only [readBack, List.foldl_nil, List.foldl_cons, if_pos enabled, reads, imp_true_iff,
          true_and]
      · rw [if_pos reads]
        constructor
        · intro aborted
          cases aborted
        · intro both
          exact absurd (both.1 enabled) reads
    · rw [if_neg enabled, ih]
      simp only [readBack, List.foldl_cons, enabled, Bool.false_eq_true, if_false, false_implies,
        true_and]

/-- What the read-back of a group compares with the value. -/
theorem DivisorRead_eq (module : Module) (i : ℕ) (group : i < 6) (value : Word) :
    (DivisorRead module i).1 = value ↔
      (Answers module → divisor module i = value.toNat) ∧ (¬Answers module → value = 255) := by
  have gives := ParameterRead_gives module i VF48_MBIT2 mbit2_named
  have valid : ValidGroup i := by omega
  have read : (DivisorRead module i).1 =
    ((ParameterRead module i VF48_MBIT2).1.sshiftRight 8) &&& 0xff := rfl
  rw [read, gives]
  by_cases answers : Answers module
  · rw [if_pos ⟨valid, answers⟩]
    simp only [answers, true_implies, not_true_eq_false, false_implies, and_true]
    rw [← BitVec.toNat_inj, high_byte]
    rfl
  · rw [if_neg fun both => answers both.2]
    simp only [answers, false_implies, not_false_eq_true, true_implies, true_and]
    exact eq_comm

/-- The module when `vf48_DivisorWrite` reads back a group. -/
def checkTurn (module : Module) (value : Word) (i : ℕ) : Module :=
  readBack (module.read VF48_GRP_REG_RW).1 (List.range i) (turn module value 6)

/-- A place in the list of the groups. -/
theorem range_split {n i : ℕ} {earlier later : List ℕ} (parts : List.range n = earlier ++ i :: later) :
    i < n ∧ earlier = List.range i := by
  have inside : earlier.length < n := by
    have lengths := congrArg List.length parts
    simp only [List.length_range, List.length_append, List.length_cons] at lengths
    omega
  have place : (List.range n)[earlier.length]? = some i := by
    rw [parts, List.getElem?_append_right le_rfl, Nat.sub_self, List.getElem?_cons_zero]
  rw [List.getElem?_range inside, Option.some.injEq] at place
  have front := congrArg (List.take earlier.length) parts
  rw [List.take_left, List.take_range, min_eq_left inside.le, place] at front
  exact ⟨by omega, front.symm⟩

/-- `vf48_DivisorWrite` returns exactly when the divisor of each enabled group is the value, where a
group that does not answer the read-back counts as 255. -/
theorem DivisorWrite_returned_iff (module : Module) (value : Word) :
    (DivisorWrite module value).1 = .returned value ↔
      ValidDivisor value ∧ ∀ i < 6, updates module i →
        (Answers (checkTurn module value i) → divisor (DivisorWrite module value).2 i = value.toNat) ∧
          (¬Answers (checkTurn module value i) → value = 255) := by
  by_cases valid : ValidDivisor value
  · have runs : DivisorWrite module value =
        checkDivisors (module.read VF48_GRP_REG_RW).1 value (List.range 6) (turn module value 6) := by
      rw [DivisorWrite, if_neg valid]
      rfl
    have final : ∀ i, divisor (checkTurn module value i) i =
        divisor (DivisorWrite module value).2 i := by
      intro i
      have check := checkDivisors_onlyRead (module.read VF48_GRP_REG_RW).1 value (List.range 6)
        (turn module value 6)
      have reads := readBack_onlyRead (module.read VF48_GRP_REG_RW).1 (List.range i)
        (turn module value 6)
      rw [divisor, divisor, runs, check.parameter, checkTurn, reads.parameter]
    rw [runs, checkDivisors_returned_iff, ← runs]
    simp only [← final]
    constructor
    · intro each
      refine ⟨valid, ?_⟩
      intro i group enabled
      have parts : List.range 6 = List.range i ++ i :: (List.range 6).drop (i + 1) := by
        conv_lhs => rw [← List.take_append_drop i (List.range 6)]
        rw [List.take_range, min_eq_left group.le, List.drop_eq_getElem_cons (by simpa using group),
          List.getElem_range]
      exact (DivisorRead_eq _ i group value).mp (each _ i _ parts enabled)
    · rintro ⟨-, each⟩ earlier i later parts enabled
      obtain ⟨group, rfl⟩ := range_split parts
      exact (DivisorRead_eq _ i group value).mpr (each i group enabled)
  · have fails : DivisorWrite module value = (.assertion, module) := by
      rw [DivisorWrite, if_pos (not_not.mp valid)]
    rw [fails]
    exact ⟨fun returned => absurd returned (by simp), fun both => absurd both.1 valid⟩

/-- With 255, a module that is never ready passes the read-back with the old divisors. -/
example :
    (DivisorWrite { losesFirst with answers := fun _ => 0x21, arrives := fun _ => false } 255).1 =
      .returned 255 ∧
    divisor (DivisorWrite { losesFirst with
      answers := fun _ => 0x21, arrives := fun _ => false } 255).2 0 = 5 := by
  decide +kernel

end PtfConverter.VF48Vme
