import PtfConverter.Model.VF48Config
import PtfConverter.Soundness.VF48Queue
import PtfConverter.ToMathlib.BitFields

/-! # Which events are complete

`CompleteEvent` collects the units below `fNumModules` that have a complete module in the event,
and compares them with `fModulesMask`: not only must all the units of the mask be there, no other
unit may. A unit outside the mask that sent data keeps the event incomplete for good, since the
collected bits are never taken back.
-/

namespace PtfConverter.VF48

namespace Settings

/-- The number of modules is that of the constructor, or `SetNumModules` checked it. -/
theorem set_fNumModules {settings next : Settings} {setter : Setting}
    (few : settings.fNumModules < (VF48_MAX_MODULES : ℕ)) (ran : settings.set setter = .ok next) :
    next.fNumModules < (VF48_MAX_MODULES : ℕ) := by
  cases setter with
  | SetNumModules num_modules =>
    change settings.SetNumModules num_modules = _ at ran
    unfold SetNumModules at ran
    split_ifs at ran with inside
    cases ran
    exact inside.2
  | SetModulesMask mask =>
    cases ran
    exact few
  | SetGroupEnableMask unit groupMask =>
    cases ran
    exact few

theorem configure_fNumModules {settings final : Settings} {setters : List Setting}
    (few : settings.fNumModules < (VF48_MAX_MODULES : ℕ))
    (ran : settings.configure setters = .ok final) :
    final.fNumModules < (VF48_MAX_MODULES : ℕ) := by
  apply Except.foldlM_keeps
    (fun _ (settings : Settings) => settings.fNumModules < ((VF48_MAX_MODULES : ℕ) : ℤ)) ?_ few ran
  exact fun few ran => set_fNumModules few ran

end Settings

namespace VF48event

variable {settings : Settings} {e : VF48event} {i : ℕ}

/-- A unit below `fNumModules` has a complete module in the event. -/
def Contributed (settings : Settings) (e : VF48event) (i : ℕ) : Prop :=
  ∃ unit : UnitNo, unit.val = i ∧ (i : ℤ) < settings.fNumModules ∧ e.moduleComplete unit = true

/-- Something that `CompleteEvent` counts in the event, and that `fModulesMask` does not expect. -/
def Stray (settings : Settings) (e : VF48event) : Prop :=
  ∃ i : ℕ, i < 32 ∧ settings.fModulesMask.getLsbD i = false ∧
    (e.modulesMask.getLsbD i = true ∨ e.Contributed settings i)

/-- The bits that `CompleteEvent` has collected. -/
theorem CompleteEvent_modulesMask (expected : settings.fModulesMask ≠ 0) (inside : i < 32) :
    (e.CompleteEvent settings).modulesMask.getLsbD i = true ↔
      e.modulesMask.getLsbD i = true ∨ e.Contributed settings i := by
  unfold CompleteEvent
  rw [if_neg expected]
  simp only
  rw [BitVec.getLsbD_foldl_or (fun unit : UnitNo => unit.val) _ _ _ inside, Bool.or_eq_true,
    List.any_eq_true]
  apply or_congr_right
  constructor
  · rintro ⟨unit, -, liked⟩
    obtain ⟨liked, here⟩ := Bool.and_eq_true_iff.mp liked
    obtain ⟨below, complete⟩ := of_decide_eq_true liked
    have place := beq_iff_eq.mp here
    exact ⟨unit, place, place ▸ below, complete⟩
  · rintro ⟨unit, place, below, complete⟩
    refine ⟨unit, List.mem_finRange unit, ?_⟩
    rw [Bool.and_eq_true]
    exact ⟨decide_eq_true ⟨place ▸ below, complete⟩, beq_iff_eq.mpr place⟩

theorem CompleteEvent_eq (settings : Settings) (e : VF48event) (expected : settings.fModulesMask ≠ 0) :
    e.CompleteEvent settings =
      { e with
        modulesMask := (e.CompleteEvent settings).modulesMask
        complete := e.complete || (e.CompleteEvent settings).modulesMask ==
          settings.fModulesMask } := by
  unfold CompleteEvent
  simp only [if_neg expected]

theorem CompleteEvent_complete (expected : settings.fModulesMask ≠ 0) :
    (e.CompleteEvent settings).complete = true ↔
      e.complete = true ∨ (e.CompleteEvent settings).modulesMask = settings.fModulesMask := by
  unfold CompleteEvent
  rw [if_neg expected]
  simp only [Bool.or_eq_true, beq_iff_eq]

/-- With all the units of the mask there, the event is marked unless something else is there too. -/
theorem tryComplete_complete_iff
    (contributed : ∀ i, settings.fModulesMask.getLsbD i = true → e.Contributed settings i) :
    (e.tryComplete settings).complete = true ↔
      e.complete = true ∨ settings.fModulesMask = 0 ∨ ¬ e.Stray settings := by
  unfold tryComplete
  split_ifs with already
  · exact iff_of_true already (.inl already)
  by_cases expected : settings.fModulesMask = 0
  · have marked : (e.CompleteEvent settings).complete = true := by rw [CompleteEvent, if_pos expected]
    exact iff_of_true marked (.inr (.inl expected))
  rw [CompleteEvent_complete expected, or_iff_right already, or_iff_right already,
    or_iff_right expected]
  constructor
  · rintro same ⟨i, inside, unexpected, there⟩
    have bit := (CompleteEvent_modulesMask expected inside).mpr there
    rw [same, unexpected] at bit
    cases bit
  · intro alone
    apply BitVec.eq_of_getLsbD_eq
    intro i inside
    apply Bool.eq_iff_iff.mpr
    rw [CompleteEvent_modulesMask expected inside]
    constructor
    · intro there
      by_contra unexpected
      exact alone ⟨i, inside, Bool.eq_false_iff.mpr unexpected, there⟩
    · exact fun bit => .inr (contributed i bit)

theorem tryComplete_incomplete (incomplete : (e.tryComplete settings).complete = false) :
    e.complete = false ∧ settings.fModulesMask ≠ 0 ∧
      e.tryComplete settings = e.CompleteEvent settings := by
  unfold tryComplete at incomplete ⊢
  split_ifs at incomplete ⊢ with already
  · rw [already] at incomplete
    cases incomplete
  · refine ⟨Bool.eq_false_iff.mpr already, ?_, rfl⟩
    intro empty
    rw [CompleteEvent, if_pos empty] at incomplete
    cases incomplete

/-- An event that stays incomplete is the same after a second look. -/
theorem tryComplete_again (incomplete : (e.tryComplete settings).complete = false) :
    (e.tryComplete settings).tryComplete settings = e.tryComplete settings := by
  obtain ⟨before, expected, same⟩ := tryComplete_incomplete incomplete
  rw [same] at incomplete ⊢
  rw [tryComplete, if_neg (Bool.eq_false_iff.mp incomplete)]
  have bits : ((e.CompleteEvent settings).CompleteEvent settings).modulesMask =
      (e.CompleteEvent settings).modulesMask := by
    apply BitVec.eq_of_getLsbD_eq
    intro i inside
    apply Bool.eq_iff_iff.mpr
    have kept : (e.CompleteEvent settings).Contributed settings i ↔ e.Contributed settings i := by
      unfold Contributed moduleComplete
      rw [← same, tryComplete_modules]
    rw [CompleteEvent_modulesMask expected inside, kept, or_iff_left_of_imp]
    exact fun there => (CompleteEvent_modulesMask expected inside).mpr (.inr there)
  have differs : (e.CompleteEvent settings).modulesMask ≠ settings.fModulesMask := by
    intro same
    have marked := (CompleteEvent_complete (e := e) expected).mpr (.inr same)
    rw [marked] at incomplete
    cases incomplete
  apply (CompleteEvent_eq settings (e.CompleteEvent settings) expected).trans
  rw [bits, incomplete, Bool.false_or, beq_eq_false_iff_ne.mpr differs, ← incomplete]

end VF48event

namespace Builder

variable {settings : Settings} {builder : Builder} {flush : Bool} {index : ℕ}

/-- `GetEvent` looks at the first event, and without `flush` at those behind it, up to a complete
one. -/
def Examined (settings : Settings) (builder : Builder) (flush : Bool) (index : ℕ) : Prop :=
  index = 0 ∨ flush = false ∧ ∀ e ∈ builder.fBuffer.take index, (e.tryComplete settings).complete =
    false

theorem completeUntil_getElem? {events : List VF48event}
    (incomplete : ∀ e ∈ events.take index, (e.tryComplete settings).complete = false) :
    (completeUntil settings events).1[index]? =
      events[index]?.map (VF48event.tryComplete settings) := by
  induction events generalizing index with
  | nil => rfl
  | cons e rest ih =>
    rw [completeUntil]
    cases index with
    | zero =>
      simp only
      split_ifs <;> rfl
    | succ index =>
      rw [List.take_succ_cons] at incomplete
      obtain ⟨first, later⟩ := List.forall_mem_cons.mp incomplete
      simp only [first, Bool.false_eq_true, if_false, List.getElem?_cons_succ]
      exact ih later

/-- Each event that `GetEvent` looks at, returned or left in the buffer, went through
`CompleteEvent`. -/
theorem GetEvent_getElem? (examined : Examined settings builder flush index) :
    ((builder.GetEvent settings flush).2.toList ++
      (builder.GetEvent settings flush).1.fBuffer)[index]? =
      builder.fBuffer[index]?.map (VF48event.tryComplete settings) := by
  unfold Examined at examined
  unfold GetEvent
  cases buffer : builder.fBuffer with
  | nil =>
    simp only [buffer]
    rfl
  | cons first rest =>
    rw [buffer] at examined
    simp only
    split_ifs with popped found
    · -- the first event leaves, and is the only one looked at
      rcases examined with rfl | ⟨kept, earlier⟩
      · rfl
      · cases index with
        | zero => rfl
        | succ index =>
          have incomplete := (List.forall_mem_cons.mp earlier).1
          rw [incomplete, kept] at popped
          cases popped
    all_goals
      have incomplete : (first.tryComplete settings).complete = false := by
        rw [Bool.or_eq_true, not_or] at popped
        exact Bool.eq_false_iff.mpr popped.1
      have again := VF48event.tryComplete_again incomplete
      have looked : (completeUntil settings (first.tryComplete settings :: rest)).1[index]? =
          (first :: rest)[index]?.map (VF48event.tryComplete settings) := by
        have same : (first.tryComplete settings :: rest)[index]?.map (VF48event.tryComplete settings) =
            (first :: rest)[index]?.map (VF48event.tryComplete settings) := by
          cases index with
          | zero => exact congrArg some again
          | succ index => rfl
        rw [← same]
        apply completeUntil_getElem?
        rcases examined with rfl | ⟨-, earlier⟩
        · exact List.forall_mem_nil _
        · cases index with
          | zero => exact List.forall_mem_nil _
          | succ index =>
            have later := (List.forall_mem_cons.mp earlier).2
            exact List.forall_mem_cons.mpr ⟨again.symm ▸ incomplete, later⟩
    · have whole : (completeUntil settings (first.tryComplete settings :: rest)).1.head?.toList ++
          (completeUntil settings (first.tryComplete settings :: rest)).1.tail =
            (completeUntil settings (first.tryComplete settings :: rest)).1 := by
        cases (completeUntil settings (first.tryComplete settings :: rest)).1 <;> rfl
      rw [whole]
      exact looked
    · exact looked

/-- An event that `GetEvent` looks at, and that has a complete module of each unit of
`fModulesMask`, is marked complete when nothing else is there: no complete module of another unit
below `fNumModules`, and no bit of such a unit from an earlier look. -/
theorem marksComplete_iff {start settings : Settings} {setters : List Setting}
    (few : start.fNumModules < (VF48_MAX_MODULES : ℕ))
    (configured : start.configure setters = .ok settings) (builder : Builder) (flush : Bool)
    {index : ℕ} {e : VF48event} (here : builder.fBuffer[index]? = some e)
    (examined : Examined settings builder flush index)
    (below : ∀ i : ℕ, settings.fModulesMask.getLsbD i = true → (i : ℤ) < settings.fNumModules)
    (contributed : ∀ unit : UnitNo, settings.fModulesMask.getLsbD unit.val = true →
      e.moduleComplete unit = true) :
    ∃ after, ((builder.GetEvent settings flush).2.toList ++
        (builder.GetEvent settings flush).1.fBuffer)[index]? =
        some after ∧
      (after.complete = true ↔ e.complete = true ∨ settings.fModulesMask = 0 ∨ ¬ e.Stray settings) := by
  have looked := GetEvent_getElem? examined
  rw [here, Option.map_some] at looked
  refine ⟨e.tryComplete settings, looked, ?_⟩
  apply VF48event.tryComplete_complete_iff
  intro i expected
  have place := below i expected
  have inside := Int.ofNat_lt.mp (place.trans (Settings.configure_fNumModules few configured))
  exact ⟨⟨i, inside⟩, rfl, place, contributed ⟨i, inside⟩ expected⟩

end Builder

/-- Two modules, of which only the first one makes an event complete, with one group each. -/
def firstOfTwo : List Setting := [.SetNumModules 2, .SetModulesMask 1, .SetGroupEnableMask (-1) 1]

/-- An event with a complete module of the first unit. -/
def firstAlone : VF48event :=
  { VF48event.new 1 0 with
    modules := fun unit => if unit = 0 then
    some { VF48module.new 0 with complete := true } else none }

theorem marksComplete_iff_firstAlone :
    ∃ settings after, Settings.initial.configure firstOfTwo = .ok settings ∧
      (({ Builder.initial with fBuffer := [firstAlone] }.GetEvent settings false).2.toList ++
        ({ Builder.initial with fBuffer := [firstAlone] }.GetEvent settings false).1.fBuffer)[0]? =
          some after ∧
      (after.complete = true ↔
        firstAlone.complete = true ∨ settings.fModulesMask = 0 ∨ ¬ firstAlone.Stray settings) := by
  obtain ⟨settings, configured⟩ : ∃ settings, Settings.initial.configure firstOfTwo =
    .ok settings := ⟨_, rfl⟩
  have mask : settings.fModulesMask = 1#32 := by
    cases configured
    rfl
  have modules : settings.fNumModules = 2 := by
    cases configured
    rfl
  have only : ∀ i : ℕ, settings.fModulesMask.getLsbD i = true → i = 0 := by
    intro i expected
    rw [mask, BitVec.getLsbD_one, Bool.and_eq_true] at expected
    exact of_decide_eq_true expected.2
  have few : Settings.initial.fNumModules < (VF48_MAX_MODULES : ℕ) := by decide
  have below : ∀ i : ℕ, settings.fModulesMask.getLsbD i = true → (i : ℤ) < settings.fNumModules := by
    intro i expected
    rw [only i expected, modules]
    decide
  have contributed : ∀ unit : UnitNo, settings.fModulesMask.getLsbD unit.val = true →
      firstAlone.moduleComplete unit = true := by
    intro unit expected
    have first : unit = 0 := Fin.ext (only unit.val expected)
    rw [first]
    rfl
  obtain ⟨after, there, marked⟩ := @Builder.marksComplete_iff _ _ _ few configured
    { Builder.initial with fBuffer := [firstAlone] } false 0 firstAlone rfl (.inl rfl) below contributed
  exact ⟨settings, after, configured, there, marked⟩

/-- A block of one channel in group 0. -/
def groupZero : List Word := [0x80000005, 0xA0000001, 0xA0000000, 0xC0000001, 0xE0000005]

/-- Both modules come, complete, and the event is not. -/
theorem firstOfTwo_incomplete :
    (do
      let settings ← Settings.initial.configure firstOfTwo
      let (_, sights) ← Transducer.run UnpackVF48.call { UnpackVF48.new with settings := settings }
        [.UnpackStream 0 groupZero, .UnpackStream 1 groupZero, .GetEvent true]
      return (settings.fNumModules, settings.fModulesMask,
        (returned sights).map fun e => (e.moduleComplete 0, e.moduleComplete 1, e.complete))) =
      (.ok (2, 1, [(true, true, false)]) : Except Fault (ℤ × Word × List (Bool × Bool × Bool))) := by
  decide +kernel

end PtfConverter.VF48
