import PtfConverter.Model.VF48Delivery

/-! # What every word of a block keeps

The words of a block change the events in building by a few primitive updates: counts of complaints,
times, modules, and new events at the end. What these keep (`Stable`), `UnpackEvent` keeps. A channel
header is the one kind of word with several effects, and has an equation of its own.
-/

namespace PtfConverter.VF48

/-- The group that a channel header names: group 0 stands for the group of the buffer. -/
def headerGroup (group : Group) (w : Word) : ℕ :=
  if ((w &&& 0x70#32) >>> 4).toNat = 0 then group.val else ((w &&& 0x70#32) >>> 4).toNat

/-- The number of the channel that a channel header names. -/
def headerChan (group : Group) (w : Word) : ℕ := (w &&& 0x7#32).toNat ||| headerGroup group w <<< 3

namespace Builder

variable {settings : Settings} {unit : UnitNo} {group : Group} {builder : Builder} {locals : Locals}
  {w : Word} {index : ℕ} {m : VF48module} {chan : Chan}

/-- The state in which a channel is opened, with its timestamp when there was one. -/
def stamped (settings : Settings) (unit : UnitNo) (cgroup : Group) (builder : Builder)
    (locals : Locals) :
    Builder × Locals :=
  if locals.timestampCount ≠ 0 then
    applyTimestamp settings unit cgroup builder locals else (builder, locals)

/-- A channel header names a channel past the end, or opens one of the 48. -/
theorem channelHeader_eq_dite (settings : Settings) (unit : UnitNo) (group : Group)
    (builder : Builder) (locals : Locals) (w : Word) :
    channelHeader settings unit group builder locals w =
      if inside : headerChan group w < VF48_MAX_CHANNELS then
        openChannel unit ⟨headerGroup group w, group_of_channel inside⟩ ⟨headerChan group w, inside⟩
          (stamped settings unit ⟨headerGroup group w, group_of_channel inside⟩ builder
            { locals with chan := headerChan group w }).1
          (stamped settings unit ⟨headerGroup group w, group_of_channel inside⟩ builder
            { locals with chan := headerChan group w }).2
      else .ok (builder.bad, { locals with chan := headerChan group w }) := rfl

/-- A channel is opened in a module that is there. -/
theorem openChannel_ok {cgroup : Group} {chan : Chan} {next : Builder × Locals}
    (opened : openChannel unit cgroup chan builder locals = .ok next) :
    ∃ index m, locals.m = some index ∧ builder.module? unit index = some m ∧
      next = ((if (m.channels chan).numSamples ≠ 0 then builder.bad else builder).setModule unit index
        (m.startChannel cgroup chan locals.timestampFlag),
        { locals with timestampCount := 0, timestampFlag := false }) := by
  unfold openChannel at opened
  split at opened
  · cases opened
  · next index pointer =>
    split at opened
    · cases opened
    · next m here =>
      cases opened
      exact ⟨index, m, pointer, here, rfl⟩

theorem module?_setModule {old : VF48module} (here : builder.module? unit index = some old) :
    (builder.setModule unit index m).module? unit index = some m := by
  obtain ⟨e, place, found⟩ := Option.bind_eq_some_iff.mp here
  rw [Builder.module?, setModule, List.getElem?_modify, place]
  simp only [Option.map_eq_map, Option.map_some, if_true, Option.bind_some, Function.update_self]

theorem target_eq_some_iff :
    builder.target unit locals = some (index, m, chan) ↔
      locals.m = some index ∧ builder.module? unit index = some m ∧
        channel? locals.chan = some chan := by
  unfold target
  simp only [Option.bind_eq_bind, Option.bind_eq_some_iff, Option.pure_def, Option.some.injEq,
    Prod.mk.injEq]
  constructor
  · rintro ⟨_, pointer, _, here, _, inside, rfl, rfl, rfl⟩
    exact ⟨pointer, here, inside⟩
  · rintro ⟨pointer, here, inside⟩
    exact ⟨index, pointer, m, here, chan, inside, rfl, rfl, rfl⟩

theorem channel?_val (chan : Chan) : channel? (chan.val : ℤ) = some chan := by
  rw [channel?, dif_pos ⟨Int.natCast_nonneg _, by exact_mod_cast chan.isLt⟩]
  rfl

end Builder

/-- The updates that find the module of a time, for the words of a unit, keep a property: they make
events and modules, and leave the channels of a module as they are. -/
structure Stamping (unit : UnitNo) (P : Builder → Prop) : Prop where
  count : ∀ builder complaints, P builder → P { builder with fBadDataCount := complaints }
  times : ∀ builder timestampBases ts, P builder →
    P { builder with timestampBases := timestampBases, ts := ts }
  newEvent : ∀ (builder : Builder) timestamp, P builder →
    P { builder with
        fEventNo := builder.fEventNo + 1
        fBuffer := builder.fBuffer ++ [.new (builder.fEventNo + 1) timestamp] }
  newModule : ∀ builder index, P builder → P (builder.setModule unit index (.new unit))
  relabel : ∀ builder index old m, P builder → builder.module? unit index = some old →
    m.channels = old.channels →
    P (builder.setModule unit index m)

namespace Stamping

open Builder

variable {settings : Settings} {unit : UnitNo} {P : Builder → Prop} {builder : Builder}
  {locals : Locals}

theorem bad (stamping : Stamping unit P) (kept : P builder) : P builder.bad :=
  stamping.count builder _ kept

theorem FindEvent (stamping : Stamping unit P) (settings : Settings) (timestamp : ℚ) (dup : Bool)
    (kept : P builder) :
    P (builder.FindEvent settings unit timestamp dup).1 := by
  unfold Builder.FindEvent
  split
  · exact kept
  · exact stamping.newEvent builder timestamp kept

theorem FindModule (stamping : Stamping unit P) (settings : Settings) (timestamp : ℚ)
    (kept : P builder) :
    P (builder.FindModule settings unit timestamp).1 := by
  have found := stamping.FindEvent settings timestamp true kept
  unfold Builder.FindModule
  simp only
  split
  · exact found
  · exact stamping.newModule _ _ found

theorem stampedModule (stamping : Stamping unit P) (settings : Settings) (timestamp : ℚ)
    (kept : P builder) :
    P (stampedModule settings unit builder locals timestamp).1 := by
  have found := stamping.FindModule settings timestamp kept
  unfold Builder.stampedModule
  split
  · exact kept
  · simp only
    split
    · next m here => exact stamping.relabel _ _ _ _ found here rfl
    · exact found

theorem stampGroup (stamping : Stamping unit P) (cgroup : Group) (index : ℕ) (ts48 : BitVec 64)
    (timestamp : ℚ) (kept : P builder) :
    P (stampGroup unit cgroup builder index ts48 timestamp) := by
  unfold Builder.stampGroup
  split
  · next m here => exact stamping.relabel _ _ _ _ kept here rfl
  · exact kept

theorem applyTimestamp (stamping : Stamping unit P) (settings : Settings) (cgroup : Group)
    (kept : P builder) :
    P (applyTimestamp settings unit cgroup builder locals).1 := by
  unfold Builder.applyTimestamp
  simp only
  apply stamping.stampGroup
  apply stamping.stampedModule
  -- the base of the unit, a complaint, and the last time of the group
  split_ifs
  all_goals first
    | exact stamping.times _ _ _ (stamping.bad (stamping.times _ _ _ kept))
    | exact stamping.times _ _ _ (stamping.times _ _ _ kept)

theorem stamped (stamping : Stamping unit P) (settings : Settings) (cgroup : Group) (kept : P builder) :
    P (stamped settings unit cgroup builder locals).1 := by
  unfold Builder.stamped
  split_ifs
  · exact stamping.applyTimestamp settings cgroup kept
  · exact kept

end Stamping

/-- All updates of the events in building by the words of a unit keep a property. -/
structure Stable (unit : UnitNo) (P : Builder → Prop) : Prop extends Stamping unit P where
  setModule : ∀ builder index m, P builder → P (builder.setModule unit index m)

namespace Stable

open Builder

variable {settings : Settings} {unit : UnitNo} {P : Builder → Prop} {builder : Builder}
  {locals : Locals}

theorem bad (stable : Stable unit P) (kept : P builder) : P builder.bad := stable.count builder _ kept

theorem openChannel (stable : Stable unit P) {cgroup : Group} {chan : Chan}
    {next : Builder × Locals} (kept : P builder)
    (opened : openChannel unit cgroup chan builder locals = .ok next) : P next.1 := by
  obtain ⟨index, m, _, _, rfl⟩ := openChannel_ok opened
  apply stable.setModule
  split_ifs
  · exact stable.bad kept
  · exact kept

theorem channelHeader (stable : Stable unit P) {group : Group} {w : Word}
    {next : Builder × Locals} (kept : P builder)
    (opened : channelHeader settings unit group builder locals w = .ok next) : P next.1 := by
  rw [channelHeader_eq_dite] at opened
  split_ifs at opened with inside
  · exact stable.openChannel (stable.stamped settings _ kept) opened
  · cases opened
    exact stable.bad kept

theorem timestampWord (stable : Stable unit P) (w : Word) (kept : P builder) :
    P (builder.timestampWord locals w).1 := by
  unfold Builder.timestampWord
  simp only
  split_ifs
  · exact kept
  · exact kept
  · exact stable.bad kept

theorem sampleWord (stable : Stable unit P) (w : Word) (kept : P builder) :
    P (builder.sampleWord unit locals w) := by
  unfold Builder.sampleWord
  split
  · exact stable.bad kept
  · simp only
    split_ifs
    · exact stable.bad (stable.setModule _ _ _ kept)
    · exact stable.setModule _ _ _ kept
    · exact stable.bad (stable.setModule _ _ _ kept)

theorem timeWord (stable : Stable unit P) (w : Word) (kept : P builder) :
    P (builder.timeWord unit locals w) := by
  unfold Builder.timeWord
  split
  · exact stable.bad kept
  · exact stable.setModule _ _ _ kept

theorem chargeWord (stable : Stable unit P) (w : Word) (kept : P builder) :
    P (builder.chargeWord unit locals w) := by
  unfold Builder.chargeWord
  split
  · exact stable.bad kept
  · exact stable.setModule _ _ _ kept

theorem trailerWord (stable : Stable unit P) (w : Word) (kept : P builder) :
    P (builder.trailerWord settings unit locals w).1 := by
  unfold Builder.trailerWord
  split
  · exact stable.bad kept
  · next index m chan target =>
    have compared : P (if decide (w &&& 0x00FFFFFF#32 = locals.headerTrigNo) = true then
        builder else builder.bad) := by
      split_ifs
      · exact kept
      · exact stable.bad kept
    simp only
    split_ifs at compared ⊢
    all_goals exact stable.count _ _ (stable.setModule _ _ _ compared)

theorem unexpectedWord (stable : Stable unit P) {w : Word} {next : Builder} (kept : P builder)
    (passed : builder.unexpectedWord unit locals w = .ok next) : P next := by
  unfold Builder.unexpectedWord at passed
  split_ifs at passed
  · cases passed
    exact kept
  · split at passed
    · cases passed
      exact stable.bad kept
    · split at passed
      · cases passed
        exact stable.bad (stable.setModule _ _ _ kept)
      · cases passed

/-- Every word keeps what the primitive updates keep. -/
theorem unpackWord (stable : Stable unit P) {group : Group} {w : Word} {next : Builder × Locals}
    (kept : P builder) (stepped : unpackWord settings unit group (builder, locals) w = .ok next) :
    P next.1 := by
  unfold Builder.unpackWord at stepped
  simp only at stepped
  split_ifs at stepped with _ _ _ channel _ _ _ _
  · cases stepped
    exact kept
  · cases stepped
    exact kept
  · cases stepped
    exact stable.timestampWord w kept
  · exact stable.channelHeader kept stepped
  · cases stepped
    exact stable.sampleWord w kept
  · cases stepped
    exact stable.timeWord w kept
  · cases stepped
    exact stable.chargeWord w kept
  · cases stepped
    exact stable.trailerWord w kept
  · obtain ⟨following, passed, done⟩ := Except.bind_eq_ok_iff.mp stepped
    cases done
    exact stable.unexpectedWord kept passed

theorem UnpackEvent (stable : Stable unit P) {group : Group} {data : List Word} {next : Builder}
    (kept : P builder) (unpacked : builder.UnpackEvent settings unit group data = .ok next) :
    P next := by
  obtain ⟨⟨_, locals⟩, ran, done⟩ := Except.bind_eq_ok_iff.mp unpacked
  cases done
  exact Except.foldlM_keeps (fun _ (state : Builder × Locals) => P state.1)
    (fun kept stepped => stable.unpackWord kept stepped) kept ran

end Stable

end PtfConverter.VF48
