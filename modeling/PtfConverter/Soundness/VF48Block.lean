import PtfConverter.Soundness.VF48Channel

/-! # One group block is filed in the module of its trigger

The first channel header of a block finds the module of the trigger by its timestamp, or makes one,
and the trailer completes the module once the groups seen are those enabled. `UnpackEvent` on a
block therefore takes a builder that is `Ready` for the trigger to one whose module holds the
channels of the group.
-/

namespace PtfConverter.VF48

/-- The base of the times of a unit, once the first timestamp came. -/
def baseOf (settings : Settings) (stamp : BitVec 48) : BitVec 64 :=
  if settings.fTimestampResyncEnable then stamp.setWidth 64 else 0

/-- The time of a timestamp. -/
def timeOf (settings : Settings) (unit : UnitNo) (stamp : BitVec 48) : ℚ :=
  (stamp.setWidth 64 - baseOf settings stamp).toNat / settings.fFreq unit

/-- The buffer is empty, and `m` is a new module, or it is one event of a time, which holds `m`. -/
def Pending (unit : UnitNo) (time : ℚ) (builder : Builder) (m : VF48module) : Prop :=
  (builder.fBuffer = [] ∧ m = .new unit) ∨
    ∃ event, builder.fBuffer = [event] ∧ event.timestamp = time ∧
      event.modules = Function.update (fun _ => none) unit (some m)

/-- A builder that is about to get a block of a trigger. -/
structure Ready (settings : Settings) (unit : UnitNo) (stamp : BitVec 48) (ts : Group → BitVec 64)
    (builder : Builder) (m : VF48module) : Prop where
  pending : Pending unit (timeOf settings unit stamp) builder m
  base : builder.timestampBases unit = 0 ∨ builder.timestampBases unit = baseOf settings stamp
  ts : ∀ g, builder.ts unit g = ts g

section Timestamp

open Builder

variable {settings : Settings} {unit : UnitNo} {ts : Group → BitVec 64} {builder : Builder}
  {m : VF48module} {stamp : BitVec 48}

theorem Ready.of_building
    (building : Building unit (timeOf settings unit stamp) (baseOf settings stamp) ts builder m) :
    Ready settings unit stamp ts builder m := ⟨.inr building.event, .inr building.base, building.ts⟩

/-- Once base and times are set, the module of the time is the one in building, or a new one. -/
private theorem findModule_pending (coinc : 0 < settings.fCoinc) {time : ℚ} {base : BitVec 64}
    (pending : Pending unit time builder m) (based : builder.timestampBases unit = base)
    (times : ∀ g, builder.ts unit g = ts g) :
    ∃ next, builder.FindModule settings unit time = (next, 0) ∧ Building unit time base ts next m := by
  obtain ⟨empty, rfl⟩ | ⟨event, buffer, stamped, modules⟩ := pending
  · have found : builder.FindEvent settings unit time true = ({ builder with
        fEventNo := builder.fEventNo + 1
        fBuffer := [.new (builder.fEventNo + 1) time] }, 0) := by
      simp only [FindEvent, empty, List.findIdx?_nil, List.nil_append, List.length_nil]
    rw [FindModule, found]
    exact ⟨_, rfl, ⟨_, rfl, rfl, rfl⟩, based, times⟩
  · have building : Building unit time base ts builder m :=
      ⟨⟨event, buffer, stamped, modules⟩, based, times⟩
    have near : |event.timestamp - time| < settings.fCoinc := by
      rw [stamped, sub_self, abs_zero]
      exact coinc
    have found : builder.FindEvent settings unit time true = (builder, 0) := by
      simp only [FindEvent, buffer, List.findIdx?_cons, decide_eq_true near, Bool.or_true,
        Bool.and_true, if_true]
    refine ⟨builder, ?_, building⟩
    rw [FindModule, found]
    simp only [building.module?]

/-- The two timestamp words are the halves of the timestamp. -/
private theorem ts48_eq (stamp : BitVec 48) :
    ((stamp.extractLsb' 0 24).setWidth 32).setWidth 64 |||
      (((stamp.extractLsb' 24 24).setWidth 32).setWidth 64 <<< 24) =
      stamp.setWidth 64 := by
  have small := stamp.isLt
  apply BitVec.eq_of_toNat_eq
  have low : (((stamp.extractLsb' 0 24).setWidth 32).setWidth 64).toNat = stamp.toNat % 2 ^ 24 := by
    simp only [BitVec.toNat_setWidth, BitVec.extractLsb'_toNat, Nat.shiftRight_eq_div_pow]
    omega
  have high : ((((stamp.extractLsb' 24 24).setWidth 32).setWidth 64 <<< 24 : BitVec 64)).toNat =
      (stamp.toNat / 2 ^ 24) <<< 24 := by
    simp only [BitVec.toNat_shiftLeft, BitVec.toNat_setWidth, BitVec.extractLsb'_toNat,
      Nat.shiftRight_eq_div_pow, Nat.shiftLeft_eq]
    omega
  rw [BitVec.toNat_or, low, high, Nat.or_comm,
    ← Nat.shiftLeft_add_eq_or_of_lt (Nat.mod_lt _ (by decide)), Nat.shiftLeft_eq,
    BitVec.toNat_setWidth]
  omega

private theorem stamp_ne_zero (positive : 0 < stamp) : stamp.setWidth 64 ≠ (0 : BitVec 64) := by
  intro zero
  have value := congrArg BitVec.toNat zero
  have above : 0 < stamp.toNat := BitVec.lt_def.mp positive
  have small := stamp.isLt
  rw [BitVec.toNat_setWidth] at value
  change stamp.toNat % 2 ^ 64 = 0 at value
  omega

/-- What a module keeps, and what it takes on, when a block's timestamp comes. -/
structure Stamped (m next : VF48module) (trigger : Word) : Prop where
  trigger : next.trigger = trigger
  channels : next.channels = m.channels
  seen : next.completeGroupMask = m.completeGroupMask
  complete : next.complete = m.complete

/-- The module of the time gets the trigger and the timestamp of the group. -/
private theorem stampedModule_pending (coinc : 0 < settings.fCoinc) {time : ℚ} {base : BitVec 64}
    (pending : Pending unit time builder m) (based : builder.timestampBases unit = base)
    (times : ∀ g, builder.ts unit g = ts g) {locals : Locals} (null : locals.m = none) (g : Group)
    (ts48 : BitVec 64) :
    ∃ next filed, stampedModule settings unit builder locals time = (next, 0) ∧
      Building unit time base ts (next.stampGroup unit g 0 ts48 time) filed ∧
        Stamped m filed locals.headerTrigNo := by
  obtain ⟨next, found, building⟩ := findModule_pending coinc pending based times
  obtain ⟨filed, shape⟩ : ∃ filed : VF48module,
    filed = { m with unit := unit, trigger := locals.headerTrigNo } := ⟨_, rfl⟩
  have triggered := building.setModule filed
  have run : stampedModule settings unit builder locals time = (next.setModule unit 0 filed, 0) := by
    simp only [stampedModule, null, found, building.module?, shape]
  refine ⟨_, filed.stampGroup g ts48 time, run, ?_, ?_⟩
  · rw [stampGroup]
    simp only [triggered.module?]
    exact triggered.setModule _
  · rw [shape]
    exact ⟨rfl, rfl, rfl, rfl⟩

/-- The base of a unit is the timestamp of its first block, when bases are in use. -/
private theorem firstBase
    (base : builder.timestampBases unit = 0 ∨ builder.timestampBases unit = baseOf settings stamp) :
    (if settings.fTimestampResyncEnable && builder.timestampBases unit == 0 then
      { builder with timestampBases := Function.update builder.timestampBases unit (stamp.setWidth 64) }
    else builder).timestampBases unit = baseOf settings stamp := by
  cases enabled : settings.fTimestampResyncEnable with
  | false =>
    rw [baseOf, enabled, if_neg Bool.false_ne_true, or_self] at base
    simp only [Bool.false_and, Bool.false_eq_true, if_false, base, baseOf, enabled]
  | true =>
    by_cases zero : builder.timestampBases unit = 0
    · simp only [zero, beq_self_eq_true, Bool.and_self, if_true, Function.update_self, baseOf, enabled]
    · simp only [beq_eq_false_iff_ne.mpr zero, Bool.and_false, Bool.false_eq_true, if_false]
      exact base.resolve_left zero

/-- The first channel header of a block finds the module of the trigger. -/
private theorem applyTimestamp_ready (coinc : 0 < settings.fCoinc) (positive : 0 < stamp)
    (ready : Ready settings unit stamp ts builder m) {g : Group} (new : ts g = 0) {locals : Locals}
    (low : locals.timestamp1 = (stamp.extractLsb' 0 24).setWidth 32)
    (high : locals.timestamp2 = (stamp.extractLsb' 24 24).setWidth 32) (null : locals.m = none) :
    ∃ next filed, applyTimestamp settings unit g builder locals = (next, { locals with m := some 0 }) ∧
      Building unit (timeOf settings unit stamp) (baseOf settings stamp)
        (Function.update ts g (stamp.setWidth 64)) next filed ∧
      Stamped m filed locals.headerTrigNo := by
  have positive64 := stamp_ne_zero positive
  have unequal : (stamp.setWidth 64 == (0 : BitVec 64)) = false := beq_eq_false_iff_ne.mpr positive64
  unfold applyTimestamp
  simp only [low, high, ts48_eq, unequal, Bool.and_false, Bool.false_and, Bool.false_eq_true, if_false]
  -- the base is set by the first block only
  obtain ⟨based, shape⟩ : ∃ based,
    based = if settings.fTimestampResyncEnable && builder.timestampBases unit == 0 then
      { builder with timestampBases := Function.update builder.timestampBases unit (stamp.setWidth 64) }
    else builder := ⟨_, rfl⟩
  rw [← shape]
  have base : based.timestampBases unit = baseOf settings stamp := by
    rw [shape]
    exact firstBase ready.base
  have times : based.ts = builder.ts := by
    rw [shape]
    split_ifs <;> rfl
  have buffer : based.fBuffer = builder.fBuffer := by
    rw [shape]
    split_ifs <;> rfl
  have fresh : ¬ stamp.setWidth 64 = based.ts unit g := by rw [times, ready.ts, new]; exact positive64
  simp only [if_neg fresh, base]
  have pending : Pending unit (timeOf settings unit stamp) { based with
      ts := Function.update based.ts unit (Function.update (based.ts unit) g (stamp.setWidth 64)) }
        m := by
    rw [Pending, buffer]
    exact ready.pending
  have updated : ∀ h,
      Function.update based.ts unit (Function.update (based.ts unit) g (stamp.setWidth 64)) unit h =
      Function.update ts g (stamp.setWidth 64) h := by
    intro h
    rw [Function.update_self, times]
    obtain rfl | ne := eq_or_ne h g
    · rw [Function.update_self, Function.update_self]
    · rw [Function.update_of_ne ne, Function.update_of_ne ne, ready.ts]
  obtain ⟨next, filed, found, building, stamped⟩ :=
    stampedModule_pending coinc pending base updated null g (stamp.setWidth 64)
  refine ⟨_, filed, ?_, building, stamped⟩
  simp only [timeOf] at found
  simp only [found]
  rfl

end Timestamp

/-- What `CompleteModule` keeps: the trigger, the groups seen, and every channel that fits its
array. -/
structure Kept (m next : VF48module) : Prop where
  trigger : next.trigger = m.trigger
  seen : next.completeGroupMask = m.completeGroupMask
  channels : ∀ chan, (m.channels chan).numSamples ≤ VF48_MAX_SAMPLES →
    next.channels chan = m.channels chan

namespace Kept

variable {settings : Settings} {m middle next : VF48module}

theorem refl (m : VF48module) : Kept m m := ⟨rfl, rfl, fun _ _ => rfl⟩

theorem flag (m : VF48module) : Kept m { m with error := 1 } := ⟨rfl, rfl, fun _ _ => rfl⟩

theorem trans (first : Kept m middle) (second : Kept middle next) : Kept m next := by
  refine ⟨second.trigger.trans first.trigger, second.seen.trans first.seen, fun chan fits => ?_⟩
  have same := first.channels chan fits
  rw [second.channels chan (by rw [same]; exact fits), same]

/-- A channel that does not fit may be replaced. -/
theorem cut {i : Chan} (kept : Kept m middle) (channel : VF48channel)
    (long : (m.channels i).numSamples > VF48_MAX_SAMPLES) :
    Kept m (middle.setChannel i channel) := by
  refine ⟨kept.trigger, kept.seen, fun chan fits => ?_⟩
  have ne : chan ≠ i := by
    rintro rfl
    omega
  rw [VF48module.setChannel_other _ ne, kept.channels chan fits]

theorem completeChannel (state : ℕ × VF48module) (i : Chan) :
    Kept state.2 (VF48module.completeChannel settings state i).2 := by
  obtain ⟨complaints, m⟩ := state
  simp only [VF48module.completeChannel]
  split_ifs with enabled unseen empty long odd odd
  · exact refl m
  · exact refl m
  · exact cut (flag m) _ long
  · exact cut (refl m) _ long
  · exact flag m
  · exact refl m
  · exact refl m

theorem completeGroup (settings : Settings) (t : ℚ) (state : ℕ × VF48module) (i : Group) :
    Kept state.2 (VF48module.completeGroup settings t state i).2 := by
  obtain ⟨complaints, m⟩ := state
  simp only [VF48module.completeGroup]
  split_ifs
  all_goals exact ⟨rfl, rfl, fun _ _ => rfl⟩

theorem foldl {α : Type*} {step : ℕ × VF48module → α → ℕ × VF48module}
    (kept : ∀ state i, Kept state.2 (step state i).2) (l : List α) (state : ℕ × VF48module) :
    Kept state.2 (l.foldl step state).2 := by
  induction l generalizing state with
  | nil => exact refl _
  | cons i l ih => exact (kept state i).trans (ih _)

theorem CompleteModule (settings : Settings) (m : VF48module) :
    Kept m (m.CompleteModule settings).2 := by
  unfold VF48module.CompleteModule
  split_ifs
  · exact ⟨rfl, rfl, fun _ _ => rfl⟩
  · obtain ⟨trigger, seen, channels⟩ :=
      (foldl completeChannel (List.finRange VF48_MAX_CHANNELS) (0, m)).trans
      (foldl (completeGroup settings _) (List.finRange VF48_MAX_GROUPS) _)
    exact ⟨trigger, seen, channels⟩

end Kept

theorem CompleteModule_complete (settings : Settings) (m : VF48module) :
    (m.CompleteModule settings).2.complete = true := by
  unfold VF48module.CompleteModule
  split_ifs <;> rfl

/-- A channel in the module is not cut. -/
theorem Kept.holds {m next : VF48module} (kept : Kept m next) {g : Group} {data : ChannelData}
    (held : Holds m g data) :
    Holds next g data := by
  refine held.congr (kept.channels _ ?_)
  rw [held.numSamples]
  exact data.fits.trans (by decide)

/-- What the trailer of a block does to the module: it is complete once the groups seen are those
enabled. -/
structure Sealed (enabled : Word) (m next : VF48module) : Prop where
  trigger : next.trigger = m.trigger
  seen : next.completeGroupMask = m.completeGroupMask
  complete : next.complete = true ↔ m.complete = true ∨ m.completeGroupMask = enabled
  held : ∀ g data, Holds m g data → Holds next g data

section Trailer

open Builder

variable {settings : Settings} {unit : UnitNo} {time : ℚ} {base : BitVec 64} {ts : Group → BitVec 64}
  {builder : Builder} {m : VF48module} {locals : Locals} {chan : Chan}

private theorem setChannel_complete (m : VF48module) (chan : Chan) {g : Group}
    {data : ChannelData} (held : Holds m g data) :
    Holds (m.setChannel chan { m.channels chan with complete := true }) g data := by
  obtain ⟨channel, numSamples, samples, time, charge⟩ := held
  obtain same | ne := eq_or_ne (chanOf g data.chan) chan
  · subst same
    constructor <;> simpa only [VF48module.setChannel_channels]
  · constructor <;> simpa only [VF48module.setChannel_other _ ne]

private theorem unpack_trailer (settings : Settings) (group : Group) (trigger : BitVec 24)
    (building : Building unit time base ts builder m) (pointer : locals.m = some 0)
    (current : locals.chan = chan.val) (header : locals.headerTrigNo = trigger.setWidth 32) :
    ∃ next following filed, unpackWord settings unit group (builder, locals) (0xE0#8 ++ trigger) =
      .ok (next, following) ∧
      Building unit time base ts next filed ∧ Sealed (settings.fGroupEnabled unit) m filed := by
  rw [unpackWord_trailer (tagOf_append 0xE0#8 trigger), trailerWord, building.target pointer current]
  obtain ⟨closed, shape⟩ : ∃ closed,
    closed = m.setChannel chan { m.channels chan with complete := true } := ⟨_, rfl⟩
  have trigger_eq : closed.trigger = m.trigger := by rw [shape]; rfl
  have seen : closed.completeGroupMask = m.completeGroupMask := by rw [shape]; rfl
  have complete : closed.complete = m.complete := by rw [shape]; rfl
  have held : ∀ g data, Holds m g data → Holds closed g data := by
    rw [shape]
    exact fun g data => setChannel_complete m chan
  simp only [low_append, header, decide_true, if_true, ← shape]
  split_ifs with all
  · have kept := Kept.CompleteModule settings closed
    refine ⟨_, _, _, rfl, (building.setModule _).count _, kept.trigger.trans trigger_eq,
      kept.seen.trans seen, ?_,
      fun g data holds => kept.holds (held g data holds)⟩
    rw [← seen]
    exact iff_of_true (CompleteModule_complete settings closed) (.inr all)
  · refine ⟨_, _, _, rfl, building.setModule _, trigger_eq, seen, ?_, held⟩
    rw [complete, ← seen]
    exact (or_iff_left all).symm

end Trailer

/-- What a block of a group does to the module of its trigger. -/
structure Absorbs (g : Group) (datas : List ChannelData) (trigger enabled : Word)
    (m next : VF48module) : Prop where
  held : ∀ data ∈ datas, Holds next g data
  others : ∀ h ≠ g, ∀ data, Holds m h data → Holds next h data
  seen : next.completeGroupMask = m.completeGroupMask ||| 1#32 <<< g.val
  trigger : next.trigger = trigger
  complete : next.complete = true ↔ m.complete = true ∨ next.completeGroupMask = enabled

section Block

open Builder

variable {settings : Settings} {unit : UnitNo} {builder : Builder} {m : VF48module}

/-- The local variables behind the header and the timestamp words of a block. -/
def front (trigger : BitVec 24) (stamp : BitVec 48) : Locals where
  m := none
  chan := -1
  headerTrigNo := trigger.setWidth 32
  timestampCount := 2
  timestampFlag := true
  timestamp1 := (stamp.extractLsb' 0 24).setWidth 32
  timestamp2 := (stamp.extractLsb' 24 24).setWidth 32

private theorem unpack_front (settings : Settings) (unit : UnitNo) (g : Group) (builder : Builder)
    (trigger : BitVec 24) (stamp : BitVec 48) :
    [0x80#8 ++ trigger, 0xA0#8 ++ stamp.extractLsb' 0 24, 0xA0#8 ++ stamp.extractLsb' 24 24].foldlM
      (unpackWord settings unit g) (builder, .initial) = .ok (builder, front trigger stamp) := by
  have header : tagOf (0x80#8 ++ trigger) = 0x80000000 := tagOf_append 0x80#8 trigger
  have time (half : BitVec 24) : tagOf (0xA0#8 ++ half) = 0xA0000000 := tagOf_append 0xA0#8 half
  simp only [List.foldlM_cons, List.foldlM_nil, unpackWord, header, time, low_append, timestampWord]
  rfl

/-- Once the timestamp is applied, a first channel header does what a later one does. -/
private theorem unpack_stamped (g : Group) (chan : Fin 8) {locals : Locals} {stamped : Builder}
    (count : locals.timestampCount ≠ 0)
    (applied : applyTimestamp settings unit g builder { locals with chan := (chanOf g chan).val } =
      (stamped, { locals with chan := (chanOf g chan).val, m := some 0 })) :
    unpackWord settings unit g (builder, locals) (channelWord g chan) =
      unpackWord settings unit g (stamped, { locals with m := some 0, timestampCount := 0 })
        (channelWord g chan) := by
  rw [unpackWord_channel (channelWord_tag g chan), unpackWord_channel (channelWord_tag g chan),
    channelHeader_eq, channelHeader_eq, if_pos count, applied]
  rfl

/-- A builder that is ready for a block files it. -/
theorem UnpackEvent_block (coinc : 0 < settings.fCoinc) {mask : Word} (readout : Readout mask)
    {g : Group} {ts : Group → BitVec 64} (ready : Ready settings unit readout.stamp ts builder m)
    (new : ts g = 0) (active : readout.channels g ≠ []) :
    ∃ next filed, builder.UnpackEvent settings unit g (readout.block g) = .ok next ∧
      Building unit (timeOf settings unit readout.stamp) (baseOf settings readout.stamp)
        (Function.update ts g (readout.stamp.setWidth 64)) next filed ∧
      Absorbs g (readout.channels g) (readout.trigger.setWidth 32)
        (settings.fGroupEnabled unit) m filed := by
  obtain ⟨data, datas, channels⟩ := List.exists_cons_of_ne_nil active
  have distinct := readout.distinct g
  rw [channels] at distinct
  obtain ⟨locals, shape⟩ : ∃ locals, locals = front readout.trigger readout.stamp := ⟨_, rfl⟩
  obtain ⟨opening, opens⟩ : ∃ opening : Locals,
    opening = { locals with m := some 0, timestampCount := 0 } := ⟨_, rfl⟩
  obtain ⟨stamped, opened, applied, open₁, stamps⟩ :=
    applyTimestamp_ready coinc readout.positive ready new
    (show { locals with chan := (chanOf g data.chan).val }.timestamp1 = _ by rw [shape]; rfl)
    (show { locals with chan := (chanOf g data.chan).val }.timestamp2 = _ by rw [shape]; rfl)
    (show { locals with chan := (chanOf g data.chan).val }.m = _ by rw [shape]; rfl)
  obtain ⟨filled, between, filed, ran, open₂, files, pointer, header, last⟩ :=
    unpack_channels settings g distinct open₁
    (show opening.m = some 0 by rw [opens]) (show opening.timestampCount = 0 by rw [opens])
  have trigger : opening.headerTrigNo = readout.trigger.setWidth 32 := by rw [opens, shape]; rfl
  obtain ⟨chan, current⟩ := last (List.cons_ne_nil _ _)
  obtain ⟨next, final, done, closed, open₃, sealing⟩ :=
    unpack_trailer settings g readout.trigger open₂ pointer current (header.trans trigger)
  refine ⟨next, done, ?_, open₃, ?_⟩
  · have first : unpackWord settings unit g (builder, locals) (channelWord g data.chan) =
        unpackWord settings unit g (stamped, opening) (channelWord g data.chan) := by
      rw [opens]
      exact unpack_stamped g data.chan (by rw [shape]; exact two_ne_zero) applied
    have words : ((data :: datas).flatMap (ChannelData.encode g)).foldlM
        (unpackWord settings unit g) (builder, locals) =
        .ok (filled, between) := by
      rw [← ran, List.flatMap_cons, ChannelData.encode, List.cons_append, List.foldlM_cons,
        List.foldlM_cons, first]
    have shaped : readout.block g =
        [0x80#8 ++ readout.trigger, 0xA0#8 ++ readout.stamp.extractLsb' 0 24,
          0xA0#8 ++ readout.stamp.extractLsb' 24 24] ++
          ((data :: datas).flatMap (ChannelData.encode g) ++ [0xE0#8 ++ readout.trigger]) := by
      rw [Readout.block, if_neg active, channels]
      rfl
    rw [UnpackEvent, shaped, List.foldlM_append, unpack_front, Except.ok_bind, ← shape,
      List.foldlM_append, words, Except.ok_bind, List.foldlM_cons, closed]
    rfl
  · rw [channels]
    refine ⟨fun other member => sealing.held g other (files.held other member), ?_, ?_, ?_, ?_⟩
    · intro h ne other held
      refine sealing.held h other (held.congr ?_)
      rw [files.others, stamps.channels]
      intro mine _ same
      exact ne (chanOf_injective same).1
    · rw [sealing.seen, files.seen, if_neg (List.cons_ne_nil _ _), stamps.seen]
    · rw [sealing.trigger, files.trigger, stamps.trigger, shape]
      rfl
    · rw [sealing.complete, sealing.seen, files.complete, stamps.complete]

end Block

end PtfConverter.VF48
