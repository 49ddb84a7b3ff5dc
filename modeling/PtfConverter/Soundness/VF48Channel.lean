import PtfConverter.Model.UnpackVF48A
import PtfConverter.ToMathlib.BitFields

/-! # The words of a channel are filed in its module

The VF48 sends a block of words for each group of a trigger: a header, two timestamp words, the
channels, and a trailer. On the words of the channels, `UnpackEvent` stores every channel in the
module of the trigger. The invariant over the words is `Building`: the buffer is one event, which
holds one module.
-/

namespace PtfConverter.VF48

/-- Two samples in one word, the earlier one in the low half. -/
def packWord (first second : BitVec 12) : Word := (0#4 ++ second) ++ (0#4 ++ first)

def packSamples : List (BitVec 12) → List Word
  | first :: second :: rest => packWord first second :: packSamples rest
  | _ => []

/-- A channel of a group: an even number of samples that fit the array, and its two results. -/
structure ChannelData where
  chan : Fin 8
  samples : List (BitVec 12)
  time : BitVec 24
  charge : BitVec 24
  even : 2 ∣ samples.length
  fits : samples.length ≤ 1098

/-- The channel's place in its module. -/
def chanOf (g : Group) (chan : Fin 8) : Chan := ⟨8 * g.val + chan.val, by omega⟩

def channelWord (g : Group) (chan : Fin 8) : Word :=
  BitVec.ofNat 32 (0xC0000000 + 16 * g.val + chan.val)

def ChannelData.encode (g : Group) (data : ChannelData) : List Word :=
  channelWord g data.chan :: (packSamples data.samples ++ [0x40#8 ++ data.time, 0x50#8 ++ data.charge])

/-- What one trigger reads out: a positive timestamp, and the channels of the groups of a mask. -/
structure Readout (mask : Word) where
  trigger : BitVec 24
  stamp : BitVec 48
  channels : Group → List ChannelData
  positive : 0 < stamp
  enabled : ∀ g, channels g ≠ [] ↔ mask.getLsbD g.val = true
  distinct : ∀ g, ((channels g).map ChannelData.chan).Nodup

/-- The block of an enabled group. -/
def Readout.block {mask : Word} (readout : Readout mask) (g : Group) : List Word :=
  if readout.channels g = [] then []
  else
    (0x80#8 ++ readout.trigger) :: (0xA0#8 ++ readout.stamp.extractLsb' 0 24) ::
      (0xA0#8 ++ readout.stamp.extractLsb' 24 24) ::
      ((readout.channels g).flatMap (ChannelData.encode g) ++ [0xE0#8 ++ readout.trigger])

theorem tagOf_of_nibble {w : Word} (nibble : ℕ) (high : w.toNat / 2 ^ 28 = nibble) :
    tagOf w = BitVec.ofNat 32 (nibble * 2 ^ 28) := by
  have small := w.isLt
  apply BitVec.eq_of_toNat_eq
  rw [tagOf, BitVec.toNat_and_field _ 0xF0000000 28 4 rfl (by decide), BitVec.toNat_ofNat]
  omega

theorem tagOf_append (tag : BitVec 8) (value : BitVec 24) :
    tagOf (tag ++ value) = BitVec.ofNat 32 (tag.toNat / 16 * 2 ^ 28) := by
  have small := value.isLt
  refine tagOf_of_nibble _ ?_
  rw [BitVec.toNat_append_eq]
  omega

theorem low_append (tag : BitVec 8) (value : BitVec 24) :
    (tag ++ value) &&& 0x00FFFFFF#32 = value.setWidth 32 := by
  have small := value.isLt
  apply BitVec.eq_of_toNat_eq
  rw [BitVec.toNat_and_low _ 0xFFFFFF 24 rfl (by decide), BitVec.toNat_append_eq, BitVec.toNat_setWidth]
  omega

private theorem packWord_toNat (first second : BitVec 12) :
    (packWord first second).toNat = second.toNat * 2 ^ 16 + first.toNat := by
  simp only [packWord, BitVec.toNat_append_eq, BitVec.toNat_ofNat]
  omega

theorem packWord_tag (first second : BitVec 12) : tagOf (packWord first second) = 0x00000000 := by
  have low := first.isLt
  have high := second.isLt
  exact tagOf_of_nibble 0 (by rw [packWord_toNat]; omega)

private theorem packWord_low (first second : BitVec 12) :
    (packWord first second &&& 0x3FFF#32).setWidth 16 = first.setWidth 16 := by
  have low := first.isLt
  apply BitVec.eq_of_toNat_eq
  rw [BitVec.toNat_setWidth, BitVec.toNat_and_low _ 0x3FFF 14 rfl (by decide), packWord_toNat,
    BitVec.toNat_setWidth]
  omega

private theorem packWord_high (first second : BitVec 12) :
    ((packWord first second >>> 16) &&& 0x3FFF#32).setWidth 16 = second.setWidth 16 := by
  have low := first.isLt
  have high := second.isLt
  apply BitVec.eq_of_toNat_eq
  rw [BitVec.toNat_setWidth, BitVec.toNat_and_low _ 0x3FFF 14 rfl (by decide), BitVec.toNat_ushiftRight,
    packWord_toNat, BitVec.toNat_setWidth, Nat.shiftRight_eq_div_pow]
  omega

private theorem channelWord_toNat (g : Group) (chan : Fin 8) :
    (channelWord g chan).toNat = 0xC0000000 + 16 * g.val + chan.val := by
  rw [channelWord, BitVec.toNat_ofNat]
  omega

theorem channelWord_tag (g : Group) (chan : Fin 8) : tagOf (channelWord g chan) = 0xC0000000 :=
  tagOf_of_nibble 12 (by rw [channelWord_toNat]; omega)

/-- The group field of a channel header. -/
private theorem channelWord_group (g : Group) (chan : Fin 8) :
    (((channelWord g chan) &&& 0x70#32) >>> 4).toNat = g.val := by
  rw [BitVec.toNat_ushiftRight, BitVec.toNat_and_field _ 0x70 4 3 rfl (by decide), channelWord_toNat,
    Nat.shiftRight_eq_div_pow]
  omega

/-- The channel number of a channel header. -/
private theorem channelWord_chan (g : Group) (chan : Fin 8) :
    ((channelWord g chan) &&& 0x7#32).toNat ||| g.val <<< 3 = (chanOf g chan).val := by
  have low : ((channelWord g chan) &&& 0x7#32).toNat = chan.val := by
    rw [BitVec.toNat_and_low _ 0x7 3 rfl (by decide), channelWord_toNat]
    omega
  rw [low, Nat.or_comm, ← Nat.shiftLeft_add_eq_or_of_lt chan.isLt, Nat.shiftLeft_eq]
  change g.val * 8 + chan.val = 8 * g.val + chan.val
  omega

namespace VF48module

@[simp] theorem setChannel_channels (m : VF48module) (chan : Chan) (channel : VF48channel) :
    (m.setChannel chan channel).channels chan = channel := Function.update_self ..

theorem setChannel_other {m : VF48module} {chan other : Chan} (channel : VF48channel)
    (ne : other ≠ chan) :
    (m.setChannel chan channel).channels other = m.channels other := Function.update_of_ne ne ..

@[simp] theorem setChannel_setChannel (m : VF48module) (chan : Chan) (first second : VF48channel) :
    (m.setChannel chan first).setChannel chan second = m.setChannel chan second := by
  simp only [setChannel, Function.update_idem]

theorem setChannel_self (m : VF48module) (chan : Chan) : m.setChannel chan (m.channels chan) = m := by
  rw [setChannel, Function.update_eq_self]

end VF48module

/-- The buffer is one event of a time, which holds one module; the base and the last times of its
unit. -/
structure Building (unit : UnitNo) (time : ℚ) (base : BitVec 64) (ts : Group → BitVec 64)
    (builder : Builder) (m : VF48module) : Prop where
  event : ∃ event, builder.fBuffer = [event] ∧ event.timestamp = time ∧
    event.modules = Function.update (fun _ => none) unit (some m)
  base : builder.timestampBases unit = base
  ts : ∀ g, builder.ts unit g = ts g

namespace Building

variable {unit : UnitNo} {time : ℚ} {base : BitVec 64} {ts : Group → BitVec 64} {builder : Builder}
  {m : VF48module}

theorem module? (building : Building unit time base ts builder m) :
    builder.module? unit 0 = some m := by
  obtain ⟨event, buffer, _, modules⟩ := building.event
  rw [Builder.module?, buffer, List.getElem?_cons_zero, Option.bind_some, modules, Function.update_self]

theorem setModule (building : Building unit time base ts builder m) (next : VF48module) :
    Building unit time base ts (builder.setModule unit 0 next) next := by
  obtain ⟨⟨event, buffer, stamped, modules⟩, bases, times⟩ := building
  refine ⟨⟨{ event with modules := Function.update event.modules unit (some next) }, ?_, stamped,
    ?_⟩, bases, times⟩
  · rw [Builder.setModule, buffer]
    rfl
  · rw [modules, Function.update_idem]

theorem count (building : Building unit time base ts builder m) (complaints : ℕ) :
    Building unit time base ts { builder with fBadDataCount := complaints } m :=
  ⟨building.event, building.base, building.ts⟩

theorem target (building : Building unit time base ts builder m) {locals : Locals}
    (pointer : locals.m = some 0) {chan : Chan} (current : locals.chan = chan.val) :
    builder.target unit locals = some (0, m, chan) := by
  have inside : channel? locals.chan = some chan := by
    have small : 0 ≤ (chan.val : ℤ) ∧ (chan.val : ℤ) < (VF48_MAX_CHANNELS : ℕ) :=
      ⟨by omega, by exact_mod_cast chan.isLt⟩
    rw [channel?, current, dif_pos small]
    congr 1
  rw [Builder.target, pointer, Option.bind_eq_bind, Option.bind_some, building.module?,
    Option.bind_eq_bind, Option.bind_some, inside]
  rfl

end Building

/-- A module holds the data of a channel. -/
structure Holds (m : VF48module) (g : Group) (data : ChannelData) : Prop where
  channel : (m.channels (chanOf g data.chan)).channel = (chanOf g data.chan).val
  numSamples : (m.channels (chanOf g data.chan)).numSamples = data.samples.length
  samples : ∀ i (inside : i < data.samples.length),
    (m.channels (chanOf g data.chan)).samples i = some (data.samples[i].setWidth 16)
  time : (m.channels (chanOf g data.chan)).time = some (data.time.setWidth 32)
  charge : (m.channels (chanOf g data.chan)).charge = some (data.charge.setWidth 32)

theorem Holds.congr {m next : VF48module} {g : Group} {data : ChannelData} (held : Holds m g data)
    (same : next.channels (chanOf g data.chan) = m.channels (chanOf g data.chan)) :
    Holds next g data := by
  obtain ⟨channel, numSamples, samples, time, charge⟩ := held
  refine ⟨?_, ?_, ?_, ?_, ?_⟩ <;> rw [same] <;> assumption

/-- What filing some channels of a group does to a module. -/
structure Files (g : Group) (datas : List ChannelData) (m next : VF48module) : Prop where
  held : ∀ data ∈ datas, Holds next g data
  others : ∀ chan, (∀ data ∈ datas, chan ≠ chanOf g data.chan) → next.channels chan = m.channels chan
  seen : next.completeGroupMask = if datas = [] then
    m.completeGroupMask else m.completeGroupMask ||| 1#32 <<< g.val
  trigger : next.trigger = m.trigger
  complete : next.complete = m.complete

theorem chanOf_injective {g h : Group} {c d : Fin 8} (same : chanOf g c = chanOf h d) :
    g = h ∧ c = d := by
  have value : 8 * g.val + c.val = 8 * h.val + d.val := congrArg Fin.val same
  refine ⟨Fin.ext ?_, Fin.ext ?_⟩ <;> omega

theorem Files.cons {g : Group} {data : ChannelData} {datas : List ChannelData}
    {m middle next : VF48module} (first : Files g [data] m middle)
    (rest : Files g datas middle next) (distinct : data.chan ∉ datas.map ChannelData.chan) :
    Files g (data :: datas) m next := by
  have apart : ∀ other ∈ datas, chanOf g data.chan ≠ chanOf g other.chan := by
    intro other member same
    exact distinct (List.mem_map.mpr ⟨other, member, (chanOf_injective same).2.symm⟩)
  refine ⟨List.forall_mem_cons.mpr ⟨?_, rest.held⟩, fun chan ne => ?_, ?_,
    rest.trigger.trans first.trigger,
    rest.complete.trans first.complete⟩
  · exact (first.held data List.mem_cons_self).congr (rest.others _ apart)
  · obtain ⟨here, later⟩ := List.forall_mem_cons.mp ne
    rw [rest.others chan later, first.others chan (List.forall_mem_singleton.mpr here)]
  · rw [rest.seen, first.seen, if_neg (List.cons_ne_nil _ _), if_neg (List.cons_ne_nil _ _)]
    split_ifs
    · rfl
    · rw [BitVec.or_assoc, BitVec.or_self]

section Words

open Builder

variable {settings : Settings} {unit : UnitNo} {group : Group} {time : ℚ} {base : BitVec 64}
  {ts : Group → BitVec 64} {builder : Builder} {m : VF48module} {locals : Locals} {chan : Chan}

-- The kinds of words, by their tags.

theorem unpackWord_header {w : Word} (tag : tagOf w = 0x80000000) :
    unpackWord settings unit group (builder, locals) w =
      .ok (builder, { locals with headerTrigNo := w &&& 0x00FFFFFF#32 }) := by
  simp only [unpackWord, tag]
  rfl

theorem unpackWord_timestamp {w : Word} (tag : tagOf w = 0xA0000000) :
    unpackWord settings unit group (builder, locals) w = .ok (builder.timestampWord locals w) := by
  simp only [unpackWord, tag]
  rfl

theorem unpackWord_channel {w : Word} (tag : tagOf w = 0xC0000000) :
    unpackWord settings unit group (builder, locals) w =
      channelHeader settings unit group builder locals w := by
  simp only [unpackWord, tag]
  rfl

theorem unpackWord_sample {w : Word} (tag : tagOf w = 0x00000000) :
    unpackWord settings unit group (builder, locals) w =
      .ok (builder.sampleWord unit locals w, locals) := by
  simp only [unpackWord, tag]
  rfl

theorem unpackWord_time {w : Word} (tag : tagOf w = 0x40000000) :
    unpackWord settings unit group (builder, locals) w =
      .ok (builder.timeWord unit locals w, locals) := by
  simp only [unpackWord, tag]
  rfl

theorem unpackWord_charge {w : Word} (tag : tagOf w = 0x50000000) :
    unpackWord settings unit group (builder, locals) w =
      .ok (builder.chargeWord unit locals w, locals) := by
  simp only [unpackWord, tag]
  rfl

theorem unpackWord_trailer {w : Word} (tag : tagOf w = 0xE0000000) :
    unpackWord settings unit group (builder, locals) w =
      .ok (builder.trailerWord settings unit locals w) := by
  simp only [unpackWord, tag]
  rfl

/-- The channel with the two samples of a word behind those that it has. -/
def withPair (channel : VF48channel) (first second : BitVec 12) : VF48channel :=
  { channel with
    samples := Function.update
      (Function.update channel.samples channel.numSamples (some (first.setWidth 16)))
      (channel.numSamples + 1) (some (second.setWidth 16))
    numSamples := channel.numSamples + 2 }

section WithPair

variable (channel : VF48channel) (first second : BitVec 12)

theorem withPair_first :
    (withPair channel first second).samples channel.numSamples = some (first.setWidth 16) := by
  rw [withPair]
  change Function.update _ _ _ _ = _
  rw [Function.update_of_ne (by omega), Function.update_self]

theorem withPair_second :
    (withPair channel first second).samples (channel.numSamples + 1) = some (second.setWidth 16) := by
  rw [withPair]
  change Function.update _ _ _ _ = _
  rw [Function.update_self]

theorem withPair_before {i : ℕ} (before : i < channel.numSamples) :
    (withPair channel first second).samples i = channel.samples i := by
  rw [withPair]
  change Function.update _ _ _ _ = _
  rw [Function.update_of_ne (by omega), Function.update_of_ne (by omega)]

end WithPair

private theorem unpackWord_pair (settings : Settings) (group : Group) (first second : BitVec 12)
    (building : Building unit time base ts builder m) (pointer : locals.m = some 0)
    (current : locals.chan = chan.val) (unfinished : (m.channels chan).complete = false)
    (few : (m.channels chan).numSamples < VF48_MAX_SAMPLES - 2) :
    unpackWord settings unit group (builder, locals) (packWord first second) =
      .ok (builder.setModule unit 0 (m.setChannel chan (withPair (m.channels chan) first second)),
        locals) := by
  rw [unpackWord_sample (packWord_tag first second), sampleWord, building.target pointer current]
  simp only [withPair, unfinished, packWord_low, packWord_high, if_pos few]
  rfl

/-- The sample words of an open channel go into its array, in order. -/
private theorem unpack_samples (settings : Settings) (group : Group) {samples : List (BitVec 12)}
    (even : 2 ∣ samples.length) (building : Building unit time base ts builder m)
    (pointer : locals.m = some 0) (current : locals.chan = chan.val)
    (unfinished : (m.channels chan).complete = false)
    (room : (m.channels chan).numSamples + samples.length ≤ 1098) :
    ∃ next stored, (packSamples samples).foldlM (unpackWord settings unit group)
      (builder, locals) = .ok (next, locals) ∧
      Building unit time base ts next (m.setChannel chan { m.channels chan with
        numSamples := (m.channels chan).numSamples + samples.length, samples := stored }) ∧
      (∀ i (inside : i < samples.length), stored ((m.channels chan).numSamples + i) =
        some (samples[i].setWidth 16)) ∧
      ∀ i < (m.channels chan).numSamples, stored i = (m.channels chan).samples i := by
  induction samples using packSamples.induct generalizing builder m with
  | case1 first second rest ih =>
    obtain ⟨pairs, length⟩ := even
    rw [List.length_cons, List.length_cons] at length room
    have few : (m.channels chan).numSamples < VF48_MAX_SAMPLES - 2 := by
      change _ < 1098
      omega
    have stepped := unpackWord_pair settings group first second building pointer current unfinished few
    obtain ⟨filled, shape⟩ : ∃ filled, filled = withPair (m.channels chan) first second := ⟨_, rfl⟩
    have count : filled.numSamples = (m.channels chan).numSamples + 2 := by
      rw [shape]
      rfl
    rw [← shape] at stepped
    have later := ih (m := m.setChannel chan filled) ⟨pairs - 1, by omega⟩ (building.setModule _)
      (by rw [VF48module.setChannel_channels, shape]; exact unfinished)
      (by rw [VF48module.setChannel_channels, count]; omega)
    simp only [VF48module.setChannel_channels, VF48module.setChannel_setChannel, count] at later
    obtain ⟨next, stored, ran, built, new, old⟩ := later
    refine ⟨next, stored, ?_, ?_, ?_, ?_⟩
    · rw [packSamples, List.foldlM_cons, stepped, Except.ok_bind, ran]
    · have same : { filled with
          numSamples := (m.channels chan).numSamples + 2 + rest.length, samples := stored } =
          { m.channels chan with
            numSamples := (m.channels chan).numSamples + (first :: second :: rest).length,
            samples := stored } := by
        rw [shape, withPair, List.length_cons, List.length_cons]
        congr 1
        omega
      rw [same] at built
      exact built
    · intro i inside
      match i with
      | 0 =>
        rw [Nat.add_zero, old _ (by omega), shape]
        exact withPair_first _ first second
      | 1 =>
        rw [old _ (by omega), shape]
        exact withPair_second _ first second
      | i + 2 =>
        have place : (m.channels chan).numSamples + (i + 2) =
          (m.channels chan).numSamples + 2 + i := by omega
        rw [place, new i (by rw [List.length_cons, List.length_cons] at inside; omega)]
        rfl
    · intro i before
      rw [old i (by omega), shape]
      exact withPair_before _ first second before
  | case2 samples short =>
    match samples, even, short with
    | [], _, _ =>
      refine ⟨builder, (m.channels chan).samples, rfl, ?_, ?_, fun _ _ => rfl⟩
      · rw [List.length_nil, Nat.add_zero, VF48module.setChannel_self]
        exact building
      · intro i inside
        cases inside
    | [_], even, _ =>
      rw [List.length_singleton] at even
      omega
    | first :: second :: rest, _, short => exact absurd rfl (short first second rest)

private theorem unpack_time (settings : Settings) (group : Group) (time24 : BitVec 24)
    (building : Building unit time base ts builder m) (pointer : locals.m = some 0)
    (current : locals.chan = chan.val) :
    ∃ next, unpackWord settings unit group (builder, locals) (0x40#8 ++ time24) = .ok (next, locals) ∧
      Building unit time base ts next
        (m.setChannel chan { m.channels chan with
          time := some (time24.setWidth 32), complete := true }) := by
  rw [unpackWord_time (tagOf_append 0x40#8 time24), timeWord, building.target pointer current]
  simp only [low_append]
  exact ⟨_, rfl, building.setModule _⟩

/-- A charge word may also set the suppression mask, which no channel shows. -/
private theorem unpack_charge (settings : Settings) (group : Group) (charge : BitVec 24)
    (building : Building unit time base ts builder m) (pointer : locals.m = some 0)
    (current : locals.chan = chan.val) :
    ∃ next masks, unpackWord settings unit group (builder, locals) (0x50#8 ++ charge) =
      .ok (next, locals) ∧
      Building unit time base ts next ({ m with suppressMask := masks }.setChannel chan
        { m.channels chan with charge := some (charge.setWidth 32), complete := true }) := by
  rw [unpackWord_charge (tagOf_append 0x50#8 charge), chargeWord, building.target pointer current]
  simp only [low_append]
  split_ifs
  · exact ⟨_, _, rfl, building.setModule _⟩
  · exact ⟨_, m.suppressMask, rfl, building.setModule _⟩

/-- A channel header of the block's own group names its channel. -/
theorem channelHeader_eq (g : Group) (c : Fin 8) (builder : Builder) (locals : Locals) :
    channelHeader settings unit g builder locals (channelWord g c) =
      (fun state : Builder × Locals => openChannel unit g (chanOf g c) state.1 state.2)
        (if locals.timestampCount ≠ 0 then
          applyTimestamp settings unit g builder { locals with chan := (chanOf g c).val }
        else (builder, { locals with chan := (chanOf g c).val })) := by
  have inside : (chanOf g c).val < VF48_MAX_CHANNELS := (chanOf g c).isLt
  unfold channelHeader
  simp only [channelWord_group, ite_self, channelWord_chan, dif_pos inside]

private theorem openChannel_building (g : Group) (chan : Chan)
    (building : Building unit time base ts builder m) (pointer : locals.m = some 0) :
    ∃ next, openChannel unit g chan builder locals =
        .ok (next, { locals with timestampCount := 0, timestampFlag := false }) ∧
      Building unit time base ts next (m.startChannel g chan locals.timestampFlag) := by
  unfold openChannel
  simp only [pointer, building.module?]
  refine ⟨_, rfl, ?_⟩
  split_ifs
  · exact (building.count (builder.fBadDataCount + 1)).setModule _
  · exact building.setModule _

/-- The words of a channel file it in the module. -/
private theorem unpack_channel (settings : Settings) (g : Group) (data : ChannelData)
    (building : Building unit time base ts builder m) (pointer : locals.m = some 0)
    (unstamped : locals.timestampCount = 0) :
    ∃ next following filed, (data.encode g).foldlM (unpackWord settings unit g) (builder, locals) =
      .ok (next, following) ∧
      Building unit time base ts next filed ∧ Files g [data] m filed ∧ following.m = some 0 ∧
      following.timestampCount = 0 ∧ following.chan = (chanOf g data.chan).val ∧
      following.headerTrigNo = locals.headerTrigNo := by
  obtain ⟨chan, place⟩ : ∃ chan, chan = chanOf g data.chan := ⟨_, rfl⟩
  obtain ⟨opened, header, open₁⟩ := openChannel_building g chan building
    (show { locals with chan := chan.val }.m = some 0 from pointer)
  obtain ⟨following, shape⟩ : ∃ following : Locals, following =
    { locals with chan := chan.val, timestampCount := 0, timestampFlag := false } := ⟨_, rfl⟩
  have word : unpackWord settings unit g (builder, locals) (channelWord g data.chan) =
      .ok (opened, following) := by
    rw [unpackWord_channel (channelWord_tag g data.chan), channelHeader_eq,
      if_neg (not_not.mpr unstamped), ← place, shape]
    exact header
  have current : following.chan = chan.val := by rw [shape]
  have pointed : following.m = some 0 := by rw [shape]; exact pointer
  have empty : (m.startChannel g chan locals.timestampFlag).channels chan =
      { m.channels chan with complete := false, numSamples := 0, channel := chan.val } :=
        Function.update_self ..
  obtain ⟨filled, stored, samplesRan, open₂, values, _⟩ :=
    unpack_samples settings g data.even open₁ pointed current
    (by rw [empty]) (by rw [empty, Nat.zero_add]; exact data.fits)
  obtain ⟨timed, timeRan, open₃⟩ := unpack_time settings g data.time open₂ pointed current
  obtain ⟨charged, masks, chargeRan, open₄⟩ :=
    unpack_charge settings g data.charge open₃ pointed current
  refine ⟨charged, following, _, ?_, open₄, ?_, pointed, by rw [shape], by rw [current, place], by
    rw [shape]⟩
  · rw [ChannelData.encode, List.foldlM_cons, word, Except.ok_bind, List.foldlM_append, samplesRan,
      Except.ok_bind, List.foldlM_cons, timeRan, Except.ok_bind, List.foldlM_cons, chargeRan,
      Except.ok_bind]
    rfl
  · simp only [empty, Nat.zero_add] at values
    refine ⟨List.forall_mem_singleton.mpr ⟨?_, ?_, ?_, ?_, ?_⟩, ?_, rfl, rfl, rfl⟩
    · rw [← place]
      simp only [VF48module.setChannel_channels, empty]
    · rw [← place]
      simp only [VF48module.setChannel_channels, empty, Nat.zero_add]
    · rw [← place]
      simp only [VF48module.setChannel_channels]
      exact values
    · rw [← place]
      simp only [VF48module.setChannel_channels]
    · rw [← place]
      simp only [VF48module.setChannel_channels]
    · intro other away
      have ne := List.forall_mem_singleton.mp away
      rw [← place] at ne
      rw [VF48module.setChannel_other _ ne]
      change (VF48module.setChannel _ chan _).channels other = _
      rw [VF48module.setChannel_other _ ne, VF48module.setChannel_other _ ne]
      exact Function.update_of_ne ne ..

/-- The words of several channels of a group file each of them. -/
theorem unpack_channels (settings : Settings) (g : Group) {datas : List ChannelData}
    (distinct : (datas.map ChannelData.chan).Nodup)
    (building : Building unit time base ts builder m) (pointer : locals.m = some 0)
    (unstamped : locals.timestampCount = 0) :
    ∃ next following filed,
      (datas.flatMap (ChannelData.encode g)).foldlM (unpackWord settings unit g)
        (builder, locals) = .ok (next, following) ∧
      Building unit time base ts next filed ∧ Files g datas m filed ∧ following.m = some 0 ∧
      following.headerTrigNo = locals.headerTrigNo ∧
      (datas ≠ [] → ∃ chan : Chan, following.chan = chan.val) := by
  induction datas generalizing builder m locals with
  | nil =>
    refine ⟨builder, locals, m, rfl, building, ⟨?_, fun _ _ => rfl, ?_, rfl, rfl⟩, pointer, rfl,
      fun some => absurd rfl some⟩
    · intro data member
      cases member
    · rw [if_pos rfl]
  | cons data datas ih =>
    rw [List.map_cons, List.nodup_cons] at distinct
    obtain ⟨middle, between, one, ran, built, first, pointed, still, current, trigger⟩ :=
      unpack_channel settings g data building pointer unstamped
    obtain ⟨next, following, filed, laterRan, laterBuilt, rest, laterPointed, laterTrigger, last⟩ :=
      ih distinct.2 built pointed still
    refine ⟨next, following, filed, ?_, laterBuilt, first.cons rest distinct.1, laterPointed,
      laterTrigger.trans trigger, fun _ => ?_⟩
    · rw [List.flatMap_cons, List.foldlM_append, ran, Except.ok_bind, laterRan]
    · cases datas with
      | nil =>
        cases laterRan
        exact ⟨_, current⟩
      | cons other others => exact last (List.cons_ne_nil _ _)

end Words

end PtfConverter.VF48
