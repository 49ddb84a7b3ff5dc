import PtfConverter.Model.VF48Event
import PtfConverter.ToMathlib.Transducer

/-! # UnpackVF48A: from the word stream to modules

`UnpackStream` sorts the words of a unit into one buffer for each group, as the group markers say,
and hands the words from an event header to its trailer to `UnpackEvent`, which files them in the
module of the event with that timestamp.
-/

namespace PtfConverter.VF48

/-- The bits that tell the kinds of words apart. -/
def tagOf (w : Word) : Word := w &&& 0xF0000000#32

/-- The local variables of `UnpackEvent`; the module is given by the position of its event. -/
structure Locals where
  m : Option ℕ
  chan : ℤ
  headerTrigNo : Word
  timestampCount : ℕ
  timestampFlag : Bool
  timestamp1 : Word
  timestamp2 : Word

def Locals.initial : Locals := ⟨none, -1, -1, 0, false, 0, 0⟩

/-- A channel number within the array. -/
def channel? (chan : ℤ) : Option Chan :=
  if inside : 0 ≤ chan ∧ chan < (VF48_MAX_CHANNELS : ℕ) then
    some ⟨chan.toNat, (Int.toNat_lt inside.1).mpr inside.2⟩ else none

namespace Builder

/-- Where the data words of a channel go, unless `!m || chan<0 || chan>=VF48_MAX_CHANNELS`. -/
def target (builder : Builder) (unit : UnitNo) (locals : Locals) : Option (ℕ × VF48module × Chan) := do
  let index ← locals.m
  let m ← builder.module? unit index
  let chan ← channel? locals.chan
  return (index, m, chan)

/-- The conversion of a `double` to an integer. -/
def truncate (x : ℚ) : ℤ := if 0 ≤ x then ⌊x⌋ else ⌈x⌉

/-- The module that `UnpackEvent` works on: `m`, or once it is null that of a time,
which gets the trigger. -/
def stampedModule (settings : Settings) (unit : UnitNo) (builder : Builder) (locals : Locals)
    (timestamp : ℚ) :
    Builder × ℕ :=
  match locals.m with
  | some index => (builder, index)
  | none =>
      let (builder, index) := builder.FindModule settings unit timestamp
      match builder.module? unit index with
      | some m => (builder.setModule unit index { m with
          unit := unit, trigger := locals.headerTrigNo }, index)
      | none => (builder, index)

/-- The timestamp of a group, in the module of a buffered event. -/
def stampGroup (unit : UnitNo) (cgroup : Group) (builder : Builder) (index : ℕ) (ts48 : BitVec 64)
    (timestamp : ℚ) :
    Builder :=
  match builder.module? unit index with
  | some m => builder.setModule unit index (m.stampGroup cgroup ts48 timestamp)
  | none => builder

/-- What a channel header does with the two timestamp words in front of it. -/
def applyTimestamp (settings : Settings) (unit : UnitNo) (cgroup : Group) (builder : Builder)
    (locals : Locals) :
    Builder × Locals :=
  let ts48 : BitVec 64 := locals.timestamp1.setWidth 64 ||| (locals.timestamp2.setWidth 64 <<< 24)
  let first := settings.fTimestampResyncEnable && ts48 == 0 && locals.headerTrigNo == 1
  let ts48 := if first then 1 else ts48
  let locals := if first then { locals with timestamp1 := 1 } else locals
  let builder :=
    if settings.fTimestampResyncEnable && builder.timestampBases unit == 0 then
      { builder with timestampBases := Function.update builder.timestampBases unit ts48 }
    else builder
  let last := builder.ts unit cgroup
  let builder := if ts48 = last then builder.bad else builder
  let ts48 :=
    if ts48 = last then
      last + BitVec.ofInt 64 (truncate (settings.fCoinc * settings.fFreq unit)) + 1 else ts48
  let builder :=
    { builder with ts := Function.update builder.ts unit (Function.update (builder.ts unit) cgroup ts48) }
  let timestamp : ℚ := (ts48 - builder.timestampBases unit).toNat / settings.fFreq unit
  let (builder, index) := builder.stampedModule settings unit locals timestamp
  (builder.stampGroup unit cgroup index ts48 timestamp, { locals with m := some index })

theorem group_of_channel {low cgroup : ℕ} (inside : low ||| cgroup <<< 3 < VF48_MAX_CHANNELS) :
    cgroup < VF48_MAX_GROUPS := by
  have part : cgroup <<< 3 < 48 := Nat.right_le_or.trans_lt inside
  rw [Nat.shiftLeft_eq] at part
  change cgroup < 6
  omega

/-- The end of a channel header: the channel starts over, and its group counts as seen. -/
def openChannel (unit : UnitNo) (cgroup : Group) (chan : Chan) (builder : Builder) (locals : Locals) :
    Except Fault (Builder × Locals) :=
  match locals.m with
  | none => .error .nullModule
  | some index =>
      match builder.module? unit index with
      | none => .error .nullModule
      | some m =>
          let builder := if (m.channels chan).numSamples ≠ 0 then builder.bad else builder
          .ok (builder.setModule unit index (m.startChannel cgroup chan locals.timestampFlag),
            { locals with timestampCount := 0, timestampFlag := false })

/-- A channel header: group 0 in the word stands for the group of the buffer. -/
def channelHeader (settings : Settings) (unit : UnitNo) (group : Group) (builder : Builder)
    (locals : Locals) (w : Word) : Except Fault (Builder × Locals) :=
  let field := ((w &&& 0x70#32) >>> 4).toNat
  let cgroup := if field = 0 then group.val else field
  let chan := (w &&& 0x7#32).toNat ||| cgroup <<< 3
  let locals := { locals with chan := chan }
  if inside : chan < VF48_MAX_CHANNELS then
    let cgroup : Group := ⟨cgroup, group_of_channel inside⟩
    let (builder, locals) :=
      if locals.timestampCount ≠ 0 then
        applyTimestamp settings unit cgroup builder locals else (builder, locals)
    openChannel unit cgroup ⟨chan, inside⟩ builder locals
  else .ok (builder.bad, locals)

def timestampWord (builder : Builder) (locals : Locals) (w : Word) : Builder × Locals :=
  let ts := w &&& 0x00FFFFFF#32
  let (builder, locals) :=
    if locals.timestampCount = 0 then (builder, { locals with timestamp1 := ts })
    else if locals.timestampCount = 1 then (builder, { locals with timestamp2 := ts })
    else (builder.bad, locals)
  (builder, { locals with timestampCount := locals.timestampCount + 1, timestampFlag := true })

/-- Two samples for the current channel. -/
def sampleWord (unit : UnitNo) (builder : Builder) (locals : Locals) (w : Word) : Builder :=
  match builder.target unit locals with
  | none => builder.bad
  | some (index, m, chan) =>
      let channel := m.channels chan
      let sample1 := (w &&& 0x3FFF#32).setWidth 16
      let sample2 := ((w >>> 16) &&& 0x3FFF#32).setWidth 16
      if channel.complete then (builder.setModule unit index { m with error := 1 }).bad
      else if channel.numSamples < VF48_MAX_SAMPLES - 2 then
        let samples := Function.update
          (Function.update channel.samples channel.numSamples (some sample1))
            (channel.numSamples + 1) (some sample2)
        builder.setModule unit index
          (m.setChannel chan { channel with samples := samples, numSamples := channel.numSamples + 2 })
      else
        (builder.setModule unit index
          { m.setChannel chan { channel with numSamples := channel.numSamples + 2 } with
            error := 1 }).bad

def timeWord (unit : UnitNo) (builder : Builder) (locals : Locals) (w : Word) : Builder :=
  match builder.target unit locals with
  | none => builder.bad
  | some (index, m, chan) =>
      builder.setModule unit index
        (m.setChannel chan { m.channels chan with
          time := some (w &&& 0x00FFFFFF#32), complete := true })

/-- A charge word, which may carry the suppression mask of the channel's group. -/
def chargeWord (unit : UnitNo) (builder : Builder) (locals : Locals) (w : Word) : Builder :=
  match builder.target unit locals with
  | none => builder.bad
  | some (index, m, chan) =>
      let m :=
        if w &&& 0x0F000000#32 = 0 then
          { m with
            suppressMask := Function.update m.suppressMask ⟨chan.val / 8, by omega⟩ (w &&& 0xFF#32) }
        else m
      builder.setModule unit index
        (m.setChannel chan { m.channels chan with
          charge := some (w &&& 0x00FFFFFF#32), complete := true })

/-- A trailer: the module is complete when the groups that were seen are those that are enabled. -/
def trailerWord (settings : Settings) (unit : UnitNo) (builder : Builder) (locals : Locals) (w : Word) :
    Builder × Locals :=
  match builder.target unit locals with
  | none => (builder.bad, locals)
  | some (index, m, chan) =>
      let m := m.setChannel chan { m.channels chan with complete := true }
      let matching := decide (w &&& 0x00FFFFFF#32 = locals.headerTrigNo)
      let builder := if matching then builder else builder.bad
      let m := if matching then m else { m with error := 1 }
      if m.completeGroupMask = settings.fGroupEnabled unit then
        let (complaints, m) := m.CompleteModule settings
        ({ builder.setModule unit index m with fBadDataCount := builder.fBadDataCount + complaints },
          { locals with m := none })
      else (builder.setModule unit index m, locals)

/-- A word of no known kind; the channel is looked up even when its number is bad. -/
def unexpectedWord (unit : UnitNo) (builder : Builder) (locals : Locals) (w : Word) :
    Except Fault Builder :=
  if w = 0xdeaddead ∨ w = 0xdeadbeef then .ok builder
  else match locals.m with
    | none => .ok builder.bad
    | some index =>
        match channel? locals.chan, builder.module? unit index with
        | some _, some m => .ok (builder.setModule unit index { m with error := 1 }).bad
        | _, _ => .error (.channel locals.chan)

/-- One word in `UnpackEvent`. -/
def unpackWord (settings : Settings) (unit : UnitNo) (group : Group) (state : Builder × Locals)
    (w : Word) :
    Except Fault (Builder × Locals) :=
  let (builder, locals) := state
  if tagOf w = 0xF0000000 then .ok (builder, locals)
  else if tagOf w = 0x80000000 then .ok (builder, { locals with headerTrigNo := w &&& 0x00FFFFFF#32 })
  else if tagOf w = 0xA0000000 then .ok (builder.timestampWord locals w)
  else if tagOf w = 0xC0000000 then builder.channelHeader settings unit group locals w
  else if tagOf w = 0x00000000 then .ok (builder.sampleWord unit locals w, locals)
  else if tagOf w = 0x40000000 then .ok (builder.timeWord unit locals w, locals)
  else if tagOf w = 0x50000000 then .ok (builder.chargeWord unit locals w, locals)
  else if tagOf w = 0xE0000000 then .ok (builder.trailerWord settings unit locals w)
  else do
    let builder ← builder.unexpectedWord unit locals w
    return (builder, locals)

/-- `UnpackEvent` on the words of one group. -/
def UnpackEvent (settings : Settings) (builder : Builder) (unit : UnitNo) (group : Group)
    (data : List Word) :
    Except Fault Builder := do
  let (builder, _) ← data.foldlM (unpackWord settings unit group) (builder, .initial)
  return builder

end Builder

/-- The words of a unit that wait for a trailer: `wbuf` up to `wptr`, once it is allocated. -/
structure Stream where
  wgrp : ℕ
  wbuf : Group → Option (List Word)
  wacc : Group → Bool

namespace Stream

def initial : Stream := ⟨0, fun _ => none, fun _ => false⟩

/-- The words for which `NewGroup` allocates memory; `wmax` counts bytes. -/
def wmaxWords : ℕ := (VF48_MAX_SAMPLES * 2 * VF48_MAX_CHANNELS + 1024) / 4

def wptr (stream : Stream) (grp : Group) : ℕ := ((stream.wbuf grp).getD []).length

/-- `NewGroup`: the current group, with a buffer. -/
def NewGroup (stream : Stream) : Except Fault (Stream × Group) :=
  if inside : stream.wgrp < VF48_MAX_GROUPS then
    let grp : Group := ⟨stream.wgrp, inside⟩
    if (stream.wbuf grp).isNone then
      .ok (⟨stream.wgrp, Function.update stream.wbuf grp (some []),
        Function.update stream.wacc grp false⟩, grp)
    else .ok (stream, grp)
  else .error .assertion

/-- `wbuf[unit][grp][wptr[unit][grp]++] = w`. -/
def append (stream : Stream) (grp : Group) (w : Word) : Except Fault Stream :=
  match stream.wbuf grp with
  | none => .error (.wbuf 0)
  | some words =>
      if words.length < wmaxWords then
        .ok { stream with wbuf := Function.update stream.wbuf grp (some (words ++ [w])) }
      else .error (.wbuf words.length)

/-- `wptr[unit][grp] = 0`. -/
def clear (stream : Stream) (grp : Group) : Stream :=
  { stream with wbuf := Function.update stream.wbuf grp ((stream.wbuf grp).map fun _ => []) }

def setAcc (stream : Stream) (grp : Group) (wacc : Bool) : Stream :=
  { stream with wacc := Function.update stream.wacc grp wacc }

/-- One word in `UnpackStream`, with the current group. -/
def step (settings : Settings) (unit : UnitNo) (state : Stream × Builder × Group) (w : Word) :
    Except Fault (Stream × Builder × Group) :=
  let (stream, builder, grp) := state
  if tagOf w = 0xF0000000 then do
    let (stream, grp) ← NewGroup { stream with wgrp := (w &&& 0x00000007#32).toNat }
    return (stream, builder, grp)
  else if tagOf w = 0x80000000 then do
    let (stream, builder) ←
      if 1 < stream.wptr grp then do
        let builder ← builder.UnpackEvent settings unit grp ((stream.wbuf grp).getD [])
        pure (stream.clear grp, builder)
      else pure (stream, builder)
    let stream ← (stream.setAcc grp true).append grp w
    return (stream, builder, grp)
  else if tagOf w = 0xE0000000 then do
    let stream ← stream.append grp w
    let builder ← builder.UnpackEvent settings unit grp ((stream.wbuf grp).getD [])
    return ((stream.clear grp).setAcc grp false, builder, grp)
  else if stream.wacc grp then do
    let stream ← stream.append grp w
    return (stream, builder, grp)
  else .ok (stream, builder, grp)

end Stream

structure UnpackVF48 where
  settings : Settings
  builder : Builder
  streams : UnitNo → Stream

namespace UnpackVF48

/-- The constructor. -/
def new : UnpackVF48 := ⟨.initial, .initial, fun _ => .initial⟩

/-- `UnpackStream` on the words of a unit. -/
def UnpackStream (self : UnpackVF48) (unit : UnitNo) (data : List Word) : Except Fault UnpackVF48 := do
  let (stream, grp) ← (self.streams unit).NewGroup
  let (stream, builder, _) ← data.foldlM (Stream.step self.settings unit) (stream, self.builder, grp)
  return { self with builder := builder, streams := Function.update self.streams unit stream }

/-- `ResetStreamBuffer`: the buffers stay allocated. -/
def ResetStreamBuffer (self : UnpackVF48) : UnpackVF48 :=
  { self with
    streams := fun unit =>
      ⟨0, fun grp => ((self.streams unit).wbuf grp).map fun _ => [], fun _ => false⟩ }

/-- `Reset`: no events, no words and no times; the enabled channels are those of the enabled
groups. -/
def Reset (self : UnpackVF48) : UnpackVF48 :=
  { self.ResetStreamBuffer with
    settings :=
      { self.settings with
        fChanEnabled := fun unit chan =>
          self.settings.fGroupEnabled unit &&& (1#32 <<< (chan.val / 8)) != 0 }
    builder := .initial }

end UnpackVF48

end PtfConverter.VF48
