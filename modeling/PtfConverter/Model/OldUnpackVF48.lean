import PtfConverter.Model.OldVF48Event

/-! # UnpackVF48: from the words of a unit to modules

`UnpackVF48` goes through the words of a unit. The words of each group have their own context, which
says what was read last, and the static pointer `c` says which context the next word belongs to:
it stays where it is between calls, also between calls for different units. A module that is complete
goes to `AddToEvent`. The tables of the file are kept together for each unit.
-/

namespace PtfConverter.OldVF48

open VF48

/-- The fields of `Context` that are read, without `module`: it is always the unit of the table
that `c` points into. -/
structure Context where
  group : Group
  headerTrigNo : Word
  timestampCount : ℕ
  timestamp1 : Word
  timestamp2 : Word
  timestampFlag : Bool
  currentGroup : Group
  currentChannel : Chan
  accept : Bool

/-- A static context is zero. -/
def Context.initial : Context := ⟨0, 0, 0, 0, 0, false, 0, 0, false⟩

/-- `Init` leaves the group and `timestampFlag`. -/
def Context.Init (ctx : Context) : Context :=
  { ctx with
    headerTrigNo := 0
    timestampCount := 0
    timestamp1 := 0
    timestamp2 := 0
    currentGroup := 0
    currentChannel := 0
    accept := false }

/-- The entries of a unit in the tables of the file. -/
structure UnitTables where
  gContexts : Group → Context
  gNewEvb : Bool
  timestampBases : BitVec 64
  ts : Group → BitVec 64

def UnitTables.initial : UnitTables := ⟨fun _ => .initial, false, 0, fun _ => 0⟩

/-- What `UnpackVF48` works on: the tables of the unit, its module, and the group that `c` points
to. -/
structure Decoder extends UnitTables where
  m : VF48module
  c : Group

/-- The group that a marker names, when there is one of that number. -/
def markedGroup? (w : Word) : Option Group :=
  let group := (w &&& 0x00000007#32).toNat
  if inside : group < VF48_MAX_GROUPS then some ⟨group, inside⟩ else none

namespace Decoder

/-- `*c`. -/
def ctx (decoder : Decoder) : Context := decoder.gContexts decoder.c

def setCtx (decoder : Decoder) (ctx : Context) : Decoder :=
  { decoder with gContexts := Function.update decoder.gContexts decoder.c ctx }

/-- The current channel of the module. -/
def channel (decoder : Decoder) : VF48channel := decoder.m.channels decoder.ctx.currentChannel

def setChannel (decoder : Decoder) (channel : VF48channel) : Decoder :=
  { decoder with m := decoder.m.setChannel decoder.ctx.currentChannel channel }

/-- The words behind a marker belong to its group. -/
def switchGroup (decoder : Decoder) (group : Group) : Decoder :=
  { decoder with
    c := group
    gContexts := Function.update decoder.gContexts group { decoder.gContexts group with
      group := group, currentGroup := group }
    gNewEvb := true }

/-- The words up to the next header are skipped. -/
def reject (decoder : Decoder) : Decoder :=
  { decoder.setCtx { decoder.ctx with accept := false } with m := { decoder.m with error := 1 } }

/-- An event header; a trigger in the module of another event, or with this group done, is
complete. -/
def header (run : RunSettings) (unit : UnitNo) (decoder : Decoder) (w : Word) :
    Decoder × List VF48module :=
  let trigNo := w &&& 0x00FFFFFF#32
  let finished := decide (decoder.m.trigger ≠ 0) &&
    (!decoder.gNewEvb || decide (decoder.m.completeGroupMask &&& (1#32 <<< decoder.ctx.group.val) ≠ 0))
  let m := if finished then .new unit else decoder.m
  ({ decoder.setCtx { decoder.ctx.Init with accept := true, headerTrigNo := trigNo } with
    m := { m with trigger := trigNo } },
    if finished then [decoder.m.Complete run] else [])

def timestampWord (decoder : Decoder) (w : Word) : Decoder :=
  let ts := w &&& 0x00FFFFFF#32
  let ctx := decoder.ctx
  let ctx :=
    if ctx.timestampCount = 0 then { ctx with timestamp1 := ts }
    else if ctx.timestampCount = 1 then { ctx with timestamp2 := ts }
    else ctx
  decoder.setCtx { ctx with timestampFlag := true, timestampCount := ctx.timestampCount + 1 }

/-- What a channel header does with the timestamp words in front of it. -/
def applyTimestamp (settings : Settings) (unit : UnitNo) (group : Group) (decoder : Decoder) :
    Decoder :=
  let ctx := decoder.ctx
  let ts48 : BitVec 64 := ctx.timestamp1.setWidth 64 ||| (ctx.timestamp2.setWidth 64 <<< 24)
  let first := settings.gTimestampResyncEnable && ts48 == 0 && ctx.headerTrigNo == 1
  let ts48 := if first then 1 else ts48
  let decoder := if first then decoder.setCtx { ctx with timestamp1 := 1 } else decoder
  let base := if settings.gTimestampResyncEnable && decoder.timestampBases == 0 then
    ts48 else decoder.timestampBases
  let last := decoder.ts group
  let ts48 :=
    if ts48 = last then
      last + BitVec.ofInt 64 (Builder.truncate (settings.EPS * settings.gVF48freq unit)) + 1
    else ts48
  { decoder with
    timestampBases := base
    ts := Function.update decoder.ts group ts48
    m :=
      { decoder.m with
        timestamp64 := Function.update decoder.m.timestamp64 group ts48
        timestamps := Function.update decoder.m.timestamps group
          (.ofTicks (ts48 - base) (settings.gVF48freq unit)) } }

/-- The end of a channel header: the channel starts over, and its group counts as seen. -/
def openChannel (group : Group) (chan : Chan) (decoder : Decoder) : Decoder :=
  let bit := 1#32 <<< group.val
  let m := decoder.m
  let stamped := decoder.ctx.timestampFlag
  { decoder.setCtx
      { decoder.ctx with
        currentGroup := group
        timestampCount := 0
        currentChannel := chan
        timestampFlag := false } with
    m :=
      { m with
        groupMask := m.groupMask ||| bit
        timestampGroupMask := if stamped then m.timestampGroupMask ||| bit else m.timestampGroupMask
        channels := Function.update m.channels chan
          { m.channels chan with complete := some false, numSamples := 0, channel := chan.val } } }

/-- A channel header: group 0 in the word stands for the group of the context. -/
def channelHeader (settings : Settings) (unit : UnitNo) (decoder : Decoder) (w : Word) : Decoder :=
  let field := ((w &&& 0x70#32) >>> 4).toNat
  let group := if field = 0 then decoder.ctx.group.val else field
  let chan := (w &&& 0x7#32).toNat ||| group <<< 3
  if inside : chan < VF48_MAX_CHANNELS then
    let group : Group := ⟨group, Builder.group_of_channel inside⟩
    let decoder := if decoder.ctx.timestampCount ≠ 0 then
      decoder.applyTimestamp settings unit group else decoder
    decoder.openChannel group ⟨chan, inside⟩
  else decoder

/-- Two samples for the current channel. -/
def sampleWord (decoder : Decoder) (w : Word) : Except Fault Decoder :=
  let channel := decoder.channel
  let sample1 := (w &&& 0x3FFF#32).setWidth 16
  let sample2 := ((w >>> 16) &&& 0x3FFF#32).setWidth 16
  match channel.complete with
  | none => .error .indeterminate
  | some true => .ok { decoder with m := { decoder.m with error := 1 } }
  | some false =>
      if channel.numSamples < VF48_MAX_SAMPLES - 2 then
        let samples := Function.update
          (Function.update channel.samples channel.numSamples (some sample1))
            (channel.numSamples + 1) (some sample2)
        .ok (decoder.setChannel { channel with
          samples := samples, numSamples := channel.numSamples + 2 })
      else
        let decoder := decoder.setChannel { channel with numSamples := channel.numSamples + 2 }
        .ok { decoder with m := { decoder.m with error := 1 } }

def timeWord (decoder : Decoder) (w : Word) : Decoder :=
  decoder.setChannel { decoder.channel with time := some (w &&& 0x00FFFFFF#32), complete := some true }

/-- A charge word, which may carry the suppression mask of the channel's group. -/
def chargeWord (decoder : Decoder) (w : Word) : Decoder :=
  let m :=
    if w &&& 0x0F000000#32 = 0 then
      { decoder.m with
        suppressMask := Function.update decoder.m.suppressMask
          ⟨decoder.ctx.currentChannel.val / 8, by omega⟩ (w &&& 0xFF#32) }
    else decoder.m
  { decoder with m := m }.setChannel { decoder.channel with
    charge := some (w &&& 0x00FFFFFF#32), complete := some true }

/-- A trailer: the module is complete when its groups have no markers, or when all of them are
done. -/
def trailer (run : RunSettings) (unit : UnitNo) (decoder : Decoder) (w : Word) :
    Decoder × List VF48module :=
  let m := (decoder.setChannel { decoder.channel with complete := some true }).m
  let m := { m with completeGroupMask := m.completeGroupMask ||| 1#32 <<< decoder.ctx.currentGroup.val }
  let m := if w &&& 0x00FFFFFF#32 ≠ decoder.ctx.headerTrigNo then { m with error := 1 } else m
  if !decoder.gNewEvb || decide (m.completeGroupMask = run.gGroupEnabled unit) then
    ({ decoder with m := .new unit }, [m.Complete run])
  else ({ decoder with m := m }, [])

/-- One word, with the modules that go to `AddToEvent`. -/
def word (settings : Settings) (run : RunSettings) (unit : UnitNo) (decoder : Decoder) (w : Word) :
    Except Fault (Decoder × List VF48module) :=
  if tagOf w = 0x80000000 then .ok (decoder.header run unit w)
  else if ¬ decoder.ctx.accept then
    if tagOf w = 0xF0000000 then
      match markedGroup? w with
      | some group => .ok (decoder.switchGroup group, [])
      | none => .ok (decoder, [])
    else .ok (decoder, [])
  else if tagOf w = 0xF0000000 then
    match markedGroup? w with
    | some group => .ok (decoder.switchGroup group, [])
    | none => .ok (decoder.reject, [])
  else if tagOf w = 0xA0000000 then .ok (decoder.timestampWord w, [])
  else if tagOf w = 0xC0000000 then .ok (decoder.channelHeader settings unit w, [])
  else if tagOf w = 0x00000000 then do
    let decoder ← decoder.sampleWord w
    return (decoder, [])
  else if tagOf w = 0x40000000 then .ok (decoder.timeWord w, [])
  else if tagOf w = 0x50000000 then .ok (decoder.chargeWord w, [])
  else if tagOf w = 0xE0000000 then .ok (decoder.trailer run unit w)
  else if w = 0xdeaddead ∨ w = 0xdeadbeef then .ok (decoder, [])
  else .ok (decoder.reject, [])

end Decoder

/-- The static and global variables of the file. -/
structure State where
  run : RunSettings
  list : EventList
  tables : UnitNo → UnitTables
  buf : UnitNo → Option VF48module
  c : Option (UnitNo × Group)

/-- What can be seen of a call: after each word its unit, the group it belongs to, the module and
those that are complete, and each event that goes to `HandleVF48event`. -/
inductive Sight where
  | decoded (unit : UnitNo) (group : Group) (m : VF48module) (completed : List VF48module)
  | handed (e : VF48event)

def Sight.handed? : Sight → Option VF48event
  | .decoded .. => none
  | .handed e => some e

/-- The events that some calls handed to `HandleVF48event`. -/
def handed (sights : List Sight) : List VF48event := sights.filterMap Sight.handed?

namespace State

/-- The program starts with zeros. -/
def initial : State := ⟨.initial, ⟨[], 0⟩, fun _ => .initial, fun _ => none, none⟩

/-- The start of a call: a unit without a module gets one, and `c` moves to the context of this unit
with the group of the context that it pointed to. -/
def enter (state : State) (unit : UnitNo) : Decoder :=
  let tables := state.tables unit
  let m := (state.buf unit).getD (.new unit)
  match state.c with
  | none =>
      { tables with
        gContexts := Function.update tables.gContexts 0 { tables.gContexts 0 with group := 0 }
        m := m
        c := 0 }
  | some (other, group) =>
      { tables with
        m := m
        c := if other = unit then group else ((state.tables other).gContexts group).group }

/-- The variables after some words of a call. -/
def leave (state : State) (unit : UnitNo) (decoder : Decoder) (list : EventList) : State :=
  { state with
    list := list
    tables := Function.update state.tables unit decoder.toUnitTables
    buf := Function.update state.buf unit (some decoder.m)
    c := some (unit, decoder.c) }

/-- One word of a call. -/
def unpackWord (settings : Settings) (run : RunSettings) (unit : UnitNo)
    (state : Decoder × EventList) (w : Word) :
    Except Fault ((Decoder × EventList) × List Sight) := do
  let (decoder, modules) ← state.1.word settings run unit w
  let (list, handed) ← Transducer.run (EventList.AddToEvent settings run) state.2 modules
  return ((decoder, list), .decoded unit decoder.ctx.group decoder.m modules :: handed.map .handed)

/-- `UnpackVF48` on the words of a call; words that are all zero are dropped. -/
def UnpackVF48 (settings : Settings) (state : State) (unit : UnitNo) (data : List Word) :
    Except Fault (State × List Sight) :=
  let decoder := state.enter unit
  if data.all (· == 0) then .ok (state.leave unit decoder state.list, [])
  else do
    let ((decoder, list), sights) ← Transducer.run (unpackWord settings state.run unit)
      (decoder, state.list) data
    return (state.leave unit decoder list, sights)

/-- The module of a unit goes to its event at the end of the run. -/
def endUnit (settings : Settings) (state : State) (i : UnitNo) :
    Except Fault (State × List VF48event) :=
  match state.buf i with
  | none => .ok (state, [])
  | some m => do
      let (list, handed) ← state.list.AddToEvent settings state.run (m.Complete state.run)
      return ({ state with list := list, buf := Function.update state.buf i none }, handed)

/-- `EndRun`, with the events that it hands over. -/
def EndRun (settings : Settings) (state : State) : Except Fault (State × List VF48event) := do
  let (state, early) ← Transducer.run (endUnit settings) state (List.finRange VF48_MAX_MODULES)
  let (list, late) ← state.list.CompleteEvents (-1)
  return ({ state with list := list }, early ++ late)

/-- `FlushBuffers`. -/
def FlushBuffers (state : State) : State :=
  { state with list := { state.list with events := [] }, buf := fun _ => none }

/-- `BeginRun`: without an enabled group the program exits. The contexts, `gNewEvb` and
`c` stay as they are. -/
def BeginRun (settings : Settings) (state : State) (grpEnabled : Word) (numSamples delay : ℤ) :
    Except Fault (State × List VF48event) := do
  let (state, handed) ← state.FlushBuffers.EndRun settings
  match (List.finRange VF48_MAX_GROUPS).find? fun grp => grpEnabled &&& (1#32 <<< grp.val) ≠ 0 with
  | none => .error .exit
  | some tgroup =>
      return ({ state with
        run :=
          { gGroupEnabled := fun _ => grpEnabled
            gChanEnabled := fun _ chan => grpEnabled &&& (1#32 <<< (chan.val / 8)) != 0
            gNumSamples := fun _ => numSamples
            tgroup := tgroup
            gDelay := delay }
        list := { state.list with gEventNo := 0 }
        tables := fun unit => { state.tables unit with timestampBases := 0, ts := fun _ => 0 } },
        handed)

end State

inductive Call where
  | UnpackVF48 (unit : UnitNo) (data : List Word)
  | BeginRun (grpEnabled : Word) (numSamples delay : ℤ)
  | EndRun

/-- A call, with what can be seen of it. -/
def State.call (settings : Settings) (state : State) : Call → Except Fault (State × List Sight)
  | .UnpackVF48 unit data => state.UnpackVF48 settings unit data
  | .BeginRun grpEnabled numSamples delay => do
      let (state, handed) ← state.BeginRun settings grpEnabled numSamples delay
      return (state, handed.map .handed)
  | .EndRun => do
      let (state, handed) ← state.EndRun settings
      return (state, handed.map .handed)

end PtfConverter.OldVF48
