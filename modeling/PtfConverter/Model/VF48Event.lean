import Mathlib.Algebra.Order.Round
import Mathlib.Data.BitVec
import Mathlib.Data.Fintype.Basic
import Mathlib.Data.Rat.Floor

/-! # UnpackVF48A: events, modules and channels

`VF48event` holds the modules of one trigger, `VF48module` the channels of one VF48 unit. The
builder keeps the events that are not delivered yet in `fBuffer`; a pointer to a module of a unit
is the position of its event there. Times are exact rationals. Array entries that the constructors
leave unset are `none` until they are written.
-/

namespace PtfConverter.VF48

/-- A 32-bit word of the data stream. -/
abbrev Word := BitVec 32

abbrev VF48_MAX_MODULES : ℕ := 22

abbrev VF48_MAX_GROUPS : ℕ := 6

abbrev VF48_MAX_CHANNELS : ℕ := 48

abbrev VF48_MAX_SAMPLES : ℕ := 1100

instance VF48_MAX_MODULES.neZero : NeZero VF48_MAX_MODULES := ⟨by decide⟩

instance VF48_MAX_GROUPS.neZero : NeZero VF48_MAX_GROUPS := ⟨by decide⟩

instance VF48_MAX_CHANNELS.neZero : NeZero VF48_MAX_CHANNELS := ⟨by decide⟩

/-- A unit below `VF48_MAX_MODULES`. -/
abbrev UnitNo := Fin VF48_MAX_MODULES

/-- A group below `VF48_MAX_GROUPS`. -/
abbrev Group := Fin 6

/-- A channel below `VF48_MAX_CHANNELS`. -/
abbrev Chan := Fin 48

/-- What the code does not survive: a failed assertion, a null module, an index past the channels,
and a write past a word buffer. -/
inductive Fault where
  | assertion
  | nullModule
  | channel (chan : ℤ)
  | wbuf (index : ℕ)
deriving DecidableEq, Repr

structure VF48channel where
  channel : ℤ
  time : Option Word
  charge : Option Word
  complete : Bool
  numSamples : ℕ
  samples : ℕ → Option (BitVec 16)

structure VF48module where
  unit : UnitNo
  trigger : Word
  error : ℕ
  tgroup : Group
  timestampGroupMask : Word
  timestamp64 : Group → BitVec 64
  timestamps : Group → ℚ
  groupMask : Word
  completeGroupMask : Word
  complete : Bool
  suppressMask : Group → Word
  channels : Chan → VF48channel

structure VF48event where
  eventNo : ℕ
  complete : Bool
  error : ℕ
  modulesMask : Word
  timestamp : ℚ
  modules : UnitNo → Option VF48module

/-- The constructor of a channel, inside that of its module. -/
def VF48channel.new : VF48channel := ⟨-1, none, none, false, 0, fun _ => none⟩

/-- The constructor of a module. -/
def VF48module.new (i : UnitNo) : VF48module where
  unit := i
  trigger := 0
  error := 0
  tgroup := 0
  timestampGroupMask := 0
  timestamp64 := fun _ => 0
  timestamps := fun _ => 0
  groupMask := 0
  completeGroupMask := 0
  complete := false
  suppressMask := fun _ => 0
  channels := fun _ => .new

/-- The constructor of an event, and the timestamp that `FindEvent` gives it. -/
def VF48event.new (xeventNo : ℕ) (timestamp : ℚ) : VF48event :=
  ⟨xeventNo, false, 0, 0, timestamp, fun _ => none⟩

/-- The settings of the unpacker. -/
structure Settings where
  fNumModules : ℤ
  fModulesMask : Word
  fGroupEnabled : UnitNo → Word
  fChanEnabled : UnitNo → Chan → Bool
  fNumSamples : UnitNo → ℤ
  fFreq : UnitNo → ℚ
  fCoinc : ℚ
  fFlushIncompleteThreshold : Word
  fTimestampResyncEnable : Bool

/-- The settings of the constructor. -/
def Settings.initial : Settings where
  fNumModules := 0
  fModulesMask := 0
  fGroupEnabled := fun _ => 0x3F
  fChanEnabled := fun _ _ => true
  fNumSamples := fun _ => 1000
  fFreq := fun _ => 60000000
  fCoinc := 1 / 10000
  fFlushIncompleteThreshold := 20
  fTimestampResyncEnable := true

/-- The events in building, the complaints so far, and the time tables of the file. -/
structure Builder where
  fEventNo : ℕ
  fBadDataCount : ℕ
  fBuffer : List VF48event
  timestampBases : UnitNo → BitVec 64
  ts : UnitNo → Group → BitVec 64

namespace Builder

def initial : Builder := ⟨0, 0, [], fun _ => 0, fun _ _ => 0⟩

/-- `fBadDataCount++`. -/
def bad (builder : Builder) : Builder := { builder with fBadDataCount := builder.fBadDataCount + 1 }

/-- The module of a unit in a buffered event. -/
def module? (builder : Builder) (unit : UnitNo) (index : ℕ) : Option VF48module :=
  builder.fBuffer[index]?.bind fun event => event.modules unit

def setModule (builder : Builder) (unit : UnitNo) (index : ℕ) (m : VF48module) : Builder :=
  { builder with
    fBuffer := builder.fBuffer.modify index fun event =>
      { event with modules := Function.update event.modules unit (some m) } }

/-- `FindEvent`: the first event in the coincidence window whose place for the unit is free, or not if
`dup`; a new event when there is none. -/
def FindEvent (settings : Settings) (builder : Builder) (unit : UnitNo) (timestamp : ℚ)
    (dup : Bool) : Builder × ℕ :=
  match builder.fBuffer.findIdx? fun event =>
      decide (|event.timestamp - timestamp| < settings.fCoinc) &&
        ((event.modules unit).isNone || dup) with
  | some index => (builder, index)
  | none =>
      ({ builder with
          fEventNo := builder.fEventNo + 1
          fBuffer := builder.fBuffer ++ [.new (builder.fEventNo + 1) timestamp] },
          builder.fBuffer.length)

/-- `FindModule`: the module of the unit in the event of that time. -/
def FindModule (settings : Settings) (builder : Builder) (unit : UnitNo) (timestamp : ℚ) :
    Builder × ℕ :=
  let (builder, index) := builder.FindEvent settings unit timestamp true
  match builder.module? unit index with
  | some _ => (builder, index)
  | none => (builder.setModule unit index (.new unit), index)

end Builder

namespace VF48module

def setChannel (m : VF48module) (chan : Chan) (channel : VF48channel) : VF48module :=
  { m with channels := Function.update m.channels chan channel }

/-- The timestamp of a group. -/
def stampGroup (m : VF48module) (cgroup : Group) (ts48 : BitVec 64) (timestamp : ℚ) : VF48module :=
  { m with
    timestamp64 := Function.update m.timestamp64 cgroup ts48
    timestamps := Function.update m.timestamps cgroup timestamp
    tgroup := cgroup }

/-- A channel starts over, and its group counts as seen, with a timestamp if there was one. -/
def startChannel (m : VF48module) (cgroup : Group) (chan : Chan) (stamped : Bool) : VF48module :=
  let bit := 1#32 <<< cgroup.val
  { m with
    groupMask := m.groupMask ||| bit
    timestampGroupMask := if stamped then m.timestampGroupMask ||| bit else m.timestampGroupMask
    channels := Function.update m.channels chan
      { m.channels chan with complete := false, numSamples := 0, channel := chan.val }
    completeGroupMask := m.completeGroupMask ||| bit }

/-- The channel loop of `CompleteModule`, with the complaints so far. -/
def completeChannel (settings : Settings) (state : ℕ × VF48module) (i : Chan) : ℕ × VF48module :=
  let (complaints, m) := state
  let channel := m.channels i
  if ¬ settings.fChanEnabled m.unit i then (complaints, m)
  else if channel.channel = -1 ∧ channel.numSamples = 0 then (complaints, m)
  else if channel.numSamples = 0 then (complaints, m)
  else
    let (complaints, m) :=
      if (channel.numSamples : ℤ) ≠ settings.fNumSamples m.unit then
        (complaints + 1, { m with error := 1 })
      else (complaints, m)
    if channel.numSamples > VF48_MAX_SAMPLES then
      (complaints, m.setChannel i { channel with numSamples := VF48_MAX_SAMPLES })
    else (complaints, m)

/-- The group loop of `CompleteModule`, at the time of the last group. -/
def completeGroup (settings : Settings) (t : ℚ) (state : ℕ × VF48module) (i : Group) : ℕ × VF48module :=
  let (complaints, m) := state
  if settings.fGroupEnabled m.unit &&& (1#32 <<< i.val) ≠ 0 then
    if m.groupMask &&& (1#32 <<< i.val) = 0 then (complaints + 1, { m with error := 1 })
    else if m.timestampGroupMask &&& (1#32 <<< i.val) = 0 then (complaints + 1, { m with error := 1 })
    else if |m.timestamps i - t| > 1 / 100 then (complaints + 1, { m with error := 1 })
    else (complaints, m)
  else (complaints, m)

/-- `CompleteModule`, with the number of its complaints. -/
def CompleteModule (settings : Settings) (m : VF48module) : ℕ × VF48module :=
  if m.groupMask = 0 then (0, { m with complete := true })
  else
    let state := (List.finRange VF48_MAX_CHANNELS).foldl (completeChannel settings) (0, m)
    let t := state.2.timestamps state.2.tgroup
    let state := (List.finRange VF48_MAX_GROUPS).foldl (completeGroup settings t) state
    (state.1, { state.2 with complete := true })

end VF48module

end PtfConverter.VF48
