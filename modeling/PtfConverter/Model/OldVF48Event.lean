import PtfConverter.Model.UnpackVF48A

/-! # UnpackVF48: the list of events, with delayed delivery

The older unpacker of `UnpackVF48.cxx` keeps the events in a list, newest first. Every module that
is added makes it hand over all but the newest `gDelay` events, oldest first, and the end of the run
hands over the rest. Printing and the count of bad data are left out: nothing reads them.
-/

namespace PtfConverter.OldVF48

open VF48

/-- A `double` in seconds: an exact rational, or what a division by zero makes. -/
inductive Seconds where
  | finite (q : ℚ)
  | infinite
  | nan
deriving DecidableEq

namespace Seconds

/-- Ticks of a clock as seconds. -/
def ofTicks (ticks : BitVec 64) (freq : ℚ) : Seconds :=
  if freq = 0 then if ticks = 0 then .nan else .infinite else .finite (ticks.toNat / freq)

/-- `fabs(a - b) < eps`. -/
def within (eps : ℚ) : Seconds → Seconds → Bool
  | finite a, finite b => |a - b| < eps
  | _, _ => false

/-- `fabs(a - b) > eps`. -/
def beyond (eps : ℚ) : Seconds → Seconds → Bool
  | finite a, finite b => |a - b| > eps
  | finite _, infinite => true
  | infinite, finite _ => true
  | _, _ => false

end Seconds

/-- What the code does not survive: a failed assertion, `exit`, and a flag that is read
before it is written. -/
inductive Fault where
  | assertion
  | exit
  | indeterminate
deriving DecidableEq, Repr

/-- The constructor of the module leaves all but two fields of a channel unset. -/
structure VF48channel where
  channel : ℤ
  time : Option Word
  charge : Option Word
  complete : Option Bool
  numSamples : ℕ
  samples : ℕ → Option (BitVec 16)

structure VF48module where
  unit : UnitNo
  trigger : Word
  error : ℕ
  timestampGroupMask : Word
  timestamp64 : Group → BitVec 64
  timestamps : Group → Seconds
  groupMask : Word
  completeGroupMask : Word
  complete : Bool
  suppressMask : Group → Word
  channels : Chan → VF48channel

structure VF48event where
  eventNo : ℕ
  error : ℕ
  timestamp : Seconds
  modules : UnitNo → Option VF48module

/-- The settings that no run changes. -/
structure Settings where
  EPS : ℚ
  gTimestampResyncEnable : Bool
  gVF48freq : UnitNo → ℚ

/-- The values of the file: the frequencies of the units from 7 on are zero. -/
def Settings.initial : Settings where
  EPS := 1 / 10000
  gTimestampResyncEnable := true
  gVF48freq := fun unit => if unit.val < 7 then 60000000 else 0

/-- What `BeginRun` sets up. -/
structure RunSettings where
  gGroupEnabled : UnitNo → Word
  gChanEnabled : UnitNo → Chan → Bool
  gNumSamples : UnitNo → ℤ
  tgroup : Group
  gDelay : ℤ

def RunSettings.initial : RunSettings := ⟨fun _ => 0, fun _ _ => false, fun _ => 0, 0, 2⟩

namespace VF48module

/-- The constructor. -/
def new (i : UnitNo) : VF48module where
  unit := i
  trigger := 0
  error := 0
  timestampGroupMask := 0
  timestamp64 := fun _ => 0
  timestamps := fun _ => .finite 0
  groupMask := 0
  completeGroupMask := 0
  complete := false
  suppressMask := fun _ => 0
  channels := fun _ => ⟨-1, none, none, none, 0, fun _ => none⟩

def setChannel (m : VF48module) (chan : Chan) (channel : VF48channel) : VF48module :=
  { m with channels := Function.update m.channels chan channel }

/-- The channel loop of `Complete`. -/
def completeChannel (run : RunSettings) (m : VF48module) (i : Chan) : VF48module :=
  let channel := m.channels i
  if ¬ run.gChanEnabled m.unit i then m
  else if channel.channel = -1 ∧ channel.numSamples = 0 then m
  else if channel.numSamples = 0 then m
  else
    let m := if (channel.numSamples : ℤ) ≠ run.gNumSamples m.unit then { m with error := 1 } else m
    if channel.numSamples > VF48_MAX_SAMPLES then
      m.setChannel i { channel with numSamples := VF48_MAX_SAMPLES }
    else m

/-- The group loop of `Complete`, at the time of the first enabled group. -/
def completeGroup (run : RunSettings) (t : Seconds) (m : VF48module) (i : Group) : VF48module :=
  if run.gGroupEnabled m.unit &&& (1#32 <<< i.val) ≠ 0 then
    if m.groupMask &&& (1#32 <<< i.val) = 0 then { m with error := 1 }
    else if m.timestampGroupMask &&& (1#32 <<< i.val) = 0 then { m with error := 1 }
    else if (m.timestamps i).beyond (1 / 100) t then { m with error := 1 }
    else m
  else m

def Complete (run : RunSettings) (m : VF48module) : VF48module :=
  if m.groupMask = 0 then { m with complete := true }
  else
    let m := (List.finRange VF48_MAX_CHANNELS).foldl (completeChannel run) m
    let m := (List.finRange VF48_MAX_GROUPS).foldl (completeGroup run (m.timestamps run.tgroup)) m
    { m with complete := true }

end VF48module

/-- `events`, newest first, and the number of events that were made. -/
structure EventList where
  events : List VF48event
  gEventNo : ℕ

namespace EventList

/-- `FindEvent`: the place of the first event in the coincidence window that has no module of the
unit; a new event comes first. -/
def FindEvent (settings : Settings) (list : EventList) (module : UnitNo) (timestamp : Seconds) :
    EventList × ℕ :=
  match list.events.findIdx? fun e =>
    e.timestamp.within settings.EPS timestamp && (e.modules module).isNone with
  | some index => (list, index)
  | none =>
      (⟨⟨list.gEventNo + 1, 0, timestamp, fun _ => none⟩ :: list.events, list.gEventNo + 1⟩, 0)

/-- `CompleteEvents`: the events behind the first `skip` are handed over, oldest first. At most
`kMaxCount - 1` of them pass the assertion. -/
def CompleteEvents (list : EventList) (skip : ℤ) : Except Fault (EventList × List VF48event) :=
  let late := list.events.drop skip.toNat
  if late.length < 100 then .ok ({ list with events := list.events.take skip.toNat }, late.reverse)
  else .error .assertion

/-- `AddToEvent`, with the events that it hands over. -/
def AddToEvent (settings : Settings) (run : RunSettings) (list : EventList) (m : VF48module) :
    Except Fault (EventList × List VF48event) :=
  let (list, index) := list.FindEvent settings m.unit (m.timestamps run.tgroup)
  match list.events[index]?.bind fun e => e.modules m.unit with
  | some _ => .ok (list, [])
  | none =>
      let events := list.events.modify index fun e =>
        { e with modules := Function.update e.modules m.unit (some m), error := max e.error m.error }
      CompleteEvents { list with events := events } run.gDelay

end EventList

end PtfConverter.OldVF48
