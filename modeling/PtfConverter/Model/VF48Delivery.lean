import PtfConverter.Model.UnpackVF48A

/-! # UnpackVF48A: calls from outside

A user feeds words with `UnpackStream`, takes events with `GetEvent` and starts over with `Reset`.
A call is a step of a transducer; what can be seen of it are the word lists that it hands to
`UnpackEvent` and the event that it returns.
-/

namespace PtfConverter.VF48

namespace VF48event

/-- A module of the event is complete. -/
def moduleComplete (e : VF48event) (i : UnitNo) : Bool :=
  ((e.modules i).map VF48module.complete).getD false

/-- `CompleteEvent`. -/
def CompleteEvent (settings : Settings) (e : VF48event) : VF48event :=
  if settings.fModulesMask = 0 then { e with complete := true }
  else
    let modulesMask := (List.finRange VF48_MAX_MODULES).foldl
      (fun mask i => if (i.val : ℤ) < settings.fNumModules ∧ e.moduleComplete i then
        mask ||| 1#32 <<< i.val else mask)
      e.modulesMask
    { e with modulesMask := modulesMask, complete := e.complete || modulesMask == settings.fModulesMask }

/-- `if (!e->complete) CompleteEvent(e)`. -/
def tryComplete (settings : Settings) (e : VF48event) : VF48event :=
  if e.complete then e else e.CompleteEvent settings

end VF48event

namespace Builder

/-- The loop of `GetEvent`: complete events in turn, up to the first one that is complete. -/
def completeUntil (settings : Settings) : List VF48event → List VF48event × Bool
  | [] => ([], false)
  | e :: rest =>
      let e := e.tryComplete settings
      if e.complete then (e :: rest, true)
      else
        let (rest, found) := completeUntil settings rest
        (e :: rest, found)

/-- `GetEvent`: the first event, when it is complete, or one behind it is, or too many wait. -/
def GetEvent (settings : Settings) (builder : Builder) (flush : Bool) : Builder × Option VF48event :=
  match builder.fBuffer with
  | [] => (builder, none)
  | first :: rest =>
      let e := first.tryComplete settings
      if e.complete || flush then ({ builder with fBuffer := rest }, some e)
      else
        let (events, found) := completeUntil settings (e :: rest)
        if found || decide (settings.fFlushIncompleteThreshold.toNat < events.length) then
          ({ builder with fBuffer := events.tail }, events.head?)
        else ({ builder with fBuffer := events }, none)

end Builder

/-- The word list that a word hands to `UnpackEvent`, if any, with its group. -/
def Stream.handed (stream : Stream) (grp : Group) (w : Word) : List (Group × List Word) :=
  let waiting := (stream.wbuf grp).getD []
  if tagOf w = 0x80000000 then if 1 < waiting.length then [(grp, waiting)] else []
  else if tagOf w = 0xE0000000 then [(grp, waiting ++ [w])]
  else []

/-- What can be seen of a call. -/
inductive Sight where
  | handed (unit : UnitNo) (group : Group) (data : List Word)
  | returned (event : VF48event)

namespace Sight

def handed? : Sight → Option (UnitNo × Group × List Word)
  | .handed unit group data => some (unit, group, data)
  | .returned _ => none

def returned? : Sight → Option VF48event
  | .handed .. => none
  | .returned event => some event

end Sight

/-- The events that some calls returned. -/
def returned (sights : List Sight) : List VF48event := sights.filterMap Sight.returned?

/-- The word lists that some calls handed to `UnpackEvent`. -/
def handed (sights : List Sight) : List (UnitNo × Group × List Word) := sights.filterMap Sight.handed?

inductive Call where
  | UnpackStream (unit : UnitNo) (data : List Word)
  | GetEvent (flush : Bool)
  | Reset

namespace UnpackVF48

/-- One word in `UnpackStream`, with the word lists handed to `UnpackEvent`. -/
def watchedStep (settings : Settings) (unit : UnitNo) (state : Stream × Builder × Group) (w : Word) :
    Except Fault ((Stream × Builder × Group) × List (Group × List Word)) := do
  let next ← Stream.step settings unit state w
  return (next, state.1.handed state.2.2 w)

/-- `UnpackStream`, with the word lists handed to `UnpackEvent`. -/
def watchedStream (self : UnpackVF48) (unit : UnitNo) (data : List Word) :
    Except Fault (UnpackVF48 × List (Group × List Word)) := do
  let (stream, grp) ← (self.streams unit).NewGroup
  let ((stream, builder, _), handed) ←
    Transducer.run (watchedStep self.settings unit) (stream, self.builder, grp) data
  return ({ self with builder := builder, streams := Function.update self.streams unit stream }, handed)

/-- A call, with what can be seen of it. -/
def call (self : UnpackVF48) : Call → Except Fault (UnpackVF48 × List Sight)
  | .UnpackStream unit data => do
      let (self, handed) ← self.watchedStream unit data
      return (self, handed.map fun block => .handed unit block.1 block.2)
  | .GetEvent flush =>
      let (builder, event) := self.builder.GetEvent self.settings flush
      .ok ({ self with builder := builder }, event.toList.map .returned)
  | .Reset => .ok (self.Reset, [])

end UnpackVF48

end PtfConverter.VF48
