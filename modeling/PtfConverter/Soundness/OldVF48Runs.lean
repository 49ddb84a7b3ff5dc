import PtfConverter.Soundness.OldVF48Units

/-! # What one run leaves behind for the next

`BeginRun` drops modules and events and starts the numbers and times over, but the contexts, `gNewEvb`
and the pointer `c` stay. Of a context that waits for an event header only its group and
`timestampFlag` matter, since `Init` clears the rest. Two histories that agree on this much are the
same to every further run.
-/

namespace PtfConverter.OldVF48

open VF48 (UnitNo Word Group)

/-- Two contexts are the same, up to what a header clears when both wait for one. -/
structure Context.Alike (a b : Context) : Prop where
  group : a.group = b.group
  timestampFlag : a.timestampFlag = b.timestampFlag
  accept : a.accept = b.accept
  same : a.accept = true → a = b

theorem Context.Alike.refl (a : Context) : a.Alike a := ⟨rfl, rfl, rfl, fun _ => rfl⟩

theorem Context.Alike.of_eq {a b : Context} (same : a = b) : a.Alike b := same ▸ .refl a

namespace Decoder

/-- Two decoders are the same, up to contexts that are alike. -/
structure Alike (d d' : Decoder) : Prop where
  gContexts : ∀ group, (d.gContexts group).Alike (d'.gContexts group)
  gNewEvb : d'.gNewEvb = d.gNewEvb
  timestampBases : d'.timestampBases = d.timestampBases
  ts : d'.ts = d.ts
  m : d'.m = d.m
  c : d'.c = d.c

/-- The timestamp of a group, once it is read. -/
def stamp (settings : Settings) (unit : UnitNo) (group : Group) (decoder : Decoder)
    (ts48 : BitVec 64) : Decoder :=
  let base := if settings.gTimestampResyncEnable && decoder.timestampBases == 0 then
    ts48 else decoder.timestampBases
  let last := decoder.ts group
  let ts48 :=
    if ts48 = last then
      last + BitVec.ofInt 64 (VF48.Builder.truncate (settings.EPS * settings.gVF48freq unit)) + 1
    else ts48
  { decoder with
    timestampBases := base
    ts := Function.update decoder.ts group ts48
    m :=
      { decoder.m with
        timestamp64 := Function.update decoder.m.timestamp64 group ts48
        timestamps := Function.update decoder.m.timestamps group
          (.ofTicks (ts48 - base) (settings.gVF48freq unit)) } }

/-- A timestamp of zero at the first trigger counts as one, when the clocks are synchronised. -/
def zeroStamp (settings : Settings) (ctx : Context) : Bool :=
  settings.gTimestampResyncEnable &&
    (ctx.timestamp1.setWidth 64 ||| (ctx.timestamp2.setWidth 64 <<< 24) : BitVec 64) == 0 &&
    ctx.headerTrigNo == 1

theorem applyTimestamp_eq (settings : Settings) (unit : UnitNo) (group : Group) (decoder : Decoder) :
    decoder.applyTimestamp settings unit group =
      (if zeroStamp settings decoder.ctx then
        decoder.setCtx { decoder.ctx with timestamp1 := 1 } else decoder).stamp settings
        unit group (if zeroStamp settings decoder.ctx then 1
          else decoder.ctx.timestamp1.setWidth 64 |||
            (decoder.ctx.timestamp2.setWidth 64 <<< 24)) := rfl

theorem group_lt (chan : VF48.Chan) : chan.val / 8 < 6 := by omega

/-- The suppression mask that a charge word may carry. -/
def suppressed (chan : VF48.Chan) (w : Word) (m : VF48module) : VF48module :=
  if w &&& 0x0F000000#32 = 0 then
    { m with
      suppressMask := Function.update m.suppressMask ⟨chan.val / 8, group_lt chan⟩ (w &&& 0xFF#32) }
  else m

theorem chargeWord_eq (decoder : Decoder) (w : Word) :
    decoder.chargeWord w =
      { decoder with m := suppressed decoder.ctx.currentChannel w decoder.m }.setChannel
        { decoder.channel with charge := some (w &&& 0x00FFFFFF#32), complete := some true } := rfl

/-- The module behind a trailer. -/
def closed (decoder : Decoder) (w : Word) : VF48module :=
  let m := decoder.m.setChannel decoder.ctx.currentChannel { decoder.channel with
    complete := some true }
  let m := { m with completeGroupMask := m.completeGroupMask ||| 1#32 <<< decoder.ctx.currentGroup.val }
  if w &&& 0x00FFFFFF#32 ≠ decoder.ctx.headerTrigNo then { m with error := 1 } else m

theorem trailer_eq (run : RunSettings) (unit : UnitNo) (decoder : Decoder) (w : Word) :
    decoder.trailer run unit w =
      if !decoder.gNewEvb || decide ((decoder.closed w).completeGroupMask = run.gGroupEnabled unit) then
        ({ decoder with m := .new unit }, [(decoder.closed w).Complete run])
      else ({ decoder with m := decoder.closed w }, []) := rfl

theorem applyTimestamp_accept (settings : Settings) (unit : UnitNo) (group : Group)
    (decoder : Decoder) :
    (decoder.applyTimestamp settings unit group).ctx.accept = decoder.ctx.accept := by
  rw [applyTimestamp_eq]
  split_ifs
  · simp only [stamp, ctx, setCtx, Function.update_self]
  · rfl

/-- The timestamp words in front of a channel header, if there are any. -/
def readTimestamp (settings : Settings) (unit : UnitNo) (group : Group) (decoder : Decoder) : Decoder :=
  if decoder.ctx.timestampCount ≠ 0 then decoder.applyTimestamp settings unit group else decoder

theorem readTimestamp_accept (settings : Settings) (unit : UnitNo) (group : Group) (decoder : Decoder) :
    (decoder.readTimestamp settings unit group).ctx.accept = decoder.ctx.accept := by
  rw [readTimestamp]
  split_ifs
  · exact applyTimestamp_accept settings unit group decoder
  · rfl

/-- The group of a channel header in a context. -/
def headerGroup (ctx : Context) (w : Word) : ℕ :=
  if ((w &&& 0x70#32) >>> 4).toNat = 0 then ctx.group.val else ((w &&& 0x70#32) >>> 4).toNat

theorem channelHeader_eq (settings : Settings) (unit : UnitNo) (decoder : Decoder) (w : Word) :
    decoder.channelHeader settings unit w =
      if inside : (w &&& 0x7#32).toNat ||| headerGroup decoder.ctx w <<< 3 < VF48.VF48_MAX_CHANNELS then
        (decoder.readTimestamp settings unit ⟨_, VF48.Builder.group_of_channel inside⟩).openChannel
          ⟨_, VF48.Builder.group_of_channel inside⟩ ⟨_, inside⟩
      else decoder := rfl

namespace Alike

variable {d d' : Decoder}

theorem ctx (alike : d.Alike d') : d.ctx.Alike d'.ctx := by
  rw [Decoder.ctx, Decoder.ctx, alike.c]
  exact alike.gContexts d.c

/-- A context that takes words is the same in both. -/
theorem accepting (alike : d.Alike d') (accept : d.ctx.accept = true) : d'.ctx = d.ctx :=
  (alike.ctx.same accept).symm

theorem update {f f' : Group → Context} (alike : ∀ group, (f group).Alike (f' group))
    (place : Group) {ctx ctx' : Context} (here : ctx.Alike ctx') (group : Group) :
    (Function.update f place ctx group).Alike (Function.update f' place ctx' group) := by
  obtain rfl | ne := eq_or_ne group place
  · rwa [Function.update_self, Function.update_self]
  · rw [Function.update_of_ne ne, Function.update_of_ne ne]
    exact alike group

theorem setCtx (alike : d.Alike d') {ctx ctx' : Context} (here : ctx.Alike ctx') :
    (d.setCtx ctx).Alike (d'.setCtx ctx') := by
  refine ⟨?_, alike.gNewEvb, alike.timestampBases, alike.ts, alike.m, alike.c⟩
  simp only [Decoder.setCtx, alike.c]
  exact update alike.gContexts d.c here

theorem setM (alike : d.Alike d') (m : VF48module) : Alike { d with m := m } { d' with m := m } :=
  ⟨alike.gContexts, alike.gNewEvb, alike.timestampBases, alike.ts, rfl, alike.c⟩

theorem modifyM (alike : d.Alike d') (f : VF48module → VF48module) :
    Alike { d with m := f d.m } { d' with m := f d'.m } := by
  rw [alike.m]
  exact alike.setM _

theorem dite {p : Prop} [Decidable p] {left left' : p → Decoder} {right right' : ¬ p → Decoder}
    (yes : ∀ h, (left h).Alike (left' h)) (no : ∀ h, (right h).Alike (right' h)) :
    (if h : p then left h else right h).Alike (if h : p then left' h else right' h) := by
  split_ifs with h
  · exact yes h
  · exact no h

theorem switchGroup (alike : d.Alike d') (group : Group) :
    (d.switchGroup group).Alike (d'.switchGroup group) := by
  refine ⟨?_, rfl, alike.timestampBases, alike.ts, alike.m, rfl⟩
  apply update alike.gContexts
  obtain ⟨_, flag, accept, same⟩ := alike.gContexts group
  exact ⟨rfl, flag, accept, fun accepting => by rw [same accepting]⟩

theorem reject (alike : d.Alike d') : d.reject.Alike d'.reject := by
  rw [Decoder.reject, Decoder.reject, alike.m]
  apply setM
  apply alike.setCtx
  exact ⟨alike.ctx.group, alike.ctx.timestampFlag, rfl, fun accepting => by cases accepting⟩

/-- Contexts that are alike are the same behind a header. -/
theorem header (alike : d.Alike d') (run : RunSettings) (unit : UnitNo) (w : Word) :
    (d.header run unit w).1.Alike (d'.header run unit w).1 ∧
      (d.header run unit w).2 = (d'.header run unit w).2 := by
  rw [Decoder.header, Decoder.header, alike.m, alike.gNewEvb, alike.ctx.group]
  refine ⟨?_, rfl⟩
  apply setM
  apply alike.setCtx
  apply Context.Alike.of_eq
  rw [Context.Init, Context.Init, alike.ctx.group, alike.ctx.timestampFlag]

theorem timestampWord (alike : d.Alike d') (accept : d.ctx.accept = true) (w : Word) :
    (d.timestampWord w).Alike (d'.timestampWord w) := by
  rw [Decoder.timestampWord, Decoder.timestampWord, alike.accepting accept]
  exact alike.setCtx (.refl _)

theorem stamp (alike : d.Alike d') (settings : Settings) (unit : UnitNo) (group : Group)
    (ts48 : BitVec 64) :
    (d.stamp settings unit group ts48).Alike (d'.stamp settings unit group ts48) := by
  refine ⟨alike.gContexts, alike.gNewEvb, ?_, ?_, ?_, alike.c⟩ <;>
    simp only [Decoder.stamp, alike.timestampBases, alike.ts, alike.m]

theorem applyTimestamp (alike : d.Alike d') (settings : Settings) (unit : UnitNo)
    (accept : d.ctx.accept = true) (group : Group) :
    (d.applyTimestamp settings unit group).Alike (d'.applyTimestamp settings unit group) := by
  rw [applyTimestamp_eq, applyTimestamp_eq, alike.accepting accept]
  apply stamp
  split_ifs
  · exact alike.setCtx (.refl _)
  · exact alike

theorem openChannel (alike : d.Alike d') (accept : d.ctx.accept = true) (group : Group)
    (chan : VF48.Chan) :
    (d.openChannel group chan).Alike (d'.openChannel group chan) := by
  rw [Decoder.openChannel, Decoder.openChannel, alike.accepting accept, alike.m]
  apply setM
  apply alike.setCtx
  exact .refl _

theorem readTimestamp (alike : d.Alike d') (settings : Settings) (unit : UnitNo)
    (accept : d.ctx.accept = true) (group : Group) :
    (d.readTimestamp settings unit group).Alike (d'.readTimestamp settings unit group) := by
  rw [Decoder.readTimestamp, Decoder.readTimestamp, alike.accepting accept]
  split_ifs
  · exact alike.applyTimestamp settings unit accept group
  · exact alike

theorem channelHeader (alike : d.Alike d') (settings : Settings) (unit : UnitNo)
    (accept : d.ctx.accept = true) (w : Word) :
    (d.channelHeader settings unit w).Alike (d'.channelHeader settings unit w) := by
  rw [channelHeader_eq, channelHeader_eq, alike.accepting accept]
  apply dite
  · intro inside
    exact (alike.readTimestamp settings unit accept _).openChannel
      ((readTimestamp_accept ..).trans accept) _ _
  · intro _
    exact alike

theorem setChannel (alike : d.Alike d') (accept : d.ctx.accept = true) (channel : VF48channel) :
    (d.setChannel channel).Alike (d'.setChannel channel) := by
  rw [Decoder.setChannel, Decoder.setChannel, alike.accepting accept, alike.m]
  exact alike.setM _

theorem channel (alike : d.Alike d') (accept : d.ctx.accept = true) : d'.channel = d.channel := by
  rw [Decoder.channel, Decoder.channel, alike.accepting accept, alike.m]

theorem sampleWord (alike : d.Alike d') (accept : d.ctx.accept = true) (w : Word) :
    Except.Agree Decoder.Alike (d.sampleWord w) (d'.sampleWord w) := by
  rw [Decoder.sampleWord, Decoder.sampleWord, alike.channel accept]
  rcases d.channel.complete with _ | _ | _
  · exact .error _
  · simp only
    split_ifs
    · exact .ok (alike.setChannel accept _)
    · exact .ok ((alike.setChannel accept _).modifyM fun m => { m with error := 1 })
  · exact .ok (alike.modifyM fun m => { m with error := 1 })

theorem timeWord (alike : d.Alike d') (accept : d.ctx.accept = true) (w : Word) :
    (d.timeWord w).Alike (d'.timeWord w) := by
  rw [Decoder.timeWord, Decoder.timeWord, alike.channel accept]
  exact alike.setChannel accept _

theorem chargeWord (alike : d.Alike d') (accept : d.ctx.accept = true) (w : Word) :
    (d.chargeWord w).Alike (d'.chargeWord w) := by
  rw [chargeWord_eq, chargeWord_eq, alike.channel accept, alike.m, alike.accepting accept]
  have masked := alike.setM (suppressed d.ctx.currentChannel w d.m)
  exact masked.setChannel accept _

theorem trailer (alike : d.Alike d') (run : RunSettings) (unit : UnitNo)
    (accept : d.ctx.accept = true) (w : Word) :
    (d.trailer run unit w).1.Alike (d'.trailer run unit w).1 ∧
      (d.trailer run unit w).2 = (d'.trailer run unit w).2 := by
  have closed : d'.closed w = d.closed w := by
    rw [Decoder.closed, Decoder.closed, alike.channel accept, alike.accepting accept, alike.m]
  rw [trailer_eq, trailer_eq, closed, alike.gNewEvb]
  split
  · exact ⟨alike.setM _, rfl⟩
  · exact ⟨alike.setM _, rfl⟩

/-- One word does the same to both. -/
theorem word (alike : d.Alike d') (settings : Settings) (run : RunSettings) (unit : UnitNo) (w : Word) :
    Except.Agree (fun a b => a.1.Alike b.1 ∧ a.2 = b.2) (d.word settings run unit w)
      (d'.word settings run unit w) := by
  rw [Decoder.word, Decoder.word, ← alike.ctx.accept]
  apply Except.Agree.ite
  · intro _
    exact .ok (alike.header run unit w)
  intro _
  apply Except.Agree.ite
  · intro _
    apply Except.Agree.ite
    · intro _
      rcases markedGroup? w with _ | group
      · exact .ok ⟨alike, rfl⟩
      · exact .ok ⟨alike.switchGroup group, rfl⟩
    · intro _
      exact .ok ⟨alike, rfl⟩
  intro refused
  have accept : d.ctx.accept = true := not_not.mp refused
  apply Except.Agree.ite
  · intro _
    rcases markedGroup? w with _ | group
    · exact .ok ⟨alike.reject, rfl⟩
    · exact .ok ⟨alike.switchGroup group, rfl⟩
  intro _
  apply Except.Agree.ite fun _ => .ok ⟨alike.timestampWord accept w, rfl⟩
  intro _
  apply Except.Agree.ite fun _ => .ok ⟨alike.channelHeader settings unit accept w, rfl⟩
  intro _
  apply Except.Agree.ite
  · intro _
    apply (alike.sampleWord accept w).bind
    intro next next' stored
    exact .ok ⟨stored, rfl⟩
  intro _
  apply Except.Agree.ite fun _ => .ok ⟨alike.timeWord accept w, rfl⟩
  intro _
  apply Except.Agree.ite fun _ => .ok ⟨alike.chargeWord accept w, rfl⟩
  intro _
  apply Except.Agree.ite
  · intro _
    exact .ok (alike.trailer run unit accept w)
  intro _
  exact .ite (fun _ => .ok ⟨alike, rfl⟩) fun _ => .ok ⟨alike.reject, rfl⟩

end Alike

end Decoder

/-- The context of group 0 of each unit is in group 0. -/
def State.Zeroed (state : State) : Prop := ∀ unit, ((state.tables unit).gContexts 0).group = 0

/-- What the two histories leave behind: contexts that are alike, the same `gNewEvb`, and for each
unit the same context that its next call starts in. -/
structure State.SameResidue (s t : State) : Prop where
  gContexts : ∀ unit group, ((s.tables unit).gContexts group).Alike ((t.tables unit).gContexts group)
  gNewEvb : ∀ unit, (s.tables unit).gNewEvb = (t.tables unit).gNewEvb
  entry : ∀ unit, s.entry unit = t.entry unit

/-- Two states in the same run that differ in nothing that matters. -/
structure State.Same (s t : State) : Prop extends State.SameResidue s t where
  run : s.run = t.run
  list : s.list = t.list
  buf : s.buf = t.buf
  timestampBases : ∀ unit, (s.tables unit).timestampBases = (t.tables unit).timestampBases
  ts : ∀ unit, (s.tables unit).ts = (t.tables unit).ts
  zero : s.Zeroed ∧ t.Zeroed

namespace State

variable {settings : Settings} {s t : State}

/-- The next call of a unit finds the same. -/
theorem Same.enter (same : s.Same t) (unit : UnitNo) : (s.enter unit).Alike (t.enter unit) := by
  rw [enter_eq (same.zero.1 unit), enter_eq (same.zero.2 unit), same.buf, same.entry]
  exact ⟨same.gContexts unit, (same.gNewEvb unit).symm, (same.timestampBases unit).symm,
    (same.ts unit).symm, rfl, rfl⟩

/-- One word is seen to do the same. -/
theorem unpackWord_alike (settings : Settings) (run : RunSettings) (unit : UnitNo)
    {d d' : Decoder} (alike : d.Alike d') (zero : (d.gContexts 0).group = 0) (list : EventList)
    (w : Word) :
    Except.Agree (fun a b => (a.1.1.Alike b.1.1 ∧ (a.1.1.gContexts 0).group = 0 ∧ a.1.2 = b.1.2) ∧
      a.2 = b.2)
      (unpackWord settings run unit (d, list) w) (unpackWord settings run unit (d', list) w) := by
  rw [unpackWord, unpackWord]
  apply (alike.word settings run unit w).remember.bind
  rintro ⟨next, modules⟩ ⟨next', modules'⟩ ⟨⟨alike, same⟩, worded, _⟩
  obtain rfl : modules = modules' := same
  have m : next'.m = next.m := alike.m
  simp only
  rcases Transducer.run (EventList.AddToEvent settings run) list modules with fault | ⟨filed, late⟩
  · exact .error fault
  · refine .ok ⟨⟨alike, Decoder.word_zero worded zero, rfl⟩, ?_⟩
    simp only [alike.ctx.group, m]

/-- A call changes the tables of its unit. -/
theorem leave_tables {P : UnitTables → UnitTables → Prop}
    (each : ∀ other, P (s.tables other) (t.tables other)) (unit : UnitNo) {d d' : Decoder}
    (here : P d.toUnitTables d'.toUnitTables) (list : EventList) (other : UnitNo) :
    P ((s.leave unit d list).tables other) ((t.leave unit d' list).tables other) := by
  simp only [leave]
  obtain rfl | ne := eq_or_ne other unit
  · rwa [Function.update_self, Function.update_self]
  · rw [Function.update_of_ne ne, Function.update_of_ne ne]
    exact each other

/-- Behind a call the pointer is on the same context of the unit. -/
theorem Same.leave (same : s.Same t) (unit : UnitNo) {d d' : Decoder} (alike : d.Alike d')
    (zero : (d.gContexts 0).group = 0) (list : EventList) :
    (s.leave unit d list).Same (t.leave unit d' list) := by
  have gContexts : ∀ other group,
      (((s.leave unit d list).tables other).gContexts group).Alike
        (((t.leave unit d' list).tables other).gContexts group) :=
    leave_tables (P := fun a b => ∀ group,
      (a.gContexts group).Alike (b.gContexts group)) same.gContexts unit
      alike.gContexts list
  have zeros : ∀ other, (((s.leave unit d list).tables other).gContexts 0).group = 0 ∧
      (((t.leave unit d' list).tables other).gContexts 0).group = 0 :=
    leave_tables (P := fun a b => (a.gContexts 0).group = 0 ∧ (b.gContexts 0).group = 0)
      (fun other => ⟨same.zero.1 other, same.zero.2 other⟩) unit
        ⟨zero, (alike.gContexts 0).group.symm.trans zero⟩ list
  refine ⟨⟨gContexts, ?_, ?_⟩, same.run, rfl, ?_, ?_, ?_, fun other => (zeros other).1,
    fun other => (zeros other).2⟩
  · exact leave_tables (P := fun a b => a.gNewEvb = b.gNewEvb) same.gNewEvb unit alike.gNewEvb.symm list
  · intro other
    change (if unit = other then d.c else _) = if unit = other then d'.c else _
    rw [alike.c]
    split_ifs
    · rfl
    · exact (gContexts unit d.c).group
  · simp only [State.leave, same.buf, alike.m]
  · exact leave_tables (P := fun a b => a.timestampBases = b.timestampBases) same.timestampBases unit
      alike.timestampBases.symm list
  · exact leave_tables (P := fun a b => a.ts = b.ts) same.ts unit alike.ts.symm list

/-- A call of `UnpackVF48` is seen to do the same, and what it leaves does not matter either. -/
theorem Same.UnpackVF48 (same : s.Same t) (settings : Settings) (unit : UnitNo) (data : List Word) :
    Except.Agree (fun a b => a.1.Same b.1 ∧ a.2 = b.2) (s.UnpackVF48 settings unit data)
      (t.UnpackVF48 settings unit data) := by
  have zero : ((s.enter unit).gContexts 0).group = 0 := by
    rw [enter_eq (same.zero.1 unit)]
    exact same.zero.1 unit
  rw [State.UnpackVF48, State.UnpackVF48, ← same.run, ← same.list]
  apply Except.Agree.ite
  · intro _
    exact .ok ⟨same.leave unit (same.enter unit) zero _, rfl⟩
  · intro _
    have entered : (s.enter unit).Alike (t.enter unit) ∧ ((s.enter unit).gContexts 0).group = 0 ∧
        s.list = s.list :=
      ⟨same.enter unit, zero, rfl⟩
    have agree := Transducer.run_agree
      (R := fun (a b : Decoder × EventList) => a.1.Alike b.1 ∧ (a.1.gContexts 0).group = 0 ∧ a.2 = b.2)
      (f := unpackWord settings s.run unit) (g := unpackWord settings s.run unit) ?word
      (s := (s.enter unit, s.list)) (t := (t.enter unit, s.list)) entered data
    case word =>
      rintro ⟨d, list⟩ ⟨d', _⟩ w ⟨alike, zero, rfl⟩
      exact unpackWord_alike settings s.run unit alike zero list w
    apply agree.bind
    rintro ⟨⟨d, list⟩, sights⟩ ⟨⟨d', _⟩, _⟩ ⟨⟨alike, zero, rfl⟩, rfl⟩
    exact .ok ⟨same.leave unit alike zero list, rfl⟩

/-- The list of events and the modules that wait have nothing to do with the contexts. -/
theorem Same.relist (same : s.Same t) (list : EventList) :
    Same { s with list := list } { t with list := list } :=
  ⟨⟨same.gContexts, same.gNewEvb, same.entry⟩, same.run, rfl, same.buf, same.timestampBases,
    same.ts, same.zero⟩

theorem Same.refill (same : s.Same t) (i : UnitNo) (m : Option VF48module) :
    Same { s with buf := Function.update s.buf i m } { t with buf := Function.update t.buf i m } :=
  ⟨⟨same.gContexts, same.gNewEvb, same.entry⟩, same.run, same.list,
    congrArg (Function.update · i m) same.buf,
    same.timestampBases, same.ts, same.zero⟩

theorem Same.endUnit (same : s.Same t) (settings : Settings) (i : UnitNo) :
    Except.Agree (fun a b => a.1.Same b.1 ∧ a.2 = b.2) (s.endUnit settings i)
      (t.endUnit settings i) := by
  have held : t.buf i = s.buf i := by rw [same.buf]
  rw [State.endUnit, State.endUnit, held]
  rcases s.buf i with _ | m
  · exact .ok ⟨same, rfl⟩
  · have added : t.list.AddToEvent settings t.run (m.Complete t.run) =
      s.list.AddToEvent settings s.run (m.Complete s.run) := by
      rw [same.run, same.list]
    simp only [added]
    rcases s.list.AddToEvent settings s.run (m.Complete s.run) with fault | ⟨list, late⟩
    · exact .error fault
    · exact .ok ⟨(same.relist list).refill i none, rfl⟩

/-- The end of the run hands over the same. -/
theorem Same.EndRun (same : s.Same t) (settings : Settings) :
    Except.Agree (fun a b => a.1.Same b.1 ∧ a.2 = b.2) (s.EndRun settings) (t.EndRun settings) := by
  rw [State.EndRun, State.EndRun]
  have ended := Transducer.run_agree (R := Same) (fun s t i same => same.endUnit settings i) same
    (List.finRange VF48.VF48_MAX_MODULES)
  apply ended.bind
  rintro ⟨next, early⟩ ⟨next', early'⟩ ⟨same, shown⟩
  obtain rfl : early = early' := shown
  replace same : next.Same next' := same
  simp only [← same.list]
  rcases next.list.CompleteEvents (-1) with fault | ⟨list, late⟩
  · exact .error fault
  · exact .ok ⟨same.relist list, rfl⟩

/-- A new run starts over with everything but the residue. -/
theorem SameResidue.BeginRun (residue : s.SameResidue t) (zero : s.Zeroed ∧ t.Zeroed)
    (settings : Settings) (grpEnabled : Word) (numSamples delay : ℤ) :
    Except.Agree (fun a b => a.1.Same b.1 ∧ a.2 = b.2) (s.BeginRun settings grpEnabled numSamples delay)
      (t.BeginRun settings grpEnabled numSamples delay) := by
  rw [BeginRun_eq, BeginRun_eq]
  cases firstGroup? grpEnabled with
  | none => exact .error _
  | some tgroup =>
    exact .ok ⟨⟨⟨residue.gContexts, residue.gNewEvb, residue.entry⟩, rfl, rfl, rfl, fun _ => rfl,
      fun _ => rfl, zero⟩, rfl⟩

theorem SameResidue.call (residue : s.SameResidue t) (zero : s.Zeroed ∧ t.Zeroed) (settings : Settings)
    (grpEnabled : Word) (numSamples delay : ℤ) :
    Except.Agree (fun a b => a.1.Same b.1 ∧ a.2 = b.2)
      (s.call settings (.BeginRun grpEnabled numSamples delay))
      (t.call settings (.BeginRun grpEnabled numSamples delay)) := by
  apply (residue.BeginRun zero settings grpEnabled numSamples delay).bind
  rintro ⟨next, handed⟩ ⟨next', _⟩ ⟨same, rfl⟩
  exact .ok ⟨same, rfl⟩

/-- Every call is seen to do the same. -/
theorem Same.call (same : s.Same t) (settings : Settings) (c : Call) :
    Except.Agree (fun a b => a.1.Same b.1 ∧ a.2 = b.2) (s.call settings c) (t.call settings c) := by
  cases c with
  | UnpackVF48 unit data => exact same.UnpackVF48 settings unit data
  | BeginRun grpEnabled numSamples delay =>
    exact same.toSameResidue.call same.zero settings grpEnabled numSamples delay
  | EndRun =>
    apply (same.EndRun settings).bind
    rintro ⟨next, handed⟩ ⟨next', _⟩ ⟨same, rfl⟩
    exact .ok ⟨same, rfl⟩

theorem Zeroed.same (zero : s.Zeroed) : s.Same s :=
  ⟨⟨fun _ _ => .refl _, fun _ => rfl, fun _ => rfl⟩, rfl, rfl, rfl, fun _ => rfl, fun _ => rfl,
    zero, zero⟩

/-- Whatever was called before, the context of group 0 is in group 0. -/
theorem zeroed_of_run {history : List Call} {seen : List Sight}
    (ran : Transducer.run (call settings) .initial history = .ok (s, seen)) : s.Zeroed := by
  refine Transducer.run_keeps (fun _ (_ : List Sight) (state : State) => state.Zeroed) ?_
    (fun _ => rfl) ran
  intro _ _ state c next out zero called
  have agree := zero.same.call settings c
  rw [called] at agree
  obtain ⟨_, same, kept, _⟩ := agree.to_ok
  exact kept.zero.1

end State

/-- After histories that leave the same residue, a new run and all calls that follow it are seen to
do the same: they decode the same words, and hand over the same events. -/
theorem BeginRun_isolates {settings : Settings} {history history' : List Call} {s t : State}
    {seen seen' : List Sight}
    (ran : Transducer.run (State.call settings) .initial history = .ok (s, seen))
    (ran' : Transducer.run (State.call settings) .initial history' = .ok (t, seen'))
    (residue : s.SameResidue t) (grpEnabled : Word) (numSamples delay : ℤ) (calls : List Call) :
    (Transducer.run (State.call settings) s (.BeginRun grpEnabled numSamples delay :: calls)).map
      Prod.snd =
      (Transducer.run (State.call settings) t (.BeginRun grpEnabled numSamples delay :: calls)).map
        Prod.snd := by
  have zero := And.intro (State.zeroed_of_run ran) (State.zeroed_of_run ran')
  have agree : Except.Agree (fun a b => a.1.Same b.1 ∧ a.2 = b.2)
      (Transducer.run (State.call settings) s (.BeginRun grpEnabled numSamples delay :: calls))
      (Transducer.run (State.call settings) t (.BeginRun grpEnabled numSamples delay :: calls)) := by
    rw [Transducer.run, Transducer.run]
    apply (residue.call zero settings grpEnabled numSamples delay).bind
    rintro ⟨begun, handed⟩ ⟨begun', _⟩ ⟨same, rfl⟩
    apply (Transducer.run_agree (R := State.Same)
      (fun s t c same => same.call settings c) same calls).bind
    rintro ⟨final, sights⟩ ⟨final', _⟩ ⟨same, rfl⟩
    exact .ok ⟨same, rfl⟩
  exact agree.map_eq fun a b related => related.2

/-- The events of one group, and the first of three calls without a header. -/
def openedRun : List Call := [.UnpackVF48 0 [0xC0000000, 0x00050004, 0xE0000001], .EndRun]

theorem BeginRun_isolates_zeros :
    ∃ s seen, Transducer.run (State.call .initial) .initial [.UnpackVF48 0 [0]] = .ok (s, seen) ∧
      (Transducer.run (State.call .initial) s (.BeginRun 1 2 0 :: openedRun)).map Prod.snd =
        (Transducer.run (State.call .initial) .initial (.BeginRun 1 2 0 :: openedRun)).map
          Prod.snd := by
  have initial : Transducer.run (State.call .initial) .initial [] = .ok (State.initial, []) := rfl
  have ran : Transducer.run (State.call .initial) .initial [.UnpackVF48 0 [0]] =
      .ok (State.initial.leave 0 (State.initial.enter 0) State.initial.list, []) := rfl
  have still (unit : UnitNo) :
      (State.initial.leave 0 (State.initial.enter 0) State.initial.list).tables unit = .initial := by
    have opened : State.initial.enter 0 = { State.initial.tables 0 with m := .new 0, c := 0 } :=
      State.enter_eq rfl
    rw [opened]
    exact congrFun (Function.update_eq_self 0 State.initial.tables) unit
  have residue : (State.initial.leave 0 (State.initial.enter 0) State.initial.list).SameResidue
      .initial := by
    constructor
    · intro unit group
      rw [still]
      exact .refl _
    · intro unit
      rw [still]
      rfl
    · intro unit
      change (if 0 = unit then 0 else (((State.initial.leave 0 _ _).tables 0).gContexts 0).group) = 0
      rw [still]
      exact ite_self 0
  exact ⟨_, _, ran, BeginRun_isolates ran initial residue 1 2 0 openedRun⟩

/-- A header alone leaves the context of group 0 open, and the next run takes words that it would
skip. -/
theorem openedRun_differs :
    ∃ s t seen seen' sights sights',
      Transducer.run (State.call .initial) .initial [.UnpackVF48 0 [0x80000001]] = .ok (s, seen) ∧
      Transducer.run (State.call .initial) .initial [] = .ok (t, seen') ∧
      (Transducer.run (State.call .initial) s (.BeginRun 1 2 0 :: openedRun)).map Prod.snd =
        .ok sights ∧
      (Transducer.run (State.call .initial) t (.BeginRun 1 2 0 :: openedRun)).map Prod.snd =
        .ok sights' ∧
      (handed sights).map VF48event.eventNo = [1, 2] ∧ (handed sights').map VF48event.eventNo = [1] :=
  ⟨_, _, _, _, _, _, rfl, rfl, rfl, rfl, rfl, rfl⟩

end PtfConverter.OldVF48
