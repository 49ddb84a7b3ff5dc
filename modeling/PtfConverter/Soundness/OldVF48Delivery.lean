import PtfConverter.Model.OldUnpackVF48

/-! # Delivery of the events after a delay

Events get their numbers as they are made. What was handed over, and behind it the events in the
list from the oldest on, are always the events with the numbers from 1 on. With a delay that stays the
same, every added module makes the list at most that long, so that only one event is handed over
at a time.
-/

namespace PtfConverter.OldVF48

open VF48 (UnitNo Word)

/-- The events that were handed over and those in the list, in the order in which they were made. -/
structure EventList.Numbered (given : List VF48event) (list : EventList) : Prop where
  eventNos : (given ++ list.events.reverse).map VF48event.eventNo = List.range' 1 list.gEventNo

namespace EventList

variable {settings : Settings} {list : EventList} {given : List VF48event}

/-- The event that is found has no module of the unit, and at most one event was made for it. -/
theorem FindEvent_cases (settings : Settings) (list : EventList) (module : UnitNo)
    (timestamp : Seconds) :
    (∃ index, list.FindEvent settings module timestamp = (list, index) ∧
      ∃ e, list.events[index]? = some e ∧ e.modules module = none) ∨
    list.FindEvent settings module timestamp =
      (⟨⟨list.gEventNo + 1, 0, timestamp, fun _ => none⟩ :: list.events, list.gEventNo + 1⟩, 0) := by
  rw [FindEvent]
  cases found : list.events.findIdx? fun e =>
      e.timestamp.within settings.EPS timestamp && (e.modules module).isNone with
  | none => exact .inr rfl
  | some index =>
    refine .inl ⟨index, rfl, ?_⟩
    obtain ⟨inside, suits, _⟩ := List.findIdx?_eq_some_iff_getElem.mp found
    rw [Bool.and_eq_true, Option.isNone_iff_eq_none] at suits
    exact ⟨list.events[index], List.getElem?_eq_getElem inside, suits.2⟩

/-- An event that is made for a module is the newest one. -/
theorem Numbered.FindEvent (numbered : list.Numbered given) (module : UnitNo) (timestamp : Seconds) :
    (list.FindEvent settings module timestamp).1.Numbered given := by
  obtain ⟨index, same, _⟩ | made := FindEvent_cases settings list module timestamp
  · rwa [same]
  · rw [made]
    constructor
    rw [List.reverse_cons, ← List.append_assoc, List.map_append, numbered.eventNos,
      List.range'_1_concat, Nat.add_comm 1]
    rfl

theorem FindEvent_length (settings : Settings) (list : EventList) (module : UnitNo)
    (timestamp : Seconds) :
    (list.FindEvent settings module timestamp).1.events.length ≤ list.events.length + 1 := by
  obtain ⟨index, same, _⟩ | made := FindEvent_cases settings list module timestamp
  · rw [same]
    exact Nat.le_succ _
  · rw [made]
    exact le_rfl

/-- A module goes to an event of the list. -/
def file (list : EventList) (index : ℕ) (m : VF48module) : EventList :=
  { list with
    events := list.events.modify index fun e =>
      { e with modules := Function.update e.modules m.unit (some m), error := max e.error m.error } }

/-- A module that goes to an event changes no number. -/
theorem Numbered.file (numbered : list.Numbered given) (index : ℕ) (m : VF48module) :
    (list.file index m).Numbered given := by
  have eventNos : (list.file index m).events.map VF48event.eventNo =
      list.events.map VF48event.eventNo := by
    apply List.ext_getElem?
    intro i
    rw [EventList.file, List.getElem?_map, List.getElem?_map, List.getElem?_modify]
    split_ifs <;> rcases list.events[i]? with _ | e <;> rfl
  have old := numbered.eventNos
  constructor
  rw [List.map_append, List.map_reverse] at old ⊢
  rwa [eventNos]

/-- What is handed over follows what was handed over before. -/
theorem Numbered.CompleteEvents (numbered : list.Numbered given) {skip : ℤ} {next : EventList}
    {late : List VF48event} (completed : list.CompleteEvents skip = .ok (next, late)) :
    next.Numbered (given ++ late) := by
  rw [EventList.CompleteEvents] at completed
  split_ifs at completed
  cases completed
  constructor
  rw [List.append_assoc, ← List.reverse_append, List.take_append_drop]
  exact numbered.eventNos

/-- Fewer than `kMaxCount` events behind the first ones are handed over, and the first ones stay. -/
theorem CompleteEvents_ok {list : EventList} (skip : ℤ) (few : list.events.length < skip.toNat + 100) :
    ∃ next late, list.CompleteEvents skip = .ok (next, late) ∧ next.events.length ≤ skip.toNat := by
  have short : (list.events.drop skip.toNat).length < 100 := by
    rw [List.length_drop]
    omega
  exact ⟨_, _, if_pos short, List.length_take_le ..⟩

/-- A module always finds a free place, in an old event or a new one. -/
theorem AddToEvent_eq (settings : Settings) (run : RunSettings) (list : EventList) (m : VF48module) :
    list.AddToEvent settings run m =
      CompleteEvents
        ((list.FindEvent settings m.unit (m.timestamps run.tgroup)).1.file
          (list.FindEvent settings m.unit (m.timestamps run.tgroup)).2 m) run.gDelay := by
  have free : ((list.FindEvent settings m.unit (m.timestamps run.tgroup)).1.events[
      (list.FindEvent settings m.unit (m.timestamps run.tgroup)).2]?.bind fun e =>
        e.modules m.unit) = none := by
    obtain ⟨index, same, e, here, free⟩ | made :=
      FindEvent_cases settings list m.unit (m.timestamps run.tgroup)
    · rw [same, here]
      exact free
    · rw [made]
      rfl
  simp only [AddToEvent, free]
  rfl

/-- While the list is no longer than the delay, a module can be added, and the list stays so. -/
theorem AddToEvent_keeps (settings : Settings) {run : RunSettings}
    (few : list.events.length ≤ run.gDelay.toNat) (m : VF48module) (given : List VF48event) :
    ∃ next late, list.AddToEvent settings run m = .ok (next, late) ∧
      next.events.length ≤ run.gDelay.toNat ∧
      (list.Numbered given → next.Numbered (given ++ late)) := by
  have longer := FindEvent_length settings list m.unit (m.timestamps run.tgroup)
  have room : ((list.FindEvent settings m.unit (m.timestamps run.tgroup)).1.file
      (list.FindEvent settings m.unit (m.timestamps run.tgroup)).2 m).events.length <
        run.gDelay.toNat + 100 := by
    rw [file, List.length_modify]
    omega
  obtain ⟨next, late, completed, short⟩ := CompleteEvents_ok run.gDelay room
  refine ⟨next, late, (AddToEvent_eq ..).trans completed, short, ?_⟩
  intro numbered
  exact ((numbered.FindEvent _ _).file _ m).CompleteEvents completed

/-- The list of a run: its events are numbered, and at most as many wait as the delay says. -/
structure Waits (run : RunSettings) (given : List VF48event) (list : EventList) : Prop where
  numbered : list.Numbered given
  few : list.events.length ≤ run.gDelay.toNat

theorem Waits.AddToEvent (settings : Settings) {run : RunSettings} (waits : list.Waits run given)
    (m : VF48module) :
    ∃ next late, list.AddToEvent settings run m = .ok (next, late) ∧
      next.Waits run (given ++ late) := by
  obtain ⟨next, late, added, few, numbered⟩ := AddToEvent_keeps settings waits.few m given
  exact ⟨next, late, added, numbered waits.numbered, few⟩

end EventList

/-- The module of a unit is one more that is added. -/
theorem State.endUnit_waits (settings : Settings) {given : List VF48event} {state : State}
    (waits : state.list.Waits state.run given) (i : UnitNo) :
    ∃ next late, state.endUnit settings i = .ok (next, late) ∧
      next.list.Waits next.run (given ++ late) ∧
      next.run = state.run := by
  rw [endUnit]
  cases state.buf i with
  | none =>
    refine ⟨state, [], rfl, ?_, rfl⟩
    rwa [List.append_nil]
  | some m =>
    obtain ⟨next, late, added, kept⟩ := waits.AddToEvent settings (m.Complete state.run)
    refine ⟨{ state with list := next, buf := Function.update state.buf i none }, late, ?_, kept, rfl⟩
    simp only [added, Except.ok_bind]
    rfl

/-- `EndRun` hands over all that wait when the delay allows it. -/
theorem State.EndRun_delivers (settings : Settings) {given : List VF48event} (state : State)
    (waits : state.list.Waits state.run given) (short : state.run.gDelay ≤ 99) :
    ∃ ended late, state.EndRun settings = .ok (ended, late) ∧ ended.list.events = [] ∧
      (given ++ late).map VF48event.eventNo = List.range' 1 ended.list.gEventNo := by
  have unit_ends {given : List VF48event} {middle : State} (i : UnitNo)
      (waits : middle.list.Waits middle.run given ∧ middle.run = state.run) :
      ∃ next late, endUnit settings middle i = .ok (next, late) ∧
        next.list.Waits next.run (given ++ late) ∧ next.run = state.run := by
    obtain ⟨next, late, ended, kept, unchanged⟩ := endUnit_waits settings waits.1 i
    exact ⟨next, late, ended, kept, unchanged.trans waits.2⟩
  obtain ⟨last, early, ran, kept, same⟩ := Transducer.run_total
    (fun given (next : State) => next.list.Waits next.run given ∧
      next.run = state.run) unit_ends given ⟨waits, rfl⟩
    (List.finRange VF48.VF48_MAX_MODULES)
  have few := kept.few
  rw [same] at few
  have room : last.list.events.length < (-1 : ℤ).toNat + 100 := by omega
  obtain ⟨next, late, completed, none⟩ := EventList.CompleteEvents_ok (-1) room
  have empty : next.events = [] := List.length_eq_zero_iff.mp (Nat.le_zero.mp none)
  have numbered := (kept.numbered.CompleteEvents completed).eventNos
  rw [empty, List.reverse_nil, List.append_nil] at numbered
  refine ⟨{ last with list := next }, early ++ late, ?_, empty, ?_⟩
  · rw [EndRun, ran, Except.ok_bind]
    simp only [completed, Except.ok_bind]
    rfl
  · rw [← List.append_assoc]
    exact numbered

/-- Without modules the end of the run adds nothing. -/
theorem State.run_endUnit {settings : Settings} {state : State}
    (unbuffered : ∀ unit, state.buf unit = none) (units : List UnitNo) :
    Transducer.run (endUnit settings) state units = .ok (state, []) := by
  induction units with
  | nil => rfl
  | cons unit units ih =>
    have nothing : state.endUnit settings unit = .ok (state, []) := by rw [endUnit, unbuffered]
    rw [Transducer.run_cons_silent nothing]
    exact ih

/-- Nothing is handed over between two runs. -/
theorem State.EndRun_FlushBuffers (settings : Settings) (state : State) :
    state.FlushBuffers.EndRun settings = .ok (state.FlushBuffers, []) := by
  rw [EndRun, run_endUnit fun _ => rfl]
  rfl

/-- The group whose timestamps count. -/
def firstGroup? (grpEnabled : Word) : Option VF48.Group :=
  (List.finRange VF48.VF48_MAX_GROUPS).find? fun grp => grpEnabled &&& (1#32 <<< grp.val) ≠ 0

/-- What `BeginRun` makes of the variables. -/
def State.begun (state : State) (grpEnabled : Word) (numSamples delay : ℤ) (tgroup : VF48.Group) :
    State where
  run :=
    { gGroupEnabled := fun _ => grpEnabled
      gChanEnabled := fun _ chan => grpEnabled &&& (1#32 <<< (chan.val / 8)) != 0
      gNumSamples := fun _ => numSamples
      tgroup := tgroup
      gDelay := delay }
  list := ⟨[], 0⟩
  tables := fun unit => { state.tables unit with timestampBases := 0, ts := fun _ => 0 }
  buf := fun _ => none
  c := state.c

theorem State.BeginRun_eq (settings : Settings) (state : State) (grpEnabled : Word)
    (numSamples delay : ℤ) :
    state.BeginRun settings grpEnabled numSamples delay =
      match firstGroup? grpEnabled with
      | none => .error .exit
      | some tgroup => .ok (state.begun grpEnabled numSamples delay tgroup, []) := by
  rw [BeginRun, EndRun_FlushBuffers]
  rfl

/-- For every delay up to 99, after each added module at most that many events are in the list, the
assertion holds, and by the end of the run, whatever modules wait for it, every event was handed
over in the order of its number, from 1 to the last. -/
theorem AddToEvent_delivers (settings : Settings) (state : State) {grpEnabled : Word}
    {numSamples delay : ℤ} (range : 0 ≤ delay ∧ delay ≤ 99) {begun : State}
    {early : List VF48event}
    (began : state.BeginRun settings grpEnabled numSamples delay = .ok (begun, early))
    (modules : List VF48module) :
    early = [] ∧ ∃ list outs,
      Transducer.run (EventList.AddToEvent settings begun.run) begun.list modules =
      .ok (list, outs) ∧
      (list.events.length : ℤ) ≤ delay ∧
      (outs ++ list.events.reverse).map VF48event.eventNo = List.range' 1 list.gEventNo ∧
      ∀ buf : UnitNo → Option VF48module, ∃ ended late,
        ({ begun with list := list, buf := buf } : State).EndRun settings = .ok (ended, late) ∧
        ended.list.events = [] ∧
          (outs ++ late).map VF48event.eventNo = List.range' 1 ended.list.gEventNo := by
  rw [State.BeginRun_eq] at began
  cases enabled : firstGroup? grpEnabled with
  | none =>
    rw [enabled] at began
    cases began
  | some tgroup =>
    rw [enabled] at began
    cases began
    obtain ⟨nonneg, short⟩ := range
    set begun := state.begun grpEnabled numSamples delay tgroup
    have waits : begun.list.Waits begun.run [] := ⟨⟨rfl⟩, Nat.zero_le _⟩
    obtain ⟨list, outs, ran, waits⟩ :=
      Transducer.run_total (fun given (list : EventList) => list.Waits begun.run given)
      (fun m waits => waits.AddToEvent settings m) [] waits modules
    refine ⟨rfl, list, outs, ran, ?_, waits.numbered.eventNos, ?_⟩
    · have few := waits.few
      change list.events.length ≤ delay.toNat at few
      omega
    · intro buf
      exact State.EndRun_delivers settings { begun with list := list, buf := buf } waits short

/-- Two modules with times far apart, at a delay of one event. -/
theorem AddToEvent_delivers_two :
    ∃ begun, State.initial.BeginRun .initial 1 2 1 = .ok (begun, []) ∧
      ∃ list outs,
        Transducer.run (EventList.AddToEvent .initial begun.run) begun.list
          [.new 0, { VF48module.new 0 with timestamps := fun _ => .finite 1 }] = .ok (list, outs) ∧
        (list.events.length : ℤ) ≤ 1 ∧
        (outs ++ list.events.reverse).map VF48event.eventNo = List.range' 1 list.gEventNo := by
  have began : State.initial.BeginRun .initial 1 2 1 = .ok (State.initial.begun 1 2 1 0, []) :=
    State.BeginRun_eq ..
  obtain ⟨_, list, outs, ran, few, eventNos, _⟩ :=
    AddToEvent_delivers .initial .initial (by decide) began
    [.new 0, { VF48module.new 0 with timestamps := fun _ => .finite 1 }]
  exact ⟨_, began, list, outs, ran, few, eventNos⟩

end PtfConverter.OldVF48
