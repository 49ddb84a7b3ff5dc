import PtfConverter.Soundness.OldVF48Delivery
import PtfConverter.Soundness.OldVF48Words
import PtfConverter.ToMathlib.Agreement
import PtfConverter.ToMathlib.MachineFamily

/-! # Units under interleaved calls

What a call decodes depends on the tables of its unit and on the group that the pointer `c`
is on. That is the group of the last marker of whichever unit was called last: a call carries
on where the unit itself stopped when the last markers of both units are the same, or when
its first word is a marker.
-/

namespace PtfConverter.OldVF48

open VF48 (UnitNo Word Group)

/-- A call of `UnpackVF48`. -/
abbrev UnitCall := UnitNo × List Word

def State.unpackCall (settings : Settings) (state : State) (call : UnitCall) :
    Except Fault (State × List Sight) :=
  state.UnpackVF48 settings call.1 call.2

/-- What a word of a unit is seen to do. -/
def Sight.decoded? : Sight → Option (UnitNo × Decoder.Reading)
  | .decoded unit group m completed => some (unit, group, m, completed)
  | .handed _ => none

/-- What is decoded for a unit: for each word its group, the module behind it, and what is
complete. -/
def decodedOf (unit : UnitNo) (sights : List Sight) : List Decoder.Reading :=
  (sights.filterMap Sight.decoded?).ofIndex unit

theorem decodedOf_append (unit : UnitNo) (first second : List Sight) :
    decodedOf unit (first ++ second) = decodedOf unit first ++ decodedOf unit second := by
  rw [decodedOf, List.filterMap_append, List.ofIndex_append]
  rfl

/-- Any number of modules can be added. -/
theorem EventList.run_AddToEvent (settings : Settings) {run : RunSettings} {list : EventList}
    (few : list.events.length ≤ run.gDelay.toNat) (modules : List VF48module) :
    ∃ next late, Transducer.run (AddToEvent settings run) list modules = .ok (next, late) ∧
      next.events.length ≤ run.gDelay.toNat :=
  Transducer.run_total (fun _ (list : EventList) => list.events.length ≤ run.gDelay.toNat)
    (fun m few => by
      obtain ⟨next, late, added, few, _⟩ := AddToEvent_keeps settings few m []
      exact ⟨next, late, added, few⟩)
    [] few modules

/-- The list of events never stops a word, and what the word does to its unit does not depend on
it. -/
theorem State.unpackWord_agree (settings : Settings) {run : RunSettings} {unit : UnitNo}
    {decoder : Decoder} {list : EventList} (few : list.events.length ≤ run.gDelay.toNat)
    (w : Word) :
    Except.Agree
      (fun a b => (a.1.1 = b.1 ∧ a.1.2.events.length ≤ run.gDelay.toNat) ∧
        a.2.filterMap Sight.decoded? = b.2.filterMap fun reading => some (unit, reading))
      (unpackWord settings run unit (decoder, list) w) (decoder.read settings run unit w) := by
  rw [unpackWord, Decoder.read]
  rcases decoder.word settings run unit w with fault | ⟨next, modules⟩
  · exact .error fault
  · obtain ⟨filed, late, added, few⟩ := EventList.run_AddToEvent settings few modules
    have silent : (late.map Sight.handed).filterMap Sight.decoded? = [] := by
      rw [List.filterMap_map]
      exact List.filterMap_eq_nil_iff.mpr fun _ _ => rfl
    simp only [Except.ok_bind, added]
    refine .ok ⟨⟨rfl, few⟩, ?_⟩
    rw [List.filterMap_cons, silent]
    rfl

/-- What a call does to the variables, when its words do `result` to its unit. -/
structure Decodes (state : State) (unit : UnitNo) (result : Decoder × List Decoder.Reading)
    (next : State) (sights : List Sight) : Prop where
  run : next.run = state.run
  few : next.list.events.length ≤ next.run.gDelay.toNat
  tables : next.tables = Function.update state.tables unit result.1.toUnitTables
  buf : next.buf = Function.update state.buf unit (some result.1.m)
  c : next.c = some (unit, result.1.c)
  decoded : sights.filterMap Sight.decoded? = result.2.map (Prod.mk unit)

/-- The context of group 0 of each unit keeps its group. -/
theorem Decodes.zero {state next : State} {unit : UnitNo}
    {result : Decoder × List Decoder.Reading} {sights : List Sight}
    (decodes : Decodes state unit result next sights)
    (kept : ((state.tables unit).gContexts 0).group = 0 → (result.1.gContexts 0).group = 0)
    (zero : ∀ unit, ((state.tables unit).gContexts 0).group = 0) (other : UnitNo) :
    ((next.tables other).gContexts 0).group = 0 := by
  rw [decodes.tables]
  obtain rfl | ne := eq_or_ne other unit
  · rw [Function.update_self]
    exact kept (zero _)
  · rw [Function.update_of_ne ne]
    exact zero other

/-- A call goes through its words from where `c` is when it starts. -/
theorem State.UnpackVF48_agree (settings : Settings) {state : State}
    (few : state.list.events.length ≤ state.run.gDelay.toNat) (unit : UnitNo) (data : List Word) :
    Except.Agree (fun a b => Decodes state unit b a.1 a.2) (state.UnpackVF48 settings unit data)
      ((state.enter unit).readAll settings state.run unit data) := by
  rw [UnpackVF48, Decoder.readAll]
  split_ifs with zeros
  · exact .ok ⟨rfl, few, rfl, rfl, rfl, rfl⟩
  · have agree := Transducer.run_agree_filterMap
      (R := fun (a : Decoder × EventList) b => a.1 = b ∧ a.2.events.length ≤ state.run.gDelay.toNat)
      (f := unpackWord settings state.run unit)
        (g := Decoder.read settings state.run unit) id Sight.decoded?
      (fun reading => some (unit, reading)) ?word (s := (state.enter unit, state.list))
        (t := state.enter unit)
      ⟨rfl, few⟩ data
    case word =>
      rintro ⟨decoder, list⟩ _ w ⟨rfl, few⟩
      exact unpackWord_agree settings few w
    rw [List.map_id] at agree
    generalize Transducer.run (Decoder.read settings state.run unit) (state.enter unit) data =
      result at agree ⊢
    rw [← bind_pure result]
    apply agree.bind
    rintro ⟨⟨decoder, list⟩, sights⟩ ⟨_, readings⟩ ⟨⟨rfl, few⟩, decoded⟩
    rw [List.filterMap_eq_map'] at decoded
    exact .ok ⟨rfl, few, rfl, rfl, rfl, decoded⟩

/-- The group of the last marker among the words of a unit; 0 before the first one. -/
def lastGroup (calls : List UnitCall) (unit : UnitNo) : Group :=
  groupAfter 0 (calls.ofIndex unit).flatten

/-- A call for another unit than the one before it carries on where its own unit stopped: the last
markers of both name the same group, or its first word is a marker. -/
def Joins (past : List UnitCall) (call : UnitCall) : Prop :=
  ∀ last ∈ past.getLast?, last.1 ≠ call.1 →
    lastGroup past last.1 = lastGroup past call.1 ∨ Decoder.Starts call.2

/-- Every call does so. -/
def Aligned (calls : List UnitCall) : Prop := ∀ past call, past ++ [call] <+: calls → Joins past call

theorem Aligned.of_append {first second : List UnitCall} (aligned : Aligned (first ++ second)) :
    Aligned first :=
  fun past call cut => aligned past call (cut.trans (List.prefix_append ..))

theorem lastGroup_append_self (past : List UnitCall) (unit : UnitNo) (data : List Word) :
    lastGroup (past ++ [(unit, data)]) unit = groupAfter (lastGroup past unit) data := by
  rw [lastGroup, List.ofIndex_append, List.ofIndex_cons_self, List.flatten_append, groupAfter,
    List.foldl_append]
  exact congrArg (List.foldl _ _) (List.append_nil data)

theorem lastGroup_append_ne (past : List UnitCall) {unit other : UnitNo} (ne : other ≠ unit)
    (data : List Word) :
    lastGroup (past ++ [(other, data)]) unit = lastGroup past unit := by
  rw [lastGroup, List.ofIndex_append, List.ofIndex_cons_ne ne, List.ofIndex_nil, List.append_nil]
  rfl

/-- Where the pointer and the contexts are after some calls. -/
structure Placed (past : List UnitCall) (state : State) : Prop where
  few : state.list.events.length ≤ state.run.gDelay.toNat
  c : state.c = past.getLast?.map fun last => (last.1, lastGroup past last.1)
  homes : ∀ unit, ((state.tables unit).gContexts (lastGroup past unit)).group = lastGroup past unit
  zero : ∀ unit, ((state.tables unit).gContexts 0).group = 0

variable {settings : Settings} {past : List UnitCall} {state : State}

/-- The next call starts in the group of the last marker of the unit that was called last. -/
theorem Placed.entry (placed : Placed past state) (unit : UnitNo) :
    state.entry unit = (past.getLast?.map fun last => lastGroup past last.1).getD 0 := by
  rw [State.entry, placed.c]
  cases past.getLast? with
  | none => rfl
  | some call => simp only [Option.map_some, placed.homes, ite_self, Option.getD_some]

/-- A call of the next unit starts where the unit stopped, or its words start with a marker. -/
theorem Joins.entry {call : UnitCall} (joins : Joins past call) (placed : Placed past state) :
    state.entry call.1 = lastGroup past call.1 ∨ Decoder.Starts call.2 := by
  rw [placed.entry]
  cases last : past.getLast? with
  | none =>
    obtain rfl := List.getLast?_eq_none_iff.mp last
    exact .inl rfl
  | some before =>
    by_cases same : before.1 = call.1
    · exact .inl (congrArg (lastGroup past) same)
    · exact joins before last same

/-- A call that joins decodes what it would decode where its unit stopped. -/
theorem Placed.readAll_enter (placed : Placed past state) {call : UnitCall} (joins : Joins past call) :
    (state.enter call.1).readAll settings state.run call.1 call.2 =
      Decoder.readAll settings state.run call.1
        { state.tables call.1 with
          m := (state.buf call.1).getD (.new call.1), c := lastGroup past call.1 } call.2 := by
  rw [State.enter_eq (placed.zero call.1)]
  obtain same | starts := joins.entry placed
  · rw [same]
  · exact (Decoder.readAll_starts starts (lastGroup past call.1)).symm

/-- After a call that joins, everything is in its place again. -/
theorem Placed.call (placed : Placed past state) {call : UnitCall} (joins : Joins past call)
    {result : Decoder × List Decoder.Reading} {next : State} {sights : List Sight}
    (read : (state.enter call.1).readAll settings state.run call.1 call.2 = .ok result)
    (decodes : Decodes state call.1 result next sights) : Placed (past ++ [call]) next := by
  obtain ⟨unit, data⟩ := call
  rw [placed.readAll_enter joins] at read
  obtain ⟨pointer, home⟩ := Decoder.readAll_group read
  have atHome : result.1.AtHome := home (.inl (placed.homes unit))
  rw [← lastGroup_append_self] at pointer
  refine ⟨decodes.few, ?_, ?_, decodes.zero (Decoder.readAll_zero read) placed.zero⟩
  · rw [decodes.c, List.getLast?_concat, pointer]
    rfl
  · intro other
    rw [decodes.tables]
    obtain rfl | ne := eq_or_ne unit other
    · rw [Function.update_self, ← pointer]
      exact atHome
    · rw [Function.update_of_ne ne.symm, lastGroup_append_ne past ne]
      exact placed.homes other

/-- The calls of a unit, without those of the others. -/
def alone (unit : UnitNo) (calls : List UnitCall) : List UnitCall :=
  calls.filter fun call => call.1 = unit

theorem alone_append_self (unit : UnitNo) (past : List UnitCall) (data : List Word) :
    alone unit (past ++ [(unit, data)]) = alone unit past ++ [(unit, data)] := by
  rw [alone, List.filter_append, List.filter_singleton, decide_eq_true rfl]
  rfl

theorem alone_append_ne {unit other : UnitNo} (ne : other ≠ unit) (past : List UnitCall)
    (data : List Word) :
    alone unit (past ++ [(other, data)]) = alone unit past := by
  rw [alone, List.filter_append, List.filter_singleton, decide_eq_false ne]
  exact List.append_nil _

theorem lastGroup_alone (unit : UnitNo) (past : List UnitCall) :
    lastGroup (alone unit past) unit = lastGroup past unit := by
  rw [lastGroup, alone, List.ofIndex_filter]
  rfl

/-- Without other units there is nothing that does not join. -/
theorem alone_joins (unit : UnitNo) (past : List UnitCall) (data : List Word) :
    Joins (alone unit past) (unit, data) := by
  intro last member ne
  have mine := List.mem_of_mem_getLast? member
  rw [alone, List.mem_filter, decide_eq_true_eq] at mine
  exact absurd mine.2 ne

/-- The run of the calls of one unit alone, beside a run of all calls. -/
structure Alone (settings : Settings) (start : State) (past : List UnitCall) (unit : UnitNo)
    (state : State) (sights : List Sight) (last : State) (seen : List Sight) : Prop where
  ran : Transducer.run (State.unpackCall settings) start (alone unit past) = .ok (last, seen)
  placed : Placed (alone unit past) last
  run : last.run = start.run
  tables : last.tables unit = state.tables unit
  buf : last.buf unit = state.buf unit
  decoded : decodedOf unit seen = decodedOf unit sights

/-- A run of all calls, with those of each unit alone. -/
structure Accompanied (settings : Settings) (start : State) (past : List UnitCall) (state : State)
    (sights : List Sight) : Prop where
  placed : Placed past state
  run : state.run = start.run
  each : ∀ unit, ∃ last seen, Alone settings start past unit state sights last seen

/-- The next call decodes the same in both runs, or stops both. -/
theorem Alone.readAll {start : State} {unit : UnitNo} {sights seen : List Sight} {last : State}
    (alone : Alone settings start past unit state sights last seen) (placed : Placed past state)
    (run : state.run = start.run) {data : List Word} (joins : Joins past (unit, data)) :
    (last.enter unit).readAll settings last.run unit data =
      (state.enter unit).readAll settings state.run unit data := by
  rw [alone.placed.readAll_enter (alone_joins unit past data), placed.readAll_enter joins,
    alone.run, run, alone.tables, alone.buf, lastGroup_alone]

theorem decodedOf_call {unit other : UnitNo} {result : Decoder × List Decoder.Reading}
    {next : State} {out : List Sight} (decodes : Decodes state unit result next out)
    (sights : List Sight) :
    decodedOf other (sights ++ out) = decodedOf other sights ++ if unit = other then
      result.2 else [] := by
  rw [decodedOf_append, decodedOf, decodedOf, decodes.decoded]
  split_ifs with same
  · rw [same, List.ofIndex_map_self]
  · rw [List.ofIndex_map_ne same]

/-- A call that joins keeps the run of its unit alone in step, and is nothing to the others. -/
theorem Accompanied.call {start : State} {sights : List Sight}
    (accompanied : Accompanied settings start past state sights) {call : UnitCall}
    (joins : Joins past call) {result : Decoder × List Decoder.Reading}
    (read : (state.enter call.1).readAll settings state.run call.1 call.2 = .ok result)
    {next : State} {out : List Sight} (decodes : Decodes state call.1 result next out) :
    Accompanied settings start (past ++ [call]) next (sights ++ out) := by
  obtain ⟨unit, data⟩ := call
  refine ⟨accompanied.placed.call joins read decodes, decodes.run.trans accompanied.run,
    fun other => ?_⟩
  obtain ⟨last, seen, alone⟩ := accompanied.each other
  obtain rfl | ne := eq_or_ne unit other
  · have agree := State.UnpackVF48_agree settings alone.placed.few unit data
    have mine := alone.readAll accompanied.placed accompanied.run joins
    rw [mine, read] at agree
    obtain ⟨⟨after, more⟩, called, here⟩ := agree.of_ok
    refine ⟨after, seen ++ more, ?_, ?_, here.run.trans alone.run, ?_, ?_, ?_⟩
    · rw [alone_append_self, Transducer.run_concat, alone.ran, Except.ok_bind]
      simp only [State.unpackCall, called, Except.ok_bind]
      rfl
    · rw [alone_append_self]
      exact alone.placed.call (alone_joins unit past data) (mine.trans read) here
    · rw [here.tables, decodes.tables, Function.update_self, Function.update_self]
    · rw [here.buf, decodes.buf, Function.update_self, Function.update_self]
    · rw [decodedOf_call here, decodedOf_call decodes, alone.decoded]
  · refine ⟨last, seen, ?_, ?_, alone.run, ?_, ?_, ?_⟩
    · rw [alone_append_ne ne]
      exact alone.ran
    · rw [alone_append_ne ne]
      exact alone.placed
    · rw [decodes.tables, Function.update_of_ne ne.symm]
      exact alone.tables
    · rw [decodes.buf, Function.update_of_ne ne.symm]
      exact alone.buf
    · rw [decodedOf_call decodes, if_neg ne, List.append_nil]
      exact alone.decoded

/-- No words were unpacked yet. -/
structure State.Fresh (state : State) : Prop where
  few : state.list.events.length ≤ state.run.gDelay.toNat
  c : state.c = none
  gContexts : ∀ unit group, (state.tables unit).gContexts group = .initial

theorem State.Fresh.accompanied {start : State} (fresh : start.Fresh) :
    Accompanied settings start [] start [] := by
  have zero (unit : UnitNo) : ((start.tables unit).gContexts 0).group = 0 := by
    rw [fresh.gContexts]
    rfl
  have placed : Placed [] start := ⟨fresh.few, fresh.c, zero, zero⟩
  exact ⟨placed, rfl, fun unit => ⟨start, [], rfl, placed, rfl, rfl, rfl, rfl⟩⟩

theorem run_accompanied {start : State} (fresh : start.Fresh) {calls : List UnitCall}
    (aligned : Aligned calls) :
    (∃ final sights, Transducer.run (State.unpackCall settings) start calls = .ok (final, sights) ∧
      Accompanied settings start calls final sights) ∨
    ∃ fault unit, Transducer.run (State.unpackCall settings) start calls = .error fault ∧
      Transducer.run (State.unpackCall settings) start (alone unit calls) = .error fault := by
  induction calls using List.reverseRecOn with
  | nil => exact .inl ⟨start, [], rfl, fresh.accompanied⟩
  | append_singleton past call ih =>
    obtain ⟨state, sights, ran, accompanied⟩ | ⟨fault, unit, stopped, mine⟩ := ih aligned.of_append
    · have joins := aligned past call List.prefix_rfl
      have agree := State.UnpackVF48_agree settings accompanied.placed.few call.1 call.2
      rcases read : (state.enter call.1).readAll settings state.run call.1 call.2 with fault | result
      · obtain ⟨last, seen, alone⟩ := accompanied.each call.1
        have mine := State.UnpackVF48_agree settings alone.placed.few call.1 call.2
        rw [alone.readAll accompanied.placed accompanied.run joins, read] at mine
        rw [read] at agree
        refine .inr ⟨fault, call.1, ?_, ?_⟩
        · rw [Transducer.run_concat, ran, Except.ok_bind]
          simp only [State.unpackCall, agree.of_error, Except.error_bind]
        · rw [alone_append_self call.1 past call.2, Transducer.run_concat, alone.ran, Except.ok_bind]
          simp only [State.unpackCall, mine.of_error, Except.error_bind]
      · rw [read] at agree
        obtain ⟨⟨next, out⟩, called, decodes⟩ := agree.of_ok
        refine .inl ⟨next, sights ++ out, ?_, accompanied.call joins read decodes⟩
        rw [Transducer.run_concat, ran, Except.ok_bind]
        simp only [State.unpackCall, called, Except.ok_bind]
        rfl
    · refine .inr ⟨fault, unit, ?_, ?_⟩
      · rw [Transducer.run_concat, stopped, Except.error_bind]
      · rw [alone, List.filter_append, ← alone, Transducer.run_append, mine, Except.error_bind]

/-- When every call for another unit carries on where that unit stopped, each unit decodes what it
decodes without the calls of the others, or a unit stops the program in both runs. -/
theorem UnpackVF48_alone {start : State} (fresh : start.Fresh) {calls : List UnitCall}
    (aligned : Aligned calls) :
    (∃ final sights, Transducer.run (State.unpackCall settings) start calls = .ok (final, sights) ∧
      ∀ unit, ∃ last seen, Transducer.run (State.unpackCall settings) start (alone unit calls) =
        .ok (last, seen) ∧
        decodedOf unit seen = decodedOf unit sights ∧ last.tables unit = final.tables unit ∧
        last.buf unit = final.buf unit) ∨
    ∃ fault unit, Transducer.run (State.unpackCall settings) start calls = .error fault ∧
      Transducer.run (State.unpackCall settings) start (alone unit calls) = .error fault := by
  refine (run_accompanied fresh aligned).imp_left ?_
  rintro ⟨final, sights, ran, accompanied⟩
  refine ⟨final, sights, ran, fun unit => ?_⟩
  obtain ⟨last, seen, alone⟩ := accompanied.each unit
  exact ⟨last, seen, alone.ran, alone.decoded, alone.tables, alone.buf⟩

theorem State.initial_fresh : State.initial.Fresh := ⟨Nat.zero_le _, rfl, fun _ _ => rfl⟩

/-- The first run, too, starts without words. -/
theorem State.Fresh.BeginRun {start begun : State} (fresh : start.Fresh) {grpEnabled : Word}
    {numSamples delay : ℤ} {early : List VF48event}
    (began : start.BeginRun settings grpEnabled numSamples delay = .ok (begun, early)) :
    begun.Fresh := by
  rw [State.BeginRun_eq] at began
  cases enabled : firstGroup? grpEnabled with
  | none =>
    rw [enabled] at began
    cases began
  | some tgroup =>
    rw [enabled] at began
    cases began
    exact ⟨Nat.zero_le _, fresh.c, fresh.gContexts⟩

/-- Each unit marks its group at the start of a call. -/
def markedCalls : List UnitCall :=
  [(1, [0xF0000002, 0x80000001, 0xC0000020]), (0, [0xF0000001, 0x80000001]),
    (1, [0xF0000002, 0x00050004])]

theorem UnpackVF48_alone_marked :
    (∃ final sights, Transducer.run (State.unpackCall .initial) .initial markedCalls =
      .ok (final, sights) ∧
      ∀ unit, ∃ last seen,
        Transducer.run (State.unpackCall .initial) .initial (alone unit markedCalls) =
          .ok (last, seen) ∧
        decodedOf unit seen = decodedOf unit sights ∧ last.tables unit = final.tables unit ∧
        last.buf unit = final.buf unit) ∨
    ∃ fault unit, Transducer.run (State.unpackCall .initial) .initial markedCalls = .error fault ∧
      Transducer.run (State.unpackCall .initial) .initial (alone unit markedCalls) = .error fault := by
  apply UnpackVF48_alone State.initial_fresh
  intro past call cut last _ _
  have starts : ∀ call ∈ markedCalls, Decoder.Starts call.2 := by
    simp only [markedCalls, List.forall_mem_cons]
    exact ⟨Decoder.Starts.cons.mpr rfl, Decoder.Starts.cons.mpr rfl, Decoder.Starts.cons.mpr rfl,
      fun _ member => by cases member⟩
  exact .inr (starts call (cut.subset (List.mem_append_right _ (List.mem_singleton_self call))))

/-- The call of unit 0 leaves the pointer on group 1, where the last word of unit 1 is lost. -/
def carriedCalls : List UnitCall :=
  [(1, [0x80000001, 0xC0000000, 0x00050004]), (0, [0xF0000001]), (1, [0x00070006])]

/-- The samples of channel 0 after each word. -/
def samplesSeen (readings : List Decoder.Reading) : List ℕ :=
  readings.map fun reading => (reading.2.1.channels 0).numSamples

theorem carriedCalls_differ :
    ∃ final sights last seen,
      Transducer.run (State.unpackCall .initial) .initial carriedCalls = .ok (final, sights) ∧
      Transducer.run (State.unpackCall .initial) .initial (alone 1 carriedCalls) = .ok (last, seen) ∧
      decodedOf 1 seen ≠ decodedOf 1 sights := by
  have shown : ∃ final sights last seen,
      Transducer.run (State.unpackCall .initial) .initial carriedCalls = .ok (final, sights) ∧
      Transducer.run (State.unpackCall .initial) .initial (alone 1 carriedCalls) = .ok (last, seen) ∧
      samplesSeen (decodedOf 1 sights) = [0, 0, 2, 2] ∧ samplesSeen (decodedOf 1 seen) = [0, 0, 2, 4] :=
    ⟨_, _, _, _, rfl, rfl, rfl, rfl⟩
  obtain ⟨final, sights, last, seen, ran, mine, lost, stored⟩ := shown
  refine ⟨final, sights, last, seen, ran, mine, fun same => ?_⟩
  rw [same, lost] at stored
  cases stored

end PtfConverter.OldVF48
