import PtfConverter.Model.MpmtConverter
import PtfConverter.Soundness.BRBSamples

/-! # One row for each BRB0 bank

Eight packets of 512 samples of four channels make 1024 samples of each channel, whatever the bank
holds and however long it is: as many as a waveform array has. Every event finds the counter at 0,
so that its points are stored in row 0 and the row is filled with one point. But there has to be a
tree: in a file without a begin of run in front of its first BRB0 event, the pointer leads nowhere.
-/

namespace PtfConverter.BRB

/-- Every measurement has as many samples as a waveform array has cells. -/
theorem Bank.getNSamples_eq (bank : Bank) {measurement : RawBRBMeasurement}
    (member : measurement ∈ bank.getMeasurements) :
    measurement.getNSamples = 1024 := by
  rw [getMeasurements, List.mem_flatMap] at member
  obtain ⟨adc, _, member⟩ := member
  rw [measurements, List.mem_map] at member
  obtain ⟨ach, _, rfl⟩ := member
  simp only [RawBRBMeasurement.getNSamples, readAdc_length]

end PtfConverter.BRB

namespace PtfConverter.MpmtTree

open Midas (Call TreePointer)

namespace ScanToTreeConverter

variable {scan : ScanToTreeConverter}

theorem channel_lt {chan : ℕ} (stored : chan < 20) : chan < 24 := by omega

/-- The waveforms after a measurement of 1024 samples: its own is overwritten from end to end. -/
def replaceWave (waves : Wave → Column nPoints_max (Column num_v1730_max Double))
    (measurement : BRB.RawBRBMeasurement) (wave : Wave) :
    Column nPoints_max (Column num_v1730_max Double) :=
  if wave.val < 20 ∧ wave.val = measurement.getChannel then
    fun _ cell => Double.ofUInt32 (measurement.getSample cell.val)
  else waves wave

theorem paint_full (base : Column num_v1730_max Double) (f : ℕ → Double) :
    base.paint ((List.range num_v1730_max).map f) = fun cell => f cell.val := by
  funext cell
  have inside : cell.val < ((List.range num_v1730_max).map f).length := by
    rw [List.length_map, List.length_range]
    exact cell.isLt
  rw [Column.paint_apply_of_lt base inside, List.getElem_map, List.getElem_range]

/-- A measurement of 1024 samples is stored in point 0, and changes nothing but its waveform. -/
theorem storeMeasurement_ok (first : scan.num_points = 1) {measurement : BRB.RawBRBMeasurement}
    (count : measurement.getNSamples = num_v1730_max) :
    scan.storeMeasurement measurement =
      .ok { scan with V1730_wave := replaceWave scan.V1730_wave measurement } := by
  rcases Nat.lt_or_ge measurement.getChannel 20 with stored | other
  · have filled := Column.foldlM_store₂_range (PointArray.V1730_wave measurement.getChannel)
      (scan.V1730_wave ⟨measurement.getChannel, channel_lt stored⟩) ⟨0, Nat.one_pos⟩
      (fun ib => Double.ofUInt32 (measurement.getSample ib)) count.le
    have row : scan.num_points - 1 = 0 := by rw [first]
    rw [count, paint_full] at filled
    rw [storeMeasurement, dif_pos stored, storeWave, row, count, filled, Except.ok_bind]
    refine congrArg (fun waves => Except.ok { scan with V1730_wave := waves }) (funext fun wave => ?_)
    unfold replaceWave
    split_ifs with own
    · obtain rfl : wave = ⟨measurement.getChannel, channel_lt stored⟩ := Fin.ext own.2
      rw [Function.update_self]
      funext point
      obtain rfl : point = ⟨0, Nat.one_pos⟩ := Fin.ext (Nat.lt_one_iff.mp point.isLt)
      rw [Function.update_self]
    · refine Function.update_of_ne (fun same => own ?_) _ _
      rw [same]
      exact ⟨stored, rfl⟩
  · have kept : replaceWave scan.V1730_wave measurement = scan.V1730_wave := by
      funext wave
      refine if_neg fun own => ?_
      rw [own.2] at own
      exact absurd own.1 (Nat.not_lt.mpr other)
    rw [storeMeasurement, dif_neg (Nat.not_lt.mpr other), kept]

/-- The loop over the measurements of a bank. -/
theorem foldlM_storeMeasurement_ok (first : scan.num_points = 1)
    {measurements : List BRB.RawBRBMeasurement}
    (counts : ∀ measurement ∈ measurements, measurement.getNSamples = num_v1730_max) :
    measurements.foldlM storeMeasurement scan =
      .ok { scan with V1730_wave := measurements.foldl replaceWave scan.V1730_wave } := by
  induction measurements generalizing scan with
  | nil => rfl
  | cons measurement measurements ih =>
    obtain ⟨count, counts⟩ := List.forall_mem_cons.mp counts
    rw [List.foldlM_cons, storeMeasurement_ok first count, Except.ok_bind]
    exact @ih { scan with V1730_wave := replaceWave scan.V1730_wave measurement } first counts

/-- The point of a BRB0 bank. -/
def pointed (scan : ScanToTreeConverter) (timeStamp : BitVec 32) (bank : BRB.Bank) :
    ScanToTreeConverter :=
  { scan with
    num_points := 1
    evt_timestamp := fun _ => Double.ofUInt32 timeStamp
    V1730_wave := bank.getMeasurements.foldl replaceWave scan.V1730_wave }

/-- At counter 0 a BRB0 bank makes point 0, and no write misses its array. -/
theorem handleBRB0_ok (fresh : scan.num_points = 0) (timeStamp : BitVec 32) (bank : BRB.Bank) :
    scan.handleBRB0 timeStamp bank = .ok (scan.pointed timeStamp bank, []) := by
  have room : scan.num_points < nPoints_max := by rw [fresh]; exact Nat.one_pos
  have stamped := Column.store_of_lt PointArray.evt_timestamp scan.evt_timestamp
    (Double.ofUInt32 timeStamp) room
  have first : scan.num_points + 1 = 1 := by rw [fresh]
  have stamps : Function.update scan.evt_timestamp ⟨scan.num_points, room⟩ (Double.ofUInt32 timeStamp) =
      fun _ => Double.ofUInt32 timeStamp := by
    funext point
    obtain rfl : point = ⟨scan.num_points, room⟩ :=
      Fin.ext ((Nat.lt_one_iff.mp point.isLt).trans fresh.symm)
    exact Function.update_self ..
  have stored := @foldlM_storeMeasurement_ok
    { scan with num_points := 1, evt_timestamp := fun _ => Double.ofUInt32 timeStamp }
    rfl _ fun measurement => bank.getNSamples_eq
  rw [handleBRB0, if_pos room]
  simp only [Nat.add_sub_cancel, stamped, stamps, Except.ok_bind]
  simp only [first, stored]
  rfl

/-- An event with a BRB0 bank fills its row, where there is a tree. -/
theorem processMidasEvent_of_brb0 (fresh : scan.num_points = 0) {event : MidasEvent} {bank : BRB.Bank}
    (asked : event.brb0 = some bank) :
    scan.processMidasEvent event =
      (scan.tree.Fill (scan.pointed event.timeStamp bank).row).map fun row =>
      ((scan.pointed event.timeStamp bank).reset, [.fill row]) := by
  have said : scan.processMidasEvent event =
      (do let row ← scan.tree.Fill (scan.pointed event.timeStamp bank).row
          return ((scan.pointed event.timeStamp bank).reset, [.fill row])) := by
    rw [processMidasEvent, asked]
    dsimp only
    rw [handleBRB0_ok fresh]
    rfl
  rw [said]
  cases scan.tree.Fill (scan.pointed event.timeStamp bank).row <;> rfl

/-- Such an event returns where there is a tree, with one row. -/
theorem processMidasEvent_eq_ok_iff (fresh : scan.num_points = 0) {event : MidasEvent} {bank : BRB.Bank}
    (asked : event.brb0 = some bank) {next : ScanToTreeConverter} {out : List Sight} :
    scan.processMidasEvent event = .ok (next, out) ↔ scan.tree = .made ∧
      (scan.pointed event.timeStamp bank).reset = next ∧
        [.fill (scan.pointed event.timeStamp bank).row] = out := by
  rw [processMidasEvent_of_brb0 fresh asked]
  cases filled : (scan.tree.Fill (scan.pointed event.timeStamp bank).row : Except Fault Row) with
  | error fault =>
    refine iff_of_false nofun fun made => ?_
    rw [TreePointer.Fill_eq_ok_iff.mpr ⟨made.1, rfl⟩] at filled
    cases filled
  | ok row =>
    obtain ⟨made, rfl⟩ := TreePointer.Fill_eq_ok_iff.mp filled
    rw [Except.map, Except.ok.injEq, Prod.mk.injEq, and_iff_right made]

/-- The temperatures of an event without a BRB0 bank. -/
theorem processMidasEvent_of_none {event : MidasEvent} (absent : event.brb0 = none) :
    ∃ temperatures, scan.processMidasEvent event =
      .ok ({ scan with temperatures := temperatures }, []) := by
  rw [processMidasEvent, absent]
  cases event.brt0 <;> cases event.tmp0 <;> exact ⟨_, rfl⟩

end ScanToTreeConverter

/-- A run has begun and not ended. -/
def RunOpen (past : List (Call MidasEvent)) : Prop :=
  ∃ before between, past = before ++ .BeginRun :: between ∧ .EndRun ∉ between

/-- Behind one more call. -/
theorem runOpen_concat_iff (past : List (Call MidasEvent)) (last : Call MidasEvent) :
    RunOpen (past ++ [last]) ↔ last = .BeginRun ∨ last ≠ .EndRun ∧ RunOpen past := by
  constructor
  · rintro ⟨before, between, parts, going⟩
    rcases List.eq_nil_or_concat' between with rfl | ⟨between, final, rfl⟩
    · exact .inl (List.singleton_inj.mp (List.append_inj' parts rfl).2)
    · rw [← List.cons_append, ← List.append_assoc] at parts
      obtain ⟨rfl, same⟩ := List.append_inj' parts rfl
      obtain rfl := List.singleton_inj.mp same
      refine .inr ⟨fun ended => going (ended ▸ List.mem_append_right _ List.mem_cons_self), before,
        between, rfl, ?_⟩
      exact fun ended => going (List.mem_append_left _ ended)
  · rintro (rfl | ⟨other, before, between, rfl, going⟩)
    · exact ⟨past, [], rfl, List.not_mem_nil⟩
    · refine ⟨before, between ++ [last], by rw [List.append_assoc, List.cons_append], fun ended => ?_⟩
      rcases List.mem_append.mp ended with earlier | here
      · exact going earlier
      · exact other (List.mem_singleton.mp here).symm

/-- In front of every BRB0 event a run has begun and not ended. -/
def BegunFirst (calls : List (Call MidasEvent)) : Prop :=
  ∀ past event rest, calls = past ++ .ProcessMidasEvent event :: rest → event.brb0.isSome → RunOpen past

theorem BegunFirst.of_append {past rest : List (Call MidasEvent)}
    (begun : BegunFirst (past ++ rest)) : BegunFirst past := by
  rintro earlier event later rfl asked
  exact begun earlier event (later ++ rest) (by rw [List.append_assoc, List.cons_append]) asked

namespace ScanToTreeConverter

/-- What holds behind some calls. -/
structure Behind (fNChan : ℤ) (past : List (Call MidasEvent)) (scan : ScanToTreeConverter) : Prop where
  fresh : scan.num_points = 0
  branches : scan.fNChan = fNChan
  tree : scan.tree = .made ↔ RunOpen past

variable {fNChan : ℤ} {past : List (Call MidasEvent)} {scan : ScanToTreeConverter}

theorem Behind.start (fNChan : ℤ) : Behind fNChan [] (start fNChan) where
  fresh := rfl
  branches := rfl
  tree := iff_of_false nofun fun ⟨_, _, parts, _⟩ => by simp at parts

/-- One call that returns: an event goes from counter 0 to counter 0. -/
theorem Behind.call (behind : Behind fNChan past scan) {made : Call MidasEvent}
    {next : ScanToTreeConverter} {out : List Sight} (stepped : scan.call made = .ok (next, out)) :
    Behind fNChan (past ++ [made]) next := by
  obtain ⟨fresh, branches, tree⟩ := behind
  cases made with
  | BeginRun =>
    obtain ⟨rfl, rfl⟩ := Prod.mk.inj (Except.ok.inj stepped)
    exact ⟨fresh, branches, iff_of_true rfl ((runOpen_concat_iff past _).mpr (.inl rfl))⟩
  | EndRun =>
    obtain ⟨rfl, rfl⟩ := Prod.mk.inj (Except.ok.inj stepped)
    have closed : ¬ RunOpen (past ++ [.EndRun]) :=
      fun runs => ((runOpen_concat_iff past _).mp runs).elim nofun fun goes => goes.1 rfl
    refine ⟨fresh, branches, iff_of_false (fun made => ?_) closed⟩
    change scan.tree.fileClosed = .made at made
    cases pointer : scan.tree <;> rw [pointer] at made <;> cases made
  | ProcessMidasEvent event =>
    change scan.processMidasEvent event = _ at stepped
    have goes : RunOpen (past ++ [.ProcessMidasEvent event]) ↔ RunOpen past := by
      rw [runOpen_concat_iff, or_iff_right nofun, and_iff_right nofun]
    cases asked : event.brb0 with
    | none =>
      obtain ⟨temperatures, ran⟩ := @processMidasEvent_of_none scan event asked
      obtain ⟨rfl, rfl⟩ := Prod.mk.inj (Except.ok.inj (ran.symm.trans stepped))
      exact ⟨fresh, branches, tree.trans goes.symm⟩
    | some bank =>
      obtain ⟨_, rfl, _⟩ := (processMidasEvent_eq_ok_iff fresh asked).mp stepped
      exact ⟨rfl, branches, tree.trans goes.symm⟩

theorem behind_run {seen : List Sight}
    (ran : Transducer.run call (.start fNChan) past = .ok (scan, seen)) :
    Behind fNChan past scan :=
  Transducer.run_keeps (fun past _ scan => Behind fNChan past scan)
    (fun behind stepped => behind.call stepped)
    (Behind.start fNChan) ran

/-- With a tree for every BRB0 event, all calls return. -/
theorem run_call_ok (fNChan : ℤ) {calls : List (Call MidasEvent)} (begun : BegunFirst calls) :
    ∃ scan seen, Transducer.run call (.start fNChan) calls = .ok (scan, seen) := by
  induction calls using List.reverseRecOn with
  | nil => exact ⟨_, _, rfl⟩
  | append_singleton past made ih =>
    obtain ⟨scan, seen, ran⟩ := ih begun.of_append
    suffices returns : ∃ next out, scan.call made = .ok (next, out) by
      obtain ⟨next, out, stepped⟩ := returns
      rw [Transducer.run_concat, ran]
      simp only [Except.ok_bind, stepped]
      exact ⟨next, _, rfl⟩
    have behind := behind_run ran
    cases made with
    | BeginRun => exact ⟨_, _, rfl⟩
    | EndRun => exact ⟨_, _, rfl⟩
    | ProcessMidasEvent event =>
      cases asked : event.brb0 with
      | none =>
        obtain ⟨temperatures, stepped⟩ := @processMidasEvent_of_none scan event asked
        exact ⟨_, _, stepped⟩
      | some bank =>
        have made := behind.tree.mpr (begun past event [] rfl (by rw [asked]; rfl))
        exact ⟨_, _, (processMidasEvent_eq_ok_iff behind.fresh asked).mpr ⟨made, rfl, rfl⟩⟩

end ScanToTreeConverter

open ScanToTreeConverter

/-- Every event finds the counter at 0 and no write misses its array: there is one point, and each
measurement has as many samples as a waveform array. A BRB0 bank makes one row of one point, and no
other event is seen to do anything. -/
def OneRowPerBRB0 (fNChan : ℤ) (calls : List (Call MidasEvent)) : Prop :=
  ∀ past event rest, calls = past ++ .ProcessMidasEvent event :: rest → ∃ scan seen next out,
    Transducer.run call (.start fNChan) past = .ok (scan, seen) ∧
    scan.num_points = 0 ∧ scan.processMidasEvent event = .ok (next, out) ∧
    (event.brb0 = none → out = []) ∧
    ∀ bank, event.brb0 = some bank →
      (∃ row, out = [.fill row] ∧ row.num_points = 1) ∧
      ∀ measurement ∈ bank.getMeasurements, measurement.getNSamples = num_v1730_max

private theorem begunFirst_of_oneRow {fNChan : ℤ} {calls : List (Call MidasEvent)}
    (each : OneRowPerBRB0 fNChan calls) :
    BegunFirst calls := by
  intro past event rest parts present
  obtain ⟨scan, seen, next, out, ran, fresh, stepped, -⟩ := each past event rest parts
  obtain ⟨bank, asked⟩ := Option.isSome_iff_exists.mp present
  exact (behind_run ran).tree.mp ((processMidasEvent_eq_ok_iff fresh asked).mp stepped).1

/-- Over the events of any files, each BRB0 bank makes its row, and the counter and the
writes are as they should be, exactly when in each file a begin of run comes in front of
the first BRB0 event. -/
theorem one_row_per_brb0_iff (fNChan : ℤ) (calls : List (Call MidasEvent)) :
    OneRowPerBRB0 fNChan calls ↔ BegunFirst calls := by
  refine ⟨begunFirst_of_oneRow, ?_⟩
  rintro begun past event rest rfl
  obtain ⟨scan, seen, ran⟩ := run_call_ok fNChan begun.of_append
  have behind := behind_run ran
  cases asked : event.brb0 with
  | none =>
    obtain ⟨temperatures, stepped⟩ := @processMidasEvent_of_none scan event asked
    exact ⟨scan, seen, _, _, ran, behind.fresh, stepped, fun _ => rfl, nofun⟩
  | some bank =>
    have made := behind.tree.mpr (begun past event rest rfl (by rw [asked]; rfl))
    have filled := (processMidasEvent_eq_ok_iff behind.fresh asked).mpr ⟨made, rfl, rfl⟩
    refine ⟨scan, seen, _, _, ran, behind.fresh, filled, nofun, ?_⟩
    rintro _ ⟨⟩
    exact ⟨⟨_, rfl, rfl⟩, fun _ => bank.getNSamples_eq⟩

/-- An event with nine packets, in a file without a begin of run. -/
theorem withoutBegin_noRow :
    ¬ OneRowPerBRB0 20 [.ProcessMidasEvent ⟨0, some ⟨9 * 533, fun _ => 0x0010#16⟩, none, none⟩] := by
  intro each
  obtain ⟨before, between, parts, -⟩ := begunFirst_of_oneRow each [] _ [] rfl rfl
  cases before <;> cases parts

end PtfConverter.MpmtTree
