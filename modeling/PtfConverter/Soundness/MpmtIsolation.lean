import PtfConverter.Soundness.MpmtRows

/-! # Which waveform branches depend on earlier events

The waveform arrays are never cleared. A BRB0 bank overwrites the waveforms of the channels that it
decodes, four for each ADC, and the row behind it shows every branch of the tree: a branch without
a measurement shows what the last bank with its channel left there.
-/

namespace PtfConverter.MpmtTree

open Midas (Call TreePointer)
open ScanToTreeConverter

/-- The row of an event has the same waveform branches 0 to 19 behind all histories. -/
def WavesIsolated (fNChan : ℤ) (event : MidasEvent) : Prop :=
  ∀ first second scan scan' earlier earlier' row row',
    Transducer.run call (.start fNChan) (first ++ [.ProcessMidasEvent event]) =
      .ok (scan, earlier ++ [.fill row]) →
    Transducer.run call (.start fNChan) (second ++ [.ProcessMidasEvent event]) =
      .ok (scan', earlier' ++ [.fill row']) →
    ∀ wave : Wave, wave.val < 20 → row.V1730_wave wave = row'.V1730_wave wave

variable {measurements : List BRB.RawBRBMeasurement} {wave : Wave}

/-- A waveform without a measurement stays as it was. -/
theorem foldl_replaceWave_other
    (other : ∀ measurement ∈ measurements, wave.val ≠ measurement.getChannel)
    (waves : Wave → Column nPoints_max (Column num_v1730_max Double)) :
    measurements.foldl replaceWave waves wave = waves wave := by
  induction measurements generalizing waves with
  | nil => rfl
  | cons measurement measurements ih =>
    obtain ⟨here, later⟩ := List.forall_mem_cons.mp other
    rw [List.foldl_cons, ih later]
    exact if_neg fun own => here own.2

/-- A waveform with a measurement holds the samples of the last one, whatever it held before. -/
theorem foldl_replaceWave_own (low : wave.val < 20)
    (own : ∃ measurement ∈ measurements, wave.val = measurement.getChannel) :
    ∃ measurement ∈ measurements, ∀ waves, measurements.foldl replaceWave waves wave =
      fun _ cell => Double.ofUInt32 (measurement.getSample cell.val) := by
  induction measurements with
  | nil =>
    obtain ⟨_, absent, _⟩ := own
    cases absent
  | cons measurement measurements ih =>
    by_cases again : ∃ measurement ∈ measurements, wave.val = measurement.getChannel
    · obtain ⟨last, member, held⟩ := ih again
      exact ⟨last, List.mem_cons_of_mem _ member, fun waves => held _⟩
    · have other : ∀ measurement ∈ measurements, wave.val ≠ measurement.getChannel :=
        fun measurement member same => again ⟨measurement, member, same⟩
      obtain ⟨only, member, same⟩ := own
      obtain rfl | later := List.mem_cons.mp member
      · refine ⟨only, List.mem_cons_self, fun waves => ?_⟩
        rw [List.foldl_cons, foldl_replaceWave_other other]
        exact if_pos ⟨low, same⟩
      · exact absurd same (other only later)

/-- The channels that a bank decodes. -/
theorem exists_channel_iff (bank : BRB.Bank) (ch : ℕ) :
    (∃ measurement ∈ bank.getMeasurements, ch = measurement.getChannel) ↔
      ch < 4 * bank.nadcs.toNat := by
  rw [BRB.Bank.getMeasurements_eq]
  constructor
  · rintro ⟨measurement, member, rfl⟩
    obtain ⟨adc, listed, member⟩ := List.mem_flatMap.mp member
    obtain ⟨c, small, rfl⟩ := List.mem_map.mp member
    have adcs := List.mem_range.mp listed
    have four := List.mem_range.mp small
    change adc * 4 + c < _
    omega
  · intro inside
    have place := Nat.div_add_mod' ch 4
    refine ⟨BRB.measurement bank.fData (ch / 4) (ch % 4), List.mem_flatMap.mpr ⟨ch / 4, ?_, ?_⟩,
      place.symm⟩
    · exact List.mem_range.mpr (by omega)
    · exact List.mem_map_of_mem (List.mem_range.mpr (Nat.mod_lt ch (by decide)))

/-- The waveform branches of the last row, over the waveforms that the history left. -/
theorem wave_of_run {fNChan : ℤ} {past : List (Call MidasEvent)} {event : MidasEvent}
    {bank : BRB.Bank} (asked : event.brb0 = some bank) {earlier : List Sight} {row : Row}
    {last : ScanToTreeConverter}
    (ran : Transducer.run call (.start fNChan) (past ++ [.ProcessMidasEvent event]) =
      .ok (last, earlier ++ [.fill row])) :
    ∃ scan seen, Transducer.run call (.start fNChan) past = .ok (scan, seen) ∧
      ∀ wave, row.V1730_wave wave = if (wave.val : ℤ) < fNChan then
        some [bank.getMeasurements.foldl replaceWave scan.V1730_wave wave ⟨0, Nat.one_pos⟩]
          else none := by
  obtain ⟨scan, seen, out, before, stepped, rows⟩ := Transducer.run_append_ok_iff.mp ran
  refine ⟨scan, seen, before, ?_⟩
  obtain ⟨fresh, branches, _⟩ := behind_run before
  have here : scan.processMidasEvent event = _ := (Transducer.run_singleton _ _).symm.trans stepped
  obtain ⟨_, _, rfl⟩ := (processMidasEvent_eq_ok_iff fresh asked).mp here
  obtain ⟨_, last⟩ := List.append_inj' rows rfl
  obtain rfl := Sight.fill.inj (List.cons.inj last).1
  intro wave
  rw [← branches]
  rfl

/-- Every history behind which there is a tree makes a row. -/
theorem exists_row {fNChan : ℤ} {past : List (Call MidasEvent)} {scan : ScanToTreeConverter}
    {seen : List Sight} (before : Transducer.run call (.start fNChan) past = .ok (scan, seen))
    (made : scan.tree = .made) {event : MidasEvent} {bank : BRB.Bank}
    (asked : event.brb0 = some bank) : ∃ last earlier row,
    Transducer.run call (.start fNChan) (past ++ [.ProcessMidasEvent event]) =
      .ok (last, earlier ++ [.fill row]) := by
  have stepped : scan.call (.ProcessMidasEvent event) = _ :=
    (processMidasEvent_eq_ok_iff (behind_run before).fresh asked).mpr ⟨made, rfl, rfl⟩
  rw [Transducer.run_concat, before]
  simp only [Except.ok_bind, stepped]
  exact ⟨_, seen, _, rfl⟩

private theorem isolated_of_le {fNChan : ℤ} {event : MidasEvent} {bank : BRB.Bank}
    (asked : event.brb0 = some bank) (decoded : min fNChan 20 ≤ 4 * bank.nadcs.toNat) :
    WavesIsolated fNChan event := by
  intro first second scan scan' earlier earlier' row row' ran ran' wave low
  obtain ⟨_, _, _, shown⟩ := wave_of_run asked ran
  obtain ⟨_, _, _, shown'⟩ := wave_of_run asked ran'
  rw [shown, shown']
  split_ifs with branch
  · have inside : wave.val < 4 * bank.nadcs.toNat := by omega
    obtain ⟨_, _, held⟩ := foldl_replaceWave_own low ((exists_channel_iff bank wave).mpr inside)
    rw [held, held]
  · rfl

/-- An event with a bank of five ADCs, whose words are all the same. -/
def fullEvent (word : BitVec 16) : MidasEvent := ⟨0, some ⟨41 * 533, fun _ => word⟩, none, none⟩

/-- The waveforms behind such an event are its samples. -/
theorem foldl_replaceWave_full (low : wave.val < 20) (word : BitVec 16)
    (waves : Wave → Column nPoints_max (Column num_v1730_max Double)) : ∃ ch : Fin 4,
    (BRB.Bank.getMeasurements ⟨41 * 533, fun _ => word⟩).foldl replaceWave waves wave =
      fun _ _ => Double.ofUInt32 (BRB.sampleOf ch word) := by
  have adcs : BRB.Bank.nadcs ⟨41 * 533, fun _ => word⟩ = 5 := rfl
  obtain ⟨_, member, held⟩ := foldl_replaceWave_own low
    ((exists_channel_iff ⟨41 * 533, fun _ => word⟩ wave).mpr (by rw [adcs]; exact low))
  rw [BRB.Bank.getMeasurements_eq] at member
  obtain ⟨adc, _, member⟩ := List.mem_flatMap.mp member
  obtain ⟨c, _, rfl⟩ := List.mem_map.mp member
  refine ⟨Fin.ofNat 4 c, (held waves).trans ?_⟩
  funext _ cell
  have inside : cell.val < 1024 := cell.isLt
  rw [BRB.RawBRBMeasurement.getSample, BRB.measurement, BRB.readAdc_eq, List.getElem?_map,
    List.getElem?_range inside]
  rfl

/-- The begin of a run and such an event. -/
theorem run_fullEvent (fNChan : ℤ) (word : BitVec 16) : ∃ scan seen,
    Transducer.run call (.start fNChan) [.BeginRun, .ProcessMidasEvent (fullEvent word)] =
      .ok (scan, seen) ∧
      scan.tree = .made ∧ ∀ wave : Wave, wave.val < 20 → ∃ ch : Fin 4,
        scan.V1730_wave wave = fun _ _ => Double.ofUInt32 (BRB.sampleOf ch word) := by
  have asked : (fullEvent word).brb0 = some ⟨41 * 533, fun _ => word⟩ := rfl
  have stepped := (@processMidasEvent_eq_ok_iff (start fNChan).BeginRun rfl _ _ asked _ _).mpr
    ⟨rfl, rfl, rfl⟩
  have begun : (start fNChan).call .BeginRun = .ok ((start fNChan).BeginRun, []) := rfl
  rw [Transducer.run_cons_silent begun, Transducer.run_singleton, call, stepped]
  exact ⟨_, _, rfl, rfl, fun wave low => foldl_replaceWave_full low word _⟩

/-- No sample of the word `0x0010` is zero. -/
theorem sample_ne_zero (ch : Fin 4) : Double.ofUInt32 (BRB.sampleOf ch 0x0010#16) ≠ 0 := by
  revert ch
  decide

private theorem le_of_isolated {fNChan : ℤ} {event : MidasEvent} {bank : BRB.Bank}
    (asked : event.brb0 = some bank) (isolated : WavesIsolated fNChan event) :
    min fNChan 20 ≤ 4 * bank.nadcs.toNat := by
  by_contra more
  have low : 4 * bank.nadcs.toNat < 20 := by omega
  have branch : ((4 * bank.nadcs.toNat : ℕ) : ℤ) < fNChan := by omega
  let wave : Wave := ⟨4 * bank.nadcs.toNat, channel_lt low⟩
  have other : ∀ measurement ∈ bank.getMeasurements, wave.val ≠ measurement.getChannel :=
    fun measurement member same =>
    lt_irrefl _ ((exists_channel_iff bank wave).mp ⟨measurement, member, same⟩)
  -- behind the begin of a run the waveform is zero, behind a full bank it is not
  obtain ⟨scan, seen, before, made, full⟩ := run_fullEvent fNChan 0x0010#16
  obtain ⟨_, _, row, ran⟩ := @exists_row fNChan [.BeginRun] _ _ rfl rfl _ _ asked
  obtain ⟨_, _, row', ran'⟩ := exists_row before made asked
  obtain ⟨ch, held⟩ := full wave low
  obtain ⟨_, _, begun, fresh⟩ := wave_of_run asked ran
  obtain ⟨_, _, again, stale⟩ := wave_of_run asked ran'
  obtain ⟨rfl, -⟩ := Prod.mk.inj (Except.ok.inj begun)
  obtain ⟨rfl, -⟩ := Prod.mk.inj (Except.ok.inj (before.symm.trans again))
  have fresh := fresh wave
  have stale := stale wave
  rw [if_pos branch, foldl_replaceWave_other other] at fresh stale
  have same := isolated [.BeginRun] [.BeginRun,
    .ProcessMidasEvent (fullEvent 0x0010#16)] _ _ _ _ row row' ran ran' wave low
  rw [fresh, stale, held] at same
  have cell := congrFun (List.cons.inj (Option.some.inj same)).1 ⟨0, by decide⟩
  exact sample_ne_zero ch cell.symm

/-- The branches 0 to 19 of a row depend on its own event alone exactly when its bank decodes the
channel of each of them that the tree has. -/
theorem wavesIsolated_iff (fNChan : ℤ) (timeStamp : BitVec 32) (bank : BRB.Bank)
    (brt0 tmp0 : Option ScanTree.TGenericData) :
    WavesIsolated fNChan ⟨timeStamp, some bank, brt0, tmp0⟩ ↔ min fNChan 20 ≤ 4 * bank.nadcs.toNat :=
  ⟨le_of_isolated rfl, isolated_of_le rfl⟩

/-- A bank of nine packets decodes the first four channels; the row shows sixteen more. -/
theorem ninePackets_not_isolated :
    ¬ WavesIsolated 20 ⟨0, some ⟨9 * 533, fun _ => 0x0010#16⟩, none, none⟩ := by
  intro isolated
  have decoded := le_of_isolated rfl isolated
  revert decoded
  decide

end PtfConverter.MpmtTree
