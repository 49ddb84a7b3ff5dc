import PtfConverter.Soundness.ScanRows

/-! # Which samples the waveform windows hold

The sample loop runs while `ib` is below the number of samples and below the width of the array,
but channels 0 and 2 are read at `ib + timeStart`. Between one sample and the last one short of
`timeStart + num_v1730_max` the loop passes the end of the waveform, and stores the marker that
`GetSample` returns there.
-/

namespace PtfConverter.ScanTree

open V1730

/-- Handling the bank, over any old contents, leaves a cell as it was or stores in it a sample that
the waveform of its channel has at the index of the cell plus the offset of the window. -/
def StoresSamples (bank : TV1730RawData) : Prop :=
  ∀ points timeStamp, ∃ next, handleV730 points timeStamp bank = .ok next ∧
    ∀ wave row ib, next.V1730_wave wave row ib = points.V1730_wave wave row ib ∨
      row.val = points.num_points ∧ ∃ measurement sample, bank.measurement? wave = some measurement ∧
        measurement.fSamples[ib.val + waveOffset wave]? = some sample ∧
        next.V1730_wave wave row ib = Double.ofUInt32 sample

/-- Each waveform read at an offset is empty, or reaches the end of its window. -/
def ReachesWindow (bank : TV1730RawData) : Prop :=
  ∀ wave measurement, waveOffset wave = timeStart → bank.measurement? wave = some measurement →
    measurement.getNSamples = 0 ∨ timeStart + num_v1730_max ≤ measurement.getNSamples

theorem window_getElem? {wave : Fin 3} {bank : TV1730RawData} {measurement : RawChannelMeasurement}
    (decoded : bank.measurement? wave = some measurement) {ib : ℕ}
    (inside : ib < measurement.getNSamples) (narrow : ib < num_v1730_max) :
    (window wave bank)[ib]? =
      some (Double.ofUInt32 (measurement.getSample (ib + waveOffset wave))) := by
  have looped : ib < min measurement.getNSamples num_v1730_max := Nat.lt_min.mpr ⟨inside, narrow⟩
  simp only [window, decoded, List.getElem?_map, List.getElem?_range looped, Option.map_some]

theorem window_getElem?_cases {wave : Fin 3} {bank : TV1730RawData} (ib : ℕ) :
    (window wave bank)[ib]? = none ∨ ∃ measurement, bank.measurement? wave = some measurement ∧
      ib < measurement.getNSamples ∧ ib < num_v1730_max ∧
      (window wave bank)[ib]? =
        some (Double.ofUInt32 (measurement.getSample (ib + waveOffset wave))) := by
  cases decoded : bank.measurement? wave with
  | none =>
    left
    rw [window, decoded]
    rfl
  | some measurement =>
    rcases Nat.lt_or_ge ib (min measurement.getNSamples num_v1730_max) with looped | ended
    · obtain ⟨inside, narrow⟩ := Nat.lt_min.mp looped
      exact .inr ⟨measurement, rfl, inside, narrow, window_getElem? decoded inside narrow⟩
    · left
      apply List.getElem?_eq_none
      rwa [window, decoded, List.length_map, List.length_range]

/-- A turn of the sample loop reads a sample, when the waveform reaches the end of the window. -/
private theorem offset_lt {bank : TV1730RawData} (reaches : ReachesWindow bank) {wave : Fin 3}
    {measurement : RawChannelMeasurement} (decoded : bank.measurement? wave = some measurement) {ib : ℕ}
    (inside : ib < measurement.getNSamples) (narrow : ib < num_v1730_max) :
    ib + waveOffset wave < measurement.fSamples.length := by
  have offset : waveOffset wave = timeStart ∨ waveOffset wave = 0 := by
    match wave with
    | 0 => exact .inl rfl
    | 1 => exact .inr rfl
    | 2 => exact .inl rfl
  obtain shifted | unshifted := offset
  · obtain empty | long := reaches wave measurement shifted decoded
    · omega
    · rw [shifted, Nat.add_comm]
      exact lt_of_lt_of_le (Nat.add_lt_add_left narrow timeStart) long
  · rwa [unshifted]

private theorem storesSamples_of_reaches {bank : TV1730RawData} (reaches : ReachesWindow bank) :
    StoresSamples bank := by
  intro points timeStamp
  rcases Nat.lt_or_ge points.num_points nPoints_max with room | full
  · refine ⟨_, handleV730_of_room points timeStamp bank room, fun wave row ib => ?_⟩
    by_cases here : row = ⟨points.num_points, room⟩
    · subst here
      simp only [Function.update_self, Column.paint]
      obtain unread | ⟨measurement, decoded, inside, narrow, read⟩ :=
        @window_getElem?_cases wave bank ib.val
      · left
        rw [unread, Option.getD_none]
      · have stored := offset_lt reaches decoded inside narrow
        refine .inr ⟨trivial, measurement, _, decoded, List.getElem?_eq_getElem stored, ?_⟩
        rw [read, Option.getD_some, RawChannelMeasurement.getSample,
          List.getElem?_eq_getElem stored, Option.getD_some]
    · left
      exact congrFun (Function.update_of_ne here _ _) ib
  · exact ⟨points, if_neg (Nat.not_lt.mpr full), fun wave row ib => .inl rfl⟩

/-- A waveform with samples that ends before its window does: the loop takes the first turn whose
shifted index is past the end, and what it stores over zeroed arrays is the marker. -/
private theorem reaches_of_storesSamples {bank : TV1730RawData} (stores : StoresSamples bank) :
    ReachesWindow bank := by
  intro wave measurement shifted decoded
  by_contra short
  obtain ⟨some_sample, ends⟩ := not_or.mp short
  have wide : 0 < num_v1730_max := by decide
  have turn : measurement.getNSamples - timeStart < num_v1730_max := by omega
  have inside : measurement.getNSamples - timeStart < measurement.getNSamples := by
    have positive : 0 < timeStart := by decide
    omega
  have beyond : measurement.fSamples.length ≤
      measurement.getNSamples - timeStart + waveOffset wave := by
    rw [shifted]
    exact Nat.sub_le_iff_le_add.mp le_rfl
  have room : zeroMemory.points.num_points < nPoints_max := by decide
  obtain ⟨next, handled, cells⟩ := stores zeroMemory.points 0
  rw [handleV730_of_room _ _ _ room] at handled
  obtain rfl := Except.ok.inj handled
  have read := window_getElem? decoded inside turn
  rw [RawChannelMeasurement.getSample, List.getElem?_eq_none beyond, Option.getD_none] at read
  obtain kept | ⟨_, other, sample, decoded', stored, _⟩ := cells wave ⟨_, room⟩ ⟨_, turn⟩
  · simp only [Function.update_self, Column.paint, read, Option.getD_some] at kept
    have marker : Double.ofUInt32 9999999#32 ≠ 0 := by decide
    exact marker kept
  · rw [decoded] at decoded'
    obtain rfl := Option.some.inj decoded'
    rw [List.getElem?_eq_none beyond] at stored
    cases stored

/-- The converter stores the samples of a bank, and never the marker, exactly when each waveform
that it reads at an offset is empty or reaches the end of its window. -/
theorem storesSamples_iff (bank : TV1730RawData) : StoresSamples bank ↔ ReachesWindow bank :=
  ⟨reaches_of_storesSamples, storesSamples_of_reaches⟩

/-- A bank of five words whose channel 0 has two samples: both turns of the loop read past them. -/
theorem shortWaveform_marked :
    ∃ bank, TV1730RawData.decode [0xa0000005#32, 0x1#32, 0#32, 0#32, 0x00070005#32] = .ok bank ∧
      ¬ StoresSamples bank := by
  refine ⟨⟨[0xa0000005#32, 0x1#32, 0#32, 0#32], [⟨0, [5#32, 7#32]⟩], by decide⟩, by
    decide, fun stores => ?_⟩
  obtain empty | long := reaches_of_storesSamples stores 0 ⟨0, [5#32, 7#32]⟩ rfl rfl
  · cases empty
  · revert long
    decide

end PtfConverter.ScanTree
