import PtfConverter.Model.MesytecData

/-! # What the shared resolution mask does to the readings of a bank

The mask is read when a measurement is asked for, so that the last header decoded anywhere in the
program decides. The readings of a bank are the same behind and before all other banks exactly when
its data words do not use the two bits in which the masks differ.
-/

namespace PtfConverter.Mesytec

/-- The mask after decoding banks in turn. -/
def maskAfter (mask : Word) (banks : List (List Word)) : Word :=
  banks.foldl (fun mask bank => (TMesytecData.decode mask bank).1) mask

/-- The values of the measurements of a bank, which a new program decodes behind some banks, and reads
when it has decoded some more. -/
def readings (before : List (List Word)) (bank : List Word) (between : List (List Word)) : List Word :=
  let decoded := TMesytecData.decode (maskAfter gBitResolution before) bank
  decoded.2.fMeasurements.map (·.GetMeasurement (maskAfter decoded.1 between))

/-- The readings of a bank are the same among all other banks. -/
def Independent (bank : List Word) : Prop :=
  ∀ before between before' between', readings before bank between = readings before' bank between'

/-- The masks of the three resolutions. -/
def IsMask (mask : Word) : Prop := mask = 0x7ff ∨ mask = 0xfff ∨ mask = 0x1fff

theorem resolutionOf_isMask (header : Word) {mask : Word} (known : IsMask mask) :
    IsMask (resolutionOf header mask) := by
  simp only [resolutionOf]
  split_ifs
  · exact .inl rfl
  · exact .inr (.inl rfl)
  · exact .inr (.inr rfl)
  · exact known

theorem decodeWord_mask (state : Word × TMesytecData) (word : Word) :
    (decodeWord state word).1 = if isHeader word then resolutionOf word state.1 else state.1 := by
  unfold decodeWord
  split_ifs <;> rfl

theorem decodeWord_measurements (state : Word × TMesytecData) (word : Word) :
    (decodeWord state word).2.fMeasurements.map ADCMeasMesy.adc_measurement_word =
      state.2.fMeasurements.map ADCMeasMesy.adc_measurement_word ++ if isData word then
        [word] else [] := by
  unfold decodeWord
  split_ifs <;> simp only [List.map_append, List.map_cons, List.map_nil, List.append_nil]

private theorem foldl_decodeWord (state : Word × TMesytecData) (words : List Word)
    (known : IsMask state.1) :
    IsMask (words.foldl decodeWord state).1 ∧
      (words.foldl decodeWord state).2.fMeasurements.map ADCMeasMesy.adc_measurement_word =
        state.2.fMeasurements.map ADCMeasMesy.adc_measurement_word ++ words.filter isData := by
  induction words generalizing state with
  | nil =>
    rw [List.filter_nil, List.append_nil]
    exact ⟨known, rfl⟩
  | cons word words ih =>
    have next : IsMask (decodeWord state word).1 := by
      rw [decodeWord_mask]
      split_ifs
      · exact resolutionOf_isMask word known
      · exact known
    obtain ⟨mask, measured⟩ := ih _ next
    refine ⟨mask, measured.trans ?_⟩
    rw [decodeWord_measurements, List.append_assoc, List.filter_cons]
    split_ifs <;> rfl

theorem decode_isMask {mask : Word} (known : IsMask mask) (words : List Word) :
    IsMask (TMesytecData.decode mask words).1 :=
  (foldl_decodeWord _ words known).1

/-- The measurements of a bank are its data words, under any mask. -/
theorem decode_measurements {mask : Word} (known : IsMask mask) (words : List Word) :
    (TMesytecData.decode mask words).2.fMeasurements.map ADCMeasMesy.adc_measurement_word =
      words.filter isData :=
  (foldl_decodeWord _ words known).2

theorem maskAfter_isMask {mask : Word} (known : IsMask mask) (banks : List (List Word)) :
    IsMask (maskAfter mask banks) := by
  induction banks generalizing mask with
  | nil => exact known
  | cons bank banks ih => exact ih (decode_isMask known bank)

/-- The readings are the data words under one of the three masks. -/
theorem readings_eq (before : List (List Word)) (bank : List Word) (between : List (List Word)) :
    ∃ mask, IsMask mask ∧ readings before bank between = (bank.filter isData).map (· &&& mask) := by
  have known := maskAfter_isMask (.inl rfl : IsMask gBitResolution) before
  refine ⟨_, maskAfter_isMask (decode_isMask known bank) between, ?_⟩
  rw [readings, ← decode_measurements known bank, List.map_map]
  rfl

/-- The words of a header alone, for each resolution. -/
theorem readings_between (bank : List Word) :
    readings [] bank [[0x40001000#32]] = (bank.filter isData).map (· &&& 0x7ff#32) ∧
      readings [] bank [[0x40004000#32]] = (bank.filter isData).map (· &&& 0x1fff#32) := by
  have known : IsMask gBitResolution := .inl rfl
  constructor <;>
  · rw [readings, ← decode_measurements known bank, List.map_map]
    rfl

/-- The masks are the smallest one with more of the two bits above it. -/
theorem and_eq_of_low {word : Word} (low : word &&& 0x1800#32 = 0#32) {mask : Word}
    (known : IsMask mask) :
    word &&& mask = word &&& 0x7ff#32 := by
  have widen (bits : Word) (inside : 0x1800#32 &&& bits = bits) : word &&& (0x7ff#32 ||| bits) =
      word &&& 0x7ff#32 := by
    have clear : word &&& bits = 0#32 := by rw [← inside, ← BitVec.and_assoc, low, BitVec.zero_and]
    rw [BitVec.and_or_distrib_left, clear, BitVec.or_zero]
  obtain rfl | rfl | rfl := known
  · rfl
  · exact widen 0x800#32 rfl
  · exact widen 0x1800#32 rfl

theorem low_of_and_eq {word : Word} (same : word &&& 0x7ff#32 = word &&& 0x1fff#32) :
    word &&& 0x1800#32 = 0 :=
  calc
  word &&& 0x1800#32 = (word &&& 0x1fff#32) &&& 0x1800#32 := by rw [BitVec.and_assoc]; rfl
  _ = (word &&& 0x7ff#32) &&& 0x1800#32 := by rw [same]
  _ = word &&& (0x7ff#32 &&& 0x1800#32) := BitVec.and_assoc ..
  _ = 0 := BitVec.and_zero

/-- The readings of a bank do not depend on the other banks exactly when none of its data words has
a bit above the 11 bits of the smallest resolution and below the 13 bits of the largest. -/
theorem independent_iff (bank : List Word) :
    Independent bank ↔ ∀ word ∈ bank, isData word → word &&& 0x1800#32 = 0 := by
  constructor
  · intro independent word member data
    obtain ⟨small, large⟩ := readings_between bank
    have same := independent [] [[0x40001000#32]] [] [[0x40004000#32]]
    rw [small, large] at same
    exact low_of_and_eq (List.map_inj_left.mp same word (List.mem_filter.mpr ⟨member, data⟩))
  · intro low
    have bare (before between : List (List Word)) :
        readings before bank between = (bank.filter isData).map (· &&& 0x7ff#32) := by
      obtain ⟨mask, known, read⟩ := readings_eq before bank between
      rw [read]
      refine List.map_congr_left fun word member => ?_
      obtain ⟨member, data⟩ := List.mem_filter.mp member
      exact and_eq_of_low (low word member data) known
    intro before between before' between'
    rw [bare, bare]

/-- A bank of 12 bits with one measurement, 0x8ff: a bank of 11 bits decoded before it
is read makes it 0xff. -/
theorem twelveBits_not_independent : ¬ Independent [0x40002000#32, 0x040008ff#32, 0xc0000000#32] := by
  intro independent
  have same := independent [] [] [] [[0x40001000#32]]
  revert same
  decide

end PtfConverter.Mesytec
