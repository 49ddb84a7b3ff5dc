import PtfConverter.Model.BRBRaw
import PtfConverter.ToMathlib.Blocks
import PtfConverter.ToMathlib.Transducer

/-! # Where the samples of a BRB bank are

The nested loops of `TBRBRawData` are one formula: sample `k` of a channel is in packet `k / 128`
of its ADC, in group `k % 128` of four words, at the slot of the channel. The words of every ADC
that is counted lie inside the bank, so that the loops with tested reads return the same list.
-/

namespace PtfConverter.BRB

/-- The place of a channel in a group of four words; the map to the channels is its own inverse. -/
def slot (ch : Fin 4) : Fin 4 := chan_map ch

/-- A word of a bank as a sample of a channel. -/
def sampleOf (ch : Fin 4) (word : BitVec 16) : Sample :=
  if ch.val = 1 ∨ ch.val = 3 then 4096 - (word >>> 4).setWidth 32 else (word >>> 4).setWidth 32

/-- The word of sample `k` of a channel. -/
def sampleIndex (adc : ℕ) (ch : Fin 4) (k : ℕ) : ℕ :=
  (adc * 8 + k / 128) * 533 + 21 + 4 * (k % 128) + slot ch

theorem pushSample_slot (fData : ℕ → BitVec 16) (istart : ℕ) (samples : Fin 4 → List Sample)
    (j : ℕ) (s : Fin 4) :
    pushSample fData istart samples (j * 4 + s) = Function.update samples (chan_map s)
      (samples (chan_map s) ++ [sampleOf (chan_map s) (fData (istart + 21 + 4 * j + s))]) := by
  have place : (⟨(j * 4 + s) % 4, Nat.mod_lt _ (by decide)⟩ : Fin 4) = s := by
    apply Fin.ext
    change (j * 4 + s.val) % 4 = s.val
    omega
  have index : j * 4 + s + 21 + istart = istart + 21 + 4 * j + s := by omega
  rw [pushSample, place, index]
  simp only [sampleOf, Fin.ext_iff]
  rfl

/-- A group of four words has one sample for each channel. -/
theorem foldl_pushSample_group (fData : ℕ → BitVec 16) (istart : ℕ)
    (samples : Fin 4 → List Sample) (j : ℕ) :
    ((List.range 4).map (j * 4 + ·)).foldl (pushSample fData istart) samples =
      fun ch => samples ch ++ [sampleOf ch (fData (istart + 21 + 4 * j + slot ch))] := by
  change (pushSample fData istart (pushSample fData istart (pushSample fData istart
    (pushSample fData istart samples (j * 4 + (0 : Fin 4))) (j * 4 + (1 : Fin 4)))
      (j * 4 + (2 : Fin 4)))
    (j * 4 + (3 : Fin 4))) = _
  simp only [pushSample_slot]
  funext ch
  match ch with
  | 0 => rfl
  | 1 => rfl
  | 2 => rfl
  | 3 => rfl

theorem readPacket_eq (fData : ℕ → BitVec 16) (samples : Fin 4 → List Sample) (counter : ℕ) :
    readPacket fData samples counter = fun ch => samples ch ++
      (List.range 128).map fun j => sampleOf ch (fData (counter * 533 + 21 + 4 * j + slot ch)) := by
  have words : 512 = 128 * 4 := rfl
  rw [readPacket, words, List.range_eq_flatMap_blocks (by decide), List.foldl_flatMap]
  simp only [foldl_pushSample_group, List.foldl_append_family]
  simp only [List.map_eq_flatMap]

/-- The samples of a channel of an ADC. -/
theorem readAdc_eq (fData : ℕ → BitVec 16) (adc : ℕ) (ch : Fin 4) :
    readAdc fData adc ch = (List.range 1024).map fun k =>
      sampleOf ch (fData (sampleIndex adc ch k)) := by
  have blocks := List.flatMap_range_blocks (m := 128) (by decide)
    (fun p j => sampleOf ch (fData ((adc * 8 + p) * 533 + 21 + 4 * j + slot ch))) 8
  simp only [readAdc, readPacket_eq, List.foldl_append_family, List.nil_append]
  exact blocks

theorem readAdc_length (fData : ℕ → BitVec 16) (adc : ℕ) (ch : Fin 4) :
    (readAdc fData adc ch).length = 1024 := by
  rw [readAdc_eq, List.length_map, List.length_range]

theorem mod_four_lt (c : ℕ) : c % 4 < 4 := Nat.mod_lt c (by decide)

/-- The measurement of a channel of an ADC. -/
def measurement (fData : ℕ → BitVec 16) (adc c : ℕ) : RawBRBMeasurement :=
  ⟨adc * 4 + c, readAdc fData adc ⟨c % 4, mod_four_lt c⟩⟩

theorem Bank.getMeasurements_eq (bank : Bank) :
    bank.getMeasurements = (List.range bank.nadcs.toNat).flatMap fun adc =>
      (List.range 4).map (measurement bank.fData adc) := rfl

namespace Bank

variable {bank : Bank}

/-- A bank without a whole packet has no ADC: the division goes towards zero. -/
theorem nadcs_eq (counted : 0 ≤ bank.bklen) : bank.nadcs = ((bank.bklen.toNat / 533 - 1) / 8 : ℕ) := by
  obtain ⟨length, measured⟩ := Int.eq_ofNat_of_zero_le counted
  rw [nadcs, measured, Int.toNat_natCast, Int.tdiv_eq_ediv_of_nonneg (Int.natCast_nonneg _)]
  rcases Nat.eq_zero_or_pos (length / 533) with none | some_packet
  · have empty : (length : ℤ) / 533 = 0 := by omega
    rw [empty, none]
    rfl
  · rw [Int.tdiv_eq_ediv_of_nonneg (by omega)]
    omega

/-- The words of a counted ADC end before the bank does. -/
theorem adc_inside (counted : 0 ≤ bank.bklen) {adc : ℕ} (listed : adc < bank.nadcs.toNat) :
    ((adc * 8 + 8) * 533 : ℕ) ≤ bank.bklen := by
  rw [nadcs_eq counted, Int.toNat_natCast] at listed
  omega

theorem word_ok {index : ℕ} (inside : index < bank.bklen) :
    bank.word index = .ok (bank.fData index) :=
  if_pos inside

theorem takeSample_ok {istart i : ℕ} (inside : ((i + 21 + istart : ℕ) : ℤ) < bank.bklen)
    (samples : Fin 4 → List Sample) :
    bank.takeSample istart samples i = .ok (pushSample bank.fData istart samples i) := by
  rw [takeSample, word_ok inside]
  rfl

theorem takePacket_ok {counter : ℕ} (inside : ((counter + 1) * 533 : ℕ) ≤ bank.bklen)
    (samples : Fin 4 → List Sample) :
    bank.takePacket samples counter = .ok (readPacket bank.fData samples counter) := by
  have turns : ∀ i ∈ List.range 512, ∀ samples, bank.takeSample (counter * 533) samples i =
      .ok (pushSample bank.fData (counter * 533) samples i) := by
    intro i member samples
    have turn := List.mem_range.mp member
    exact takeSample_ok (by omega) samples
  have read {offset : ℕ} (header : offset < 533) :
      bank.word (counter * 533 + offset) = .ok (bank.fData (counter * 533 + offset)) :=
        word_ok (by omega)
  simp only [takePacket, read (show 4 < 533 by decide), read (show 2 < 533 by decide),
    read (show 19 < 533 by decide), read (show 20 < 533 by decide), Except.ok_bind,
    Except.foldlM_eq_ok turns]
  rfl

theorem takeAdc_ok {adc : ℕ} (inside : ((adc * 8 + 8) * 533 : ℕ) ≤ bank.bklen)
    (fMeasurements : List RawBRBMeasurement) :
    bank.takeAdc fMeasurements adc = .ok (fMeasurements ++ measurements bank.fData adc) := by
  have packets : ∀ p ∈ List.range 8, ∀ samples, bank.takePacket samples (adc * 8 + p) =
      .ok (readPacket bank.fData samples (adc * 8 + p)) := by
    intro p member samples
    have packet : adc * 8 + p + 1 ≤ adc * 8 + 8 := Nat.add_le_add_left (List.mem_range.mp member) _
    exact takePacket_ok ((Int.ofNat_le.mpr (Nat.mul_le_mul_right 533 packet)).trans inside) samples
  rw [takeAdc, Except.foldlM_eq_ok packets]
  rfl

/-- The loops with tested reads return what the loops without return. -/
theorem decode_ok (counted : 0 ≤ bank.bklen) : bank.decode = .ok bank.getMeasurements := by
  have adcs : ∀ adc ∈ List.range bank.nadcs.toNat, ∀ fMeasurements, bank.takeAdc fMeasurements adc =
      .ok (fMeasurements ++ measurements bank.fData adc) := by
    intro adc member
    exact takeAdc_ok (adc_inside counted (List.mem_range.mp member))
  rw [decode, Except.foldlM_eq_ok adcs, getMeasurements, List.flatMap_eq_foldl]

/-- A bank of `bklen` words has four measurements for each ADC, in ascending channel order and of
1024 samples each, and no read of the decoder is behind its last word. -/
theorem decode_samples (bank : Bank) (counted : 0 ≤ bank.bklen) :
    ∃ measurements, bank.decode = .ok measurements ∧ (measurements.length : ℤ) = 4 * bank.nadcs ∧
      ∀ (adc : ℕ) (c : Fin 4), adc < bank.nadcs →
        ∃ measurement, measurements[adc * 4 + c.val]? = some measurement ∧
        measurement.getChannel = adc * 4 + c ∧ measurement.getNSamples = 1024 ∧
        ∀ k < 1024, measurement.getSample k = sampleOf c (bank.fData (sampleIndex adc c k)) := by
  have nonneg : 0 ≤ bank.nadcs := nadcs_eq counted ▸ Int.natCast_nonneg _
  refine ⟨bank.getMeasurements, decode_ok counted, ?_, fun adc c listed => ?_⟩
  · rw [getMeasurements_eq, List.flatMap_range_blocks (by decide), List.length_map, List.length_range]
    omega
  · have block : adc < bank.nadcs.toNat := by omega
    refine ⟨measurement bank.fData adc c, ?_, rfl, ?_, fun k inside => ?_⟩
    · rw [getMeasurements_eq]
      exact List.getElem?_flatMap_range_blocks _ block c.isLt
    · rw [RawBRBMeasurement.getNSamples, measurement, readAdc_length]
    · have same : (⟨c.val % 4, mod_four_lt c.val⟩ : Fin 4) = c := Fin.ext (Nat.mod_eq_of_lt c.isLt)
      simp only [RawBRBMeasurement.getSample, measurement, same, readAdc_eq, List.getElem?_map,
        List.getElem?_range inside, Option.map_some, Option.getD_some]

/-- Nine packets are one ADC, and the packet behind it. -/
theorem decode_samples_ninePackets : ∃ measurements : List RawBRBMeasurement,
    (⟨9 * 533, BitVec.ofNat 16⟩ : Bank).decode = .ok measurements ∧ measurements.length = 4 := by
  obtain ⟨measurements, decoded, count, _⟩ := decode_samples ⟨9 * 533, BitVec.ofNat 16⟩ (by decide)
  have one : (⟨9 * 533, BitVec.ofNat 16⟩ : Bank).nadcs = 1 := rfl
  refine ⟨measurements, decoded, ?_⟩
  rw [one] at count
  omega

end Bank

end PtfConverter.BRB
