import PtfConverter.Model.V1730Raw
import PtfConverter.ToMathlib.BitFields

/-! # Every encoded V1730 bank decodes to its own samples

The encoder lays out a bank as the digitizer does: the tagged size, the channel mask split over
two header words, and two 14-bit samples in each data word. The word counter of the decoder stays
at the start of the next enabled channel's words, so that each channel reads back its own samples.
The unmasked header bits are arbitrary.
-/

namespace PtfConverter.V1730

/-- Two samples in one data word, the earlier one in the low half. -/
def packWord (first second : BitVec 14) : Word := (0#2 ++ second) ++ (0#2 ++ first)

/-- The data words of one channel. -/
def encodeChannel (nw : ℕ) (samples : ℕ → BitVec 14) : List Word :=
  (List.range nw).map fun i => packWord (samples (2 * i)) (samples (2 * i + 1))

/-- The channels of a mask, in ascending order. -/
def enabledChannels (mask : BitVec 16) : List ℕ := (List.range 16).filter mask.getLsbD

/-- The bits of the header words that hold neither the size nor the channel mask. -/
structure HeaderRest where
  boardId : BitVec 24
  eventCounter : BitVec 24
  timeTag : Word

/-- The bank of `nw` data words for each enabled channel. -/
def encodeBank (rest : HeaderRest) (mask : BitVec 16) (nw : ℕ) (samples : ℕ → ℕ → BitVec 14) :
    List Word :=
  (0xa#4 ++ BitVec.ofNat 28 (4 + (enabledChannels mask).length * nw)) ::
    (rest.boardId ++ mask.extractLsb' 0 8) :: (mask.extractLsb' 8 8 ++ rest.eventCounter) ::
    rest.timeTag :: (enabledChannels mask).flatMap fun ch => encodeChannel nw (samples ch)

@[simp] theorem encodeChannel_length (nw : ℕ) (samples : ℕ → BitVec 14) :
    (encodeChannel nw samples).length = nw := by
  simp [encodeChannel]

private theorem packWord_toNat (first second : BitVec 14) :
    (packWord first second).toNat = second.toNat * 2 ^ 16 + first.toNat := by
  simp only [packWord, BitVec.toNat_append_eq, BitVec.toNat_ofNat]
  omega

private theorem packWord_low (first second : BitVec 14) :
    packWord first second &&& 0x3fff#32 = first.setWidth 32 := by
  apply BitVec.eq_of_toNat_eq
  have small := first.isLt
  rw [BitVec.toNat_and_low _ 0x3fff 14 rfl (by decide), packWord_toNat, BitVec.toNat_setWidth]
  omega

private theorem packWord_high (first second : BitVec 14) :
    (packWord first second &&& 0x3fff0000#32) >>> 16 = second.setWidth 32 := by
  apply BitVec.eq_of_toNat_eq
  have low := first.isLt
  have high := second.isLt
  rw [BitVec.toNat_ushiftRight,
    BitVec.toNat_and_field _ 0x3fff0000 16 14 rfl (by decide), packWord_toNat,
    BitVec.toNat_setWidth, Nat.shiftRight_eq_div_pow]
  omega

/-- Reading past a prefix of the bank, word by word. -/
theorem getData32_append (pre : List Word) (word : Word) (post : List Word) :
    getData32 (pre ++ word :: post) pre.length = .ok word := by
  simp [getData32]

/-- The inner loop reads a whole channel back, in sample order. -/
theorem readSamples_encodeChannel (pre post : List Word) (nw : ℕ) (samples : ℕ → BitVec 14) :
    readSamples (pre ++ encodeChannel nw samples ++ post) nw pre.length =
      .ok ((List.range (2 * nw)).map fun i => (samples i).setWidth 32) := by
  induction nw generalizing pre samples with
  | zero => rfl
  | succ nw ih =>
    have words : encodeChannel (nw + 1) samples =
        packWord (samples 0) (samples 1) :: encodeChannel nw (fun i => samples (i + 2)) := by
      simp only [encodeChannel, List.range_succ_eq_map, List.map_cons, List.map_map]
      rfl
    have values : (List.range (2 * (nw + 1))).map (fun i => (samples i).setWidth 32) =
        (samples 0).setWidth 32 :: (samples 1).setWidth 32 ::
          (List.range (2 * nw)).map (fun i => (samples (i + 2)).setWidth 32) := by
      simp only [Nat.mul_add, Nat.mul_one, List.range_succ_eq_map, List.map_cons, List.map_map]
      rfl
    have tail := ih (pre ++ [packWord (samples 0) (samples 1)]) (fun i => samples (i + 2))
    rw [List.append_assoc, List.append_assoc, List.singleton_append, List.length_append,
      List.length_singleton] at tail
    rw [readSamples, words, values, List.append_assoc, List.cons_append, getData32_append,
      Except.ok_bind, tail, Except.ok_bind, packWord_low, packWord_high]
    rfl

/-- The channel loop stays aligned with the enabled channels' words. -/
theorem readChannels_encode (mask : Word) (nw : ℕ) (samples : ℕ → ℕ → BitVec 14) (pre : List Word)
    (chans : List ℕ) :
    readChannels (pre ++ (chans.filter (channelEnabled mask)).flatMap
        (fun ch => encodeChannel nw (samples ch))) mask nw chans pre.length =
      .ok ((chans.filter (channelEnabled mask)).map fun ch =>
        ⟨ch, (List.range (2 * nw)).map fun i => (samples ch i).setWidth 32⟩) := by
  induction chans generalizing pre with
  | nil => rfl
  | cons ch rest ih =>
    by_cases enabled : channelEnabled mask ch = true
    · have tail := ih (pre ++ encodeChannel nw (samples ch))
      rw [List.length_append, encodeChannel_length] at tail
      rw [readChannels, if_pos enabled, List.filter_cons_of_pos enabled, List.flatMap_cons,
        ← List.append_assoc, readSamples_encodeChannel, Except.ok_bind, tail]
      rfl
    · rw [readChannels, if_neg enabled, List.filter_cons_of_neg enabled]
      exact ih pre

private theorem getChMask_encode (rest : HeaderRest) (mask : BitVec 16) :
    getChMask (rest.boardId ++ mask.extractLsb' 0 8) (mask.extractLsb' 8 8 ++ rest.eventCounter) =
      mask.setWidth 32 := by
  apply BitVec.eq_of_toNat_eq
  have small := mask.isLt
  have counter := rest.eventCounter.isLt
  rw [getChMask, BitVec.toNat_add, BitVec.toNat_and_low _ 0xff 8 rfl (by decide),
    BitVec.toNat_ushiftRight,
    BitVec.toNat_and_field _ 0xff000000 24 8 rfl (by decide),
    BitVec.toNat_append_eq, BitVec.toNat_append_eq, BitVec.extractLsb'_toNat, BitVec.extractLsb'_toNat,
    BitVec.toNat_setWidth, Nat.shiftRight_eq_div_pow, Nat.shiftRight_eq_div_pow,
    Nat.shiftRight_eq_div_pow]
  omega

private theorem channelEnabled_setWidth (mask : BitVec 16) {ch : ℕ} (bound : ch < 16) :
    channelEnabled (mask.setWidth 32) ch = mask.getLsbD ch := by
  have one : (1#32 <<< ch) = BitVec.twoPow 32 ch := (BitVec.twoPow_eq 32 ch).symm
  have nonzero : BitVec.twoPow 32 ch ≠ 0#32 := by
    intro zero
    have value := congrArg BitVec.toNat zero
    rw [BitVec.toNat_twoPow_of_lt (by omega)] at value
    exact absurd value (by simp)
  rw [channelEnabled, one, BitVec.twoPow_and]
  simp only [BitVec.getLsbD_setWidth, show ch < 32 by omega, decide_true, Bool.true_and]
  cases mask.getLsbD ch <;> simp [nonzero]

/-- On the sixteen channels of the loop, the decoder's mask test selects the encoded channels. -/
theorem filter_channelEnabled (mask : BitVec 16) :
    (List.range 16).filter (channelEnabled (mask.setWidth 32)) = enabledChannels mask :=
  List.filter_congr fun _ member => channelEnabled_setWidth mask (List.mem_range.mp member)

theorem enabledChannels_ne_nil {mask : BitVec 16} (nonempty : mask ≠ 0) :
    enabledChannels mask ≠ [] := by
  intro none
  apply nonempty
  apply BitVec.eq_of_getLsbD_eq
  intro ch bound
  have absent := List.filter_eq_nil_iff.mp none ch (List.mem_range.mpr bound)
  simpa using absent

private theorem tag_encode (size : ℕ) (fits : size < 2 ^ 28) :
    (0xa#4 ++ BitVec.ofNat 28 size) &&& 0xf0000000#32 = 0xa0000000#32 ∧
      getEventSize (0xa#4 ++ BitVec.ofNat 28 size) = BitVec.ofNat 32 size := by
  constructor
  · apply BitVec.eq_of_toNat_eq
    rw [BitVec.toNat_and_field _ 0xf0000000 28 4 rfl (by decide), BitVec.toNat_append_eq,
      BitVec.toNat_ofNat, BitVec.toNat_ofNat, BitVec.toNat_ofNat]
    omega
  · apply BitVec.eq_of_toNat_eq
    rw [getEventSize, BitVec.toNat_and_low _ 0xfffffff 28 rfl (by decide), BitVec.toNat_append_eq,
      BitVec.toNat_ofNat, BitVec.toNat_ofNat, BitVec.toNat_ofNat]
    omega

private theorem nwordsPerChannel_encode {channels nw : ℕ} (positive : 0 < channels)
    (fits : 4 + channels * nw < 2 ^ 28) :
    nwordsPerChannel (0xa#4 ++ BitVec.ofNat 28 (4 + channels * nw)) channels = nw := by
  have few : channels ≤ channels * nw ∨ nw = 0 := by
    rcases Nat.eq_zero_or_pos nw with zero | some
    · exact Or.inr zero
    · exact Or.inl (Nat.le_mul_of_pos_right channels some)
  have size : (BitVec.ofNat 32 (4 + channels * nw) - 4#32).toNat = channels * nw := by
    rw [BitVec.toNat_sub, BitVec.toNat_ofNat, BitVec.toNat_ofNat]
    omega
  rcases few with few | rfl
  · have quotient : ((BitVec.ofNat 32 (4 + channels * nw) - 4#32) /
      BitVec.ofNat 32 channels).toNat = nw := by
      rw [BitVec.toNat_udiv, size, BitVec.toNat_ofNat, Nat.mod_eq_of_lt (by omega),
        Nat.mul_div_cancel_left nw positive]
    have small : nw ≤ channels * nw := Nat.le_mul_of_pos_left nw positive
    rw [nwordsPerChannel, (tag_encode _ fits).2, BitVec.toInt_eq_toNat_of_lt (by rw [quotient]; omega),
      quotient, Int.toNat_natCast]
  · have zero : (BitVec.ofNat 32 (4 + channels * 0) - 4#32) = 0#32 := BitVec.eq_of_toNat_eq size
    rw [nwordsPerChannel, (tag_encode _ fits).2, zero]
    simp

/-- A tagged bank whose channel loop succeeds decodes to the measurements of the loop. -/
theorem decode_of_readChannels {header0 header1 header2 header3 : Word} {words : List Word}
    {measurements : List RawChannelMeasurement}
    (tagged : header0 &&& 0xf0000000#32 = 0xa0000000#32)
    (some_channel : (List.range 16).filter (channelEnabled (getChMask header1 header2)) ≠ [])
    (read : readChannels (header0 :: header1 :: header2 :: header3 :: words)
      (getChMask header1 header2)
      (nwordsPerChannel header0
      ((List.range 16).filter (channelEnabled (getChMask header1 header2))).length)
      (List.range 16) 4 = .ok measurements) :
    ∃ bank, TV1730RawData.decode (header0 :: header1 :: header2 :: header3 :: words) = .ok bank ∧
      bank.fMeasurements = measurements := by
  refine ⟨⟨[header0, header1, header2, header3], measurements, readChannels_ascending read⟩, ?_, rfl⟩
  have positive : ((List.range 16).filter (channelEnabled (getChMask header1 header2))).length ≠ 0 :=
    fun none => some_channel (List.length_eq_zero_iff.mp none)
  simp only [TV1730RawData.decode, getData32, List.getElem?_cons_zero, List.getElem?_cons_succ,
    Except.ok_bind, tagged, bne_self_eq_false, Bool.false_eq_true, ↓reduceIte, positive]
  split
  · next found same => cases read.symm.trans same; rfl
  · next fault same => cases read.symm.trans same

/-- The decoder inverts the encoder for every mask, length and choice of samples. -/
theorem decode_encodeBank (rest : HeaderRest) (mask : BitVec 16) (nonempty : mask ≠ 0) (nw : ℕ)
    (fits : 4 + (enabledChannels mask).length * nw < 2 ^ 28)
    (samples : ℕ → ℕ → BitVec 14) :
    ∃ bank, TV1730RawData.decode (encodeBank rest mask nw samples) = .ok bank ∧
      bank.fMeasurements = (enabledChannels mask).map fun ch =>
        ⟨ch, (List.range (2 * nw)).map fun i => (samples ch i).setWidth 32⟩ := by
  have positive : 0 < (enabledChannels mask).length :=
    List.length_pos_iff.mpr (enabledChannels_ne_nil nonempty)
  have read := readChannels_encode (mask.setWidth 32) nw samples
    ((encodeBank rest mask nw samples).take 4) (List.range 16)
  rw [filter_channelEnabled] at read
  apply decode_of_readChannels (tag_encode _ fits).1
  · rw [getChMask_encode, filter_channelEnabled]
    exact enabledChannels_ne_nil nonempty
  · rw [getChMask_encode, filter_channelEnabled, nwordsPerChannel_encode positive fits]
    exact read

/-- Channels 0 and 8 with one data word each. -/
theorem decode_twoChannels : ∃ bank,
    TV1730RawData.decode
      (encodeBank ⟨1, 2, 3⟩ 0x0101#16 1 fun ch i => BitVec.ofNat 14 (16 * ch + i)) = .ok bank ∧
      bank.fMeasurements = [⟨0, [0, 1]⟩, ⟨8, [128, 129]⟩] :=
  decode_encodeBank ⟨1, 2, 3⟩ 0x0101#16 (by decide) 1 (by decide) fun ch i =>
    BitVec.ofNat 14 (16 * ch + i)

end PtfConverter.V1730
