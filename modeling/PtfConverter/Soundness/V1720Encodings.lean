import PtfConverter.Soundness.V1720RoundTrip
import Mathlib.Algebra.BigOperators.Group.List.Basic
import Mathlib.Algebra.Group.Action.Defs

/-! # The two encodings of the same waveforms

A bank without compression decodes to an object for every channel, enabled or not, and one in
zero-length encoding to an object for each enabled channel. An index stands for the same channel in
both only when all channels are enabled.
-/

namespace PtfConverter.V1720

/-- Waveforms of one length, two samples in each word, and the header words of their two banks. The
size word counts the words of the uncompressed bank. -/
structure Recording where
  nw : ℕ
  waveforms : ℕ → List (BitVec 12 × BitVec 12)
  zle : Headers
  header0 : Word
  header1 : Word
  header2 : Word
  header3 : Word
  some_words : 1 ≤ nw
  short : nw < 2 ^ 20
  lengths : ∀ ch, (waveforms ch).length = nw
  uncompressed : IsZLECompressed header1 = false
  mask : ∀ ch < 8, header1.getLsbD ch = zle.header1.getLsbD ch
  size : (GetEventSize header0).toNat = 4 + zle.channels.length * nw

namespace Recording

variable (recording : Recording)

/-- The uncompressed bank. -/
def plainBank : List Word :=
  [recording.header0, recording.header1, recording.header2, recording.header3] ++
    recording.zle.channels.flatMap fun ch => (recording.waveforms ch).map fun pair =>
      packWord pair.1 pair.2

/-- Each channel as one good block. -/
def blocks (ch : ℕ) : List Block :=
  [.good (recording.waveforms ch) ((recording.lengths ch).trans_lt recording.short)]

/-- The bank in zero-length encoding. -/
def zleBank : List Word := encodeBank recording.zle recording.blocks

end Recording

/-- The samples of a channel object, wherever it has them. -/
def TV1720RawChannel.samples (channel : TV1720RawChannel) : List Word :=
  channel.fWaveform ++ channel.fZlePulses.flatMap TV1720RawZlePulse.fSamples

/-- The two banks decode, and an index stands for the same channel with the same samples in both. -/
def Independent (recording : Recording) : Prop :=
  ∃ plain zle, TV1720RawData.decode recording.plainBank = .ok plain ∧
    TV1720RawData.decode recording.zleBank = .ok zle ∧
    ∀ i : ℕ, i < 8 → (plain.GetChannelData i).fChannelNumber = (zle.GetChannelData i).fChannelNumber ∧
      (plain.GetChannelData i).samples = (zle.GetChannelData i).samples

namespace Recording

variable (recording : Recording)

def samplesOf (ch : ℕ) : List Word :=
  (recording.waveforms ch).flatMap fun pair => [pair.1.setWidth 32, pair.2.setWidth 32]

/-- The object of a channel without compression. -/
def plainChannel (ch : ℕ) : TV1720RawChannel :=
  if recording.zle.header1.getLsbD ch then ⟨ch, false, [], recording.samplesOf ch⟩ else .new ch false

variable {recording} {bank : List Word}

/-- The pointer goes through the words of the enabled channels. -/
theorem foldlM_readChannel {chs : List ℕ} (state : Channels) (small : ∀ ch ∈ chs, ch < 8)
    (stored : At bank state.iPtr ((chs.filter recording.zle.header1.getLsbD).flatMap fun ch =>
      (recording.waveforms ch).map fun pair => packWord pair.1 pair.2)) :
    chs.foldlM (readChannel bank (recording.header1 &&& 0xff#32) recording.nw) state =
      .ok ⟨state.fMeasurements ++ chs.map recording.plainChannel,
        state.iPtr + (chs.filter recording.zle.header1.getLsbD).length * recording.nw⟩ := by
  induction chs generalizing state with
  | nil =>
    rw [List.map_nil, List.append_nil, List.filter_nil, List.length_nil, Nat.zero_mul]
    rfl
  | cons ch chs ih =>
    obtain ⟨here, later⟩ := List.forall_mem_cons.mp small
    have enabling : channelEnabled (recording.header1 &&& 0xff#32) ch =
        recording.zle.header1.getLsbD ch :=
      (channelEnabled_eq recording.header1 here).trans (recording.mask ch here)
    rw [List.foldlM_cons, readChannel, enabling]
    cases enabled : recording.zle.header1.getLsbD ch with
    | false =>
      have object : recording.plainChannel ch = .new ch false := by rw [plainChannel, enabled]; rfl
      rw [List.filter_cons_of_neg (by rw [enabled]; exact Bool.false_ne_true)] at stored ⊢
      have read := ih ⟨state.fMeasurements ++ [TV1720RawChannel.new ch false], state.iPtr⟩ later stored
      rw [if_neg Bool.false_ne_true, Except.ok_bind, read, List.map_cons, object, List.append_assoc]
      rfl
    | true =>
      have object : recording.plainChannel ch = ⟨ch, false, [], recording.samplesOf ch⟩ := by
        rw [plainChannel, enabled]; rfl
      rw [List.filter_cons_of_pos enabled, List.flatMap_cons] at stored
      obtain ⟨first, rest⟩ := stored.append
      have read := readSamples_encode first
      rw [List.length_map, recording.lengths] at rest
      rw [recording.lengths] at read
      rw [if_pos rfl, read, List.filter_cons_of_pos enabled]
      simp only [Except.ok_bind, pure, Except.pure]
      rw [ih ⟨_, _⟩ later rest, List.map_cons, object, List.append_assoc, List.length_cons,
        Nat.succ_mul, Nat.add_assoc, Nat.add_comm recording.nw]
      rfl

/-- The quotient of the size is the number of words of a channel. -/
theorem N32samples_eq (enabled : recording.zle.channels ≠ []) :
    ((GetEventSize recording.header0 - 4#32) /
      BitVec.ofNat 32 recording.zle.channels.length).toInt.toNat = recording.nw := by
  have few : recording.zle.channels.length ≤ 8 := (List.length_filter_le _ _).trans_eq List.length_range
  have positive := List.length_pos_iff.mpr enabled
  have short := recording.short
  have product : recording.zle.channels.length * recording.nw < 8 * 2 ^ 20 :=
    (Nat.mul_le_mul_right _ few).trans_lt (Nat.mul_lt_mul_of_pos_left short (by decide))
  have rest : (GetEventSize recording.header0 - 4#32).toNat =
      recording.zle.channels.length * recording.nw := by
    rw [BitVec.toNat_sub, recording.size, BitVec.toNat_ofNat]
    omega
  have quotient : ((GetEventSize recording.header0 - 4#32) /
      BitVec.ofNat 32 recording.zle.channels.length).toNat =
      recording.nw := by
    rw [BitVec.toNat_udiv, rest, BitVec.toNat_ofNat, Nat.mod_eq_of_lt (by omega),
      Nat.mul_div_cancel_left _ positive]
  rw [BitVec.toInt_eq_toNat_of_lt (by rw [quotient]; omega), quotient, Int.toNat_natCast]

/-- The loop counts the channels of the mask. -/
theorem nActiveChannels_eq (recording : Recording) :
    (List.range 8).filter (channelEnabled (recording.header1 &&& 0xff#32)) =
      recording.zle.channels := by
  refine List.filter_congr fun ch member => ?_
  have small := List.mem_range.mp member
  exact (channelEnabled_eq recording.header1 small).trans (recording.mask ch small)

/-- The uncompressed bank decodes to an object for every channel, unless no channel is enabled. -/
theorem decode_plainBank (recording : Recording) :
    TV1720RawData.decode recording.plainBank =
      if recording.zle.channels = [] then .error .divisionByZero
      else .ok ⟨recording.header0, recording.header1, recording.header2, recording.header3,
        (List.range 8).map recording.plainChannel⟩ := by
  have header0 : getData32 recording.plainBank 0 = .ok recording.header0 := rfl
  have header1 : getData32 recording.plainBank 1 = .ok recording.header1 := rfl
  have header2 : getData32 recording.plainBank 2 = .ok recording.header2 := rfl
  have header3 : getData32 recording.plainBank 3 = .ok recording.header3 := rfl
  simp only [TV1720RawData.decode, HandlUncompressedData, header0, header1, header2, header3,
    Except.ok_bind, recording.uncompressed, Bool.false_eq_true, if_false,
    recording.nActiveChannels_eq, List.length_eq_zero_iff]
  split_ifs with none
  · rfl
  · have stored : At recording.plainBank 4 (recording.zle.channels.flatMap fun ch =>
        (recording.waveforms ch).map fun pair => packWord pair.1 pair.2) := by
      refine ⟨[], ?_⟩
      rw [List.append_nil]
      rfl
    rw [N32samples_eq none,
      foldlM_readChannel ⟨[], 4⟩ (fun ch member => List.mem_range.mp member) stored]
    rfl

/-- The bank in zero-length encoding decodes to an object for each enabled channel. -/
theorem decode_zleBank (recording : Recording) :
    TV1720RawData.decode recording.zleBank =
      .ok ⟨recording.zle.header0, recording.zle.header1, recording.zle.header2, recording.zle.header3,
        recording.zle.channels.map (channelOf recording.blocks)⟩ := by
  have length (ch : ℕ) : (encodeChannel (recording.blocks ch)).length = recording.nw + 2 := by
    rw [encodeChannel, List.length_cons, blocks, encodeBlocks, List.flatMap_singleton, Block.encode,
      List.length_cons, List.length_map, recording.lengths]
  have few : recording.zle.channels.length ≤ 8 := (List.length_filter_le _ _).trans_eq List.length_range
  have short := recording.short
  have long : (encodeBank recording.zle recording.blocks).length < 2 ^ 31 := by
    have words : (recording.zle.channels.flatMap fun ch => encodeChannel (recording.blocks ch)).length =
        recording.zle.channels.length * (recording.nw + 2) := by
      rw [List.length_flatMap, List.map_congr_left fun ch _ => length ch, List.map_const',
        List.sum_replicate, smul_eq_mul]
    have product := Nat.mul_le_mul_right (recording.nw + 2) few
    rw [encodeBank, List.length_append, words]
    simp only [List.length_cons, List.length_nil]
    omega
  have early (ch : ℕ) : timeOf (recording.blocks ch) < 2 ^ 30 := by
    rw [timeOf, blocks, List.map_singleton, List.sum_singleton, Block.time, recording.lengths]
    omega
  exact (decode_encodeZLE recording.zle recording.blocks long early).1

/-- The samples of a channel are in the one pulse of its block. -/
theorem samples_channelOf (recording : Recording) (ch : ℕ) :
    (channelOf recording.blocks ch).samples = recording.samplesOf ch := by
  rw [channelOf, TV1720RawChannel.samples, blocks, pulsesFrom, pulsesFrom, List.nil_append,
    List.flatMap_singleton]
  rfl

theorem number_plainChannel (recording : Recording) (ch : ℕ) :
    (recording.plainChannel ch).fChannelNumber = ch := by
  rw [plainChannel]
  split_ifs <;> rfl

theorem samples_plainChannel (recording : Recording) {ch : ℕ}
    (enabled : recording.zle.header1.getLsbD ch = true) :
    (recording.plainChannel ch).samples = recording.samplesOf ch := by
  rw [plainChannel, enabled, if_pos rfl, TV1720RawChannel.samples]
  exact List.append_nil _

end Recording

theorem GetChannelData_eq {data : TV1720RawData} {i : ℕ} {channel : TV1720RawChannel}
    (stored : data.fMeasurements[i]? = some channel) : data.GetChannelData i = channel := by
  obtain ⟨inside, value⟩ := List.getElem?_eq_some_iff.mp stored
  rw [TV1720RawData.GetChannelData, if_pos ⟨Int.natCast_nonneg i, by exact_mod_cast inside⟩,
    Int.toNat_natCast, List.getD_eq_getElem?_getD, stored, Option.getD_some]

/-- The two encodings of the same waveforms give the same channels exactly when all eight
channels are enabled. -/
theorem encodings_independent_iff (recording : Recording) :
    Independent recording ↔ ∀ ch < 8, recording.zle.header1.getLsbD ch = true := by
  have zleDecoded := recording.decode_zleBank
  have plainDecoded := recording.decode_plainBank
  constructor
  · rintro ⟨plain, zle, plainReturns, zleReturns, same⟩ ch small
    by_contra disabled
    have fewer : recording.zle.channels.length < 8 := by
      refine ((List.length_filter_lt_length_iff_exists).mpr
        ⟨ch, List.mem_range.mpr small, disabled⟩).trans_eq ?_
      exact List.length_range
    rw [zleDecoded] at zleReturns
    obtain rfl := Except.ok.inj zleReturns
    rw [plainDecoded] at plainReturns
    split_ifs at plainReturns
    obtain rfl := Except.ok.inj plainReturns
    obtain ⟨number, _⟩ := same 7 (by decide)
    have last : ((List.range 8).map recording.plainChannel)[7]? = some (recording.plainChannel 7) := rfl
    have beyond : ¬ (0 ≤ ((7 : ℕ) : ℤ) ∧
        ((7 : ℕ) : ℤ) < (recording.zle.channels.map (channelOf recording.blocks)).length) := by
      rw [List.length_map]
      omega
    rw [GetChannelData_eq last, recording.number_plainChannel, TV1720RawData.GetChannelData,
      if_neg beyond] at number
    cases number
  · intro all
    have channels : recording.zle.channels = List.range 8 :=
      List.filter_eq_self.mpr fun ch member => all ch (List.mem_range.mp member)
    rw [if_neg (by rw [channels]; decide)] at plainDecoded
    rw [channels] at zleDecoded
    refine ⟨_, _, plainDecoded, zleDecoded, fun i small => ?_⟩
    have place : (List.range 8)[i]? = some i := List.getElem?_range small
    have inPlain : ((List.range 8).map recording.plainChannel)[i]? =
        some (recording.plainChannel i) := by
      rw [List.getElem?_map, place, Option.map_some]
    have inZle : ((List.range 8).map (channelOf recording.blocks))[i]? =
        some (channelOf recording.blocks i) := by
      rw [List.getElem?_map, place, Option.map_some]
    rw [GetChannelData_eq inPlain, GetChannelData_eq inZle, recording.number_plainChannel,
      recording.samples_plainChannel (all i small), recording.samples_channelOf]
    exact ⟨rfl, rfl⟩

/-- Channels 0 and 2 with one word each: index 1 is the disabled channel 1 in one bank and
channel 2 in the other. -/
def twoOfThree : Recording where
  nw := 1
  waveforms := fun ch => [(BitVec.ofNat 12 ch, 7)]
  zle := ⟨0xa000000a#32, 0x01000005#32, 0#32, 0#32, rfl⟩
  header0 := 0xa0000006#32
  header1 := 0x00000005#32
  header2 := 0#32
  header3 := 0#32
  some_words := le_rfl
  short := by decide
  lengths := fun _ => rfl
  uncompressed := rfl
  mask := by decide
  size := by decide

theorem twoOfThree_dependent : ¬ Independent twoOfThree := by
  rintro ⟨plain, zle, plainReturns, zleReturns, same⟩
  have first : TV1720RawData.decode twoOfThree.plainBank =
    .ok ⟨0xa0000006#32, 0x00000005#32, 0#32, 0#32,
    [⟨0, false, [], [0, 7]⟩, .new 1 false, ⟨2, false, [], [2, 7]⟩, .new 3 false, .new 4 false,
      .new 5 false,
      .new 6 false, .new 7 false]⟩ := by decide
  have second : TV1720RawData.decode twoOfThree.zleBank = .ok ⟨0xa000000a#32, 0x01000005#32, 0#32, 0#32,
    [⟨0, true, [⟨0, [0, 7]⟩], []⟩, ⟨2, true, [⟨0, [2, 7]⟩], []⟩]⟩ := by decide
  obtain rfl := Except.ok.inj (first.symm.trans plainReturns)
  obtain rfl := Except.ok.inj (second.symm.trans zleReturns)
  have number := (same 1 (by decide)).1
  revert number
  decide

end PtfConverter.V1720
