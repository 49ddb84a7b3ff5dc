import PtfConverter.Soundness.V1720RoundTrip
import PtfConverter.Soundness.V1730RoundTrip

/-! # When the raw bank decoders stay in their bank

The decoders take the number of words to read from the bank itself, and not from its length. A bank
is safe when its header words are there, some channel is enabled, and the words that its size or its
blocks announce are there too. A size below the four header words wraps around, which is safe for a
single channel, whose count of words is then negative.
-/

namespace PtfConverter.RawBank

/-- The words of a bank; its length is an `int`. -/
structure Bank where
  words : List (BitVec 32)
  int : words.length < 2 ^ 31

theorem exists_headers {words : List (BitVec 32)} (long : 4 ≤ words.length) :
    ∃ header0 header1 header2 header3 rest,
      words = header0 :: header1 :: header2 :: header3 :: rest := by
  match words, long with
  | header0 :: header1 :: header2 :: header3 :: rest, _ => exact ⟨_, _, _, _, _, rfl⟩

/-- The data words that a size announces for some channels are among the words behind the header. -/
def SizeFits (size channels words : ℕ) : Prop :=
  0 < channels ∧ (4 ≤ size ∧ channels * ((size - 4) / channels) ≤ words ∨ size < 4 ∧ channels = 1)

/-- The count of words of a channel, as the decoders compute it. -/
theorem sizeFits_iff {size : BitVec 32} {channels words : ℕ} (small : size.toNat < 2 ^ 28)
    (some : 0 < channels) (few : channels ≤ 16) (int : words < 2 ^ 31) :
    channels * ((size - 4#32) / BitVec.ofNat 32 channels).toInt.toNat ≤ words ↔
      SizeFits size.toNat channels words := by
  obtain ⟨quotient, shape⟩ : ∃ quotient, quotient = (size - 4#32) / BitVec.ofNat 32 channels := ⟨_, rfl⟩
  have divided : quotient.toNat = (size - 4#32).toNat / channels := by
    rw [shape, BitVec.toNat_udiv, BitVec.toNat_ofNat, Nat.mod_eq_of_lt (by omega)]
  rw [← shape, SizeFits, iff_true_intro some, true_and]
  by_cases enough : 4 ≤ size.toNat
  · have rest : (size - 4#32).toNat = size.toNat - 4 := by
      rw [BitVec.toNat_sub, BitVec.toNat_ofNat]
      omega
    have bound := Nat.div_le_self (size.toNat - 4) channels
    rw [rest] at divided
    rw [BitVec.toInt_eq_toNat_of_lt (by omega), Int.toNat_natCast, divided]
    constructor
    · exact fun inside => .inl ⟨enough, inside⟩
    · rintro (⟨_, inside⟩ | ⟨short, _⟩)
      · exact inside
      · omega
  · have rest : (size - 4#32).toNat = 2 ^ 32 - 4 + size.toNat := by
      rw [BitVec.toNat_sub, BitVec.toNat_ofNat]
      omega
    rw [rest] at divided
    obtain rfl | more : channels = 1 ∨ 2 ≤ channels := by omega
    · have negative : quotient.toInt < 0 := by
        rw [BitVec.toInt_eq_toNat_cond]
        omega
      rw [Int.toNat_of_nonpos negative.le]
      exact iff_of_true (Nat.zero_le _) (.inr ⟨by omega, rfl⟩)
    · have half : (2 ^ 32 - 4 + size.toNat) / channels ≤ (2 ^ 32 - 4 + size.toNat) / 2 :=
        Nat.div_le_div_left more (by decide)
      have whole := Nat.div_add_mod (2 ^ 32 - 4 + size.toNat) channels
      have remainder := Nat.mod_lt (2 ^ 32 - 4 + size.toNat) some
      rw [BitVec.toInt_eq_toNat_of_lt (by omega), Int.toNat_natCast, divided]
      refine iff_of_false (by omega) ?_
      rintro (⟨long, _⟩ | ⟨_, single⟩) <;> omega

end PtfConverter.RawBank

namespace PtfConverter.V1730

open RawBank (SizeFits sizeFits_iff)

/-- The constructor neither reads behind the bank nor divides by zero. -/
def Safe (bank : List Word) : Prop := ∀ fault, TV1730RawData.decode bank ≠ .error fault

/-- A bank whose four header words are there, and either a foreign tag or the words of its size, for
at least one channel. -/
def Announced (bank : List Word) : Prop :=
  ∃ header0 header1 header2 header3 words, bank = header0 :: header1 :: header2 :: header3 :: words ∧
    (header0 &&& 0xf0000000#32 = 0xa0000000#32 →
      SizeFits (getEventSize header0).toNat
        ((List.range 16).filter (channelEnabled (getChMask header1 header2))).length words.length)

variable {bank : List Word}

theorem getData32_ok_iff (bank : List Word) (index : ℕ) :
    (∃ word, getData32 bank index = .ok word) ↔ index < bank.length := by
  unfold getData32
  cases stored : bank[index]? with
  | none =>
    have beyond := List.getElem?_eq_none_iff.mp stored
    exact iff_of_false (fun ⟨_, same⟩ => by cases same) (not_lt.mpr beyond)
  | some word => exact iff_of_true ⟨word, rfl⟩ (List.getElem?_eq_some_iff.mp stored).1

theorem readSamples_ok_iff {nwords counter : ℕ} (inside : counter ≤ bank.length) :
    (∃ samples, readSamples bank nwords counter = .ok samples) ↔ counter + nwords ≤ bank.length := by
  induction nwords generalizing counter with
  | zero => exact iff_of_true ⟨[], rfl⟩ inside
  | succ nwords ih =>
    constructor
    · rintro ⟨_, read⟩
      obtain ⟨word, here, read⟩ := Except.bind_eq_ok_iff.mp read
      obtain ⟨rest, later, _⟩ := Except.bind_eq_ok_iff.mp read
      have bound := (ih ((getData32_ok_iff bank counter).mp ⟨word, here⟩)).mp ⟨rest, later⟩
      omega
    · intro bound
      obtain ⟨word, here⟩ := (getData32_ok_iff bank counter).mpr (by omega)
      obtain ⟨rest, later⟩ := (@ih (counter + 1) (by omega)).mpr (by omega)
      rw [readSamples, here, Except.ok_bind, later]
      exact ⟨_, rfl⟩

/-- The channel loop returns when the words of all enabled channels are there. -/
theorem readChannels_ok_iff {mask : Word} {nwords counter : ℕ} {chans : List ℕ}
    (inside : counter ≤ bank.length) :
    (∃ measurements, readChannels bank mask nwords chans counter = .ok measurements) ↔
      counter + (chans.filter (channelEnabled mask)).length * nwords ≤ bank.length := by
  induction chans generalizing counter with
  | nil =>
    rw [List.filter_nil, List.length_nil, Nat.zero_mul]
    exact iff_of_true ⟨[], rfl⟩ inside
  | cons ch chans ih =>
    rw [readChannels]
    split_ifs with enabled
    · rw [List.filter_cons_of_pos enabled, List.length_cons, Nat.succ_mul]
      constructor
      · rintro ⟨_, read⟩
        obtain ⟨samples, here, read⟩ := Except.bind_eq_ok_iff.mp read
        obtain ⟨rest, later, _⟩ := Except.bind_eq_ok_iff.mp read
        have bound := (ih ((readSamples_ok_iff inside).mp ⟨samples, here⟩)).mp ⟨rest, later⟩
        omega
      · intro bound
        obtain ⟨samples, here⟩ := (@readSamples_ok_iff bank nwords counter inside).mpr (by omega)
        obtain ⟨rest, later⟩ := (@ih (counter + nwords) (by omega)).mpr (by omega)
        rw [here, Except.ok_bind, later]
        exact ⟨_, rfl⟩
    · rw [List.filter_cons_of_neg enabled]
      exact ih inside

theorem safe_iff_ok : Safe bank ↔ ∃ data, TV1730RawData.decode bank = .ok data := by
  rw [Safe]
  cases decoded : TV1730RawData.decode bank with
  | error fault => exact iff_of_false (fun safe => safe fault rfl) (fun ⟨_, same⟩ => by cases same)
  | ok data => exact iff_of_true (fun fault same => by cases same) ⟨data, rfl⟩

/-- The constructor behind the header words. -/
theorem decode_ok_iff {header0 header1 header2 header3 : Word} {words : List Word} :
    (∃ data, TV1730RawData.decode (header0 :: header1 :: header2 :: header3 :: words) = .ok data) ↔
      (header0 &&& 0xf0000000#32 = 0xa0000000#32 →
        0 < ((List.range 16).filter (channelEnabled (getChMask header1 header2))).length ∧
        ∃ measurements, readChannels (header0 :: header1 :: header2 :: header3 :: words)
          (getChMask header1 header2)
          (nwordsPerChannel header0
            ((List.range 16).filter (channelEnabled (getChMask header1 header2))).length)
          (List.range 16) 4 = .ok measurements) := by
  simp only [TV1730RawData.decode, getData32, List.getElem?_cons_zero, List.getElem?_cons_succ,
    Except.ok_bind, bne_iff_ne]
  split_ifs with foreign none
  · exact iff_of_true ⟨_, rfl⟩ fun tagged => absurd tagged foreign
  · apply iff_of_false
    · rintro ⟨_, same⟩
      cases same
    · intro some
      have positive := (some (not_not.mp foreign)).1
      omega
  · rw [forall_prop_of_true (not_not.mp foreign), iff_true_intro (Nat.pos_of_ne_zero none), true_and]
    constructor
    · rintro ⟨data, returns⟩
      split at returns
      · next measurements read => exact ⟨measurements, read⟩
      · cases returns
    · rintro ⟨measurements, read⟩
      split
      · exact ⟨_, rfl⟩
      · next fault failed => cases read.symm.trans failed

/-- Behind the header words, the constructor returns when the words that the size announces are
there. -/
theorem decode_ok_iff_sizeFits {header0 header1 header2 header3 : Word} {words : List Word}
    (int : (header0 :: header1 :: header2 :: header3 :: words).length < 2 ^ 31) :
    (∃ data, TV1730RawData.decode (header0 :: header1 :: header2 :: header3 :: words) = .ok data) ↔
      (header0 &&& 0xf0000000#32 = 0xa0000000#32 → SizeFits (getEventSize header0).toNat
        ((List.range 16).filter (channelEnabled (getChMask header1 header2))).length words.length) := by
  have small : (getEventSize header0).toNat < 2 ^ 28 := by
    rw [getEventSize, BitVec.toNat_and_low _ 0xfffffff 28 rfl (by decide)]
    omega
  have few : ((List.range 16).filter (channelEnabled (getChMask header1 header2))).length ≤ 16 :=
    (List.length_filter_le _ _).trans_eq List.length_range
  have length : (header0 :: header1 :: header2 :: header3 :: words).length = 4 + words.length := by
    simp only [List.length_cons]
    omega
  rw [decode_ok_iff]
  refine imp_congr_right fun _ => ?_
  rw [readChannels_ok_iff (by omega), length, Nat.add_le_add_iff_left]
  constructor
  · rintro ⟨some, inside⟩
    exact (sizeFits_iff small some few (by omega)).mp inside
  · intro fits
    exact ⟨fits.1, (sizeFits_iff small fits.1 few (by omega)).mpr fits⟩

theorem safe_iff (bank : RawBank.Bank) : Safe bank.words ↔ Announced bank.words := by
  obtain ⟨words, int⟩ := bank
  rw [safe_iff_ok]
  by_cases long : 4 ≤ words.length
  · obtain ⟨header0, header1, header2, header3, rest, rfl⟩ := RawBank.exists_headers long
    rw [decode_ok_iff_sizeFits int]
    constructor
    · exact fun fits => ⟨_, _, _, _, _, rfl, fits⟩
    · rintro ⟨_, _, _, _, _, same, fits⟩
      cases same
      exact fits
  · refine iff_of_false ?_ ?_
    · rintro ⟨data, returns⟩
      obtain ⟨_, _, read⟩ := Except.bind_eq_ok_iff.mp returns
      obtain ⟨_, _, read⟩ := Except.bind_eq_ok_iff.mp read
      obtain ⟨_, _, read⟩ := Except.bind_eq_ok_iff.mp read
      obtain ⟨_, last, _⟩ := Except.bind_eq_ok_iff.mp read
      exact long ((getData32_ok_iff words 3).mp ⟨_, last⟩)
    · rintro ⟨_, _, _, _, _, rfl, _⟩
      simp only [List.length_cons] at long
      omega

end PtfConverter.V1730

namespace PtfConverter.V1720

open RawBank (SizeFits sizeFits_iff)

/-- The constructor neither reads behind the bank nor divides by zero. -/
def Safe (bank : List Word) : Prop :=
  (∀ index, TV1720RawData.decode bank ≠ .error (.read index)) ∧
    TV1720RawData.decode bank ≠ .error .divisionByZero

/-- The data words of a block: only a good block has some. -/
def dataWords (header : Word) : ℕ :=
  if header >>> 31 &&& 0x1#32 ≠ 0 then (header &&& 0xfffff#32).toNat else 0

/-- Some words hold the blocks of a channel that has some words left; the last block may have more. -/
inductive HoldsBlocks : ℕ → List Word → List Word → Prop
  | covered (words : List Word) : HoldsBlocks 0 words words
  | block {left : ℕ} {header : Word} {data words rest : List Word} (some : 0 < left)
      (length : data.length = dataWords header)
      (later : HoldsBlocks (left - (dataWords header + 1)) words rest) :
        HoldsBlocks left (header :: (data ++ words)) rest

/-- Some words hold a number of channels, each with its size word, which counts itself, and its
blocks. -/
inductive HoldsChannels : ℕ → List Word → Prop
  | none (words : List Word) : HoldsChannels 0 words
  | channel {channels : ℕ} {size : Word} {words rest : List Word}
      (blocks : HoldsBlocks (size.toNat - 1) words rest)
      (later : HoldsChannels channels rest) : HoldsChannels (channels + 1) (size :: words)

/-- A bank whose four header words are there, and behind them the channels that its mask enables. -/
def Announced (bank : List Word) : Prop :=
  ∃ header0 header1 header2 header3 words, bank = header0 :: header1 :: header2 :: header3 :: words ∧
    if IsZLECompressed header1 then
      HoldsChannels ((List.range 8).filter (channelEnabled (header1 &&& 0xff#32))).length words
    else SizeFits (GetEventSize header0).toNat
      ((List.range 8).filter (channelEnabled (header1 &&& 0xff#32))).length words.length

variable {bank : List Word}

theorem safe_iff_ok : Safe bank ↔ ∃ data, TV1720RawData.decode bank = .ok data := by
  rw [Safe]
  have turns := decode_ne_outOfFuel bank
  cases decoded : TV1720RawData.decode bank with
  | ok data => exact iff_of_true ⟨fun _ same => (by cases same), fun same => (by cases same)⟩ ⟨data, rfl⟩
  | error fault =>
    refine iff_of_false (fun safe => ?_) (fun ⟨_, same⟩ => by cases same)
    cases fault with
    | read index => exact safe.1 index rfl
    | divisionByZero => exact safe.2 rfl
    | outOfFuel => exact turns decoded

theorem getData32_ok_iff {index : ℕ} {word : Word} :
    getData32 bank index = .ok word ↔ bank[index]? = some word := by
  unfold getData32
  cases bank[index]? with
  | none => exact iff_of_false (fun same => by cases same) (fun same => by cases same)
  | some stored => rw [Except.ok.injEq, Option.some.injEq]

theorem exists_readSamples {nwords iPtr : ℕ} (bound : iPtr + nwords ≤ bank.length) :
    ∃ samples, readSamples bank nwords iPtr = .ok samples := by
  induction nwords generalizing iPtr with
  | zero => exact ⟨[], rfl⟩
  | succ nwords ih =>
    obtain ⟨rest, later⟩ := @ih (iPtr + 1) (by omega)
    have here := getData32_ok_iff.mpr (List.getElem?_eq_getElem (show iPtr < bank.length by omega))
    rw [readSamples, here, Except.ok_bind, later]
    exact ⟨_, rfl⟩

theorem readSamples_ok_iff {nwords iPtr : ℕ} (inside : iPtr ≤ bank.length) :
    (∃ samples, readSamples bank nwords iPtr = .ok samples) ↔ iPtr + nwords ≤ bank.length :=
  ⟨fun ⟨_, read⟩ => le_of_readSamples read inside, exists_readSamples⟩

/-- What a block takes from the bank, if it returns. -/
theorem readBlock_ok {state next : Blocks} (returns : readBlock bank state = .ok next) :
    ∃ header, bank[state.iPtr]? = some header ∧ state.iPtr + dataWords header < bank.length ∧
      next.iPtr = state.iPtr + dataWords header + 1 ∧
        next.iChPtr = state.iChPtr + dataWords header + 1 := by
  obtain ⟨header, read, returns⟩ := Except.bind_eq_ok_iff.mp returns
  have inside := lt_of_getData32 read
  refine ⟨header, getData32_ok_iff.mp read, ?_⟩
  rw [dataWords]
  dsimp only at returns
  split_ifs at returns ⊢
  · obtain ⟨samples, sampled, returns⟩ := Except.bind_eq_ok_iff.mp returns
    have bound := le_of_readSamples sampled inside
    obtain rfl := Except.ok.inj returns
    exact ⟨by omega, rfl, rfl⟩
  · obtain rfl := Except.ok.inj returns
    exact ⟨inside, rfl, rfl⟩

theorem exists_readBlock {state : Blocks} {header : Word} (stored : bank[state.iPtr]? = some header)
    (inside : state.iPtr + dataWords header < bank.length) :
    ∃ next, readBlock bank state = .ok next ∧ next.iPtr = state.iPtr + dataWords header + 1 ∧
      next.iChPtr = state.iChPtr + dataWords header + 1 := by
  rw [readBlock, getData32_ok_iff.mpr stored, Except.ok_bind]
  rw [dataWords] at inside ⊢
  dsimp only
  split_ifs at inside ⊢
  · obtain ⟨samples, sampled⟩ :=
      @exists_readSamples bank (header &&& 0xfffff#32).toNat (state.iPtr + 1) (by omega)
    rw [sampled]
    exact ⟨_, rfl, rfl, rfl⟩
  · exact ⟨_, rfl, rfl, rfl⟩

/-- The words from a place on, split behind the data words of a block. -/
theorem drop_block {place count : ℕ} {header : Word} (stored : bank[place]? = some header)
    (inside : place + count < bank.length) :
    ∃ data, data.length = count ∧
      bank.drop place = header :: (data ++ bank.drop (place + count + 1)) := by
  obtain ⟨here, value⟩ := List.getElem?_eq_some_iff.mp stored
  refine ⟨(bank.drop (place + 1)).take count, ?_, ?_⟩
  · rw [List.length_take, List.length_drop]
    omega
  · have split := List.take_append_drop count (bank.drop (place + 1))
    rw [List.drop_drop] at split
    rw [List.drop_eq_getElem_cons here, value, Nat.add_right_comm place count 1]
    exact congrArg (header :: ·) split.symm

theorem readBlocks_ok {chSize : Word} {fuel : ℕ} {state next : Blocks}
    (inside : state.iPtr ≤ bank.length) (returns : readBlocks bank chSize fuel state = .ok next) :
    next.iPtr ≤ bank.length ∧
      HoldsBlocks (chSize.toNat - state.iChPtr) (bank.drop state.iPtr) (bank.drop next.iPtr) := by
  induction fuel generalizing state with
  | zero =>
    rw [readBlocks] at returns
    split_ifs at returns with left
    obtain rfl := Except.ok.inj returns
    rw [Nat.sub_eq_zero_of_le (not_lt.mp left)]
    exact ⟨inside, .covered _⟩
  | succ fuel ih =>
    rw [readBlocks] at returns
    split_ifs at returns with left
    · obtain ⟨middle, read, later⟩ := Except.bind_eq_ok_iff.mp returns
      obtain ⟨header, stored, bound, pointer, count⟩ := readBlock_ok read
      obtain ⟨data, length, words⟩ := drop_block stored bound
      obtain ⟨stop, holds⟩ := ih (by omega) later
      refine ⟨stop, ?_⟩
      rw [count, pointer, Nat.add_assoc state.iChPtr, ← Nat.sub_sub] at holds
      rw [words]
      exact .block (by omega) length holds
    · obtain rfl := Except.ok.inj returns
      rw [Nat.sub_eq_zero_of_le (not_lt.mp left)]
      exact ⟨inside, .covered _⟩

/-- The words at a place that are there. -/
theorem stored_of_drop {place : ℕ} {word : Word} {words : List Word}
    (at_place : bank.drop place = word :: words) :
    bank[place]? = some word ∧ bank.drop (place + 1) = words ∧
      bank.length = place + 1 + words.length := by
  have length := congrArg List.length at_place
  rw [List.length_drop, List.length_cons] at length
  refine ⟨?_, ?_, by omega⟩
  · rw [← Nat.add_zero place, ← List.getElem?_drop, at_place, List.getElem?_cons_zero]
  · rw [← List.drop_drop, at_place, List.drop_succ_cons, List.drop_zero]

theorem exists_readBlocks {chSize : Word} {left : ℕ} {words rest : List Word}
    (holds : HoldsBlocks left words rest) {fuel : ℕ} {state : Blocks}
    (at_place : bank.drop state.iPtr = words) (count : chSize.toNat - state.iChPtr = left)
    (enough : words.length ≤ fuel) :
    ∃ next, readBlocks bank chSize fuel state = .ok next ∧ bank.drop next.iPtr = rest := by
  induction holds generalizing fuel state with
  | covered words =>
    have done : ¬ state.iChPtr < chSize.toNat := by omega
    refine ⟨state, ?_, at_place⟩
    cases fuel <;> exact if_neg done
  | @block left header data words rest some length later ih =>
    obtain ⟨stored, behind, long⟩ := stored_of_drop at_place
    rw [List.length_append] at long
    rw [List.length_cons, List.length_append] at enough
    obtain ⟨middle, read, pointer, counted⟩ := exists_readBlock stored (by omega)
    cases fuel with
    | zero => omega
    | succ fuel =>
      have next : bank.drop middle.iPtr = words := by
        rw [pointer, Nat.add_right_comm, ← List.drop_drop, behind, ← length, List.drop_left]
      obtain ⟨final, ran, stop⟩ := @ih fuel middle next (by omega) (by omega)
      refine ⟨final, ?_, stop⟩
      rw [readBlocks, if_pos (by omega), read, Except.ok_bind, ran]

/-- One turn of the loop over the channels. -/
def zleStep (bank : List Word) (chMask : Word) (state : Channels) (iCh : ℕ) :
    Except DecodeFault Channels :=
  if channelEnabled chMask iCh then readZLEChannel bank state iCh else .ok state

theorem foldlM_zleStep_ok {chMask : Word} {chs : List ℕ} {state next : Channels}
    (inside : state.iPtr ≤ bank.length)
    (returns : chs.foldlM (zleStep bank chMask) state = .ok next) :
    HoldsChannels (chs.filter (channelEnabled chMask)).length (bank.drop state.iPtr) := by
  induction chs generalizing state with
  | nil => exact .none _
  | cons ch chs ih =>
    rw [List.foldlM_cons] at returns
    obtain ⟨middle, stepped, later⟩ := Except.bind_eq_ok_iff.mp returns
    rw [zleStep] at stepped
    split_ifs at stepped with enabled
    · obtain ⟨chSize, read, stepped⟩ := Except.bind_eq_ok_iff.mp stepped
      obtain ⟨blocks, walked, stepped⟩ := Except.bind_eq_ok_iff.mp stepped
      obtain rfl := Except.ok.inj stepped
      obtain ⟨stop, holds⟩ :=
        @readBlocks_ok bank chSize _ ⟨state.iPtr + 1, 1, 0, []⟩ _ (lt_of_getData32 read) walked
      obtain ⟨data, length, words⟩ := @drop_block bank state.iPtr 0 chSize (getData32_ok_iff.mp read)
        (lt_of_getData32 read)
      rw [List.length_eq_zero_iff.mp length, List.nil_append] at words
      rw [List.filter_cons_of_pos enabled, List.length_cons, words]
      exact .channel holds (ih stop later)
    · obtain rfl := Except.ok.inj stepped
      rw [List.filter_cons_of_neg enabled]
      exact ih inside later

theorem exists_foldlM_zleStep {chMask : Word} {chs : List ℕ} {channels : ℕ} {words : List Word}
    (holds : HoldsChannels channels words) {state : Channels} (at_place : bank.drop state.iPtr = words)
    (count : (chs.filter (channelEnabled chMask)).length = channels) :
    ∃ next, chs.foldlM (zleStep bank chMask) state = .ok next := by
  induction chs generalizing channels words state with
  | nil => exact ⟨state, rfl⟩
  | cons ch chs ih =>
    rw [List.foldlM_cons, zleStep]
    split_ifs with enabled
    · rw [List.filter_cons_of_pos enabled, List.length_cons] at count
      subst count
      cases holds with
      | @channel _ size words rest blocks later =>
        obtain ⟨stored, behind, long⟩ := stored_of_drop at_place
        obtain ⟨final, walked, stop⟩ := @exists_readBlocks bank size _ _ _ blocks bank.length
          ⟨state.iPtr + 1, 1, 0, []⟩ behind rfl (by omega)
        rw [readZLEChannel, getData32_ok_iff.mpr stored, Except.ok_bind, walked]
        exact ih later stop rfl
    · rw [List.filter_cons_of_neg enabled] at count
      exact ih holds at_place count

theorem foldlM_readChannel_ok_iff {chMask : Word} {N32samples : ℕ} {chs : List ℕ} {state : Channels}
    (inside : state.iPtr ≤ bank.length) :
    (∃ next, chs.foldlM (readChannel bank chMask N32samples) state = .ok next) ↔
      state.iPtr + (chs.filter (channelEnabled chMask)).length * N32samples ≤ bank.length := by
  induction chs generalizing state with
  | nil =>
    rw [List.filter_nil, List.length_nil, Nat.zero_mul]
    exact iff_of_true ⟨state, rfl⟩ inside
  | cons ch chs ih =>
    rw [List.foldlM_cons, readChannel]
    split_ifs with enabled
    · rw [List.filter_cons_of_pos enabled, List.length_cons, Nat.succ_mul]
      constructor
      · rintro ⟨next, ran⟩
        obtain ⟨middle, stepped, later⟩ := Except.bind_eq_ok_iff.mp ran
        obtain ⟨samples, read, stepped⟩ := Except.bind_eq_ok_iff.mp stepped
        obtain rfl := Except.ok.inj stepped
        have bound := (ih ((readSamples_ok_iff inside).mp ⟨samples, read⟩)).mp ⟨next, later⟩
        simp only at bound
        omega
      · intro bound
        obtain ⟨samples, read⟩ := (@readSamples_ok_iff bank N32samples state.iPtr inside).mpr (by omega)
        obtain ⟨next, later⟩ :=
          (@ih ⟨state.fMeasurements ++ [⟨ch, false, [], samples⟩], state.iPtr + N32samples⟩
          (by simp only; omega)).mpr (by simp only; omega)
        rw [read, Except.ok_bind]
        exact ⟨next, later⟩
    · rw [List.filter_cons_of_neg enabled]
      exact @ih ⟨state.fMeasurements ++ [.new ch false], state.iPtr⟩ inside

theorem exists_bind_pure_iff {α β : Type} {x : Except DecodeFault α} {f : α → β} :
    (∃ b, (do let a ← x; return f a) = .ok b) ↔ ∃ a, x = .ok a := by
  cases x with
  | error fault => exact iff_of_false (fun ⟨_, same⟩ => by cases same) (fun ⟨_, same⟩ => by cases same)
  | ok a => exact iff_of_true ⟨f a, rfl⟩ ⟨a, rfl⟩

/-- Behind the header words, the constructor returns when the words that the bank announces are
there. -/
theorem decode_ok_iff {header0 header1 header2 header3 : Word} {words : List Word}
    (int : (header0 :: header1 :: header2 :: header3 :: words).length < 2 ^ 31) :
    (∃ data, TV1720RawData.decode (header0 :: header1 :: header2 :: header3 :: words) = .ok data) ↔
      if IsZLECompressed header1 then
        HoldsChannels ((List.range 8).filter (channelEnabled (header1 &&& 0xff#32))).length words
      else SizeFits (GetEventSize header0).toNat
        ((List.range 8).filter (channelEnabled (header1 &&& 0xff#32))).length words.length := by
  have length : (header0 :: header1 :: header2 :: header3 :: words).length = 4 + words.length := by
    simp only [List.length_cons]
    omega
  have decoded : (∃ data,
      TV1720RawData.decode (header0 :: header1 :: header2 :: header3 :: words) = .ok data) ↔
      ∃ channels, (if IsZLECompressed header1 then
        HandlZLECompressedData (header0 :: header1 :: header2 :: header3 :: words)
        else HandlUncompressedData (header0 :: header1 :: header2 :: header3 :: words)) =
          .ok channels := by
    simp only [TV1720RawData.decode, getData32, List.getElem?_cons_zero, List.getElem?_cons_succ,
      Except.ok_bind]
    split_ifs <;> exact exists_bind_pure_iff
  rw [decoded]
  split_ifs with compressed
  · change (∃ channels, (List.range 8).foldlM (zleStep _ (header1 &&& 0xff#32)) ⟨[], 4⟩ =
      .ok channels) ↔ _
    constructor
    · rintro ⟨channels, ran⟩
      exact foldlM_zleStep_ok (length ▸ Nat.le_add_right _ _) ran
    · intro holds
      exact exists_foldlM_zleStep holds rfl rfl
  · have small : (GetEventSize header0).toNat < 2 ^ 28 := by
      rw [GetEventSize, BitVec.toNat_and_low _ 0xffffff 24 rfl (by decide)]
      omega
    have few : ((List.range 8).filter (channelEnabled (header1 &&& 0xff#32))).length ≤ 16 := by
      have least := List.length_filter_le (channelEnabled (header1 &&& 0xff#32)) (List.range 8)
      rw [List.length_range] at least
      omega
    simp only [HandlUncompressedData, getData32, List.getElem?_cons_zero, List.getElem?_cons_succ,
      Except.ok_bind]
    split_ifs with none
    · apply iff_of_false
      · rintro ⟨_, same⟩
        cases same
      · intro fits
        have some := fits.1
        omega
    · rw [foldlM_readChannel_ok_iff (by rw [length]; exact Nat.le_add_right _ _), length,
        Nat.add_le_add_iff_left]
      exact sizeFits_iff small (Nat.pos_of_ne_zero none) few (by omega)

theorem safe_iff (bank : RawBank.Bank) : Safe bank.words ↔ Announced bank.words := by
  obtain ⟨words, int⟩ := bank
  rw [safe_iff_ok]
  by_cases long : 4 ≤ words.length
  · obtain ⟨header0, header1, header2, header3, rest, rfl⟩ := RawBank.exists_headers long
    rw [decode_ok_iff int]
    constructor
    · exact fun fits => ⟨_, _, _, _, _, rfl, fits⟩
    · rintro ⟨_, _, _, _, _, same, fits⟩
      cases same
      exact fits
  · refine iff_of_false ?_ ?_
    · rintro ⟨data, returns⟩
      obtain ⟨_, _, read⟩ := Except.bind_eq_ok_iff.mp returns
      obtain ⟨_, _, read⟩ := Except.bind_eq_ok_iff.mp read
      obtain ⟨_, _, read⟩ := Except.bind_eq_ok_iff.mp read
      obtain ⟨_, last, _⟩ := Except.bind_eq_ok_iff.mp read
      exact long (lt_of_getData32 last)
    · rintro ⟨_, _, _, _, _, rfl, _⟩
      simp only [List.length_cons] at long
      omega

end PtfConverter.V1720

namespace PtfConverter.RawBank

/-- Each decoder stays in a bank exactly when it finds there what the bank announces to it. -/
theorem decoders_safe_iff (bank : Bank) :
    (V1730.Safe bank.words ↔ V1730.Announced bank.words) ∧
      (V1720.Safe bank.words ↔ V1720.Announced bank.words) :=
  ⟨V1730.safe_iff bank, V1720.safe_iff bank⟩

/-- A bank of its header words, without an enabled channel, makes both decoders divide by zero. -/
theorem noChannels_unsafe :
    ¬ V1730.Safe [0xa0000004#32, 0#32, 0#32, 0#32] ∧
      ¬ V1720.Safe [0xa0000004#32, 0#32, 0#32, 0#32] := by
  constructor
  · intro safe
    exact safe .divisionByZero (by decide)
  · intro safe
    exact safe.2 (by decide)

end PtfConverter.RawBank
