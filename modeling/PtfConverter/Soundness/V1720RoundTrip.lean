import PtfConverter.Model.V1720Raw
import PtfConverter.ToMathlib.BitFields

/-! # Every bank in zero-length encoding decodes to its good blocks

A channel is written from its blocks. The decoder keeps three counters through a channel: its
pointer is at the header of the next block, the words of the channel it has read are those of the
blocks behind it, and its time is twice their words, of good blocks and of skipped ones. So it
leaves the loop behind the last block, at the size word of the next channel.
-/

namespace PtfConverter.V1720

/-- Two samples in one data word, the earlier one in the low half. -/
def packWord (first second : BitVec 12) : Word := (0#4 ++ second) ++ (0#4 ++ first)

/-- A block of a channel: good words with two samples each, or a number of words left out. -/
inductive Block where
  | good (words : List (BitVec 12 × BitVec 12)) (short : words.length < 2 ^ 20)
  | skip (words : ℕ) (short : words < 2 ^ 20)

namespace Block

/-- The time of a block, in words. -/
def time : Block → ℕ
  | good words _ => words.length
  | skip words _ => words

def encode : Block → List Word
  | good words _ => (1#1 ++ 0#11 ++ BitVec.ofNat 20 words.length) :: words.map fun pair =>
    packWord pair.1 pair.2
  | skip words _ => [0#1 ++ 0#11 ++ BitVec.ofNat 20 words]

end Block

/-- The time of some blocks, in words. -/
def timeOf (blocks : List Block) : ℕ := (blocks.map Block.time).sum

/-- The words of some blocks. -/
def encodeBlocks (blocks : List Block) : List Word := blocks.flatMap Block.encode

/-- The words of a channel: its size counts itself, the headers of its blocks and the good words. -/
def encodeChannel (blocks : List Block) : List Word :=
  BitVec.ofNat 32 (1 + (encodeBlocks blocks).length) :: encodeBlocks blocks

/-- The good blocks among some blocks that start at a time, each as a pulse. -/
def pulsesFrom : ℕ → List Block → List TV1720RawZlePulse
  | _, [] => []
  | start, .good words short :: rest =>
      ⟨2 * start, words.flatMap fun pair => [pair.1.setWidth 32, pair.2.setWidth 32]⟩ ::
        pulsesFrom (start + (Block.good words short).time) rest
  | start, .skip words short :: rest => pulsesFrom (start + (Block.skip words short).time) rest

/-- The header words of a bank in zero-length encoding, with its channel mask. -/
structure Headers where
  header0 : Word
  header1 : Word
  header2 : Word
  header3 : Word
  compressed : IsZLECompressed header1 = true

/-- The enabled channels, in ascending order. -/
def Headers.channels (headers : Headers) : List ℕ := (List.range 8).filter headers.header1.getLsbD

/-- The bank of the blocks of each enabled channel. -/
def encodeBank (headers : Headers) (blocks : ℕ → List Block) : List Word :=
  [headers.header0, headers.header1, headers.header2, headers.header3] ++
    headers.channels.flatMap fun ch => encodeChannel (blocks ch)

theorem packWord_toNat (first second : BitVec 12) :
    (packWord first second).toNat = second.toNat * 2 ^ 16 + first.toNat := by
  simp only [packWord, BitVec.toNat_append_eq, BitVec.toNat_ofNat]
  omega

theorem samplesOf_packWord (first second : BitVec 12) :
    samplesOf (packWord first second) = [first.setWidth 32, second.setWidth 32] := by
  have low := first.isLt
  have high := second.isLt
  rw [samplesOf, List.cons.injEq, List.cons.injEq]
  refine ⟨BitVec.eq_of_toNat_eq ?_, BitVec.eq_of_toNat_eq ?_, rfl⟩
  · rw [BitVec.toNat_and_low _ 0xfff 12 rfl (by decide), packWord_toNat, BitVec.toNat_setWidth]
    omega
  · rw [BitVec.toNat_and_low _ 0xfff 12 rfl (by decide), BitVec.toNat_ushiftRight, packWord_toNat,
      BitVec.toNat_setWidth, Nat.shiftRight_eq_div_pow]
    omega

/-- The header of a block: whether it is good, and its words. -/
theorem header_toNat (good : BitVec 1) (words : ℕ) (short : words < 2 ^ 20) :
    (good ++ 0#11 ++ BitVec.ofNat 20 words : Word).toNat = good.toNat * 2 ^ 31 + words := by
  simp only [BitVec.toNat_append_eq, BitVec.toNat_ofNat]
  omega

theorem header_good (good : BitVec 1) (words : ℕ) (short : words < 2 ^ 20) :
    (good ++ 0#11 ++ BitVec.ofNat 20 words : Word) >>> 31 &&& 0x1#32 = good.setWidth 32 := by
  have bit := good.isLt
  apply BitVec.eq_of_toNat_eq
  rw [BitVec.toNat_and_low _ 0x1 1 rfl (by decide), BitVec.toNat_ushiftRight,
    header_toNat good words short, BitVec.toNat_setWidth, Nat.shiftRight_eq_div_pow]
  omega

theorem header_words (good : BitVec 1) (words : ℕ) (short : words < 2 ^ 20) :
    (good ++ 0#11 ++ BitVec.ofNat 20 words : Word) &&& 0xfffff#32 = BitVec.ofNat 32 words := by
  apply BitVec.eq_of_toNat_eq
  rw [BitVec.toNat_and_low _ 0xfffff 20 rfl (by decide), header_toNat good words short,
    BitVec.toNat_ofNat]
  omega

/-- The words of a bank from a place on. -/
def At (bank : List Word) (place : ℕ) (words : List Word) : Prop := words <+: bank.drop place

namespace At

variable {bank : List Word} {place : ℕ}

theorem head {word : Word} {words : List Word} (stored : At bank place (word :: words)) :
    getData32 bank place = .ok word := by
  obtain ⟨after, split⟩ := stored
  have read : bank[place]? = some word := by
    rw [← Nat.add_zero place, ← List.getElem?_drop, ← split]
    rfl
  rw [getData32, read]

theorem length_le {words : List Word} (stored : At bank place words) : words.length ≤ bank.length :=
  (List.IsPrefix.length_le stored).trans ((List.length_drop ..).trans_le (Nat.sub_le ..))

theorem append {front back : List Word} (stored : At bank place (front ++ back)) :
    At bank place front ∧ At bank (place + front.length) back := by
  obtain ⟨after, split⟩ := stored
  rw [List.append_assoc] at split
  refine ⟨⟨back ++ after, split⟩, after, ?_⟩
  rw [← List.drop_drop, ← split, List.drop_left]

theorem tail {word : Word} {words : List Word} (stored : At bank place (word :: words)) :
    At bank (place + 1) words :=
  (@append bank place [word] words stored).2

end At

variable {bank : List Word}

theorem readSamples_encode {place : ℕ} {words : List (BitVec 12 × BitVec 12)}
    (stored : At bank place (words.map fun pair => packWord pair.1 pair.2)) :
    readSamples bank words.length place =
      .ok (words.flatMap fun pair => [pair.1.setWidth 32, pair.2.setWidth 32]) := by
  induction words generalizing place with
  | nil => rfl
  | cons pair words ih =>
    rw [List.length_cons, readSamples, stored.head, Except.ok_bind, ih stored.tail, Except.ok_bind,
      samplesOf_packWord, List.flatMap_cons]
    rfl

/-- The time of a decoder is twice the words of the blocks behind it. -/
theorem iBin_toInt {time : ℕ} (early : time < 2 ^ 30) :
    (BitVec.ofNat 32 (2 * time)).toInt = 2 * time := by
  have small : 2 * (BitVec.ofNat 32 (2 * time)).toNat < 2 ^ 32 := by
    rw [BitVec.toNat_ofNat]
    omega
  rw [BitVec.toInt_eq_toNat_of_lt small, BitVec.toNat_ofNat, Nat.mod_eq_of_lt (by omega)]
  omega

theorem iBin_add (time words : ℕ) :
    BitVec.ofNat 32 (2 * time) + BitVec.ofNat 32 words * 2 = BitVec.ofNat 32 (2 * (time + words)) := by
  have two : (2 : Word).toNat = 2 := rfl
  apply BitVec.eq_of_toNat_eq
  simp only [BitVec.toNat_add, BitVec.toNat_mul, BitVec.toNat_ofNat, two]
  omega

/-- One block moves each counter by its own words. -/
theorem readBlock_encode {block : Block} {place read time : ℕ} (stored : At bank place block.encode)
    (early : time < 2 ^ 30) (pulses : List TV1720RawZlePulse) :
    readBlock bank ⟨place, read, BitVec.ofNat 32 (2 * time), pulses⟩ =
      .ok ⟨place + block.encode.length, read + block.encode.length,
        BitVec.ofNat 32 (2 * (time + block.time)),
        pulses ++ pulsesFrom time [block]⟩ := by
  cases block with
  | good words short =>
    have length : (words.map fun pair => packWord pair.1 pair.2).length = words.length :=
      List.length_map _
    have count : (BitVec.ofNat 32 words.length).toNat = words.length := by
      rw [BitVec.toNat_ofNat]
      omega
    simp only [readBlock, stored.head, Except.ok_bind, header_good _ _ short,
      header_words _ _ short, count, readSamples_encode stored.tail, iBin_add, iBin_toInt early]
    simp only [Block.encode, Block.time, pulsesFrom, List.length_cons, length, Nat.add_assoc]
    rfl
  | skip words short =>
    simp only [readBlock, stored.head, Except.ok_bind, header_good _ _ short,
      header_words _ _ short, iBin_add]
    simp only [Block.encode, Block.time, pulsesFrom, List.length_singleton, List.append_nil]
    rfl

theorem pulsesFrom_cons (start : ℕ) (block : Block) (rest : List Block) :
    pulsesFrom start (block :: rest) =
      pulsesFrom start [block] ++ pulsesFrom (start + block.time) rest := by
  cases block <;> rfl

theorem encode_length_pos (block : Block) : 0 < block.encode.length := by
  cases block <;> exact Nat.succ_pos _

theorem length_le_encodeBlocks (blocks : List Block) :
    blocks.length ≤ (encodeBlocks blocks).length := by
  induction blocks with
  | nil => exact Nat.zero_le _
  | cons block rest ih =>
    have some := encode_length_pos block
    rw [encodeBlocks, List.flatMap_cons, List.length_append, List.length_cons]
    change rest.length + 1 ≤ block.encode.length + (encodeBlocks rest).length
    omega

/-- The loop ends behind the last block, when the size word counts the words of the channel. -/
theorem readBlocks_encode {blocks : List Block} {chSize : Word} {place read time fuel : ℕ}
    (stored : At bank place (encodeBlocks blocks))
    (size : chSize.toNat = read + (encodeBlocks blocks).length)
    (early : time + timeOf blocks < 2 ^ 30) (enough : blocks.length ≤ fuel)
    (pulses : List TV1720RawZlePulse) :
    ∃ iBin, readBlocks bank chSize fuel ⟨place, read, BitVec.ofNat 32 (2 * time), pulses⟩ =
      .ok ⟨place + (encodeBlocks blocks).length, read + (encodeBlocks blocks).length, iBin,
        pulses ++ pulsesFrom time blocks⟩ := by
  induction blocks generalizing place read time fuel pulses with
  | nil =>
    have done : ¬ read < chSize.toNat := by
      rw [size]
      exact lt_irrefl _
    refine ⟨BitVec.ofNat 32 (2 * time), ?_⟩
    rw [encodeBlocks, List.flatMap_nil, pulsesFrom, List.append_nil]
    cases fuel <;> exact if_neg done
  | cons block rest ih =>
    have words : encodeBlocks (block :: rest) = block.encode ++ encodeBlocks rest := List.flatMap_cons
    have times : timeOf (block :: rest) = block.time + timeOf rest := List.sum_cons
    have some := encode_length_pos block
    rw [words] at stored
    rw [words, List.length_append] at size
    rw [times] at early
    obtain ⟨here, later⟩ := stored.append
    cases fuel with
    | zero => exact absurd enough (Nat.not_succ_le_zero _)
    | succ fuel =>
      have turn : read < chSize.toNat := by omega
      obtain ⟨iBin, ran⟩ :=
        ih later (size.trans (Nat.add_assoc ..).symm) ((Nat.add_assoc ..).trans_lt early)
        (Nat.le_of_succ_le_succ enough) (pulses ++ pulsesFrom time [block])
      refine ⟨iBin, ?_⟩
      rw [readBlocks, if_pos turn, readBlock_encode here (by omega), Except.ok_bind, ran, words,
        List.length_append, pulsesFrom_cons time block rest, List.append_assoc, Nat.add_assoc,
        Nat.add_assoc]

/-- The object of a channel. -/
def channelOf (blocks : ℕ → List Block) (ch : ℕ) : TV1720RawChannel :=
  ⟨ch, true, pulsesFrom 0 (blocks ch), []⟩

/-- The pointer goes from the size word of a channel to the word behind its last block. -/
theorem readZLEChannel_encode {blocks : ℕ → List Block} {ch : ℕ} {state : Channels}
    (stored : At bank state.iPtr (encodeChannel (blocks ch))) (long : bank.length < 2 ^ 31)
    (early : timeOf (blocks ch) < 2 ^ 30) :
    readZLEChannel bank state ch =
      .ok ⟨state.fMeasurements ++ [channelOf blocks ch],
        state.iPtr + (encodeChannel (blocks ch)).length⟩ := by
  have inside := stored.length_le
  rw [encodeChannel, List.length_cons] at inside
  have size : (BitVec.ofNat 32 (1 + (encodeBlocks (blocks ch)).length)).toNat =
      1 + (encodeBlocks (blocks ch)).length := by
    rw [BitVec.toNat_ofNat, Nat.mod_eq_of_lt (by omega)]
  have enough : (blocks ch).length ≤ bank.length :=
    (length_le_encodeBlocks (blocks ch)).trans (Nat.le_of_succ_le inside)
  obtain ⟨iBin, ran⟩ := readBlocks_encode stored.tail size ((Nat.zero_add _).trans_lt early) enough []
  have started : BitVec.ofNat 32 (2 * 0) = 0 := rfl
  rw [started] at ran
  rw [readZLEChannel, stored.head, Except.ok_bind, ran, encodeChannel, List.length_cons,
    Nat.add_assoc, Nat.add_comm 1]
  rfl

/-- The mask of the bank is the low byte of its second header word. -/
theorem channelEnabled_eq (header1 : Word) {ch : ℕ} (small : ch < 8) :
    channelEnabled (header1 &&& 0xff#32) ch = header1.getLsbD ch := by
  have bits : ∀ ch : Fin 8, (0xff#32).getLsbD ch = true ∧
    (BitVec.twoPow 32 ch != 0#32) = true := by decide
  obtain ⟨mask, bit⟩ := bits ⟨ch, small⟩
  change (header1 &&& 0xff#32 &&& BitVec.twoPow 32 ch != 0#32) = _
  rw [BitVec.and_twoPow, BitVec.getLsbD_and, mask, Bool.and_true]
  cases header1.getLsbD ch with
  | false => rfl
  | true => exact bit

/-- One turn of the loop over the channels, and the channels behind it. -/
theorem foldlM_encode {headers : Headers} {blocks : ℕ → List Block} {chs : List ℕ} {state : Channels}
    (small : ∀ ch ∈ chs, ch < 8)
    (stored : At bank state.iPtr
      ((chs.filter headers.header1.getLsbD).flatMap fun ch => encodeChannel (blocks ch)))
    (long : bank.length < 2 ^ 31) (early : ∀ ch, timeOf (blocks ch) < 2 ^ 30) :
    chs.foldlM (fun state iCh =>
        if channelEnabled (headers.header1 &&& 0xff#32) iCh then
          readZLEChannel bank state iCh else .ok state) state =
      .ok ⟨state.fMeasurements ++ (chs.filter headers.header1.getLsbD).map (channelOf blocks),
        state.iPtr + ((chs.filter headers.header1.getLsbD).flatMap fun ch =>
          encodeChannel (blocks ch)).length⟩ := by
  induction chs generalizing state with
  | nil =>
    rw [List.filter_nil, List.map_nil, List.append_nil]
    rfl
  | cons ch chs ih =>
    obtain ⟨here, later⟩ := List.forall_mem_cons.mp small
    rw [List.foldlM_cons, channelEnabled_eq headers.header1 here]
    cases enabled : headers.header1.getLsbD ch with
    | false =>
      rw [List.filter_cons_of_neg (by rw [enabled]; exact Bool.false_ne_true)] at stored ⊢
      exact ih later stored
    | true =>
      rw [List.filter_cons_of_pos enabled, List.flatMap_cons] at stored ⊢
      obtain ⟨first, rest⟩ := stored.append
      rw [if_pos rfl, readZLEChannel_encode first long (early ch), Except.ok_bind, ih later rest,
        List.append_assoc, List.length_append, Nat.add_assoc]
      rfl

theorem At.of_split (before words after : List Word) :
    At (before ++ words ++ after) before.length words := by
  refine ⟨after, ?_⟩
  rw [List.append_assoc, List.drop_left]

/-- Every bank in zero-length encoding decodes to one object for each enabled channel, in ascending
order, with its good blocks in order. The pointer, at the size word of a channel, ends at the size
word of the next one. -/
theorem decode_encodeZLE (headers : Headers) (blocks : ℕ → List Block)
    (long : (encodeBank headers blocks).length < 2 ^ 31) (early : ∀ ch, timeOf (blocks ch) < 2 ^ 30) :
    TV1720RawData.decode (encodeBank headers blocks) =
        .ok ⟨headers.header0, headers.header1, headers.header2, headers.header3,
          headers.channels.map (channelOf blocks)⟩ ∧
      ∀ before ch after, headers.channels = before ++ ch :: after → ∀ fMeasurements,
        readZLEChannel (encodeBank headers blocks)
            ⟨fMeasurements, 4 + (before.flatMap fun ch => encodeChannel (blocks ch)).length⟩ ch =
          .ok ⟨fMeasurements ++ [channelOf blocks ch],
            4 + ((before ++ [ch]).flatMap fun ch => encodeChannel (blocks ch)).length⟩ := by
  constructor
  · have stored : At (encodeBank headers blocks) 4
      (headers.channels.flatMap fun ch => encodeChannel (blocks ch)) := by
      refine ⟨[], ?_⟩
      rw [List.append_nil]
      rfl
    have ran := @foldlM_encode _ headers blocks (List.range 8) ⟨[], 4⟩
      (fun ch member => List.mem_range.mp member) stored
      long early
    have header0 : getData32 (encodeBank headers blocks) 0 = .ok headers.header0 := rfl
    have header1 : getData32 (encodeBank headers blocks) 1 = .ok headers.header1 := rfl
    have header2 : getData32 (encodeBank headers blocks) 2 = .ok headers.header2 := rfl
    have header3 : getData32 (encodeBank headers blocks) 3 = .ok headers.header3 := rfl
    simp only [TV1720RawData.decode, HandlZLECompressedData, header0, header1, header2, header3,
      Except.ok_bind, headers.compressed, if_true, ran]
    rfl
  · intro before ch after split fMeasurements
    have bank : encodeBank headers blocks =
        ([headers.header0, headers.header1, headers.header2, headers.header3] ++
          before.flatMap fun ch => encodeChannel (blocks ch)) ++ encodeChannel (blocks ch) ++
        after.flatMap fun ch => encodeChannel (blocks ch) := by
      rw [encodeBank, split, List.flatMap_append, List.flatMap_cons]
      simp only [List.append_assoc]
    have place : ([headers.header0, headers.header1, headers.header2, headers.header3] ++
        before.flatMap fun ch => encodeChannel (blocks ch)).length =
          4 + (before.flatMap fun ch => encodeChannel (blocks ch)).length := List.length_append
    have stored := At.of_split ([headers.header0, headers.header1, headers.header2, headers.header3] ++
      before.flatMap fun ch => encodeChannel (blocks ch)) (encodeChannel (blocks ch))
      (after.flatMap fun ch => encodeChannel (blocks ch))
    rw [← bank, place] at stored
    rw [@readZLEChannel_encode _ blocks ch ⟨fMeasurements, _⟩ stored long (early ch),
      List.flatMap_append, List.flatMap_singleton, List.length_append, Nat.add_assoc]

/-- Two channels, the first with a good block behind a skipped one. -/
theorem decode_encodeZLE_twoChannels : ∃ data, TV1720RawData.decode
    [0xa000000a#32, 0x01000005#32, 0#32, 0#32, 4#32, 0x00000003#32, 0x80000001#32, 0x00020001#32,
      1#32] = .ok data ∧
      data.fMeasurements = [⟨0, true, [⟨6, [1, 2]⟩], []⟩, ⟨2, true, [], []⟩] := by
  let blocks (ch : ℕ) : List Block :=
    if ch = 0 then [.skip 3 (by decide), .good [(1, 2)] (by decide)] else []
  have early (ch : ℕ) : timeOf (blocks ch) < 2 ^ 30 := by
    simp only [blocks]
    split_ifs <;> decide
  obtain ⟨decoded, _⟩ :=
    decode_encodeZLE ⟨0xa000000a#32, 0x01000005#32, 0#32, 0#32, rfl⟩ blocks (by decide) early
  exact ⟨_, decoded, rfl⟩

theorem bind_ne_outOfFuel {α β : Type} {x : Except DecodeFault α} {f : α → Except DecodeFault β}
    (first : x ≠ .error .outOfFuel) (later : ∀ a, x = .ok a → f a ≠ .error .outOfFuel) :
    (x >>= f) ≠ .error .outOfFuel := by
  cases x with
  | error fault => exact fun same => first (congrArg Except.error (Except.error.inj same))
  | ok a => exact later a rfl

theorem getData32_ne_outOfFuel (bank : List Word) (index : ℕ) :
    getData32 bank index ≠ .error .outOfFuel := by
  unfold getData32
  cases bank[index]? <;> exact nofun

theorem lt_of_getData32 {index : ℕ} {word : Word} (read : getData32 bank index = .ok word) :
    index < bank.length := by
  unfold getData32 at read
  cases stored : bank[index]? with
  | none =>
    rw [stored] at read
    cases read
  | some word => exact (List.getElem?_eq_some_iff.mp stored).1

theorem readSamples_ne_outOfFuel (bank : List Word) (nwords iPtr : ℕ) :
    readSamples bank nwords iPtr ≠ .error .outOfFuel := by
  induction nwords generalizing iPtr with
  | zero => exact nofun
  | succ nwords ih =>
    exact bind_ne_outOfFuel (getData32_ne_outOfFuel bank iPtr) fun _ _ =>
      bind_ne_outOfFuel (ih _) fun _ _ => nofun

theorem le_of_readSamples {nwords iPtr : ℕ} {samples : List Word}
    (read : readSamples bank nwords iPtr = .ok samples) (inside : iPtr ≤ bank.length) :
    iPtr + nwords ≤ bank.length := by
  induction nwords generalizing iPtr samples with
  | zero => exact inside
  | succ nwords ih =>
    obtain ⟨word, here, read⟩ := Except.bind_eq_ok_iff.mp read
    obtain ⟨rest, later, _⟩ := Except.bind_eq_ok_iff.mp read
    have bound := ih later (lt_of_getData32 here)
    omega

/-- A turn goes on in the bank, or reads behind it. -/
theorem readBlock_cases (bank : List Word) (state : Blocks) : readBlock bank state ≠ .error .outOfFuel ∧
    ∀ next, readBlock bank state = .ok next → state.iPtr < next.iPtr ∧ next.iPtr ≤ bank.length := by
  constructor
  · refine bind_ne_outOfFuel (getData32_ne_outOfFuel bank _) fun header _ => ?_
    dsimp only
    split_ifs
    · exact bind_ne_outOfFuel (readSamples_ne_outOfFuel bank _ _) fun _ _ => nofun
    · exact nofun
  · intro next stepped
    obtain ⟨header, read, stepped⟩ := Except.bind_eq_ok_iff.mp stepped
    have inside := lt_of_getData32 read
    dsimp only at stepped
    split_ifs at stepped
    · obtain ⟨samples, sampled, stepped⟩ := Except.bind_eq_ok_iff.mp stepped
      have bound := le_of_readSamples sampled inside
      obtain rfl := Except.ok.inj stepped
      exact ⟨by simp only; omega, by simp only; omega⟩
    · obtain rfl := Except.ok.inj stepped
      exact ⟨Nat.lt_succ_self _, inside⟩

theorem readBlocks_ne_outOfFuel (chSize : Word) {fuel : ℕ} {state : Blocks}
    (inside : state.iPtr ≤ bank.length) (enough : bank.length < fuel + state.iPtr) :
    readBlocks bank chSize fuel state ≠ .error .outOfFuel := by
  induction fuel generalizing state with
  | zero => omega
  | succ fuel ih =>
    rw [readBlocks]
    split_ifs
    · refine bind_ne_outOfFuel (readBlock_cases bank state).1 fun next stepped => ?_
      obtain ⟨advanced, bound⟩ := (readBlock_cases bank state).2 next stepped
      exact ih bound (by omega)
    · exact nofun

theorem foldlM_ne_outOfFuel {step : Channels → ℕ → Except DecodeFault Channels}
    (steps : ∀ state ch, step state ch ≠ .error .outOfFuel) (chs : List ℕ) (state : Channels) :
    chs.foldlM step state ≠ .error .outOfFuel := by
  induction chs generalizing state with
  | nil => exact nofun
  | cons ch chs ih => exact bind_ne_outOfFuel (steps state ch) fun next _ => ih next

theorem HandlZLECompressedData_ne_outOfFuel (bank : List Word) :
    HandlZLECompressedData bank ≠ .error .outOfFuel := by
  have read := getData32_ne_outOfFuel bank
  refine bind_ne_outOfFuel (read 1) fun _ _ => foldlM_ne_outOfFuel (fun state ch => ?_) _ _
  split_ifs
  · refine bind_ne_outOfFuel (read _) fun chSize stored => bind_ne_outOfFuel ?_ fun _ _ => nofun
    exact readBlocks_ne_outOfFuel chSize (lt_of_getData32 stored) (by simp only; omega)
  · exact nofun

theorem HandlUncompressedData_ne_outOfFuel (bank : List Word) :
    HandlUncompressedData bank ≠ .error .outOfFuel := by
  have read := getData32_ne_outOfFuel bank
  refine bind_ne_outOfFuel (read 0) fun _ _ => bind_ne_outOfFuel (read 1) fun _ _ => ?_
  dsimp only
  split_ifs
  · exact nofun
  · refine foldlM_ne_outOfFuel (fun state ch => ?_) _ _
    unfold readChannel
    split_ifs
    · exact bind_ne_outOfFuel (readSamples_ne_outOfFuel bank _ _) fun _ _ => nofun
    · exact nofun

/-- The constructor returns, or faults as the source does. -/
theorem decode_ne_outOfFuel (bank : List Word) : TV1720RawData.decode bank ≠ .error .outOfFuel := by
  have read := getData32_ne_outOfFuel bank
  refine bind_ne_outOfFuel (read 0) fun _ _ => bind_ne_outOfFuel (read 1) fun _ _ =>
    bind_ne_outOfFuel (read 2) fun _ _ => bind_ne_outOfFuel (read 3) fun _ _ => ?_
  dsimp only
  split_ifs
  · exact bind_ne_outOfFuel (HandlZLECompressedData_ne_outOfFuel bank) fun _ _ => nofun
  · exact bind_ne_outOfFuel (HandlUncompressedData_ne_outOfFuel bank) fun _ _ => nofun

end PtfConverter.V1720
