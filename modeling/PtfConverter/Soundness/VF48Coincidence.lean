import PtfConverter.Soundness.VF48Triggers
import PtfConverter.ToMathlib.BitFields

/-! # Two blocks of one trigger

Times are unsigned differences to the base of a unit, which the first block after `Reset` sets to
its own timestamp. A block with a smaller timestamp wraps around, to a time more than nine thousand
years later at 60 MHz. So two blocks within the coincidence window share a module just where both
timestamps are on the same side of the base.
-/

namespace PtfConverter.VF48

/-- The first channel header of a block finds its module in an event of the buffer. -/
def Block.FoundAt (settings : Settings) (block : Block) (builder : Builder) (index : ℕ) : Prop :=
  ∃ state, [block.header, block.low, block.high, block.first].foldlM
    (Builder.unpackWord settings block.unit block.group)
    (builder, .initial) = .ok state ∧ state.2.m = some index

/-- Two blocks, one after the other, end in the same module of the same event. -/
def SameModule (settings : Settings) (builder : Builder) (a b : Block) : Prop :=
  ∃ first next index m, builder.UnpackEvent settings a.unit a.group a.words = .ok first ∧
    first.UnpackEvent settings b.unit b.group b.words = .ok next ∧
    a.FoundAt settings builder index ∧ b.FoundAt settings first index ∧
      next.module? b.unit index = some m ∧
    m.groupMask.getLsbD a.group.val = true ∧ m.groupMask.getLsbD b.group.val = true

/-- No event of the buffer is within the window of a time. -/
def Builder.Clear (settings : Settings) (builder : Builder) (time : ℚ) : Prop :=
  ∀ e ∈ builder.fBuffer, ¬ |e.timestamp - time| < settings.fCoinc

section

open Builder

variable {settings : Settings} {builder first : Builder} {a b block : Block} {index : ℕ}

/-- A block is found at the first event in the window of its time, or behind all events. -/
theorem Block.foundAt_iff : block.FoundAt settings builder index ↔
    index = (builder.bins.findIdx? (takes settings (builder.clock.time settings block))).getD
      builder.bins.length := by
  have bins : (builder.timed settings block).bins = builder.bins :=
    congrArg (List.map VF48event.bin) (timed_fBuffer settings block builder)
  have length : (builder.timed settings block).fBuffer.length = builder.bins.length := by
    rw [timed_fBuffer, Builder.bins, List.length_map]
  rcases event : (builder.timed settings block).FindEvent settings block.unit
      (builder.clock.time settings block) true with
    ⟨found, place⟩
  have here : place =
      (builder.bins.findIdx? (takes settings (builder.clock.time settings block))).getD
        builder.bins.length := by
    rw [FindEvent_bins, bins] at event
    cases search : builder.bins.findIdx? (takes settings (builder.clock.time settings block)) with
    | none =>
      rw [search] at event
      exact (congrArg Prod.snd event).symm.trans length
    | some index =>
      rw [search] at event
      exact (congrArg Prod.snd event).symm
  obtain ⟨next, stepped, _⟩ := unpackWord_first settings block builder event
  have ran : [block.header, block.low, block.high, block.first].foldlM
      (unpackWord settings block.unit block.group)
      (builder, .initial) = .ok (next, block.locals place (channelOf block.group block.first)) := by
    have words : [block.header, block.low, block.high, block.first] =
        [block.header, block.low, block.high] ++ [block.first] := rfl
    rw [words, List.foldlM_append, foldlM_front, Except.ok_bind, List.foldlM_cons, stepped]
    rfl
  rw [← here]
  constructor
  · rintro ⟨state, same, pointer⟩
    rw [ran] at same
    cases same
    cases pointer
    rfl
  · rintro rfl
    exact ⟨_, ran, rfl⟩

theorem Builder.Clear.findIdx? {time : ℚ} (clear : builder.Clear settings time) :
    builder.bins.findIdx? (takes settings time) = none := by
  refine List.findIdx?_eq_none_iff.mpr fun bin member => ?_
  obtain ⟨e, inside, rfl⟩ := List.mem_map.mp member
  exact decide_eq_false (clear e inside)

/-- A block leaves the mark of its group, beside those that are there. -/
theorem file_groupMask (block : Block) (ts48 : BitVec 64) (time : ℚ) (m : VF48module) :
    (block.file settings ts48 time m).groupMask = m.groupMask ||| 1#32 <<< block.group.val :=
  congrArg (fun marks => marks.2.1) (block.file_marks settings ts48 time m)

/-- A block with the times that it gets. -/
def Block.timedBy (settings : Settings) (clock : Clock) (block : Block) : Timed Unit :=
  ⟨(), block, clock.ts48 settings block, clock.time settings block⟩

/-- A block with no event near it opens a new one. -/
theorem Builder.Clear.foundAt (clear : builder.Clear settings (builder.clock.time settings a))
    (index : ℕ) :
    a.FoundAt settings builder index ↔ index = builder.bins.length := by
  rw [Block.foundAt_iff, clear.findIdx?]
  rfl

theorem Builder.Clear.opens (clear : builder.Clear settings (builder.clock.time settings a)) :
    ∃ first, builder.UnpackEvent settings a.unit a.group a.words = .ok first ∧
      first.clock = builder.clock.advance settings a ∧
      first.bins = builder.bins ++
        [(builder.clock.time settings a, (a.timedBy settings builder.clock).place settings fun _ =>
          none)] := by
  obtain ⟨first, ran, clock, bins⟩ :=
    UnpackEvent_bins settings builder (a.timedBy settings builder.clock) rfl rfl
  have search : builder.bins.findIdx? (takes settings (a.timedBy settings builder.clock).time) =
    none := clear.findIdx?
  rw [search] at bins
  exact ⟨first, ran, clock, bins⟩

/-- A block that finds an event is filed in it. -/
theorem UnpackEvent_joins
    (search : builder.bins.findIdx? (takes settings (builder.clock.time settings b)) = some index) :
    ∃ next, builder.UnpackEvent settings b.unit b.group b.words = .ok next ∧
      next.bins = builder.bins.modify index fun bin =>
        (bin.1, (b.timedBy settings builder.clock).place settings bin.2) := by
  obtain ⟨next, ran, _, bins⟩ :=
    UnpackEvent_bins settings builder (b.timedBy settings builder.clock) rfl rfl
  have here : builder.bins.findIdx? (takes settings (b.timedBy settings builder.clock).time) =
    some index := search
  rw [here] at bins
  exact ⟨next, ran, bins⟩

/-- Behind the other events, a block sees the new event only. -/
theorem Builder.Clear.findIdx?_concat {time : ℚ} (clear : builder.Clear settings time)
    (bin : ℚ × (UnitNo → Option VF48module)) :
    (builder.bins ++ [bin]).findIdx? (takes settings time) =
      if |bin.1 - time| < settings.fCoinc then some builder.bins.length else none := by
  have own : takes settings time bin = true ↔ |bin.1 - time| < settings.fCoinc := decide_eq_true_iff
  rw [List.findIdx?_append, clear.findIdx?, Option.none_or, List.findIdx?_singleton,
    if_congr own rfl rfl, apply_ite (Option.map _), Option.map_some, Nat.zero_add, Option.map_none]

/-- The second block finds the module of the first just where its time is in the window. -/
theorem sameModule_iff_near (unit : b.unit = a.unit)
    (clear : builder.Clear settings (builder.clock.time settings a))
    (later : builder.Clear settings ((builder.clock.advance settings a).time settings b)) :
    SameModule settings builder a b ↔
      |builder.clock.time settings a - (builder.clock.advance settings a).time settings b| <
        settings.fCoinc := by
  obtain ⟨first, ranA, clock, binsA⟩ := clear.opens
  have search := later.findIdx?_concat
    (builder.clock.time settings a, (a.timedBy settings builder.clock).place settings fun _ => none)
  rw [← binsA, ← clock] at search
  rw [← clock]
  split_ifs at search with near
  · refine iff_of_true ?_ near
    obtain ⟨next, ranB, binsB⟩ := UnpackEvent_joins search
    have filed : next.module? b.unit builder.bins.length = some
        (b.file settings (first.clock.ts48 settings b) (first.clock.time settings b)
          (a.file settings (builder.clock.ts48 settings a) (builder.clock.time settings a)
            (.new a.unit))) := by
      rw [module?_bins, binsB, binsA, List.getElem?_modify_eq, List.getElem?_concat_length]
      change Function.update (Function.update (fun _ => none) a.unit _) b.unit
        (some (b.file _ _ _ (Option.getD
        (Function.update (fun _ => none) a.unit _ b.unit) _))) b.unit = _
      rw [Function.update_self, unit, Function.update_self]
      rfl
    refine ⟨first, next, builder.bins.length, _, ranA, ranB, (clear.foundAt _).mpr rfl, ?_, filed,
      ?_, ?_⟩
    · rw [Block.foundAt_iff, search, Option.getD_some]
    · rw [file_groupMask, groupMask_getLsbD, file_groupMask, groupMask_getLsbD]
      exact .inl (.inr rfl)
    · rw [file_groupMask, groupMask_getLsbD]
      exact .inr rfl
  · refine iff_of_false ?_ near
    rintro ⟨first', next, index, m, ran, _, hereA, hereB, _⟩
    obtain rfl : first = first' := Except.ok.inj (ranA.symm.trans ran)
    have behind := Block.foundAt_iff.mp hereB
    rw [search, (clear.foundAt index).mp hereA, binsA, Option.getD_none, List.length_append] at behind
    exact absurd behind.symm (Nat.succ_ne_self _)

/-- Two timestamps are less than the window apart on one side of the base, or around the other
side. -/
def Alongside (settings : Settings) (clock : Clock) (a b : Block) : Prop :=
  let apart : ℚ := |((clock.ts48 settings a).toNat : ℚ) - (clock.ts48 settings b).toNat|
  0 < settings.fFreq a.unit ∧
    if clock.base settings a ≤ clock.ts48 settings a ↔
      clock.base settings a ≤ clock.ts48 settings b then
      apart < settings.fCoinc * settings.fFreq a.unit
    else 2 ^ 64 - apart < settings.fCoinc * settings.fFreq a.unit

instance (settings : Settings) (clock : Clock) (a b : Block) :
    Decidable (Alongside settings clock a b) :=
  inferInstanceAs (Decidable (_ ∧ ite _ _ _))

/-- The first block of a unit sets the base for all later ones. -/
theorem Clock.base_advance (clock : Clock) (unit : b.unit = a.unit) :
    (clock.advance settings a).base settings b = clock.base settings a := by
  have kept : (clock.advance settings a).timestampBases b.unit = clock.base settings a := by
    rw [unit]
    exact Function.update_self ..
  rw [Clock.base, kept]
  refine if_neg fun unset => ?_
  obtain ⟨resync, zero⟩ := Bool.and_eq_true_iff.mp unset
  have base := beq_iff_eq.mp zero
  unfold Clock.base at base
  split_ifs at base with first
  · exact a.positive base
  · exact first (Bool.and_eq_true_iff.mpr ⟨resync, beq_iff_eq.mpr base⟩)

/-- A block does not move the timestamps of another group. -/
theorem Clock.ts48_advance (clock : Clock) (unit : b.unit = a.unit) (group : b.group ≠ a.group) :
    (clock.advance settings a).ts48 settings b = clock.ts48 settings b := by
  have kept : (clock.advance settings a).ts b.unit b.group = clock.ts b.unit b.group := by
    rw [unit]
    change Function.update clock.ts a.unit
      (Function.update (clock.ts a.unit) a.group _) a.unit b.group = _
    rw [Function.update_self, Function.update_of_ne group]
  rw [Clock.ts48, kept]
  rfl

theorem Clock.near_iff (clock : Clock) (unit : b.unit = a.unit) (group : b.group ≠ a.group)
    (window : 0 < settings.fCoinc * settings.fFreq a.unit) :
    |clock.time settings a - (clock.advance settings a).time settings b| < settings.fCoinc ↔
      Alongside settings clock a b := by
  have times : clock.time settings a - (clock.advance settings a).time settings b =
      (((clock.ts48 settings a - clock.base settings a).toNat : ℚ) -
        (clock.ts48 settings b - clock.base settings a).toNat) / settings.fFreq a.unit := by
    rw [Clock.time, Clock.time, Clock.base_advance clock unit, Clock.ts48_advance clock unit group,
      unit, sub_div]
  rcases lt_trichotomy (settings.fFreq a.unit) 0 with negative | zero | positive
  · have coinc : settings.fCoinc < 0 := neg_of_mul_pos_left window negative.le
    refine iff_of_false (fun near => ?_) fun alongside => absurd alongside.1 negative.not_gt
    exact absurd ((abs_nonneg _).trans_lt near) coinc.not_gt
  · rw [zero, mul_zero] at window
    exact absurd window (lt_irrefl 0)
  · rw [times, abs_div, BitVec.abs_sub_base, abs_of_pos positive, div_lt_iff₀ positive, Alongside]
    simp only [positive, true_and]
    split_ifs <;> rfl

/-- Two blocks of two groups of a unit, less than the window apart, with no event near these: the
second one finds the module of the first just where the base does not part their timestamps. -/
theorem sameModule_iff_alongside (unit : b.unit = a.unit) (group : b.group ≠ a.group)
    (near : |(a.stamp.toNat : ℚ) - b.stamp.toNat| < settings.fCoinc * settings.fFreq a.unit)
    (clear : builder.Clear settings (builder.clock.time settings a))
    (later : builder.Clear settings ((builder.clock.advance settings a).time settings b)) :
    SameModule settings builder a b ↔ Alongside settings builder.clock a b :=
  (sameModule_iff_near unit clear later).trans
    (Clock.near_iff builder.clock unit group ((abs_nonneg _).trans_lt near))

end

/-- Group 0 at tick 10, and group 1 at tick 5. -/
def laterHalf : Block := shortBlock 0 0xA000000A rfl (by decide)

def earlierHalf : Block :=
  { shortBlock 0 0xA0000005 rfl (by decide) with
    group := 1
    first_opens := ⟨rfl, rfl⟩
    rest_sound := List.forall_mem_singleton.mpr (.inr (.inl rfl)) }

theorem initial_clear (settings : Settings) (time : ℚ) : Builder.initial.Clear settings time := nofun

/-- In the order of the timestamps, the halves meet. -/
theorem sameModule_iff_alongside_halves : SameModule .initial .initial earlierHalf laterHalf := by
  have near : |(earlierHalf.stamp.toNat : ℚ) - laterHalf.stamp.toNat| <
      Settings.initial.fCoinc * Settings.initial.fFreq earlierHalf.unit := by
    decide +kernel
  have alongside : Alongside .initial Builder.initial.clock earlierHalf laterHalf := by
    decide +kernel
  have same := @sameModule_iff_alongside .initial .initial earlierHalf laterHalf rfl (by decide) near
    (initial_clear _ _) (initial_clear _ _)
  exact same.mpr alongside

/-- Behind `Reset`, the later half sets the base, and the time of the earlier one wraps around. -/
theorem halves_parted :
    ∃ fresh : UnpackVF48, fresh = UnpackVF48.new.Reset ∧ fresh.builder.fBuffer = [] ∧
      earlierHalf.unit = laterHalf.unit ∧ earlierHalf.group ≠ laterHalf.group ∧
      |(laterHalf.stamp.toNat : ℚ) - earlierHalf.stamp.toNat| <
        fresh.settings.fCoinc * fresh.settings.fFreq laterHalf.unit ∧
      SameModule fresh.settings fresh.builder earlierHalf laterHalf ∧
      ¬ SameModule fresh.settings fresh.builder laterHalf earlierHalf := by
  have forward : |Builder.initial.clock.time UnpackVF48.new.Reset.settings earlierHalf -
      (Builder.initial.clock.advance UnpackVF48.new.Reset.settings earlierHalf).time
        UnpackVF48.new.Reset.settings
        laterHalf| < UnpackVF48.new.Reset.settings.fCoinc := by
    decide +kernel
  have backward : ¬ |Builder.initial.clock.time UnpackVF48.new.Reset.settings laterHalf -
      (Builder.initial.clock.advance UnpackVF48.new.Reset.settings laterHalf).time
        UnpackVF48.new.Reset.settings
        earlierHalf| < UnpackVF48.new.Reset.settings.fCoinc := by
    decide +kernel
  have meet := @sameModule_iff_near UnpackVF48.new.Reset.settings .initial earlierHalf laterHalf rfl
    (initial_clear _ _) (initial_clear _ _)
  have parted := @sameModule_iff_near UnpackVF48.new.Reset.settings .initial laterHalf earlierHalf rfl
    (initial_clear _ _) (initial_clear _ _)
  refine ⟨_, rfl, rfl, rfl, by decide, ?_, meet.mpr forward, parted.not.mpr backward⟩
  decide +kernel

end PtfConverter.VF48
