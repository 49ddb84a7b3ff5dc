import PtfConverter.Soundness.VF48Block
import PtfConverter.Soundness.VF48Stream
import PtfConverter.ToMathlib.Interleaving

/-! # A trigger comes back under every interleaving of its groups

The blocks of the groups reach `UnpackStream` word by word in any order, with a marker wherever the
group changes. Two invariants carry the run: `Demux`, that the words of a group that were sorted
out and those still to come are its block, and `Progress`, that the module in building holds the
groups whose blocks are complete.
-/

namespace PtfConverter.VF48

/-- The marker in front of the words of a group. -/
def groupMarker (g : Group) : Word := BitVec.ofNat 32 (0xF0000000 + g.val)

private theorem groupMarker_toNat (g : Group) : (groupMarker g).toNat = 0xF0000000 + g.val := by
  rw [groupMarker, BitVec.toNat_ofNat]
  omega

theorem groupMarker_tag (g : Group) : tagOf (groupMarker g) = 0xF0000000 :=
  tagOf_of_nibble 15 (by rw [groupMarker_toNat]; omega)

private theorem groupMarker_group (g : Group) : (groupMarker g &&& 0x00000007#32).toNat = g.val := by
  rw [BitVec.toNat_and_low _ 7 3 rfl (by decide), groupMarker_toNat]
  omega

private theorem packSamples_tag (samples : List (BitVec 12)) :
    ∀ w ∈ packSamples samples, tagOf w = 0x00000000 := by
  induction samples using packSamples.induct with
  | case1 first second rest ih =>
    rw [packSamples]
    exact List.forall_mem_cons.mpr ⟨packWord_tag first second, ih⟩
  | case2 samples short =>
    intro w member
    rw [packSamples.eq_def] at member
    split at member
    · exact absurd rfl (short _ _ _)
    · cases member

private theorem encode_inner (g : Group) (data : ChannelData) : ∀ w ∈ data.encode g, Inner w := by
  have sound {w : Word} {tag : Word} (is : tagOf w = tag)
      (kind : tag = 0xC0000000 ∨ tag = 0 ∨ tag = 0x40000000 ∨ tag = 0x50000000) : Inner w := by
    subst is
    obtain same | same | same | same := kind
    all_goals constructor <;> rw [same] <;> decide
  intro w member
  obtain rfl | later := List.mem_cons.mp member
  · exact sound (channelWord_tag g data.chan) (.inl rfl)
  · obtain sample | result := List.mem_append.mp later
    · exact sound (packSamples_tag _ w sample) (.inr (.inl rfl))
    · obtain rfl | charge := List.mem_cons.mp result
      · exact sound (tagOf_append 0x40#8 data.time) (.inr (.inr (.inl rfl)))
      · obtain rfl := List.mem_singleton.mp charge
        exact sound (tagOf_append 0x50#8 data.charge) (.inr (.inr (.inr rfl)))

private theorem packSamples_length (samples : List (BitVec 12)) :
    (packSamples samples).length ≤ samples.length / 2 := by
  induction samples using packSamples.induct with
  | case1 first second rest ih =>
    rw [packSamples, List.length_cons, List.length_cons, List.length_cons]
    omega
  | case2 samples short =>
    rw [packSamples.eq_def]
    split
    · exact absurd rfl (short _ _ _)
    · exact Nat.zero_le _

private theorem encode_length (g : Group) (data : ChannelData) : (data.encode g).length ≤ 552 := by
  have samples := packSamples_length data.samples
  have fits := data.fits
  rw [ChannelData.encode, List.length_cons, List.length_append, List.length_cons, List.length_singleton]
  omega

private theorem flatMap_encode_length (g : Group) (datas : List ChannelData) :
    (datas.flatMap (ChannelData.encode g)).length ≤ 552 * datas.length := by
  induction datas with
  | nil => exact Nat.le_refl 0
  | cons data datas ih =>
    have first := encode_length g data
    rw [List.flatMap_cons, List.length_append, List.length_cons]
    omega

variable {mask : Word} {readout : Readout mask}

/-- A group has at most eight channels. -/
private theorem channels_length (readout : Readout mask) (g : Group) :
    (readout.channels g).length ≤ 8 := by
  have few := (readout.distinct g).length_le_card
  rwa [List.length_map, Fintype.card_fin] at few

/-- A block runs from its header to its trailer, and fits the buffer of its group. -/
theorem block_shape {g : Group} (active : readout.channels g ≠ []) :
    ∃ inner, readout.block g = (0x80#8 ++ readout.trigger) :: (inner ++ [0xE0#8 ++ readout.trigger]) ∧
      (∀ w ∈ inner, Inner w) ∧ (readout.block g).length ≤ 4420 := by
  have stamps (half : BitVec 24) : Inner (0xA0#8 ++ half) := by
    constructor <;> rw [show tagOf (0xA0#8 ++ half) = 0xA0000000 from tagOf_append 0xA0#8 half] <;>
      decide
  have few := channels_length readout g
  have short := flatMap_encode_length g (readout.channels g)
  refine ⟨(0xA0#8 ++ readout.stamp.extractLsb' 0 24) :: (0xA0#8 ++ readout.stamp.extractLsb' 24 24) ::
    (readout.channels g).flatMap (ChannelData.encode g), ?_, ?_, ?_⟩
  · rw [Readout.block, if_neg active]
    rfl
  · refine List.forall_mem_cons.mpr ⟨stamps _, List.forall_mem_cons.mpr ⟨stamps _, fun w member => ?_⟩⟩
    obtain ⟨data, _, inside⟩ := List.mem_flatMap.mp member
    exact encode_inner g data w inside
  · rw [Readout.block, if_neg active]
    simp only [List.length_cons, List.length_append, List.length_nil]
    omega

/-- The word behind some words of a block starts it, stands inside it, or ends it. -/
private theorem block_next {g : Group} (active : readout.channels g ≠ []) {words : List Word}
    {head : Word} {tail : List Word} (whole : words ++ head :: tail = readout.block g) :
    (words = [] ∧ tagOf head = 0x80000000 ∧ tail ≠ []) ∨ (words ≠ [] ∧ Inner head ∧ tail ≠ []) ∨
      (tagOf head = 0xE0000000 ∧ tail = []) := by
  obtain ⟨inner, block, sound, _⟩ := block_shape active
  rw [block] at whole
  cases words with
  | nil =>
    obtain ⟨rfl, rfl⟩ := List.cons.inj whole
    exact .inl ⟨rfl, tagOf_append 0x80#8 readout.trigger,
      List.append_ne_nil_of_right_ne_nil _ (List.cons_ne_nil _ _)⟩
  | cons first words =>
    rw [List.cons_append] at whole
    obtain ⟨_, later⟩ := List.cons.inj whole
    obtain rfl | ⟨body, final, rfl⟩ := tail.eq_nil_or_concat'
    · obtain ⟨_, same⟩ := List.append_inj' later rfl
      obtain ⟨rfl, _⟩ := List.cons.inj same
      exact .inr (.inr ⟨tagOf_append 0xE0#8 readout.trigger, rfl⟩)
    · have grouped : (words ++ head :: body) ++ [final] = inner ++ [0xE0#8 ++ readout.trigger] := by
        rw [← later, List.append_assoc, List.cons_append]
      obtain ⟨middle, _⟩ := List.append_inj' grouped rfl
      have inside : head ∈ inner := by
        rw [← middle]
        exact List.mem_append_right _ List.mem_cons_self
      exact .inr (.inl ⟨List.cons_ne_nil _ _, sound head inside,
        List.append_ne_nil_of_right_ne_nil _ (List.cons_ne_nil _ _)⟩)

private theorem block_next_length {g : Group} (active : readout.channels g ≠ [])
    {words : List Word} {head : Word} {tail : List Word}
    (whole : words ++ head :: tail = readout.block g) : words.length < 4420 := by
  obtain ⟨_, _, _, short⟩ := block_shape active
  rw [← whole, List.length_append, List.length_cons] at short
  omega

theorem block_eq_nil {g : Group} : readout.block g = [] ↔ readout.channels g = [] := by
  rw [Readout.block]
  by_cases absent : readout.channels g = []
  · rw [if_pos absent]
    exact iff_of_true rfl absent
  · rw [if_neg absent]
    exact iff_of_false (List.cons_ne_nil _ _) absent

/-- While words of a block are left, those that wait are the start of the block; else none wait. -/
structure Demux (readout : Readout mask) (left : Group → List Word) (stream : Stream) : Prop where
  whole : ∀ g, left g ≠ [] → stream.words g ++ left g = readout.block g
  clear : ∀ g, left g = [] → stream.words g = []
  accepting : ∀ g, stream.words g ≠ [] → stream.wacc g = true

namespace Demux

variable {left : Group → List Word} {stream : Stream} {g : Group}

/-- Only a group with channels has words left. -/
theorem active (demux : Demux readout left stream) (more : left g ≠ []) : readout.channels g ≠ [] := by
  intro absent
  have whole := demux.whole g more
  rw [block_eq_nil.mpr absent, List.append_eq_nil_iff] at whole
  exact more whole.2

/-- Taking the next word of a group changes that group alone. -/
theorem update (demux : Demux readout left stream) {next : Stream} {tail : List Word}
    (other : ∀ h ≠ g, next.words h = stream.words h ∧ next.wacc h = stream.wacc h)
    (whole : tail ≠ [] → next.words g ++ tail = readout.block g ∧ next.wacc g = true)
    (clear : tail = [] → next.words g = []) : Demux readout (Function.update left g tail) next := by
  refine ⟨fun h more => ?_, fun h none => ?_, fun h waiting => ?_⟩
  · obtain rfl | ne := eq_or_ne h g
    · rw [Function.update_self] at more ⊢
      exact (whole more).1
    · rw [Function.update_of_ne ne] at more ⊢
      rw [(other h ne).1]
      exact demux.whole h more
  · obtain rfl | ne := eq_or_ne h g
    · rw [Function.update_self] at none
      exact clear none
    · rw [Function.update_of_ne ne] at none
      rw [(other h ne).1]
      exact demux.clear h none
  · obtain rfl | ne := eq_or_ne h g
    · exact (whole fun none => waiting (clear none)).2
    · rw [(other h ne).1] at waiting
      rw [(other h ne).2]
      exact demux.accepting h waiting

/-- A group that becomes current has a buffer, and no word is lost. -/
theorem NewGroup (demux : Demux readout left stream) (current : stream.wgrp = g.val) :
    ∃ next, stream.NewGroup = .ok (next, g) ∧ Demux readout left next ∧ (next.wbuf g).isSome := by
  obtain ⟨next, created, allocated, _, words, accepts, _⟩ := stream.NewGroup_of_lt current
  refine ⟨next, created, ⟨fun h more => ?_, fun h none => ?_, fun h waiting => ?_⟩, allocated⟩
  · rw [words]
    exact demux.whole h more
  · rw [words]
    exact demux.clear h none
  · rw [words] at waiting
    rw [accepts, if_neg]
    · exact demux.accepting h waiting
    · rintro ⟨_, absent⟩
      rw [Stream.words, absent] at waiting
      exact waiting rfl

end Demux

/-- A module holds the groups with no words left, and is complete when there are no others. -/
structure Collected (readout : Readout mask) (left : Group → List Word) (m : VF48module) : Prop where
  held : ∀ g, left g = [] → ∀ data ∈ readout.channels g, Holds m g data
  seen : ∀ i, m.completeGroupMask.getLsbD i = true ↔
    ∃ g : Group, g.val = i ∧ left g = [] ∧ mask.getLsbD i = true
  complete : m.complete = true ↔ ∀ g, left g = []
  trigger : ∀ g, left g = [] → readout.channels g ≠ [] → m.trigger = readout.trigger.setWidth 32

/-- The builder between two blocks. -/
structure Progress (settings : Settings) (unit : UnitNo) (readout : Readout mask)
    (left : Group → List Word) (builder : Builder) (ts : Group → BitVec 64)
    (m : VF48module) : Prop where
  ready : Ready settings unit readout.stamp ts builder m
  unstamped : ∀ g, left g ≠ [] → ts g = 0
  collected : Collected readout left m

private theorem getLsbD_bit (i k : ℕ) (inside : k < 32) : (1#32 <<< k).getLsbD i = true ↔ i = k := by
  rw [BitVec.getLsbD_shiftLeft, BitVec.getLsbD_one]
  simp only [Bool.and_eq_true, decide_eq_true_eq, Bool.not_eq_true', decide_eq_false_iff_not]
  omega

/-- The groups seen are those enabled exactly when no enabled group has words left. -/
private theorem seen_eq_iff (small : mask.toNat < 64) {left : Group → List Word} {bits : Word}
    (seen : ∀ i, bits.getLsbD i = true ↔ ∃ g : Group, g.val = i ∧ left g = [] ∧ mask.getLsbD i = true)
    (enabled : ∀ g, left g ≠ [] → mask.getLsbD g.val = true) : bits = mask ↔ ∀ g, left g = [] := by
  constructor
  · rintro rfl g
    by_contra more
    obtain ⟨h, same, none, _⟩ := (seen g.val).mp (enabled g more)
    rw [Fin.ext same] at none
    exact more none
  · intro none
    refine BitVec.eq_of_getLsbD_eq fun i _ => ?_
    rw [Bool.eq_iff_iff, seen]
    constructor
    · rintro ⟨_, _, _, bit⟩
      exact bit
    · intro bit
      have low : i < 6 := by
        by_contra high
        have big : 2 ^ 6 ≤ 2 ^ i := Nat.pow_le_pow_right (by decide) (by omega)
        have large : 2 ^ i ≤ mask.toNat := Nat.ge_two_pow_of_testBit bit
        omega
      exact ⟨⟨i, low⟩, rfl, none _, bit⟩

/-- The last word of a group moves the group into the module. -/
private theorem Collected.absorb (small : mask.toNat < 64) {left : Group → List Word}
    {m next : VF48module} (collected : Collected readout left m)
    (active : ∀ g, left g ≠ [] → readout.channels g ≠ []) {g : Group} (more : left g ≠ [])
    (absorbs : Absorbs g (readout.channels g) (readout.trigger.setWidth 32) mask m next) :
    Collected readout (Function.update left g []) next := by
  have none_iff (h : Group) : Function.update left g [] h = [] ↔ h = g ∨ left h = [] := by
    obtain rfl | ne := eq_or_ne h g
    · rw [Function.update_self]
      exact iff_of_true rfl (.inl rfl)
    · rw [Function.update_of_ne ne]
      exact (or_iff_right ne).symm
  have seen : ∀ i, next.completeGroupMask.getLsbD i = true ↔
      ∃ h : Group, h.val = i ∧ Function.update left g [] h = [] ∧ mask.getLsbD i = true := by
    intro i
    rw [absorbs.seen, BitVec.getLsbD_or, Bool.or_eq_true, collected.seen,
      getLsbD_bit i g.val (by omega)]
    constructor
    · rintro (⟨h, same, none, bit⟩ | rfl)
      · exact ⟨h, same, (none_iff h).mpr (.inr none), bit⟩
      · exact ⟨g, rfl, (none_iff g).mpr (.inl rfl), (readout.enabled g).mp (active g more)⟩
    · rintro ⟨h, same, none, bit⟩
      obtain rfl | before := (none_iff h).mp none
      · exact .inr same.symm
      · exact .inl ⟨h, same, before, bit⟩
  refine ⟨fun h none => ?_, seen, ?_, fun _ _ _ => absorbs.trigger⟩
  · obtain rfl | before := (none_iff h).mp none
    · exact absorbs.held
    · have ne : h ≠ g := by
        rintro rfl
        exact more before
      exact fun data member => absorbs.others h ne data (collected.held h before data member)
  · have unfinished : ¬ m.complete = true := fun done => more (collected.complete.mp done g)
    rw [absorbs.complete, or_iff_right unfinished]
    refine seen_eq_iff small seen fun h rest => (readout.enabled h).mp (active h fun before => rest ?_)
    exact (none_iff h).mpr (.inr before)

/-- A complete block moves its group into the module. -/
theorem Progress.block {settings : Settings} {unit : UnitNo} {left : Group → List Word}
    {builder : Builder} {ts : Group → BitVec 64} {m : VF48module} (coinc : 0 < settings.fCoinc)
    (enabled : settings.fGroupEnabled unit = mask) (small : mask.toNat < 64)
    (progress : Progress settings unit readout left builder ts m)
    (active : ∀ g, left g ≠ [] → readout.channels g ≠ []) {g : Group} (more : left g ≠ []) :
    ∃ next ts m, builder.UnpackEvent settings unit g (readout.block g) = .ok next ∧
      Progress settings unit readout (Function.update left g []) next ts m := by
  obtain ⟨next, filed, unpacked, building, absorbs⟩ :=
    UnpackEvent_block coinc readout progress.ready (progress.unstamped g more) (active g more)
  rw [enabled] at absorbs
  refine ⟨next, _, filed, unpacked, .of_building building, fun h rest => ?_,
    progress.collected.absorb small active more absorbs⟩
  have ne : h ≠ g := by
    rintro rfl
    exact rest (Function.update_self ..)
  rw [Function.update_of_ne ne] at rest ⊢
  exact progress.unstamped h rest

/-- A word in the middle of a block leaves the module as it is. -/
theorem Progress.congr {settings : Settings} {unit : UnitNo} {left other : Group → List Word}
    {builder : Builder} {ts : Group → BitVec 64} {m : VF48module}
    (progress : Progress settings unit readout left builder ts m)
    (same : ∀ g, other g = [] ↔ left g = []) :
    Progress settings unit readout other builder ts m := by
  obtain ⟨ready, unstamped, held, seen, complete, trigger⟩ := progress
  refine ⟨ready, fun g more => unstamped g fun none => more ((same g).mpr none), ?_⟩
  refine ⟨fun g none => held g ((same g).mp none), ?_, ?_, fun g none => trigger g ((same g).mp none)⟩
  · simpa only [same] using seen
  · simpa only [same] using complete

/-- Between two words of a run, the current group has a buffer, and both layers agree on what is
left. -/
structure Run (settings : Settings) (unit : UnitNo) (readout : Readout mask) (g : Group)
    (left : Group → List Word) (state : Stream × Builder × Group) : Prop where
  current : state.2.2 = g
  allocated : (state.1.wbuf g).isSome
  demux : Demux readout left state.1
  progress : ∃ ts m, Progress settings unit readout left state.2.1 ts m

namespace Run

variable {settings : Settings} {unit : UnitNo} {left : Group → List Word} {g : Group}
  {state : Stream × Builder × Group}

theorem mark (run : Run settings unit readout g left state) (next : Group) :
    ∃ after, Stream.step settings unit state (groupMarker next) = .ok after ∧
      Run settings unit readout next left after := by
  obtain ⟨stream, builder, grp⟩ := state
  obtain ⟨_, _, demux, progress⟩ := run
  have switched : Demux readout left { stream with wgrp := next.val } :=
    ⟨demux.whole, demux.clear, demux.accepting⟩
  obtain ⟨opened, created, demux, allocated⟩ := switched.NewGroup (show _ = next.val from rfl)
  refine ⟨(opened, builder, next), ?_, rfl, allocated, demux, progress⟩
  simp only [Stream.step]
  rw [if_pos (groupMarker_tag next), groupMarker_group, created]
  rfl

theorem word (coinc : 0 < settings.fCoinc) (enabled : settings.fGroupEnabled unit = mask)
    (small : mask.toNat < 64) (run : Run settings unit readout g left state) {head : Word}
    {tail : List Word} (front : left g = head :: tail) :
    ∃ after, Stream.step settings unit state head = .ok after ∧
      Run settings unit readout g (Function.update left g tail) after := by
  obtain ⟨stream, builder, grp⟩ := state
  obtain ⟨rfl, allocated, demux, ts, m, progress⟩ := run
  have more : left grp ≠ [] := by rw [front]; exact List.cons_ne_nil _ _
  obtain ⟨words, buffer⟩ := Option.isSome_iff_exists.mp allocated
  have whole := demux.whole grp more
  rw [front, Stream.words_of_wbuf buffer] at whole
  have room : words.length < Stream.wmaxWords :=
    (block_next_length (demux.active more) whole).trans (by decide)
  have kept (wacc : Bool) (next : List Word) := fun h (ne : h ≠ grp) => stream.filled_other ne next wacc
  -- a word with others behind it leaves every group where it is
  have waits (others : tail ≠ []) : ∀ h, Function.update left grp tail h = [] ↔ left h = [] := by
    intro h
    obtain rfl | ne := eq_or_ne h grp
    · rw [Function.update_self]
      exact iff_of_false others more
    · rw [Function.update_of_ne ne]
  obtain ⟨rfl, header, others⟩ | ⟨started, inner, others⟩ | ⟨trailer, rfl⟩ :=
    block_next (demux.active more) whole
  · refine ⟨_, Stream.step_header settings unit builder header buffer (by decide), rfl,
      stream.filled_isSome ..,
      demux.update (kept _ _) (fun _ => ?_) (fun none => absurd none others), ts, m,
      progress.congr (waits others)⟩
    rw [Stream.filled_words]
    exact ⟨whole, Function.update_self ..⟩
  · have accepting : stream.wacc grp = true := by
      refine demux.accepting grp ?_
      rwa [Stream.words_of_wbuf buffer]
    refine ⟨_, Stream.step_inner settings unit builder inner buffer accepting room, rfl,
      stream.filled_isSome ..,
      demux.update (kept _ _) (fun _ => ?_) (fun none => absurd none others), ts, m,
      progress.congr (waits others)⟩
    rw [Stream.filled_words, ← whole, List.append_assoc]
    exact ⟨rfl, Function.update_self ..⟩
  · obtain ⟨next, times, filed, unpacked, ahead⟩ :=
      progress.block coinc enabled small (fun h => demux.active) more
    rw [← whole] at unpacked
    have stepped : Stream.step settings unit (stream, builder, grp) head =
        .ok (stream.filled grp [] false, next, grp) := by
      rw [Stream.step_trailer settings unit builder trailer buffer room, unpacked, Except.ok_bind]
      rfl
    exact ⟨_, stepped, rfl, stream.filled_isSome ..,
      demux.update (kept _ _) (fun some => absurd rfl some) (fun _ => Stream.filled_words ..),
      times, filed, ahead⟩

end Run

/-- The settings that make the times of a unit comparable. -/
structure Timing (settings : Settings) (unit : UnitNo) : Prop where
  coinc : 0 < settings.fCoinc
  freq : 0 < settings.fFreq unit

/-- In front of the first word, the groups seen are those without a block among the enabled ones:
none. -/
private theorem nothing_seen (readout : Readout mask) (i : ℕ) :
    (0 : Word).getLsbD i = true ↔
      ∃ g : Group, g.val = i ∧ readout.block g = [] ∧ mask.getLsbD i = true := by
  refine iff_of_false (by simp) ?_
  rintro ⟨g, rfl, none, bit⟩
  exact (readout.enabled g).mpr bit (block_eq_nil.mp none)

/-- A mask of groups is empty when there are no blocks. -/
private theorem eq_mask_iff (small : mask.toNat < 64) (readout : Readout mask) :
    0 = mask ↔ ∀ g, readout.block g = [] :=
  seen_eq_iff small (nothing_seen readout) fun g more =>
    (readout.enabled g).mp fun absent => more (block_eq_nil.mpr absent)

private theorem Progress.initial {settings : Settings} {unit : UnitNo} (nonempty : mask ≠ 0)
    (small : mask.toNat < 64) (readout : Readout mask) :
    Progress settings unit readout readout.block .initial (fun _ => 0) (.new unit) := by
  refine ⟨⟨.inl ⟨rfl, rfl⟩, .inl rfl, fun _ => rfl⟩, fun _ _ => rfl, fun g none data member => ?_,
    nothing_seen readout,
    ?_, fun g none more => absurd (block_eq_nil.mp none) more⟩
  · rw [block_eq_nil.mp none] at member
    cases member
  · rw [← eq_mask_iff small readout]
    exact iff_of_false Bool.false_ne_true nonempty.symm

/-- A run over the start of an interleaving. -/
private theorem UnpackStream_run {self : UnpackVF48} {unit : UnitNo}
    (timing : Timing self.settings unit) (nonempty : self.settings.fGroupEnabled unit ≠ 0)
    (small : (self.settings.fGroupEnabled unit).toNat < 64)
    (readout : Readout (self.settings.fGroupEnabled unit)) {words : List Word} {last : Group}
    {left : Group → List Word} (sent : Interleaving groupMarker 0 readout.block words last left) :
    ∃ state ts m, self.Reset.UnpackStream unit words = .ok state ∧
      Progress self.Reset.settings unit readout left state.builder ts m ∧
      Demux readout left (state.streams unit) := by
  have empty (g : Group) : (self.Reset.streams unit).words g = [] := by
    change (((self.streams unit).wbuf g).map fun _ => []).getD [] = []
    cases (self.streams unit).wbuf g <;> rfl
  have fresh : Demux readout readout.block (self.Reset.streams unit) := by
    refine ⟨fun g _ => ?_, fun g _ => empty g, fun g waiting => absurd (empty g) waiting⟩
    rw [empty, List.nil_append]
  obtain ⟨opened, created, demux, allocated⟩ := fresh.NewGroup (show _ = (0 : Group).val from rfl)
  have start : Run self.Reset.settings unit readout 0 readout.block (opened, .initial, 0) :=
    ⟨rfl, allocated, demux, _, _, .initial nonempty small readout⟩
  have coinc : 0 < self.Reset.settings.fCoinc := timing.coinc
  have enabled : self.Reset.settings.fGroupEnabled unit = self.settings.fGroupEnabled unit := rfl
  obtain ⟨⟨stream, builder, grp⟩, ran, _, _, demux, ts, m, progress⟩ :=
    Interleaving.foldlM_ok (fun next run => run.mark next)
      (fun run front => run.word coinc enabled small front) sent start
  refine ⟨{ self.Reset with
    builder := builder, streams := Function.update self.Reset.streams unit stream }, ts, m, ?_,
    progress, ?_⟩
  · have initial : self.Reset.builder = .initial := rfl
    simp only [UnpackVF48.UnpackStream, created, Except.ok_bind, initial, ran]
    rfl
  · change Demux readout left (Function.update self.Reset.streams unit stream unit)
    rw [Function.update_self]
    exact demux

/-- The module of a unit is complete in some buffered event. -/
def Builder.Completed (builder : Builder) (unit : UnitNo) : Prop :=
  ∃ event ∈ builder.fBuffer, ∃ m, event.modules unit = some m ∧ m.complete = true

private theorem Progress.completed {settings : Settings} {unit : UnitNo}
    {left : Group → List Word} {builder : Builder} {ts : Group → BitVec 64} {m : VF48module}
    (progress : Progress settings unit readout left builder ts m) :
    builder.Completed unit ↔ ∀ g, left g = [] := by
  rw [← progress.collected.complete, Builder.Completed]
  obtain ⟨none, rfl⟩ | ⟨event, buffer, _, modules⟩ := progress.ready.pending
  · rw [none]
    refine iff_of_false ?_ Bool.false_ne_true
    rintro ⟨event, member, _⟩
    cases member
  · simp only [buffer, List.mem_singleton, exists_eq_left, modules, Function.update_self,
      Option.some.injEq, exists_eq_left']

/-- Of an interleaving that ends with nothing left, no words of blocks are left when no trailer is. -/
private theorem left_eq_nil_iff {left : Group → List Word} {stream : Stream}
    (demux : Demux readout left stream) {g last : Group} {rest : List Word}
    (sent : Interleaving groupMarker g left rest last fun _ => []) :
    (∀ h, left h = []) ↔ ∀ w ∈ rest, tagOf w ≠ 0xE0000000 := by
  constructor
  · intro none w member
    obtain ⟨h, rfl⟩ | ⟨h, held⟩ := sent.origin member
    · rw [groupMarker_tag]
      decide
    · rw [none h] at held
      cases held
  · intro absent h
    by_contra more
    obtain ⟨inner, block, _, _⟩ := block_shape (demux.active more)
    have whole := demux.whole h more
    obtain none | ⟨front, final, split⟩ := (left h).eq_nil_or_concat'
    · exact more none
    · rw [split, block, ← List.append_assoc, ← List.cons_append] at whole
      obtain ⟨_, same⟩ := List.append_inj' whole rfl
      obtain ⟨rfl, _⟩ := List.cons.inj same
      have held : 0xE0#8 ++ readout.trigger ∈ left h := by
        rw [split]
        exact List.mem_append_right _ (List.mem_singleton.mpr rfl)
      exact absent _ (sent.sent_of_empty (fun _ => rfl) held) (tagOf_append 0xE0#8 readout.trigger)

/-- A trigger whose blocks arrive in any interleaving comes back as one event, whose module is
complete once the last trailer arrived and not before. -/
theorem UnpackStream_interleaved (self : UnpackVF48) (unit : UnitNo)
    (timing : Timing self.settings unit) (nonempty : self.settings.fGroupEnabled unit ≠ 0)
    (groups : (self.settings.fGroupEnabled unit).toNat < 2 ^ VF48_MAX_GROUPS)
    (readout : Readout (self.settings.fGroupEnabled unit)) {words : List Word} {last : Group}
    (sent : Interleaving groupMarker 0 readout.block words last fun _ => []) :
    (∃ final event m, self.Reset.UnpackStream unit words = .ok final ∧ final.builder.fBuffer = [event] ∧
      event.modules unit = some m ∧ m.trigger = readout.trigger.setWidth 32 ∧ m.complete = true ∧
      ∀ g, ∀ data ∈ readout.channels g, Holds m g data) ∧
    ∀ fed rest, words = fed ++ rest → ∃ state, self.Reset.UnpackStream unit fed = .ok state ∧
      (state.builder.Completed unit ↔ ∀ w ∈ rest, tagOf w ≠ 0xE0000000) := by
  constructor
  · obtain ⟨final, ts, m, ran, progress, _⟩ := UnpackStream_run timing nonempty groups readout sent
    obtain ⟨held, _, complete, trigger⟩ := progress.collected
    have done : m.complete = true := complete.mpr fun _ => rfl
    obtain ⟨_, rfl⟩ | ⟨event, buffer, _, modules⟩ := progress.ready.pending
    · exact absurd done Bool.false_ne_true
    · obtain ⟨g, active⟩ : ∃ g, readout.channels g ≠ [] := by
        by_contra! absent
        exact nonempty ((eq_mask_iff groups readout).mpr fun g => block_eq_nil.mpr (absent g)).symm
      exact ⟨final, event, m, ran, buffer, by
        rw [modules, Function.update_self], trigger g rfl active, done,
        fun g data member => held g rfl data member⟩
  · rintro fed rest rfl
    obtain ⟨middle, between, before, after⟩ := Interleaving.split fed sent
    obtain ⟨state, ts, m, ran, progress, demux⟩ :=
      UnpackStream_run timing nonempty groups readout before
    exact ⟨state, ran, progress.completed.trans (left_eq_nil_iff demux after)⟩

/-- A trigger of two groups, with one channel of two samples in each. -/
def twoGroups : Readout 3 where
  trigger := 7
  stamp := 100
  channels g := if g.val < 2 then [⟨3, [1024, 1025], 40, 900, by decide, by decide⟩] else []
  positive := by decide
  enabled := by decide
  distinct := by decide

/-- An unpacker for units with two groups. -/
def twoGroupsUnpacker : UnpackVF48 :=
  { UnpackVF48.new with settings := { Settings.initial with fGroupEnabled := fun _ => 3 } }

/-- Two blocks, each cut once by the other. -/
def Readout.crossed (readout : Readout mask) (g h : Group) : List Word :=
  (readout.block g).take 3 ++ groupMarker h :: ((readout.block h).take 5 ++ groupMarker g ::
    ((readout.block g).drop 3 ++ groupMarker h :: (readout.block h).drop 5))

private theorem twoGroups_sent :
    Interleaving groupMarker 0 twoGroups.block (twoGroups.crossed 0 1) 1 fun _ => [] := by
  rw [Readout.crossed, ← List.append_nil ((twoGroups.block 1).drop 5)]
  refine .send _ ((twoGroups.block 0).drop 3) ?_ (.mark 1 (.send _ ((twoGroups.block 1).drop 5) ?_
    (.mark 0 (.send _ [] ?_ (.mark 1 (.send _ [] ?_ (.finished ?_)))))))
  · exact (List.take_append_drop 3 (twoGroups.block 0)).symm
  · exact (List.take_append_drop 5 (twoGroups.block 1)).symm
  · exact (List.append_nil _).symm
  · exact (List.append_nil _).symm
  · decide

theorem UnpackStream_twoGroups :
    ∃ final event m, twoGroupsUnpacker.Reset.UnpackStream 4 (twoGroups.crossed 0 1) = .ok final ∧
      final.builder.fBuffer = [event] ∧ event.modules 4 = some m ∧ m.trigger = 7 ∧ m.complete = true ∧
      ∀ g, ∀ data ∈ twoGroups.channels g, Holds m g data := by
  have timing : Timing twoGroupsUnpacker.settings 4 := by
    constructor <;> norm_num [twoGroupsUnpacker, Settings.initial]
  exact (UnpackStream_interleaved twoGroupsUnpacker 4 timing (by decide)
    (by decide) twoGroups twoGroups_sent).1

end PtfConverter.VF48
