import PtfConverter.Soundness.VF48Channel
import PtfConverter.Soundness.VF48Words

/-! # A block is filed in one module

The first channel header of a block finds the event of its time, and from then on every word of the
block changes the module of the unit in that event. `Block.file` is what the whole block does to the
module; nothing else in the buffer changes.
-/

namespace PtfConverter.VF48

/-- A channel header that names a group, or group 0 in its place. -/
def Opens (group : Group) (w : Word) : Prop := tagOf w = 0xC0000000 ∧ headerGroup group w = group.val

/-- The timestamp in two timestamp words. -/
def stampOf (low high : Word) : BitVec 64 :=
  (low &&& 0x00FFFFFF#32).setWidth 64 ||| ((high &&& 0x00FFFFFF#32).setWidth 64 <<< 24)

/-- A well-formed block of a group: a header, a positive timestamp in two words, a channel header,
more channel headers and data words, and a trailer, which may be missing. -/
structure Block where
  unit : UnitNo
  group : Group
  header : Word
  low : Word
  high : Word
  first : Word
  rest : List Word
  trailer : Option Word
  header_tag : tagOf header = 0x80000000
  low_tag : tagOf low = 0xA0000000
  high_tag : tagOf high = 0xA0000000
  positive : stampOf low high ≠ 0
  first_opens : Opens group first
  rest_sound : ∀ w ∈ rest, Opens group w ∨ tagOf w = 0x00000000 ∨ tagOf w = 0x40000000 ∨
    tagOf w = 0x50000000
  trailer_tag : ∀ w ∈ trailer, tagOf w = 0xE0000000

namespace Block

def stamp (block : Block) : BitVec 64 := stampOf block.low block.high

def words (block : Block) : List Word :=
  block.header :: block.low :: block.high :: block.first :: (block.rest ++ block.trailer.toList)

end Block

theorem low_lt (w : Word) : (w &&& 0x7#32).toNat < 8 := by
  rw [BitVec.toNat_and_low _ 0x7 3 rfl (by decide)]
  omega

/-- The channel of a header, in its group. -/
def channelOf (group : Group) (w : Word) : Chan := chanOf group ⟨(w &&& 0x7#32).toNat, low_lt w⟩

theorem Opens.headerChan {group : Group} {w : Word} (opens : Opens group w) :
    headerChan group w = (channelOf group w).val := by
  rw [VF48.headerChan, opens.2, Nat.or_comm, ← Nat.shiftLeft_add_eq_or_of_lt (low_lt w),
    Nat.shiftLeft_eq]
  change group.val * 8 + _ = 8 * group.val + _
  rw [Nat.mul_comm]

theorem suppress_lt (chan : Chan) : chan.val / 8 < 6 := by omega

namespace VF48module

/-- Two samples. -/
def takeSamples (m : VF48module) (chan : Chan) (w : Word) : VF48module :=
  let channel := m.channels chan
  if channel.complete then { m with error := 1 }
  else if channel.numSamples < VF48_MAX_SAMPLES - 2 then
    m.setChannel chan { channel with
      samples := Function.update
        (Function.update channel.samples channel.numSamples (some ((w &&& 0x3FFF#32).setWidth 16)))
        (channel.numSamples + 1) (some (((w >>> 16) &&& 0x3FFF#32).setWidth 16))
      numSamples := channel.numSamples + 2 }
  else { m.setChannel chan { channel with numSamples := channel.numSamples + 2 } with error := 1 }

def takeTime (m : VF48module) (chan : Chan) (w : Word) : VF48module :=
  m.setChannel chan { m.channels chan with time := some (w &&& 0x00FFFFFF#32), complete := true }

/-- A charge, and the suppression mask that may be in its word. -/
def takeCharge (m : VF48module) (chan : Chan) (w : Word) : VF48module :=
  let suppressMask :=
    if w &&& 0x0F000000#32 = 0 then
      Function.update m.suppressMask ⟨chan.val / 8, suppress_lt chan⟩ (w &&& 0xFF#32)
    else m.suppressMask
  { m with suppressMask := suppressMask }.setChannel chan
    { m.channels chan with charge := some (w &&& 0x00FFFFFF#32), complete := true }

/-- A word behind the first channel header of a block, with the channel that is open. -/
def takeWord (group : Group) (state : VF48module × Chan) (w : Word) : VF48module × Chan :=
  if tagOf w = 0xC0000000 then (state.1.startChannel group (channelOf group w) false, channelOf group w)
  else if tagOf w = 0x00000000 then (state.1.takeSamples state.2 w, state.2)
  else if tagOf w = 0x40000000 then (state.1.takeTime state.2 w, state.2)
  else (state.1.takeCharge state.2 w, state.2)

theorem takeWord_header {group : Group} {state : VF48module × Chan} {w : Word}
    (tag : tagOf w = 0xC0000000) :
    takeWord group state w =
      (state.1.startChannel group (channelOf group w) false, channelOf group w) := if_pos tag

theorem takeWord_sample {group : Group} {state : VF48module × Chan} {w : Word}
    (tag : tagOf w = 0x00000000) :
    takeWord group state w = (state.1.takeSamples state.2 w, state.2) := by
  rw [takeWord, tag]
  rfl

theorem takeWord_time {group : Group} {state : VF48module × Chan} {w : Word}
    (tag : tagOf w = 0x40000000) :
    takeWord group state w = (state.1.takeTime state.2 w, state.2) := by
  rw [takeWord, tag]
  rfl

theorem takeWord_charge {group : Group} {state : VF48module × Chan} {w : Word}
    (tag : tagOf w = 0x50000000) :
    takeWord group state w = (state.1.takeCharge state.2 w, state.2) := by
  rw [takeWord, tag]
  rfl

/-- The trailer of a trigger. -/
def takeTrailer (settings : Settings) (unit : UnitNo) (trigger : Word) (m : VF48module)
    (chan : Chan) (w : Word) :
    VF48module :=
  let m := m.setChannel chan { m.channels chan with complete := true }
  let m := if w &&& 0x00FFFFFF#32 = trigger then m else { m with error := 1 }
  if m.completeGroupMask = settings.fGroupEnabled unit then (m.CompleteModule settings).2 else m

end VF48module

namespace Block

def trigger (block : Block) : Word := block.header &&& 0x00FFFFFF#32

/-- The module gets the unit, the trigger, and the timestamp of the group. -/
def label (block : Block) (ts48 : BitVec 64) (time : ℚ) (m : VF48module) : VF48module :=
  { m with unit := block.unit, trigger := block.trigger }.stampGroup block.group ts48 time

/-- The words from the first channel header on, without the trailer. -/
def fill (block : Block) (m : VF48module) : VF48module × Chan :=
  block.rest.foldl (VF48module.takeWord block.group)
    (m.startChannel block.group (channelOf block.group block.first) true,
      channelOf block.group block.first)

def close (settings : Settings) (block : Block) (state : VF48module × Chan) : VF48module :=
  match block.trailer with
  | none => state.1
  | some w => state.1.takeTrailer settings block.unit block.trigger state.2 w

/-- What a block does to the module of its trigger, with its timestamp and its time. -/
def file (settings : Settings) (block : Block) (ts48 : BitVec 64) (time : ℚ) (m : VF48module) :
    VF48module :=
  block.close settings (block.fill (block.label ts48 time m))

end Block

namespace VF48module

/-- What a module shows of its blocks: the trigger, the groups, and their timestamps. -/
def marks (m : VF48module) : Word × Word × (Group → BitVec 64) × (Group → ℚ) :=
  (m.trigger, m.groupMask, m.timestamp64, m.timestamps)

variable {m : VF48module} {group : Group} {chan : Chan} {w : Word}

theorem takeSamples_marks : (m.takeSamples chan w).marks = m.marks := by
  simp only [takeSamples]
  split_ifs <;> rfl

/-- Once its group is seen, the words of a block change no marks. -/
theorem takeWord_marks (seen : m.groupMask ||| 1#32 <<< group.val = m.groupMask) :
    (takeWord group (m, chan) w).1.marks = m.marks := by
  unfold takeWord
  split_ifs
  · rw [marks, marks, startChannel, seen]
  · exact takeSamples_marks
  · rfl
  · rfl

theorem foldl_takeWord_marks (seen : m.groupMask ||| 1#32 <<< group.val = m.groupMask)
    (words : List Word) :
    (words.foldl (takeWord group) (m, chan)).1.marks = m.marks := by
  induction words generalizing m chan with
  | nil => rfl
  | cons w words ih =>
    have step : (takeWord group (m, chan) w).1.marks = m.marks := takeWord_marks seen
    have masks : (takeWord group (m, chan) w).1.groupMask = m.groupMask :=
      congrArg (fun marks => marks.2.1) step
    rw [List.foldl_cons, ih (by rw [masks]; exact seen), step]

theorem completeChannel_marks (settings : Settings) (state : ℕ × VF48module) (i : Chan) :
    (completeChannel settings state i).2.marks = state.2.marks := by
  simp only [completeChannel]
  split_ifs <;> rfl

theorem completeGroup_marks (settings : Settings) (t : ℚ) (state : ℕ × VF48module) (i : Group) :
    (completeGroup settings t state i).2.marks = state.2.marks := by
  simp only [completeGroup]
  split_ifs <;> rfl

/-- What each turn of a loop of `CompleteModule` leaves alone, the loop leaves alone. -/
theorem foldl_view {ι κ : Type*} {view : VF48module → κ} {step : ℕ × VF48module → ι → ℕ × VF48module}
    (same : ∀ state i, view (step state i).2 = view state.2) (l : List ι) (state : ℕ × VF48module) :
    view (l.foldl step state).2 = view state.2 := by
  induction l generalizing state with
  | nil => rfl
  | cons i l ih => rw [List.foldl_cons, ih, same]

theorem complete_marks (m : VF48module) : { m with complete := true }.marks = m.marks := rfl

theorem CompleteModule_marks (settings : Settings) (m : VF48module) :
    (m.CompleteModule settings).2.marks = m.marks := by
  unfold CompleteModule
  split_ifs
  · rfl
  · dsimp only
    rw [complete_marks, foldl_view (completeGroup_marks settings _),
      foldl_view (completeChannel_marks settings)]

theorem takeTrailer_marks (settings : Settings) (unit : UnitNo) (trigger : Word) :
    (m.takeTrailer settings unit trigger chan w).marks = m.marks := by
  simp only [takeTrailer]
  split_ifs
  · exact CompleteModule_marks settings _
  · rfl
  · exact CompleteModule_marks settings _
  · rfl

end VF48module

namespace Block

/-- A block leaves its trigger, its group and its timestamp. -/
theorem file_marks (settings : Settings) (block : Block) (ts48 : BitVec 64) (time : ℚ)
    (m : VF48module) :
    (block.file settings ts48 time m).marks =
      (block.trigger, m.groupMask ||| 1#32 <<< block.group.val,
        Function.update m.timestamp64 block.group ts48,
        Function.update m.timestamps block.group time) := by
  have closed : (block.file settings ts48 time m).marks =
      (block.fill (block.label ts48 time m)).1.marks := by
    unfold file close
    split
    · rfl
    · exact VF48module.takeTrailer_marks settings block.unit block.trigger
  rw [closed, fill, VF48module.foldl_takeWord_marks]
  · rfl
  · change (m.groupMask ||| _) ||| _ = m.groupMask ||| _
    rw [BitVec.or_assoc, BitVec.or_self]

end Block

/-- The time tables of the file. -/
structure Clock where
  timestampBases : UnitNo → BitVec 64
  ts : UnitNo → Group → BitVec 64

def Builder.clock (builder : Builder) : Clock := ⟨builder.timestampBases, builder.ts⟩

namespace Clock

variable (settings : Settings) (clock : Clock) (block : Block)

/-- The time base of a block's unit: the first block of a unit sets it, when bases are in use. -/
def base : BitVec 64 :=
  if settings.fTimestampResyncEnable && clock.timestampBases block.unit == 0 then block.stamp
  else clock.timestampBases block.unit

/-- The timestamp that a block gets: the last one of the same group is moved past the coincidence
window. -/
def ts48 : BitVec 64 :=
  let last := clock.ts block.unit block.group
  if block.stamp = last then
    last + BitVec.ofInt 64 (Builder.truncate (settings.fCoinc * settings.fFreq block.unit)) + 1
  else block.stamp

/-- The relative timestamp of a block. -/
def time : ℚ :=
  (clock.ts48 settings block - clock.base settings block).toNat / settings.fFreq block.unit

/-- The tables behind a block. -/
def advance : Clock where
  timestampBases := Function.update clock.timestampBases block.unit (clock.base settings block)
  ts := Function.update clock.ts block.unit
    (Function.update (clock.ts block.unit) block.group (clock.ts48 settings block))

end Clock

/-- `m` is put in the place of a unit in a buffered event; apart from complaints
nothing else changes. -/
structure Refiled (unit : UnitNo) (index : ℕ) (before after : Builder) (m : VF48module) : Prop where
  inside : index < before.fBuffer.length
  buffer : after.fBuffer = (before.setModule unit index m).fBuffer
  clock : after.clock = before.clock

namespace Refiled

variable {unit : UnitNo} {index : ℕ} {before after : Builder} {m : VF48module}

theorem module? (refiled : Refiled unit index before after m) : after.module? unit index = some m := by
  have place := List.getElem?_eq_getElem refiled.inside
  rw [Builder.module?, refiled.buffer, Builder.setModule, List.getElem?_modify, place]
  simp only [Option.map_eq_map, Option.map_some, if_true, Option.bind_some, Function.update_self]

/-- The module may be replaced again. -/
theorem setModule (refiled : Refiled unit index before after m) (next : VF48module) :
    Refiled unit index before (after.setModule unit index next) next := by
  refine ⟨refiled.inside, ?_, refiled.clock⟩
  rw [Builder.setModule, refiled.buffer]
  simp only [Builder.setModule, List.modify_modify_eq]
  congr 1
  funext e
  simp only [Function.comp_apply, Function.update_idem]

theorem count (refiled : Refiled unit index before after m) (complaints : ℕ) :
    Refiled unit index before { after with fBadDataCount := complaints } m :=
  ⟨refiled.inside, refiled.buffer, refiled.clock⟩

theorem bad (refiled : Refiled unit index before after m) : Refiled unit index before after.bad m :=
  refiled.count _

theorem target (refiled : Refiled unit index before after m) {locals : Locals}
    (pointer : locals.m = some index) {chan : Chan} (current : locals.chan = chan.val) :
    after.target unit locals = some (index, m, chan) := by
  refine Builder.target_eq_some_iff.mpr ⟨pointer, refiled.module?, ?_⟩
  rw [current]
  exact Builder.channel?_val chan

end Refiled

namespace Block

/-- The local variables behind the timestamp words. -/
def front (block : Block) (m : Option ℕ) (chan : ℤ) : Locals where
  m := m
  chan := chan
  headerTrigNo := block.trigger
  timestampCount := 2
  timestampFlag := true
  timestamp1 := block.low &&& 0x00FFFFFF#32
  timestamp2 := block.high &&& 0x00FFFFFF#32

/-- The local variables behind the first channel header. -/
def locals (block : Block) (index : ℕ) (chan : Chan) : Locals :=
  { block.front (some index) chan.val with timestampCount := 0, timestampFlag := false }

end Block

section Words

open Builder

variable {settings : Settings} {unit : UnitNo} {group : Group} {index : ℕ}
  {before builder : Builder} {m : VF48module} {locals : Locals} {w : Word} {chan : Chan}

/-- A channel header of the block's group. -/
theorem channelHeader_opens (opens : Opens group w) :
    channelHeader settings unit group builder locals w =
      openChannel unit group (channelOf group w)
        (stamped settings unit group builder { locals with chan := (channelOf group w).val }).1
        (stamped settings unit group builder { locals with chan := (channelOf group w).val }).2 := by
  have place := opens.headerChan
  have inside : headerChan group w < VF48_MAX_CHANNELS := by
    rw [place]
    exact (channelOf group w).isLt
  have own : (⟨headerGroup group w, group_of_channel inside⟩ : Group) = group := Fin.ext opens.2
  have chan : (⟨headerChan group w, inside⟩ : Chan) = channelOf group w := Fin.ext place
  rw [channelHeader_eq_dite, dif_pos inside, own, chan, place]

theorem openChannel_refiled (refiled : Refiled unit index before builder m)
    (pointer : locals.m = some index) :
    ∃ next, openChannel unit group chan builder locals =
        .ok (next, { locals with timestampCount := 0, timestampFlag := false }) ∧
      Refiled unit index before next (m.startChannel group chan locals.timestampFlag) := by
  simp only [openChannel, pointer, refiled.module?]
  refine ⟨_, rfl, ?_⟩
  split_ifs
  · exact refiled.bad.setModule _
  · exact refiled.setModule _

theorem sampleWord_refiled (refiled : Refiled unit index before builder m)
    (pointer : locals.m = some index) (current : locals.chan = chan.val) :
    Refiled unit index before (builder.sampleWord unit locals w) (m.takeSamples chan w) := by
  rw [sampleWord, refiled.target pointer current, VF48module.takeSamples]
  simp only
  split_ifs
  · exact (refiled.setModule _).bad
  · exact refiled.setModule _
  · exact (refiled.setModule _).bad

theorem timeWord_refiled (refiled : Refiled unit index before builder m)
    (pointer : locals.m = some index) (current : locals.chan = chan.val) :
    Refiled unit index before (builder.timeWord unit locals w) (m.takeTime chan w) := by
  rw [timeWord, refiled.target pointer current]
  exact refiled.setModule _

theorem chargeWord_refiled (refiled : Refiled unit index before builder m)
    (pointer : locals.m = some index) (current : locals.chan = chan.val) :
    Refiled unit index before (builder.chargeWord unit locals w) (m.takeCharge chan w) := by
  rw [chargeWord, refiled.target pointer current, VF48module.takeCharge]
  simp only
  split_ifs
  · exact refiled.setModule _
  · exact refiled.setModule _

theorem trailerWord_refiled (settings : Settings) (refiled : Refiled unit index before builder m)
    (pointer : locals.m = some index) (current : locals.chan = chan.val) :
    Refiled unit index before (builder.trailerWord settings unit locals w).1
      (m.takeTrailer settings unit locals.headerTrigNo chan w) := by
  rw [trailerWord, refiled.target pointer current, VF48module.takeTrailer]
  by_cases matching : w &&& 0x00FFFFFF#32 = locals.headerTrigNo
  · simp only [decide_eq_true matching, if_true, if_pos matching]
    split_ifs
    · exact (refiled.setModule _).count _
    · exact refiled.setModule _
  · simp only [decide_eq_false matching, Bool.false_eq_true, if_false, if_neg matching]
    split_ifs
    · exact (refiled.bad.setModule _).count _
    · exact refiled.bad.setModule _

/-- A word behind the first channel header changes the module of the block. -/
theorem unpackWord_refiled (settings : Settings) (block : Block)
    (refiled : Refiled block.unit index before builder m) (chan : Chan)
    (sound : Opens block.group w ∨ tagOf w = 0x00000000 ∨ tagOf w = 0x40000000 ∨
      tagOf w = 0x50000000) :
    ∃ next, unpackWord settings block.unit block.group (builder, block.locals index chan) w =
        .ok (next, block.locals index (VF48module.takeWord block.group (m, chan) w).2) ∧
      Refiled block.unit index before next (VF48module.takeWord block.group (m, chan) w).1 := by
  obtain opens | sample | time | charge := sound
  · rw [VF48module.takeWord_header opens.1, unpackWord_channel opens.1, channelHeader_opens opens]
    exact openChannel_refiled refiled rfl
  · rw [VF48module.takeWord_sample sample, unpackWord_sample sample]
    exact ⟨_, rfl, sampleWord_refiled refiled rfl rfl⟩
  · rw [VF48module.takeWord_time time, unpackWord_time time]
    exact ⟨_, rfl, timeWord_refiled refiled rfl rfl⟩
  · rw [VF48module.takeWord_charge charge, unpackWord_charge charge]
    exact ⟨_, rfl, chargeWord_refiled refiled rfl rfl⟩

/-- The words of the rest of a block, in turn. -/
theorem foldlM_unpackWord_refiled (settings : Settings) (block : Block) {words : List Word}
    (refiled : Refiled block.unit index before builder m) (chan : Chan)
    (sound : ∀ w ∈ words,
      Opens block.group w ∨ tagOf w = 0x00000000 ∨ tagOf w = 0x40000000 ∨ tagOf w = 0x50000000) :
    ∃ next, words.foldlM (unpackWord settings block.unit block.group)
        (builder, block.locals index chan) =
        .ok (next, block.locals index (words.foldl (VF48module.takeWord block.group) (m, chan)).2) ∧
      Refiled block.unit index before next
        (words.foldl (VF48module.takeWord block.group) (m, chan)).1 := by
  induction words generalizing builder m chan with
  | nil => exact ⟨builder, rfl, refiled⟩
  | cons w words ih =>
    obtain ⟨here, later⟩ := List.forall_mem_cons.mp sound
    obtain ⟨middle, stepped, held⟩ := unpackWord_refiled settings block refiled chan here
    obtain ⟨next, ran, done⟩ := ih held (VF48module.takeWord block.group (m, chan) w).2 later
    refine ⟨next, ?_, done⟩
    rw [List.foldlM_cons, stepped, Except.ok_bind, ran, List.foldl_cons]

/-- The trailer of a block, if it has one. -/
theorem trailer_refiled (settings : Settings) (block : Block) {state : VF48module × Chan}
    (refiled : Refiled block.unit index before builder state.1) :
    ∃ next following, block.trailer.toList.foldlM (unpackWord settings block.unit block.group)
        (builder, block.locals index state.2) = .ok (next, following) ∧
      Refiled block.unit index before next (block.close settings state) := by
  cases last : block.trailer with
  | none =>
    rw [Block.close, last]
    exact ⟨builder, _, rfl, refiled⟩
  | some w =>
    rw [Block.close, last, Option.toList_some, List.foldlM_cons,
      unpackWord_trailer (block.trailer_tag w last)]
    exact ⟨_, _, rfl, trailerWord_refiled settings refiled rfl rfl⟩

end Words

section First

open Builder

variable {settings : Settings} {unit : UnitNo} {builder : Builder} {timestamp : ℚ}

theorem Refiled.of_inside {index : ℕ} (inside : index < builder.fBuffer.length) (m : VF48module) :
    Refiled unit index builder (builder.setModule unit index m) m := ⟨inside, rfl, rfl⟩

/-- A module that is there stays there. -/
theorem Refiled.of_module? {index : ℕ} {m : VF48module} (here : builder.module? unit index = some m) :
    Refiled unit index builder builder m := by
  obtain ⟨e, place, found⟩ := Option.bind_eq_some_iff.mp here
  refine ⟨(List.getElem?_eq_some_iff.mp place).1, ?_, rfl⟩
  apply List.ext_getElem?
  intro i
  rw [Builder.setModule, List.getElem?_modify]
  by_cases same : index = i
  · subst same
    simp only [place, ← found, Option.map_eq_map, Option.map_some, Function.update_eq_self, if_true]
  · simp only [same, if_false, Option.map_eq_map, Option.map_id']

theorem FindEvent_inside (settings : Settings) (unit : UnitNo) (builder : Builder) (timestamp : ℚ)
    (dup : Bool) :
    (builder.FindEvent settings unit timestamp dup).2 <
      (builder.FindEvent settings unit timestamp dup).1.fBuffer.length := by
  unfold FindEvent
  split
  · next index found => exact (List.findIdx?_eq_some_iff_findIdx_eq.mp found).1
  · rw [List.length_append, List.length_singleton]
    exact Nat.lt_succ_self _

/-- The module of a time is the one that is there, or a new one. -/
theorem FindModule_refiled {found : Builder} {index : ℕ}
    (event : builder.FindEvent settings unit timestamp true = (found, index)) :
    ∃ next, builder.FindModule settings unit timestamp = (next, index) ∧
      Refiled unit index found next ((found.module? unit index).getD (.new unit)) := by
  have inside := FindEvent_inside settings unit builder timestamp true
  rw [event] at inside
  simp only [FindModule, event]
  cases here : found.module? unit index with
  | none => exact ⟨_, rfl, .of_inside inside _⟩
  | some m => exact ⟨found, rfl, .of_module? here⟩

/-- The module of a time gets the unit, the trigger and the timestamp of a group. -/
theorem stampedModule_refiled {found : Builder} {index : ℕ} {locals : Locals}
    (null : locals.m = none)
    (event : builder.FindEvent settings unit timestamp true = (found, index)) (group : Group)
    (ts48 : BitVec 64) :
    ∃ next, stampedModule settings unit builder locals timestamp = (next, index) ∧
      Refiled unit index found (stampGroup unit group next index ts48 timestamp)
        ({ (found.module? unit index).getD (.new unit) with
          unit := unit, trigger := locals.headerTrigNo }.stampGroup
          group ts48 timestamp) := by
  obtain ⟨middle, module, refiled⟩ := FindModule_refiled event
  simp only [stampedModule, null, module, refiled.module?]
  refine ⟨_, rfl, ?_⟩
  have triggered := refiled.setModule
    { (found.module? unit index).getD (.new unit) with unit := unit, trigger := locals.headerTrigNo }
  rw [stampGroup, triggered.module?]
  exact triggered.setModule _

theorem foldlM_front (settings : Settings) (block : Block) (builder : Builder) :
    [block.header, block.low, block.high].foldlM (unpackWord settings block.unit block.group)
      (builder, .initial) =
      .ok (builder, block.front none (-1)) := by
  rw [List.foldlM_cons, unpackWord_header block.header_tag, Except.ok_bind, List.foldlM_cons,
    unpackWord_timestamp block.low_tag, Except.ok_bind, List.foldlM_cons,
    unpackWord_timestamp block.high_tag]
  rfl

/-- The first block of a unit sets the base, when bases are in use. -/
def Builder.based (settings : Settings) (block : Block) (builder : Builder) : Builder :=
  if settings.fTimestampResyncEnable && builder.timestampBases block.unit == 0 then
    { builder with timestampBases := Function.update builder.timestampBases block.unit block.stamp }
  else builder

theorem based_fBuffer (settings : Settings) (block : Block) (builder : Builder) :
    (builder.based settings block).fBuffer = builder.fBuffer := by
  rw [Builder.based]
  split_ifs <;> rfl

theorem based_clock (settings : Settings) (block : Block) (builder : Builder) :
    (builder.based settings block).clock =
      { builder.clock with
        timestampBases := Function.update builder.timestampBases block.unit
          (builder.clock.base settings block) } := by
  have same : (builder.clock.timestampBases block.unit == 0) =
    (builder.timestampBases block.unit == 0) := rfl
  rw [Builder.based, Clock.base, same]
  split_ifs
  · rfl
  · exact congrArg (Clock.mk · builder.ts)
      (Function.update_eq_self block.unit builder.timestampBases).symm

theorem based_ts48 (settings : Settings) (block : Block) (builder : Builder) :
    (builder.based settings block).clock.ts48 settings block = builder.clock.ts48 settings block := by
  rw [Clock.ts48, Clock.ts48, based_clock]

/-- The builder behind the time tables: it complains about a timestamp that is the last one of its
group. -/
def Builder.timed (settings : Settings) (block : Block) (builder : Builder) : Builder :=
  let based := builder.based settings block
  let counted := if block.stamp = based.ts block.unit block.group then based.bad else based
  { counted with
    ts := Function.update counted.ts block.unit
      (Function.update (counted.ts block.unit) block.group (based.clock.ts48 settings block)) }

theorem timed_fBuffer (settings : Settings) (block : Block) (builder : Builder) :
    (builder.timed settings block).fBuffer = builder.fBuffer := by
  rw [← based_fBuffer settings block builder, Builder.timed]
  split_ifs <;> rfl

theorem timed_clock (settings : Settings) (block : Block) (builder : Builder) :
    (builder.timed settings block).clock = builder.clock.advance settings block := by
  have counted : (builder.timed settings block).clock =
      { (builder.based settings block).clock with
        ts := Function.update (builder.based settings block).clock.ts block.unit
          (Function.update ((builder.based settings block).clock.ts block.unit) block.group
            ((builder.based settings block).clock.ts48 settings block)) } := by
    rw [Builder.timed]
    split_ifs <;> rfl
  rw [counted, based_ts48, based_clock]
  rfl

theorem timed_base (settings : Settings) (block : Block) (builder : Builder) :
    (builder.timed settings block).timestampBases block.unit = builder.clock.base settings block := by
  change (builder.timed settings block).clock.timestampBases block.unit = _
  rw [timed_clock]
  exact Function.update_self ..

/-- The timestamp of a block, once its words are read. -/
theorem applyTimestamp_front (settings : Settings) (block : Block) (builder : Builder) (chan : ℤ) :
    applyTimestamp settings block.unit block.group builder (block.front none chan) =
      (fun state : Builder × ℕ =>
        (stampGroup block.unit block.group state.1 state.2 (builder.clock.ts48 settings block)
          (builder.clock.time settings block), block.front (some state.2) chan))
      (stampedModule settings block.unit (builder.timed settings block) (block.front none chan)
        (builder.clock.time settings block)) := by
  have positive : (block.stamp == 0) = false := beq_eq_false_iff_ne.mpr block.positive
  have stamp : ((block.front none chan).timestamp1.setWidth 64 |||
    ((block.front none chan).timestamp2.setWidth 64 <<< 24) : BitVec 64) = block.stamp := rfl
  rw [Clock.time, ← based_ts48, ← timed_base]
  unfold applyTimestamp
  simp only [stamp, positive, Bool.and_false, Bool.false_and, Bool.false_eq_true, if_false]
  rfl

/-- The timestamp of a block finds the event of its time, and files the module in it. -/
theorem applyTimestamp_refiled (settings : Settings) (block : Block) (builder : Builder)
    (chan : ℤ) {found : Builder} {index : ℕ}
    (event : (builder.timed settings block).FindEvent settings block.unit
      (builder.clock.time settings block) true = (found, index)) :
    ∃ next, applyTimestamp settings block.unit block.group builder (block.front none chan) =
        (next, block.front (some index) chan) ∧
      Refiled block.unit index found next
        (block.label (builder.clock.ts48 settings block) (builder.clock.time settings block)
          ((found.module? block.unit index).getD (.new block.unit))) := by
  have null : (block.front none chan).m = none := rfl
  obtain ⟨next, stamped, refiled⟩ :=
    stampedModule_refiled null event block.group (builder.clock.ts48 settings block)
  refine ⟨_, ?_, refiled⟩
  rw [applyTimestamp_front, stamped]

/-- The first channel header of a block. -/
theorem unpackWord_first (settings : Settings) (block : Block) (builder : Builder)
    {found : Builder} {index : ℕ}
    (event : (builder.timed settings block).FindEvent settings block.unit
      (builder.clock.time settings block) true = (found, index)) :
    ∃ next, unpackWord settings block.unit block.group (builder, block.front none (-1)) block.first =
        .ok (next, block.locals index (channelOf block.group block.first)) ∧
      Refiled block.unit index found next
        ((block.label (builder.clock.ts48 settings block) (builder.clock.time settings block)
          ((found.module? block.unit index).getD (.new block.unit))).startChannel block.group
            (channelOf block.group block.first) true) := by
  obtain ⟨stamped, applied, refiled⟩ := applyTimestamp_refiled settings block builder
    (channelOf block.group block.first).val event
  have stamps : Builder.stamped settings block.unit block.group builder
      (block.front none (channelOf block.group block.first).val) = (stamped, _) :=
        (if_pos two_ne_zero).trans applied
  rw [unpackWord_channel block.first_opens.1, channelHeader_opens block.first_opens]
  change ∃ next, openChannel _ _ _
    (Builder.stamped settings block.unit block.group builder (block.front none _)).1
    (Builder.stamped settings block.unit block.group builder (block.front none _)).2 = _ ∧ _
  rw [stamps]
  exact openChannel_refiled refiled rfl

/-- `UnpackEvent` files a block in the event of its time, and changes nothing else. -/
theorem UnpackEvent_refiled (settings : Settings) (block : Block) (builder : Builder)
    {found : Builder} {index : ℕ}
    (event : (builder.timed settings block).FindEvent settings block.unit
      (builder.clock.time settings block) true = (found, index)) :
    ∃ next, builder.UnpackEvent settings block.unit block.group block.words = .ok next ∧
      Refiled block.unit index found next
        (block.file settings (builder.clock.ts48 settings block) (builder.clock.time settings block)
          ((found.module? block.unit index).getD (.new block.unit))) := by
  obtain ⟨opened, first, refiled⟩ := unpackWord_first settings block builder event
  obtain ⟨filled, ran, refiled⟩ := foldlM_unpackWord_refiled settings block refiled
    (channelOf block.group block.first) block.rest_sound
  obtain ⟨next, following, closed, refiled⟩ := trailer_refiled settings block refiled
  refine ⟨next, ?_, refiled⟩
  have words : block.words = [block.header, block.low, block.high] ++
      (block.first :: (block.rest ++ block.trailer.toList)) := rfl
  rw [UnpackEvent, words, List.foldlM_append, foldlM_front, Except.ok_bind, List.foldlM_cons, first,
    Except.ok_bind, List.foldlM_append, ran, Except.ok_bind, closed]
  rfl

end First

end PtfConverter.VF48
