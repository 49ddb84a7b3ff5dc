import PtfConverter.Soundness.VF48Block
import PtfConverter.Soundness.VF48Queue

/-! # The samples of a channel are written

A sample word adds two samples to the open channel, and past 1098 samples it only adds to their
number. As long as no channel gets more than 549 sample words between two of its headers, every
sample that a channel counts was written, from a sample word behind a header of that channel.
-/

namespace PtfConverter.VF48

/-- The sample words since the header of the channel that is open, if one is. -/
def openSamples (group : Group) (since : Option ℕ) (w : Word) : Option ℕ :=
  if tagOf w = 0xC0000000 then if headerChan group w < VF48_MAX_CHANNELS then some 0 else none
  else if tagOf w = 0x00000000 then since.map (· + 1)
  else if tagOf w = 0x40000000 ∨ tagOf w = 0x50000000 ∨ tagOf w = 0xE0000000 then none
  else since

/-- The sample words of the channel that is open behind some words of a block. -/
def openAfter (group : Group) (past : List Word) : Option ℕ := past.foldl (openSamples group) none

/-- Every sample word of a block is one of the first 549 of its channel. -/
def Modest (group : Group) (data : List Word) : Prop :=
  ∀ past w, past ++ [w] <+: data → tagOf w = 0x00000000 → ∀ n, openAfter group past = some n → n < 549

/-- The last channel header of some words names a channel. -/
def Opened (group : Group) (past : List Word) (chan : Chan) : Prop :=
  ∃ before header after, past = before ++ header :: after ∧ tagOf header = 0xC0000000 ∧
    headerChan group header = chan.val ∧ ∀ w ∈ after, tagOf w ≠ 0xC0000000

/-- The sample that a word holds for an even or an odd place. -/
def sampleOf (i : ℕ) (w : Word) : BitVec 16 :=
  if i % 2 = 0 then (w &&& 0x3FFF#32).setWidth 16 else ((w >>> 16) &&& 0x3FFF#32).setWidth 16

/-- A sample comes from a sample word of its channel, in one of some blocks. -/
def FromData (seen : List (Group × List Word)) (chan : Chan) (i : ℕ) (v : BitVec 16) : Prop :=
  ∃ block ∈ seen, ∃ past w rest, block.2 = past ++ w :: rest ∧ Opened block.1 past chan ∧
    tagOf w = 0x00000000 ∧ v = sampleOf i w

/-- The samples that a channel counts fit its array, and were written from data of the channel. -/
structure Written (seen : List (Group × List Word)) (chan : Chan) (channel : VF48channel) : Prop where
  fits : channel.numSamples ≤ VF48_MAX_SAMPLES
  written : ∀ i < channel.numSamples, ∃ v, channel.samples i = some v ∧ FromData seen chan i v

/-- How far a channel is: complete or not, and the number of its samples. -/
def VF48channel.progress (channel : VF48channel) : Bool × ℕ := (channel.complete, channel.numSamples)

/-- The channels of a module are written from data. -/
def VF48module.Written (seen : List (Group × List Word)) (m : VF48module) : Prop :=
  ∀ chan, VF48.Written seen chan (m.channels chan)

theorem openAfter_concat (group : Group) (past : List Word) (w : Word) :
    openAfter group (past ++ [w]) = openSamples group (openAfter group past) w := List.foldl_concat ..

theorem Modest.of_concat {group : Group} {past : List Word} {w : Word}
    (modest : Modest group (past ++ [w])) :
    Modest group past := by
  intro before v front sample n opened
  exact modest before v (front.trans (List.prefix_append past [w])) sample n opened

theorem Opened.concat {group : Group} {past : List Word} {chan : Chan}
    (opened : Opened group past chan) {w : Word} (inside : tagOf w ≠ 0xC0000000) :
    Opened group (past ++ [w]) chan := by
  obtain ⟨before, header, after, rfl, tag, names, rest⟩ := opened
  refine ⟨before, header, after ++ [w], ?_, tag, names, fun v member => ?_⟩
  · rw [List.append_assoc, List.cons_append]
  · obtain earlier | last := List.mem_append.mp member
    · exact rest v earlier
    · rw [List.mem_singleton.mp last]
      exact inside

/-- What comes from some blocks comes from more of them, and from longer ones. -/
theorem FromData.concat {seen : List (Group × List Word)} {group : Group} {past : List Word}
    {chan : Chan} {i : ℕ} {v : BitVec 16} (source : FromData (seen ++ [(group, past)]) chan i v)
    (more : List Word) :
    FromData (seen ++ [(group, past ++ more)]) chan i v := by
  obtain ⟨block, member, before, w, rest, data, opened, sample, value⟩ := source
  obtain earlier | last := List.mem_append.mp member
  · exact ⟨block, List.mem_append_left _ earlier, before, w, rest, data, opened, sample, value⟩
  · obtain rfl := List.mem_singleton.mp last
    refine ⟨(group, past ++ more), List.mem_append_right _ (List.mem_singleton.mpr rfl), before, w,
      rest ++ more, ?_,
      opened, sample, value⟩
    simp only at data ⊢
    rw [data, List.append_assoc, List.cons_append]

theorem FromData.mono {seen more : List (Group × List Word)} {chan : Chan} {i : ℕ} {v : BitVec 16}
    (source : FromData seen chan i v) (within : seen ⊆ more) : FromData more chan i v := by
  obtain ⟨block, member, rest⟩ := source
  exact ⟨block, within member, rest⟩

theorem Written.imp {seen more : List (Group × List Word)} {chan : Chan} {channel : VF48channel}
    (written : Written seen chan channel)
    (weaker : ∀ i v, FromData seen chan i v → FromData more chan i v) :
    Written more chan channel := by
  refine ⟨written.fits, fun i inside => ?_⟩
  obtain ⟨v, stored, source⟩ := written.written i inside
  exact ⟨v, stored, weaker i v source⟩

theorem Written.congr {seen : List (Group × List Word)} {chan : Chan} {channel next : VF48channel}
    (written : Written seen chan channel) (count : next.numSamples = channel.numSamples)
    (samples : next.samples = channel.samples) : Written seen chan next := by
  obtain ⟨fits, stored⟩ := written
  refine ⟨by rwa [count], fun i inside => ?_⟩
  rw [count] at inside
  rw [samples]
  exact stored i inside

/-- A channel without samples has nothing to show. -/
theorem Written.of_empty (seen : List (Group × List Word)) (chan : Chan) {channel : VF48channel}
    (empty : channel.numSamples = 0) : Written seen chan channel := by
  refine ⟨by rw [empty]; exact Nat.zero_le _, fun i inside => ?_⟩
  rw [empty] at inside
  cases inside

/-- Two more samples from a sample word. -/
theorem Written.sample {seen : List (Group × List Word)} {group : Group} {past : List Word}
    {chan : Chan} {channel : VF48channel}
    (written : Written (seen ++ [(group, past)]) chan channel) {w : Word}
    (opened : Opened group past chan) (tag : tagOf w = 0x00000000)
    (even : channel.numSamples % 2 = 0) (room : channel.numSamples + 2 ≤ VF48_MAX_SAMPLES) :
    Written (seen ++ [(group, past ++ [w])]) chan
      { channel with
        samples := Function.update
          (Function.update channel.samples channel.numSamples (some ((w &&& 0x3FFF#32).setWidth 16)))
          (channel.numSamples + 1) (some (((w >>> 16) &&& 0x3FFF#32).setWidth 16))
        numSamples := channel.numSamples + 2 } := by
  have here (i : ℕ) : FromData (seen ++ [(group, past ++ [w])]) chan i (sampleOf i w) :=
    ⟨_, List.mem_append_right _ (List.mem_singleton.mpr rfl), past, w, [], rfl, opened, tag, rfl⟩
  refine ⟨room, fun i inside => ?_⟩
  simp only at inside ⊢
  obtain before | rfl | rfl : i < channel.numSamples ∨ i = channel.numSamples ∨
    i = channel.numSamples + 1 := by omega
  · obtain ⟨v, stored, source⟩ := written.written i before
    refine ⟨v, ?_, source.concat [w]⟩
    rw [Function.update_of_ne (by omega), Function.update_of_ne (by omega), stored]
  · refine ⟨_, ?_, here _⟩
    rw [Function.update_of_ne (by omega), Function.update_self, sampleOf, if_pos even]
  · refine ⟨_, ?_, here _⟩
    rw [Function.update_self, sampleOf, if_neg (by omega)]

namespace Builder

variable {unit : UnitNo} {Q : VF48module → Prop} {builder : Builder} {locals : Locals} {index : ℕ}
  {m : VF48module} {chan : Chan}

/-- Every module of a unit in the buffer has a property. -/
def Every (unit : UnitNo) (Q : VF48module → Prop) (builder : Builder) : Prop :=
  ∀ e ∈ builder.fBuffer, ∀ m, e.modules unit = some m → Q m

theorem Every.get (every : builder.Every unit Q) (here : builder.module? unit index = some m) :
    Q m := by
  obtain ⟨e, place, found⟩ := Option.bind_eq_some_iff.mp here
  exact every e (List.mem_of_getElem? place) m found

theorem Every.imp {R : VF48module → Prop} (every : builder.Every unit Q) (weaker : ∀ m, Q m → R m) :
    builder.Every unit R := fun e member m found => weaker m (every e member m found)

/-- An event behind `setModule` is one in front of it, or one with the new module. -/
private theorem mem_setModule {unit : UnitNo} {e : VF48event}
    (member : e ∈ (builder.setModule unit index m).fBuffer) :
    e ∈ builder.fBuffer ∨
      ∃ old ∈ builder.fBuffer,
      e = { old with modules := Function.update old.modules unit (some m) } := by
  obtain ⟨i, place⟩ := List.mem_iff_getElem?.mp member
  rw [setModule, List.getElem?_modify] at place
  obtain ⟨old, found, same⟩ := Option.map_eq_some_iff.mp place
  have held := List.mem_of_getElem? found
  split_ifs at same
  · exact .inr ⟨old, held, same.symm⟩
  · exact .inl (same ▸ held)

theorem Every.setModule (every : builder.Every unit Q) (index : ℕ) (holds : Q m) :
    (builder.setModule unit index m).Every unit Q := by
  intro e member other found
  obtain earlier | ⟨old, held, rfl⟩ := mem_setModule member
  · exact every e earlier other found
  · change Function.update old.modules unit (some m) unit = some other at found
    rw [Function.update_self] at found
    cases found
    exact holds

/-- A new event has no modules. -/
theorem Every.newEvent (every : builder.Every unit Q) (timestamp : ℚ) :
    Every unit Q { builder with
      fEventNo := builder.fEventNo + 1
      fBuffer := builder.fBuffer ++ [.new (builder.fEventNo + 1) timestamp] } := by
  intro e member m found
  obtain earlier | last := List.mem_append.mp member
  · exact every e earlier m found
  · rw [List.mem_singleton.mp last] at found
    cases found

/-- The updates that find a module keep what depends on channels only. -/
theorem Every.stamping (new : Q (.new unit))
    (relabel : ∀ old m : VF48module, m.channels = old.channels → Q old → Q m) :
    Stamping unit (Every unit Q) where
  count := fun _ _ every => every
  times := fun _ _ _ every => every
  newEvent := fun _ timestamp every => every.newEvent timestamp
  newModule := fun _ index every => every.setModule index new
  relabel := fun _ index _ _ every here same =>
    every.setModule index (relabel _ _ same (every.get here))

/-- The words of a unit leave the modules of the others alone. -/
theorem Every.stable {other : UnitNo} (ne : other ≠ unit) : Stable unit (Every other Q) := by
  have setModule (builder : Builder) (index : ℕ) (m : VF48module) (every : Every other Q builder) :
      Every other Q (builder.setModule unit index m) := by
    intro e member found held
    obtain earlier | ⟨old, mine, rfl⟩ := mem_setModule member
    · exact every e earlier found held
    · change Function.update old.modules unit (some m) other = some found at held
      rw [Function.update_of_ne ne] at held
      exact every old mine found held
  exact ⟨⟨fun _ _ every => every, fun _ _ _ every => every,
    fun _ timestamp every => every.newEvent timestamp,
    fun builder index every => setModule builder index _ every, fun builder index _ m every _ _ =>
      setModule builder index m every⟩,
    setModule⟩

theorem stamped_chan (settings : Settings) (unit : UnitNo) (cgroup : Group) (builder : Builder)
    (locals : Locals) :
    (stamped settings unit cgroup builder locals).2.chan = locals.chan := by
  unfold stamped applyTimestamp
  simp only
  split_ifs <;> rfl

/-- The channel that a data word goes to. -/
def current? (builder : Builder) (unit : UnitNo) (locals : Locals) : Option VF48channel :=
  (builder.target unit locals).map fun target => target.2.1.channels target.2.2

theorem current?_setModule (target : builder.target unit locals = some (index, m, chan))
    (next : VF48module) :
    (builder.setModule unit index next).current? unit locals = some (next.channels chan) := by
  obtain ⟨pointer, here, inside⟩ := target_eq_some_iff.mp target
  have after : (builder.setModule unit index next).target unit locals = some (index, next, chan) :=
    target_eq_some_iff.mpr ⟨pointer, module?_setModule here, inside⟩
  rw [current?, after, Option.map_some]

end Builder

/-- Behind some words of a block, all counted samples are written, and the current channel is the
one that the words opened last, with their samples, unless it is complete. -/
structure Filing (unit : UnitNo) (seen : List (Group × List Word)) (group : Group) (past : List Word)
    (state : Builder × Locals) : Prop where
  every : state.1.Every unit (VF48module.Written (seen ++ [(group, past)]))
  counted : ∀ n, openAfter group past = some n →
    ∃ channel, state.1.current? unit state.2 = some channel ∧ channel.complete = false ∧
      channel.numSamples = 2 * n
  closed : openAfter group past = none → ∀ channel, state.1.current? unit state.2 = some channel →
    channel.complete = true
  opened : ∀ chan, channel? state.2.chan = some chan → Opened group past chan

namespace Filing

open Builder

variable {settings : Settings} {unit : UnitNo} {seen : List (Group × List Word)} {group : Group}
  {past : List Word} {builder next : Builder} {locals following : Locals} {w : Word}

theorem grow {builder : Builder}
    (every : builder.Every unit (VF48module.Written (seen ++ [(group, past)]))) (w : Word) :
    builder.Every unit (VF48module.Written (seen ++ [(group, past ++ [w])])) :=
  every.imp fun _ written chan => (written chan).imp fun _ _ source => source.concat [w]

/-- A word that opens and closes no channel and adds no samples keeps all of it. -/
theorem pass (filing : Filing unit seen group past (builder, locals))
    (outside : tagOf w ≠ 0xC0000000)
    (still : openSamples group (openAfter group past) w = openAfter group past)
    (every : next.Every unit (VF48module.Written (seen ++ [(group, past)])))
    (same : (next.current? unit following).map VF48channel.progress =
      (builder.current? unit locals).map VF48channel.progress)
    (chan : following.chan = locals.chan) :
    Filing unit seen group (past ++ [w]) (next, following) := by
  refine ⟨grow every w, fun n opened => ?_, fun closed channel here => ?_, fun c inside => ?_⟩
  · rw [openAfter_concat, still] at opened
    obtain ⟨channel, here, incomplete, count⟩ := filing.counted n opened
    rw [here, Option.map_some] at same
    obtain ⟨after, there, progress⟩ := Option.map_eq_some_iff.mp same
    obtain ⟨complete, number⟩ := Prod.mk.inj progress
    exact ⟨after, there, complete.trans incomplete, number.trans count⟩
  · rw [openAfter_concat, still] at closed
    rw [here, Option.map_some] at same
    obtain ⟨before, there, progress⟩ := Option.map_eq_some_iff.mp same.symm
    rw [← (Prod.mk.inj progress).1]
    exact filing.closed closed before there
  · rw [chan] at inside
    exact (filing.opened c inside).concat outside

/-- A word behind which the current channel is complete, or there is none, closes the channel. -/
theorem close (filing : Filing unit seen group past (builder, locals)) (outside : tagOf w ≠ 0xC0000000)
    (ends : ∀ since, openSamples group since w = none)
    (every : next.Every unit (VF48module.Written (seen ++ [(group, past)])))
    (complete : ∀ channel, next.current? unit following = some channel → channel.complete = true)
    (chan : following.chan = locals.chan) : Filing unit seen group (past ++ [w]) (next, following) := by
  refine ⟨grow every w, fun n opened => ?_, fun _ => complete, fun c inside => ?_⟩
  · rw [openAfter_concat, ends] at opened
    cases opened
  · rw [chan] at inside
    exact (filing.opened c inside).concat outside

theorem bad (filing : Filing unit seen group past (builder, locals)) :
    Filing unit seen group past (builder.bad, locals) :=
  ⟨filing.every, filing.counted, filing.closed, filing.opened⟩

theorem openAfter_header (tag : tagOf w = 0xC0000000) :
    openAfter group (past ++ [w]) = if headerChan group w < VF48_MAX_CHANNELS then
      some 0 else none := by
  rw [openAfter_concat, openSamples, if_pos tag]

/-- A channel header past the last channel closes the channel. -/
private theorem header_beyond (filing : Filing unit seen group past (builder, locals))
    (tag : tagOf w = 0xC0000000) (outside : ¬ headerChan group w < VF48_MAX_CHANNELS) :
    Filing unit seen group (past ++ [w]) (builder.bad, { locals with chan := headerChan group w }) := by
  have since : openAfter group (past ++ [w]) = none := (openAfter_header tag).trans (if_neg outside)
  have beyond : channel? (headerChan group w : ℤ) = none := by
    rw [channel?, dif_neg]
    rintro ⟨_, small⟩
    exact outside (by exact_mod_cast small)
  have nowhere : builder.bad.current? unit { locals with chan := headerChan group w } = none := by
    rw [current?, Option.map_eq_none_iff, Option.eq_none_iff_forall_ne_some]
    rintro ⟨index, m, chan⟩ target
    have found := (target_eq_some_iff.mp target).2.2
    rw [beyond] at found
    cases found
  refine ⟨grow filing.every w, fun n opened => ?_, fun _ channel here => ?_, fun c named => ?_⟩
  · rw [since] at opened
    cases opened
  · rw [nowhere] at here
    cases here
  · rw [beyond] at named
    cases named

/-- A channel header opens its channel, if it is one of the 48. -/
theorem header (filing : Filing unit seen group past (builder, locals))
    (tag : tagOf w = 0xC0000000) {state : Builder × Locals}
    (stepped : channelHeader settings unit group builder locals w = .ok state) :
    Filing unit seen group (past ++ [w]) state := by
  rw [channelHeader_eq_dite] at stepped
  split_ifs at stepped with inside
  · have since : openAfter group (past ++ [w]) = some 0 := (openAfter_header tag).trans (if_pos inside)
    obtain ⟨cgroup, names⟩ : ∃ cgroup,
      cgroup = (⟨headerGroup group w, group_of_channel inside⟩ : Group) := ⟨_, rfl⟩
    obtain ⟨chan, place⟩ : ∃ chan, chan = (⟨headerChan group w, inside⟩ : Chan) := ⟨_, rfl⟩
    rw [← names, ← place] at stepped
    have number : headerChan group w = chan.val := by rw [place]
    obtain ⟨index, m, pointer, here, rfl⟩ := openChannel_ok stepped
    have stamping : Stamping unit (Every unit (VF48module.Written (seen ++ [(group, past ++ [w])]))) :=
      Every.stamping (fun chan => .of_empty _ chan rfl) (fun old m same written chan => by
        rw [same]; exact written chan)
    have every : (stamped settings unit cgroup builder { locals with
        chan := headerChan group w }).1.Every unit
        (VF48module.Written (seen ++ [(group, past ++ [w])])) :=
          stamping.stamped settings cgroup (grow filing.every w)
    have current := stamped_chan settings unit cgroup builder { locals with chan := headerChan group w }
    simp only [number] at current here pointer every ⊢
    generalize stamped settings unit cgroup builder { locals with chan := chan.val } =
      result at current here pointer every ⊢
    have found : channel? result.2.chan = some chan := by rw [current, channel?_val]
    have target : (if (m.channels chan).numSamples ≠ 0 then result.1.bad else result.1).target unit
        { result.2 with timestampCount := 0, timestampFlag := false } = some (index, m, chan) := by
      split_ifs <;> exact target_eq_some_iff.mpr ⟨pointer, here, found⟩
    have opens := current?_setModule target (m.startChannel cgroup chan result.2.timestampFlag)
    have empty : (m.startChannel cgroup chan result.2.timestampFlag).channels chan =
        { m.channels chan with complete := false, numSamples := 0, channel := chan.val } :=
          Function.update_self ..
    refine ⟨?_, fun n opened => ?_, fun closed => ?_, fun c named => ?_⟩
    · have written : (m.startChannel cgroup chan result.2.timestampFlag).Written
        (seen ++ [(group, past ++ [w])]) := by
        intro c
        obtain rfl | ne := eq_or_ne c chan
        · rw [empty]
          exact .of_empty _ _ rfl
        · rw [show (m.startChannel cgroup chan result.2.timestampFlag).channels c = m.channels c from
            Function.update_of_ne ne ..]
          exact every.get here c
      split_ifs <;> exact every.setModule index written
    · obtain rfl := Option.some.inj (since.symm.trans opened)
      exact ⟨_, opens, by rw [empty], by rw [empty]⟩
    · rw [since] at closed
      cases closed
    · obtain rfl := Option.some.inj (found.symm.trans named)
      exact ⟨past, w, [], rfl, tag, number, fun v member => by cases member⟩
  · cases stepped
    exact filing.header_beyond tag inside

theorem openAfter_sample (tag : tagOf w = 0x00000000) :
    openAfter group (past ++ [w]) = (openAfter group past).map (· + 1) := by
  rw [openAfter_concat, openSamples, if_neg (by rw [tag]; decide), if_pos tag]

/-- A sample word in front of which the channel is closed is only counted. -/
private theorem sample_closed (filing : Filing unit seen group past (builder, locals))
    (tag : tagOf w = 0x00000000) (count : openAfter group past = none) :
    Filing unit seen group (past ++ [w]) (builder.sampleWord unit locals w, locals) := by
  have outside : tagOf w ≠ 0xC0000000 := by rw [tag]; decide
  have since : openAfter group (past ++ [w]) = none := by
    rw [openAfter_sample tag, count, Option.map_none]
  have closed := filing.closed count
  have skipped (next : Builder) (every : next.Every unit (VF48module.Written (seen ++ [(group, past)])))
      (complete : ∀ channel, next.current? unit locals = some channel → channel.complete = true) :
      Filing unit seen group (past ++ [w]) (next, locals) := by
    refine ⟨grow every w, fun n some => ?_, fun _ => complete,
      fun c named => (filing.opened c named).concat outside⟩
    rw [since] at some
    cases some
  unfold sampleWord
  cases target : builder.target unit locals with
  | none => exact skipped _ filing.every fun channel here => closed channel here
  | some place =>
    obtain ⟨index, m, chan⟩ := place
    have complete : (m.channels chan).complete = true :=
      closed _ (by rw [current?, target, Option.map_some])
    have written : m.Written (seen ++ [(group, past)]) :=
      filing.every.get (target_eq_some_iff.mp target).2.1
    simp only [complete, if_true]
    refine skipped _ (filing.every.setModule (m := { m with error := 1 }) index written)
      fun channel here => ?_
    have after := current?_setModule target { m with error := 1 }
    obtain rfl := Option.some.inj (here.symm.trans after)
    exact complete

/-- A sample word adds two samples to an open channel. -/
theorem sample (filing : Filing unit seen group past (builder, locals)) (tag : tagOf w = 0x00000000)
    (few : ∀ n, openAfter group past = some n → n < 549) :
    Filing unit seen group (past ++ [w]) (builder.sampleWord unit locals w, locals) := by
  cases count : openAfter group past with
  | none => exact filing.sample_closed tag count
  | some n =>
    have outside : tagOf w ≠ 0xC0000000 := by rw [tag]; decide
    have since : openAfter group (past ++ [w]) = some (n + 1) := by
      rw [openAfter_sample tag, count, Option.map_some]
    obtain ⟨channel, here, incomplete, number⟩ := filing.counted n count
    obtain ⟨⟨index, m, chan⟩, target, rfl⟩ := Option.map_eq_some_iff.mp here
    simp only at incomplete number
    have small := few n count
    have room : (m.channels chan).numSamples < VF48_MAX_SAMPLES - 2 := by
      change _ < 1098
      omega
    obtain ⟨_, found, named⟩ := target_eq_some_iff.mp target
    have written := filing.every.get found
    have stored := (written chan).sample (filing.opened chan named) tag (by omega)
      (by change _ ≤ 1100; omega)
    generalize shape : ({ m.channels chan with
      samples := _, numSamples := (m.channels chan).numSamples + 2 } : VF48channel) = filled at stored
    have stepped : builder.sampleWord unit locals w =
        builder.setModule unit index (m.setChannel chan filled) := by
      unfold sampleWord
      simp only [target, if_neg (Bool.not_eq_true _ ▸ incomplete), if_pos room, ← shape]
    have after := current?_setModule target (m.setChannel chan filled)
    rw [VF48module.setChannel_channels] at after
    rw [stepped]
    refine ⟨?_, fun k some => ?_, fun none => ?_, fun c named => (filing.opened c named).concat outside⟩
    · refine (grow filing.every w).setModule index fun c => ?_
      obtain rfl | ne := eq_or_ne c chan
      · rw [VF48module.setChannel_channels]
        exact stored
      · rw [VF48module.setChannel_other _ ne]
        exact (written c).imp fun _ _ source => source.concat [w]
    · obtain rfl := Option.some.inj (since.symm.trans some)
      refine ⟨filled, after, by rw [← shape]; exact incomplete, ?_⟩
      rw [← shape]
      change (m.channels chan).numSamples + 2 = 2 * (n + 1)
      omega
    · rw [since] at none
      cases none

/-- A word that completes its channel in the module keeps the samples. -/
private theorem complete_channel {m : VF48module} {chan : Chan} {channel : VF48channel}
    (written : m.Written seen) (count : channel.numSamples = (m.channels chan).numSamples)
    (samples : channel.samples = (m.channels chan).samples) :
    (m.setChannel chan channel).Written seen := by
  intro c
  obtain rfl | ne := eq_or_ne c chan
  · rw [VF48module.setChannel_channels]
    exact (written c).congr count samples
  · rw [VF48module.setChannel_other _ ne]
    exact written c

/-- Without a channel, a word is only counted. -/
private theorem stray (filing : Filing unit seen group past (builder, locals))
    (outside : tagOf w ≠ 0xC0000000) (ends : ∀ since, openSamples group since w = none)
    (target : builder.target unit locals = none) :
    Filing unit seen group (past ++ [w]) (builder.bad, locals) := by
  refine filing.close outside ends filing.every (fun channel here => ?_) rfl
  rw [show builder.bad.current? unit locals = builder.current? unit locals from rfl, current?,
    target] at here
  cases here

/-- A module whose current channel is complete takes the place of the old one. -/
private theorem replace (filing : Filing unit seen group past (builder, locals))
    (outside : tagOf w ≠ 0xC0000000) (ends : ∀ since, openSamples group since w = none)
    {index : ℕ} {m after : VF48module} {chan : Chan}
    (target : builder.target unit locals = some (index, m, chan))
    (written : after.Written (seen ++ [(group, past)]))
    (complete : (after.channels chan).complete = true) (complaints : ℕ) :
    Filing unit seen group (past ++ [w])
      ({ builder.setModule unit index after with fBadDataCount := complaints }, locals) := by
  refine filing.close outside ends (filing.every.setModule index written) (fun channel here => ?_) rfl
  obtain rfl := Option.some.inj (here.symm.trans (current?_setModule target after))
  exact complete

theorem time (filing : Filing unit seen group past (builder, locals)) (outside : tagOf w ≠ 0xC0000000)
    (ends : ∀ since, openSamples group since w = none) :
    Filing unit seen group (past ++ [w]) (builder.timeWord unit locals w, locals) := by
  unfold timeWord
  cases target : builder.target unit locals with
  | none => exact filing.stray outside ends target
  | some place =>
    obtain ⟨index, m, chan⟩ := place
    have written := filing.every.get (target_eq_some_iff.mp target).2.1
    refine filing.replace outside ends target ?_ ?_ _
    · exact complete_channel written rfl rfl
    · rw [VF48module.setChannel_channels]

theorem charge (filing : Filing unit seen group past (builder, locals)) (outside : tagOf w ≠ 0xC0000000)
    (ends : ∀ since, openSamples group since w = none) :
    Filing unit seen group (past ++ [w]) (builder.chargeWord unit locals w, locals) := by
  unfold chargeWord
  cases target : builder.target unit locals with
  | none => exact filing.stray outside ends target
  | some place =>
    obtain ⟨index, m, chan⟩ := place
    have written := filing.every.get (target_eq_some_iff.mp target).2.1
    refine filing.replace outside ends target ?_ ?_ _
    · split_ifs
      · exact complete_channel (m := { m with suppressMask := _ }) written rfl rfl
      · exact complete_channel written rfl rfl
    · rw [VF48module.setChannel_channels]

/-- A module whose current channel is complete may become complete itself; its channels all fit. -/
private theorem finish (filing : Filing unit seen group past (builder, locals))
    (outside : tagOf w ≠ 0xC0000000) (ends : ∀ since, openSamples group since w = none)
    {index : ℕ} {m : VF48module} (closed : VF48module) {chan : Chan}
    (target : builder.target unit locals = some (index, m, chan))
    (written : closed.Written (seen ++ [(group, past)]))
    (complete : (closed.channels chan).complete = true) :
    Filing unit seen group (past ++ [w])
      (if closed.completeGroupMask = settings.fGroupEnabled unit then
        ({ builder.setModule unit index (closed.CompleteModule settings).2 with
            fBadDataCount := builder.fBadDataCount + (closed.CompleteModule settings).1 },
            { locals with m := none })
      else (builder.setModule unit index closed, locals)) := by
  split_ifs
  · have kept : (closed.CompleteModule settings).2.Written (seen ++ [(group, past)]) := by
      intro c
      rw [(Kept.CompleteModule settings closed).channels c (written c).fits]
      exact written c
    refine filing.close outside ends (filing.every.setModule index kept) (fun channel here => ?_) rfl
    cases here
  · exact filing.replace outside ends target written complete _

/-- A trailer completes its channel. -/
theorem trailer (filing : Filing unit seen group past (builder, locals))
    (outside : tagOf w ≠ 0xC0000000) (ends : ∀ since, openSamples group since w = none) :
    Filing unit seen group (past ++ [w]) (builder.trailerWord settings unit locals w) := by
  unfold trailerWord
  cases target : builder.target unit locals with
  | none => exact filing.stray outside ends target
  | some place =>
    obtain ⟨index, m, chan⟩ := place
    have written := filing.every.get (target_eq_some_iff.mp target).2.1
    have closed : (m.setChannel chan { m.channels chan with complete := true }).Written
        (seen ++ [(group, past)]) :=
      complete_channel written rfl rfl
    have complete : ((m.setChannel chan { m.channels chan with complete := true }).channels
        chan).complete = true := by
      rw [VF48module.setChannel_channels]
    by_cases matching : w &&& 0x00FFFFFF#32 = locals.headerTrigNo
    · simp only [decide_eq_true matching, if_true]
      exact filing.finish outside ends _ target closed complete
    · simp only [decide_eq_false matching, Bool.false_eq_true, if_false]
      exact filing.bad.finish outside ends { m.setChannel chan _ with
        error := 1 } target closed complete

theorem unexpected (filing : Filing unit seen group past (builder, locals))
    (outside : tagOf w ≠ 0xC0000000)
    (still : openSamples group (openAfter group past) w = openAfter group past)
    (passed : builder.unexpectedWord unit locals w = .ok next) :
    Filing unit seen group (past ++ [w]) (next, locals) := by
  unfold unexpectedWord at passed
  split_ifs at passed
  · cases passed
    exact filing.pass outside still filing.every rfl rfl
  · split at passed
    · cases passed
      exact filing.pass outside still filing.every rfl rfl
    · next index pointer =>
      split at passed
      · next chan m named here =>
        cases passed
        have target : builder.target unit locals = some (index, m, chan) :=
          target_eq_some_iff.mpr ⟨pointer, here, named⟩
        have written : m.Written (seen ++ [(group, past)]) := filing.every.get here
        refine filing.pass outside still
          (filing.every.setModule (m := { m with error := 1 }) index written) ?_ rfl
        have after := current?_setModule target { m with error := 1 }
        rw [show (builder.setModule unit index { m with error := 1 }).bad.current? unit locals =
            (builder.setModule unit index { m with error := 1 }).current? unit locals from rfl,
          after, current?, target]
        rfl
      · cases passed

/-- Every word of a modest block keeps the samples written. -/
theorem word (filing : Filing unit seen group past (builder, locals))
    (few : tagOf w = 0x00000000 → ∀ n, openAfter group past = some n → n < 549)
    {state : Builder × Locals}
    (stepped : unpackWord settings unit group (builder, locals) w = .ok state) :
    Filing unit seen group (past ++ [w]) state := by
  have ends (kind : tagOf w = 0x40000000 ∨ tagOf w = 0x50000000 ∨ tagOf w = 0xE0000000) :
      tagOf w ≠ 0xC0000000 ∧ ∀ since, openSamples group since w = none := by
    have others : tagOf w ≠ 0xC0000000 ∧ tagOf w ≠ 0x00000000 := by
      rcases kind with tag | tag | tag <;> rw [tag] <;> decide
    refine ⟨others.1, fun since => ?_⟩
    rw [openSamples, if_neg others.1, if_neg others.2, if_pos kind]
  have still (outside : tagOf w ≠ 0xC0000000) (sample : tagOf w ≠ 0x00000000)
      (inside : ¬ (tagOf w = 0x40000000 ∨ tagOf w = 0x50000000 ∨ tagOf w = 0xE0000000)) :
      openSamples group (openAfter group past) w = openAfter group past := by
    rw [openSamples, if_neg outside, if_neg sample, if_neg inside]
  unfold unpackWord at stepped
  simp only at stepped
  split_ifs at stepped with marker header stamp channel sample time charge trailer
  · cases stepped
    have outside : tagOf w ≠ 0xC0000000 := by rw [marker]; decide
    exact filing.pass outside
      (still outside (by rw [marker]; decide) (by rw [marker]; decide)) filing.every rfl rfl
  · cases stepped
    have outside : tagOf w ≠ 0xC0000000 := by rw [header]; decide
    exact filing.pass outside
      (still outside (by rw [header]; decide) (by rw [header]; decide)) filing.every rfl rfl
  · cases stepped
    have outside : tagOf w ≠ 0xC0000000 := by rw [stamp]; decide
    have same := still outside (by rw [stamp]; decide) (by rw [stamp]; decide)
    unfold timestampWord
    simp only
    split_ifs
    all_goals exact filing.pass outside same filing.every rfl rfl
  · exact filing.header channel stepped
  · cases stepped
    exact filing.sample sample (few sample)
  · cases stepped
    exact filing.time (ends (.inl time)).1 (ends (.inl time)).2
  · cases stepped
    exact filing.charge (ends (.inr (.inl charge))).1 (ends (.inr (.inl charge))).2
  · cases stepped
    exact filing.trailer (ends (.inr (.inr trailer))).1 (ends (.inr (.inr trailer))).2
  · obtain ⟨following, passed, done⟩ := Except.bind_eq_ok_iff.mp stepped
    cases done
    exact filing.unexpected channel
      (still channel sample (by simp only [time, charge, trailer, or_self, not_false_eq_true]))
      passed

end Filing

/-- A modest block keeps the samples of its unit written. -/
theorem UnpackEvent_written {settings : Settings} {unit : UnitNo}
    {seen : List (Group × List Word)} {group : Group} {data : List Word} {builder next : Builder}
    (every : builder.Every unit (VF48module.Written seen)) (modest : Modest group data)
    (unpacked : builder.UnpackEvent settings unit group data = .ok next) :
    next.Every unit (VF48module.Written (seen ++ [(group, data)])) := by
  obtain ⟨⟨_, locals⟩, ran, done⟩ := Except.bind_eq_ok_iff.mp unpacked
  cases done
  have start : Filing unit seen group [] (builder, .initial) := by
    refine ⟨?_, fun n opened => ?_, fun _ channel here => ?_, fun chan named => ?_⟩
    · exact every.imp fun _ written chan => (written chan).imp fun _ _ source =>
        source.mono (List.subset_append_left _ _)
    · cases opened
    · cases here
    · cases named
  have filing := Except.foldlM_keeps (fun past state => Modest group past →
    Filing unit seen group past state)
    (fun {past state w following} kept stepped modest =>
      (kept modest.of_concat).word (modest past w (List.prefix_refl _)) stepped) (fun _ =>
        start) ran modest
  exact filing.every

/-- All blocks so far are modest. -/
def AllModest (blocks : List (UnitNo × Group × List Word)) : Prop :=
  ∀ block ∈ blocks, Modest block.2.1 block.2.2

/-- The modules of every unit are written from its blocks. -/
def Builder.Written (blocks : List (UnitNo × Group × List Word)) (builder : Builder) : Prop :=
  ∀ unit, builder.Every unit (VF48module.Written (blocks.ofIndex unit))

/-- A modest block of any unit keeps the samples of all units written. -/
private theorem deliver_written {settings : Settings} {given : List (UnitNo × Group × List Word)}
    {block : UnitNo × Group × List Word} {builder next : Builder}
    (kept : AllModest given → builder.Written given)
    (delivered : builder.deliver settings block = .ok next) :
    AllModest (given ++ [block]) → next.Written (given ++ [block]) := by
  intro modest unit
  have written := kept (fun other member => modest other (List.mem_append_left _ member)) unit
  obtain ⟨other, group, data⟩ := block
  rw [List.ofIndex_append]
  obtain rfl | ne := eq_or_ne other unit
  · rw [List.ofIndex_cons_self, List.ofIndex_nil]
    exact UnpackEvent_written written
      (modest _ (List.mem_append_right _ (List.mem_singleton.mpr rfl))) delivered
  · rw [List.ofIndex_cons_ne ne, List.ofIndex_nil, List.append_nil]
    exact (Builder.Every.stable ne.symm).UnpackEvent written delivered

/-- `GetEvent` moves modules and changes none. -/
private theorem GetEvent_every {settings : Settings} {builder : Builder} {unit : UnitNo}
    {Q : VF48module → Prop} (every : builder.Every unit Q) (flush : Bool) :
    (builder.GetEvent settings flush).1.Every unit Q ∧
      ∀ e ∈ (builder.GetEvent settings flush).2.toList, ∀ m, e.modules unit = some m → Q m := by
  have same := Builder.GetEvent_map (VF48event.tryComplete_modules settings) builder flush
  have each (e : VF48event)
      (member : e ∈ (builder.GetEvent settings flush).2.toList ++
        (builder.GetEvent settings flush).1.fBuffer)
      (m : VF48module) (found : e.modules unit = some m) : Q m := by
    have listed := List.mem_map_of_mem (f := VF48event.modules) member
    rw [same] at listed
    obtain ⟨old, held, modules⟩ := List.mem_map.mp listed
    exact every old held m (by rw [modules]; exact found)
  exact ⟨fun e member => each e (List.mem_append_right _ member),
    fun e member => each e (List.mem_append_left _ member)⟩

/-- What was seen so far: all waiting modules, and those of the returned events, are
written from the blocks. -/
private structure Shown (sights : List Sight) (sorted : Sorted) : Prop where
  waiting : sorted.builder.Written (handed sights)
  given : ∀ e ∈ returned sights, ∀ unit m, e.modules unit = some m →
    m.Written ((handed sights).ofIndex unit)

private theorem Shown.call {sights out : List Sight} {self next : Sorted} {c : Call}
    (kept : AllModest (handed sights) → Shown sights self) (ran : self.call c = .ok (next, out)) :
    AllModest (handed (sights ++ out)) → Shown (sights ++ out) next := by
  intro modest
  rw [handed_append] at modest
  obtain ⟨waiting, given⟩ := kept fun block member => modest block (List.mem_append_left _ member)
  cases c with
  | UnpackStream unit data =>
    obtain ⟨⟨⟨sorters, builder⟩, blocks⟩, streamed, done⟩ := Except.bind_eq_ok_iff.mp ran
    cases done
    have listed : handed (blocks.map fun block => Sight.handed block.1 block.2.1 block.2.2) = blocks :=
      Sight.handed?_ofBlock blocks
    have silent : returned (blocks.map fun block => Sight.handed block.1 block.2.1 block.2.2) = [] :=
      returned_blocks blocks
    rw [listed] at modest
    refine ⟨?_, ?_⟩
    · rw [handed_append, listed]
      exact Sorted.words_keep (fun given builder => AllModest given →
        builder.Written given) deliver_written
        (handed sights) (fun _ => waiting) streamed modest
    · rw [handed_append, listed, returned_append, silent, List.append_nil]
      intro e member unit m found chan
      refine (given e member unit m found chan).imp fun i v source => source.mono ?_
      rw [List.ofIndex_append]
      exact List.subset_append_left _ _
  | GetEvent flush =>
    have silent (events : List VF48event) : handed (events.map .returned) = [] := by
      rw [handed, List.filterMap_map]
      exact List.filterMap_eq_nil_iff.mpr fun e _ => rfl
    cases (show Except.ok ({ self with builder := (self.builder.GetEvent self.settings flush).1 },
      (self.builder.GetEvent self.settings flush).2.toList.map .returned) =
        Except.ok (next, out) from ran)
    refine ⟨?_, ?_⟩
    · rw [handed_append, silent, List.append_nil]
      exact fun unit => (GetEvent_every (waiting unit) flush).1
    · rw [handed_append, silent, List.append_nil, returned_append, returned_map]
      intro e member unit
      obtain earlier | last := List.mem_append.mp member
      · exact given e earlier unit
      · exact (GetEvent_every (waiting unit) flush).2 e last
  | Reset =>
    cases ran
    rw [List.append_nil]
    exact ⟨fun unit e member => (by cases member), given⟩

/-- In every run whose blocks are modest, each channel of a returned event counts at most as many
samples as fit, and all of them were written from sample words of that channel. -/
theorem GetEvent_numSamples (settings : Settings) {calls : List Call} {final : UnpackVF48}
    {sights : List Sight}
    (ran : Transducer.run UnpackVF48.call { UnpackVF48.new with settings := settings } calls =
      .ok (final, sights))
    (modest : AllModest (handed sights)) :
    ∀ e ∈ returned sights, ∀ unit m, e.modules unit = some m → ∀ chan,
      (m.channels chan).numSamples ≤ VF48_MAX_SAMPLES ∧ ∀ i < (m.channels chan).numSamples,
        ∃ v, (m.channels chan).samples i = some v ∧
          FromData ((handed sights).ofIndex unit) chan i v := by
  have agree := (Sorted.new_represents settings).run calls
  rw [ran] at agree
  obtain ⟨⟨sorted, seen⟩, sortedRan, _, same⟩ := agree.to_ok
  obtain rfl : sights = seen := same
  have shown := Transducer.run_keeps (fun _ sights (self : Sorted) => AllModest (handed sights) →
    Shown sights self)
    (fun kept stepped => Shown.call kept stepped)
    (fun _ => ⟨fun unit e member => (by cases member), fun e member => (by cases member)⟩)
    sortedRan modest
  intro e member unit m found chan
  exact ⟨(shown.given e member unit m found chan).fits,
    (shown.given e member unit m found chan).written⟩

/-- A channel has at most as many sample words as there are words. -/
theorem openAfter_le {group : Group} {past : List Word} {n : ℕ}
    (opened : openAfter group past = some n) :
    n ≤ past.length := by
  induction past using List.reverseRecOn generalizing n with
  | nil => cases opened
  | append_singleton past w ih =>
    rw [openAfter_concat, openSamples] at opened
    rw [List.length_append, List.length_singleton]
    split_ifs at opened
    · cases opened
      exact Nat.zero_le _
    · obtain ⟨k, before, rfl⟩ := Option.map_eq_some_iff.mp opened
      exact Nat.succ_le_succ (ih before)
    · exact (ih opened).trans (Nat.le_succ _)

/-- A short block is modest. -/
theorem Modest.of_length {group : Group} {data : List Word} (short : data.length ≤ 549) :
    Modest group data := by
  intro past w front _ n opened
  have count := openAfter_le opened
  have within := front.length_le
  rw [List.length_append, List.length_singleton] at within
  omega

/-- A block of one channel with some sample words, and a call that takes its event. -/
def oneChannel (samples : List Word) : List Call :=
  [.UnpackStream 3 ([0x80000005, 0xA0000001, 0xA0000000, 0xC0000001] ++ (samples ++ [0xE0000005])),
    .GetEvent true]

theorem GetEvent_numSamples_two :
    ∃ final sights, Transducer.run UnpackVF48.call UnpackVF48.new (oneChannel [0x00020001]) =
      .ok (final, sights) ∧
      (returned sights).length = 1 ∧
      ∀ e ∈ returned sights, ∀ unit m, e.modules unit = some m →
        ∀ chan, (m.channels chan).numSamples ≤ VF48_MAX_SAMPLES := by
  have run : ∃ final sights,
      Transducer.run UnpackVF48.call UnpackVF48.new (oneChannel [0x00020001]) =
      .ok (final, sights) ∧
      (returned sights).length = 1 ∧
      handed sights = [(3, 0,
        [0x80000005, 0xA0000001, 0xA0000000, 0xC0000001, 0x00020001, 0xE0000005])] :=
        ⟨_, _, rfl, rfl, rfl⟩
  obtain ⟨final, sights, ran, one, blocks⟩ := run
  have modest : AllModest (handed sights) := by
    rw [blocks]
    exact List.forall_mem_singleton.mpr (Modest.of_length (by decide))
  exact ⟨final, sights, ran, one, fun e member unit m found chan =>
    (GetEvent_numSamples .initial ran modest e member unit m found chan).1⟩

/-- The module of unit 3 in the first event that some calls return. -/
def firstModule (calls : List Call) : Option VF48module :=
  match Transducer.run UnpackVF48.call UnpackVF48.new calls with
  | .error _ => none
  | .ok (_, sights) => (returned sights).head?.bind fun e => e.modules 3

set_option maxRecDepth 100000 in
/-- With 550 sample words, a channel counts 1100 samples and two of them are not written. -/
theorem GetEvent_unwritten :
    (firstModule (oneChannel (List.replicate 550 0))).map
        (fun m => ((m.channels 1).numSamples, (m.channels 1).samples 1098,
          (m.channels 1).samples 1099)) =
      some (1100, none, none) := by
  decide +kernel

end PtfConverter.VF48
