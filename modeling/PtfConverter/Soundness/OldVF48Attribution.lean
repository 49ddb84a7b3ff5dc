import PtfConverter.Soundness.OldVF48Runs
import PtfConverter.Soundness.VF48Words

/-! # Where the old unpacker stores samples

A sample word goes to the channel that the context of its group is on. `Init` puts a context on
channel 0, and the header of a channel past the end leaves it on the channel it was on. So samples in
front of the first channel header of a block, and samples behind a bad one, go to a channel that
no header of the block named last. `Blocks` follows the channel headers of a unit's words.
-/

namespace PtfConverter.OldVF48

open VF48 (UnitNo Word Group Chan VF48_MAX_CHANNELS VF48_MAX_SAMPLES tagOf headerChan)

/-- The channel that a channel header names in a group, if it is one of the 48. -/
def opened? (group : Group) (w : Word) : Option Chan :=
  if tagOf w = 0xC0000000 then
    if inside : headerChan group w < VF48_MAX_CHANNELS then some ⟨headerChan group w, inside⟩ else none
  else none

/-- What the words of a unit say: the group of the last marker, and of each group the last channel
header of its block, behind the last event header. -/
structure Blocks where
  group : Group
  last : Group → Option Word

namespace Blocks

def initial : Blocks := ⟨0, fun _ => none⟩

def next (blocks : Blocks) (w : Word) : Blocks :=
  match goodMarker? w with
  | some group => { blocks with group := group }
  | none =>
      if tagOf w = 0x80000000 then { blocks with last := Function.update blocks.last blocks.group none }
      else if tagOf w = 0xC0000000 then
        { blocks with last := Function.update blocks.last blocks.group (some w) }
      else blocks

/-- The blocks behind some words of a unit. -/
def after (words : List Word) : Blocks := words.foldl next initial

/-- The channel that the last channel header of a group's block names. -/
def named? (blocks : Blocks) (group : Group) : Option Chan := (blocks.last group).bind (opened? group)

variable {blocks : Blocks} {group : Group} {w : Word}

theorem last_header (other : goodMarker? w = none) (header : tagOf w = 0x80000000) :
    (blocks.next w).last blocks.group = none := by
  simp only [next, other, if_pos header, Function.update_self]

theorem last_channel (other : goodMarker? w = none) (channel : tagOf w = 0xC0000000) :
    (blocks.next w).last blocks.group = some w := by
  have data : tagOf w ≠ 0x80000000 := by
    rw [channel]
    decide
  simp only [next, other, if_neg data, if_pos channel, Function.update_self]

theorem last_other (other : goodMarker? w = none) (data : tagOf w ≠ 0x80000000)
    (plain : tagOf w ≠ 0xC0000000) :
    (blocks.next w).last = blocks.last := by
  simp only [next, other, if_neg data, if_neg plain]

theorem last_of_ne (other : goodMarker? w = none) (ne : group ≠ blocks.group) :
    (blocks.next w).last group = blocks.last group := by
  simp only [next, other]
  split_ifs
  · exact Function.update_of_ne ne ..
  · exact Function.update_of_ne ne ..
  · rfl

theorem after_append (first second : List Word) :
    after (first ++ second) = second.foldl next (after first) :=
  List.foldl_append

end Blocks

namespace Decoder

variable {settings : Settings} {run : RunSettings} {unit : UnitNo} {decoder next : Decoder} {w : Word}
  {modules : List VF48module}

/-- What a word that is no marker does to the context that the pointer is on. -/
structure Turns (decoder next : Decoder) (w : Word) (ctx : Context) : Prop where
  gContexts : next.gContexts = Function.update decoder.gContexts decoder.c ctx
  goesOn : ctx.accept = true → tagOf w ≠ 0x80000000 →
    decoder.ctx.accept = true ∧
      ctx.currentChannel = (opened? decoder.ctx.group w).getD decoder.ctx.currentChannel

theorem Turns.same (plain : tagOf w ≠ 0xC0000000) (contexts : next.gContexts = decoder.gContexts) :
    decoder.Turns next w decoder.ctx := by
  refine ⟨contexts.trans (Function.update_eq_self ..).symm, fun accept _ => ⟨accept, ?_⟩⟩
  rw [opened?, if_neg plain]
  rfl

/-- A context that is shut waits for an event header. -/
theorem Turns.shut {ctx : Context}
    (contexts : next.gContexts = Function.update decoder.gContexts decoder.c ctx)
    (closed : ctx.accept = false) : decoder.Turns next w ctx := by
  refine ⟨contexts, fun accept => ?_⟩
  rw [closed] at accept
  cases accept

theorem readTimestamp_gContexts (settings : Settings) (unit : UnitNo) (group : Group)
    (decoder : Decoder) :
    (decoder.readTimestamp settings unit group).c = decoder.c ∧ ∃ timestamp1,
      (decoder.readTimestamp settings unit group).gContexts =
        Function.update decoder.gContexts decoder.c { decoder.ctx with timestamp1 := timestamp1 } := by
  have still : decoder.gContexts =
      Function.update decoder.gContexts decoder.c { decoder.ctx with
        timestamp1 := decoder.ctx.timestamp1 } :=
    (Function.update_eq_self ..).symm
  rw [readTimestamp, applyTimestamp_eq]
  split_ifs
  · exact ⟨rfl, 1, rfl⟩
  · exact ⟨rfl, decoder.ctx.timestamp1, still⟩
  · exact ⟨rfl, decoder.ctx.timestamp1, still⟩

/-- A channel header moves the context to its channel, unless it names none. -/
theorem channelHeader_turns (settings : Settings) (unit : UnitNo) (decoder : Decoder)
    (channel : tagOf w = 0xC0000000) :
    ∃ ctx, decoder.Turns (decoder.channelHeader settings unit w) w ctx := by
  rw [channelHeader_eq]
  split_ifs with inside
  · have named : opened? decoder.ctx.group w = some ⟨_, inside⟩ :=
      (if_pos channel).trans (dif_pos inside)
    obtain ⟨pointer, timestamp1, contexts⟩ :=
      readTimestamp_gContexts settings unit ⟨_, VF48.Builder.group_of_channel inside⟩ decoder
    have here : (decoder.readTimestamp settings unit ⟨_, VF48.Builder.group_of_channel inside⟩).ctx =
        { decoder.ctx with timestamp1 := timestamp1 } := by
      rw [ctx, pointer, contexts, Function.update_self]
    obtain ⟨turned, shape⟩ : ∃ turned : Context, turned = { decoder.ctx with
        timestamp1 := timestamp1
        currentGroup := ⟨_, VF48.Builder.group_of_channel inside⟩
        timestampCount := 0
        currentChannel := ⟨_, inside⟩
        timestampFlag := false } := ⟨_, rfl⟩
    refine ⟨turned, ?_, fun accept _ => ⟨?_, ?_⟩⟩
    · change Function.update _ _ _ = _
      rw [here, pointer, contexts, Function.update_idem, shape]
    · rw [shape] at accept
      exact accept
    · rw [named, shape]
      rfl
  · refine ⟨decoder.ctx, (Function.update_eq_self ..).symm, fun accept _ => ⟨accept, ?_⟩⟩
    have nothing : opened? decoder.ctx.group w = none := (if_pos channel).trans (dif_neg inside)
    rw [nothing]
    rfl

theorem sampleWord_gContexts (taken : decoder.sampleWord w = .ok next) :
    next.gContexts = decoder.gContexts := by
  simp only [sampleWord] at taken
  split at taken
  · cases taken
  · cases taken
    rfl
  · split at taken <;> cases taken <;> rfl

/-- Any word but the marker of a group. -/
theorem word_turns (other : goodMarker? w = none)
    (read : decoder.word settings run unit w = .ok (next, modules)) :
    ∃ ctx, decoder.Turns next w ctx := by
  rw [word] at read
  obtain ⟨header, read⟩ | ⟨_, read⟩ := ite_eq_iff.mp read
  · cases read
    exact ⟨_, rfl, fun _ data => absurd header data⟩
  obtain ⟨closed, read⟩ | ⟨_, read⟩ := ite_eq_iff.mp read
  · have shut : decoder.ctx.accept = false := Bool.eq_false_iff.mpr closed
    obtain ⟨marker, read⟩ | ⟨_, read⟩ := ite_eq_iff.mp read
    · rw [goodMarker?, if_pos marker] at other
      rw [other] at read
      cases read
      exact ⟨_, .shut (Function.update_eq_self ..).symm shut⟩
    · cases read
      exact ⟨_, .shut (Function.update_eq_self ..).symm shut⟩
  obtain ⟨marker, read⟩ | ⟨_, read⟩ := ite_eq_iff.mp read
  · rw [goodMarker?, if_pos marker] at other
    rw [other] at read
    cases read
    exact ⟨_, .shut rfl rfl⟩
  obtain ⟨stamp, read⟩ | ⟨_, read⟩ := ite_eq_iff.mp read
  · cases read
    have plain : tagOf w ≠ 0xC0000000 := by
      rw [stamp]
      decide
    refine ⟨_, rfl, fun accept _ => ?_⟩
    rw [opened?, if_neg plain]
    split_ifs at accept ⊢
    all_goals exact ⟨accept, rfl⟩
  obtain ⟨channel, read⟩ | ⟨plain, read⟩ := ite_eq_iff.mp read
  · cases read
    exact channelHeader_turns settings unit decoder channel
  obtain ⟨_, read⟩ | ⟨_, read⟩ := ite_eq_iff.mp read
  · obtain ⟨last, taken, same⟩ := Except.bind_eq_ok_iff.mp read
    cases same
    exact ⟨_, .same plain (sampleWord_gContexts taken)⟩
  obtain ⟨_, read⟩ | ⟨_, read⟩ := ite_eq_iff.mp read
  · cases read
    exact ⟨_, .same plain rfl⟩
  obtain ⟨_, read⟩ | ⟨_, read⟩ := ite_eq_iff.mp read
  · cases read
    exact ⟨_, .same plain rfl⟩
  obtain ⟨_, read⟩ | ⟨_, read⟩ := ite_eq_iff.mp read
  · have last : next = (decoder.trailer run unit w).1 := congrArg Prod.fst (Except.ok.inj read).symm
    refine ⟨_, .same plain ?_⟩
    rw [last, trailer_eq]
    split_ifs <;> rfl
  obtain ⟨_, read⟩ | ⟨_, read⟩ := ite_eq_iff.mp read
  · cases read
    exact ⟨_, .same plain rfl⟩
  · cases read
    exact ⟨_, .shut rfl rfl⟩

end Decoder

/-- The contexts of a unit follow its words: one that takes words is on the channel
that its block names. -/
structure Follows (blocks : Blocks) (gContexts : Group → Context) : Prop where
  home : (gContexts blocks.group).group = blocks.group
  channels : ∀ group, (gContexts group).accept = true → ∀ c, blocks.named? group = some c →
    (gContexts group).currentChannel = c

namespace Follows

variable {settings : Settings} {run : RunSettings} {unit : UnitNo} {blocks : Blocks}
  {decoder next : Decoder} {w : Word} {modules : List VF48module}

theorem marker {gContexts : Group → Context} (follows : Follows blocks gContexts) (group : Group) :
    Follows { blocks with group := group }
      (Function.update gContexts group { gContexts group with
        group := group, currentGroup := group }) := by
  refine ⟨?_, fun other accept c names => ?_⟩
  · simp only [Function.update_self]
  · obtain rfl | ne := eq_or_ne other group
    · rw [Function.update_self] at accept ⊢
      exact follows.channels other accept c names
    · rw [Function.update_of_ne ne] at accept ⊢
      exact follows.channels other accept c names

/-- One word, in the context of the group that the words are in. -/
theorem word (follows : Follows blocks decoder.gContexts)
    (here : (goodMarker? w).isSome ∨ decoder.c = blocks.group)
    (read : decoder.word settings run unit w = .ok (next, modules)) :
    Follows (blocks.next w) next.gContexts ∧ next.c = (blocks.next w).group := by
  cases marker : goodMarker? w with
  | some group =>
    have moved : blocks.next w = { blocks with group := group } := by rw [Blocks.next, marker]
    rw [Decoder.word_marker marker] at read
    cases read
    rw [moved]
    exact ⟨follows.marker group, rfl⟩
  | none =>
    have pointer : decoder.c = blocks.group :=
      here.resolve_left (by rw [marker]; exact Bool.false_ne_true)
    have stays := Decoder.word_stays marker read
    obtain ⟨ctx, contexts, goesOn⟩ := Decoder.word_turns marker read
    have home : decoder.ctx.group = blocks.group := by
      rw [Decoder.ctx, pointer]
      exact follows.home
    have group : (blocks.next w).group = blocks.group := by
      rw [Blocks.next, marker]
      simp only
      split_ifs <;> rfl
    refine ⟨⟨?_, fun other accept c names => ?_⟩, stays.1.trans (pointer.trans group.symm)⟩
    · rw [group, stays.2]
      exact follows.home
    · obtain rfl | ne := eq_or_ne other blocks.group
      · rw [contexts, pointer, Function.update_self] at accept ⊢
        have data : tagOf w ≠ 0x80000000 := by
          intro header
          rw [Blocks.named?, Blocks.last_header marker header] at names
          cases names
        obtain ⟨before, turned⟩ := goesOn accept data
        rw [home] at turned
        by_cases channel : tagOf w = 0xC0000000
        · rw [Blocks.named?, Blocks.last_channel marker channel] at names
          change opened? blocks.group w = some c at names
          rw [turned, names]
          rfl
        · have nothing : opened? blocks.group w = none := if_neg channel
          rw [Blocks.named?, Blocks.last_other marker data channel] at names
          rw [Decoder.ctx, pointer] at before turned
          rw [turned, nothing]
          exact follows.channels _ before c names
      · rw [contexts, pointer, Function.update_of_ne ne] at accept ⊢
        rw [Blocks.named?, Blocks.last_of_ne marker ne] at names
        exact follows.channels other accept c names

/-- The words of a call. -/
theorem words {list last : EventList} {sights : List Sight} {words : List Word}
    (follows : Follows blocks decoder.gContexts)
    (here : decoder.c = blocks.group ∨ Decoder.Starts words)
    (ran : Transducer.run (State.unpackWord settings run unit) (decoder, list) words =
      .ok ((next, last), sights)) :
    Follows (words.foldl Blocks.next blocks) next.gContexts ∧
      next.c = (words.foldl Blocks.next blocks).group := by
  induction words generalizing blocks decoder list sights with
  | nil =>
    cases ran
    exact ⟨follows, here.resolve_right Decoder.Starts.not_nil⟩
  | cons w words ih =>
    obtain ⟨⟨middle, between⟩, out, tail, stepped, rest, rfl⟩ := Transducer.run_cons_ok_iff.mp ran
    obtain ⟨⟨after, modules⟩, read, filed⟩ := Except.bind_eq_ok_iff.mp stepped
    obtain ⟨⟨_, handed⟩, _, done⟩ := Except.bind_eq_ok_iff.mp filed
    cases done
    obtain ⟨follows, pointer⟩ := follows.word (here.symm.imp_left Decoder.Starts.cons.mp) read
    exact ih follows (.inl pointer) rest

end Follows

/-- The words of a unit in a call. -/
def Call.words (unit : UnitNo) : Call → List Word
  | .UnpackVF48 other data => if other = unit then data else []
  | .BeginRun .. => []
  | .EndRun => []

/-- The words of a unit in some calls. -/
def streamOf (unit : UnitNo) (calls : List Call) : List Word := calls.flatMap (Call.words unit)

theorem streamOf_concat (unit : UnitNo) (calls : List Call) (call : Call) :
    streamOf unit (calls ++ [call]) = streamOf unit calls ++ call.words unit := by
  rw [streamOf, List.flatMap_append, List.flatMap_singleton]
  rfl

/-- A call goes on with the group that the words of its unit were in, unless it drops its words or
starts with a marker. -/
def Continues (state : State) (unit : UnitNo) (past data : List Word) : Prop :=
  state.entry unit = (Blocks.after past).group ∨ Decoder.Starts data ∨ data.all (· == 0) = true

/-- All calls for a unit do. -/
def Undisturbed (settings : Settings) (unit : UnitNo) (calls : List Call) : Prop :=
  ∀ before data rest state seen, calls = before ++ .UnpackVF48 unit data :: rest →
    Transducer.run (State.call settings) .initial before = .ok (state, seen) →
    Continues state unit (streamOf unit before) data

theorem Undisturbed.of_append {settings : Settings} {unit : UnitNo} {first second : List Call}
    (undisturbed : Undisturbed settings unit (first ++ second)) : Undisturbed settings unit first := by
  intro before data rest state seen shape ran
  refine undisturbed before data (rest ++ second) state seen ?_ ran
  rw [shape, List.append_assoc, List.cons_append]

/-- Words that are all zero say nothing. -/
theorem Blocks.foldl_zeros {words : List Word} (zeros : words.all (· == 0) = true) (blocks : Blocks) :
    words.foldl Blocks.next blocks = blocks := by
  induction words generalizing blocks with
  | nil => rfl
  | cons w words ih =>
    rw [List.all_cons, Bool.and_eq_true, beq_iff_eq] at zeros
    obtain ⟨rfl, zeros⟩ := zeros
    exact ih zeros blocks

namespace State

variable {settings : Settings} {unit : UnitNo} {state next : State} {past : List Word}
  {out : List Sight}

theorem leave_tables_self {decoder : Decoder} {list : EventList} :
    (state.leave unit decoder list).tables unit = decoder.toUnitTables := Function.update_self ..

theorem leave_tables_of_ne {other : UnitNo} (ne : unit ≠ other) {decoder : Decoder} {list : EventList} :
    (state.leave other decoder list).tables unit = state.tables unit := Function.update_of_ne ne ..

theorem endUnit_tables {start : State} {i : UnitNo} {late : List VF48event}
    (same : state.tables = start.tables ∧ state.c = start.c)
    (ended : state.endUnit settings i = .ok (next, late)) :
    next.tables = start.tables ∧ next.c = start.c := by
  rw [endUnit] at ended
  split at ended
  · cases ended
    exact same
  · obtain ⟨⟨list, handed⟩, _, done⟩ := Except.bind_eq_ok_iff.mp ended
    cases done
    exact same

theorem EndRun_tables {late : List VF48event} (ended : state.EndRun settings = .ok (next, late)) :
    next.tables = state.tables ∧ next.c = state.c := by
  obtain ⟨⟨middle, early⟩, ran, filed⟩ := Except.bind_eq_ok_iff.mp ended
  obtain ⟨⟨list, handed⟩, _, done⟩ := Except.bind_eq_ok_iff.mp filed
  cases done
  have kept : middle.tables = state.tables ∧ middle.c = state.c := by
    refine Transducer.run_keeps
      (fun _ (_ : List VF48event) (last : State) => last.tables = state.tables ∧
      last.c = state.c) ?_
      ⟨rfl, rfl⟩ ran
    exact fun same stepped => endUnit_tables same stepped
  exact kept

theorem leave_entry {decoder : Decoder} {list : EventList} :
    (state.leave unit decoder list).entry unit = decoder.c :=
  if_pos rfl

/-- A call of `UnpackVF48` for another unit. -/
def Disturbs (unit : UnitNo) (call : Call) : Prop :=
  ∃ other data, other ≠ unit ∧ call = .UnpackVF48 other data

/-- The words of the unit itself. -/
theorem follows_UnpackVF48 {data : List Word} (zero : state.Zeroed)
    (follows : Follows (Blocks.after past) (state.tables unit).gContexts)
    (continues : Continues state unit past data)
    (called : state.UnpackVF48 settings unit data = .ok (next, out)) :
    Follows (Blocks.after (past ++ data)) (next.tables unit).gContexts ∧
      (state.entry unit = (Blocks.after past).group →
        next.entry unit = (Blocks.after (past ++ data)).group) := by
  have entered : state.enter unit =
      { state.tables unit with m := (state.buf unit).getD (.new unit), c := state.entry unit } :=
        enter_eq (zero unit)
  rw [Blocks.after_append]
  rw [UnpackVF48, entered] at called
  split_ifs at called with zeros
  · cases called
    rw [Blocks.foldl_zeros zeros, leave_tables_self, leave_entry]
    exact ⟨follows, fun here => here⟩
  · obtain ⟨⟨⟨decoder, list⟩, sights⟩, ran, done⟩ := Except.bind_eq_ok_iff.mp called
    cases done
    have here := continues.imp_right fun rest => rest.resolve_right zeros
    rw [leave_tables_self, leave_entry]
    obtain ⟨follows, pointer⟩ := follows.words here ran
    exact ⟨follows, fun _ => pointer⟩

/-- The words of another unit. -/
theorem UnpackVF48_tables_of_ne {other : UnitNo} {data : List Word} (ne : other ≠ unit)
    (called : state.UnpackVF48 settings other data = .ok (next, out)) :
    next.tables unit = state.tables unit := by
  rw [UnpackVF48] at called
  split_ifs at called
  · cases called
    exact leave_tables_of_ne ne.symm
  · obtain ⟨⟨⟨decoder, list⟩, sights⟩, _, done⟩ := Except.bind_eq_ok_iff.mp called
    cases done
    exact leave_tables_of_ne ne.symm

/-- A call keeps the contexts of a unit in step with its words, and the pointer too unless
it is for another unit. -/
theorem follows_call {call : Call} (zero : state.Zeroed)
    (follows : Follows (Blocks.after past) (state.tables unit).gContexts)
    (continues : ∀ data, call = .UnpackVF48 unit data → Continues state unit past data)
    (called : state.call settings call = .ok (next, out)) :
    Follows (Blocks.after (past ++ call.words unit)) (next.tables unit).gContexts ∧
      (¬ Disturbs unit call → state.entry unit = (Blocks.after past).group →
        next.entry unit = (Blocks.after (past ++ call.words unit)).group) := by
  cases call with
  | UnpackVF48 other data =>
    change state.UnpackVF48 settings other data = _ at called
    obtain rfl | ne := eq_or_ne other unit
    · have mine : (Call.UnpackVF48 other data).words other = data := if_pos rfl
      rw [mine]
      obtain ⟨follows, pointer⟩ := follows_UnpackVF48 zero follows (continues data rfl) called
      exact ⟨follows, fun _ => pointer⟩
    · have others : (Call.UnpackVF48 other data).words unit = [] := if_neg ne
      rw [others, List.append_nil, UnpackVF48_tables_of_ne ne called]
      exact ⟨follows, fun quiet => absurd ⟨other, data, ne, rfl⟩ quiet⟩
  | BeginRun grpEnabled numSamples delay =>
    obtain ⟨⟨begun, handed⟩, began, done⟩ := Except.bind_eq_ok_iff.mp called
    cases done
    rw [BeginRun_eq] at began
    cases enabled : firstGroup? grpEnabled with
    | none =>
      rw [enabled] at began
      cases began
    | some tgroup =>
      rw [enabled] at began
      cases began
      rw [Call.words, List.append_nil]
      exact ⟨follows, fun _ here => here⟩
  | EndRun =>
    obtain ⟨⟨ended, handed⟩, last, done⟩ := Except.bind_eq_ok_iff.mp called
    cases done
    obtain ⟨tables, pointer⟩ := EndRun_tables last
    have same : next.entry unit = state.entry unit := by rw [entry, entry, tables, pointer]
    rw [Call.words, List.append_nil, tables, same]
    exact ⟨follows, fun _ here => here⟩

/-- A run in which every call goes on with the group of the unit, at least as long as no
other unit is unpacked. -/
theorem run_follows {calls : List Call}
    (continues : ∀ before data rest state seen, calls = before ++ .UnpackVF48 unit data :: rest →
      Transducer.run (State.call settings) .initial before = .ok (state, seen) →
      ((∀ call ∈ before, ¬ Disturbs unit call) →
      state.entry unit = (Blocks.after (streamOf unit before)).group) →
      Continues state unit (streamOf unit before) data)
    (ran : Transducer.run (State.call settings) .initial calls = .ok (state, out)) :
    Follows (Blocks.after (streamOf unit calls)) (state.tables unit).gContexts ∧
      ((∀ call ∈ calls, ¬ Disturbs unit call) →
        state.entry unit = (Blocks.after (streamOf unit calls)).group) := by
  induction calls using List.reverseRecOn generalizing state out with
  | nil =>
    cases ran
    refine ⟨⟨rfl, fun group accept => ?_⟩, fun _ => rfl⟩
    cases accept
  | append_singleton calls call ih =>
    rw [Transducer.run_concat] at ran
    obtain ⟨⟨middle, left⟩, earlier, last⟩ := Except.bind_eq_ok_iff.mp ran
    obtain ⟨⟨final, right⟩, called, done⟩ := Except.bind_eq_ok_iff.mp last
    cases done
    obtain ⟨follows, pointer⟩ := ih (fun before data rest state seen shape => by
      refine continues before data (rest ++ [call]) state seen ?_
      rw [shape, List.append_assoc, List.cons_append]) earlier
    rw [streamOf_concat]
    obtain ⟨follows, kept⟩ := follows_call (zeroed_of_run earlier) follows (fun data same => by
      subst same
      exact continues calls data [] middle left rfl earlier pointer) called
    refine ⟨follows, fun alone => ?_⟩
    obtain ⟨quiet, here⟩ := List.forall_mem_append.mp alone
    exact kept (here call (List.mem_singleton.mpr rfl)) (pointer quiet)

/-- Where no other unit is unpacked, every call goes on with the group of the unit. -/
theorem undisturbed_of_alone {calls : List Call} (alone : ∀ call ∈ calls, ¬ Disturbs unit call) :
    Undisturbed settings unit calls := by
  rintro before data rest state seen rfl ran
  have quiet : ∀ call ∈ before, ¬ Disturbs unit call :=
    fun call member => alone call (List.mem_append_left _ member)
  refine .inl ((run_follows (fun past words more middle sights shape _ pointer => ?_) ran).2 quiet)
  refine .inl (pointer fun call member => quiet call ?_)
  rw [shape]
  exact List.mem_append_left _ member

theorem follows_of_run {calls : List Call} (undisturbed : Undisturbed settings unit calls)
    (ran : Transducer.run (State.call settings) .initial calls = .ok (state, out)) :
    Follows (Blocks.after (streamOf unit calls)) (state.tables unit).gContexts :=
  (run_follows (fun before data rest middle seen shape earlier _ =>
    undisturbed before data rest middle seen shape earlier) ran).1

end State

/-- A channel with two more samples. -/
def VF48channel.store (channel : VF48channel) (w : Word) : VF48channel :=
  { channel with
    samples := Function.update
      (Function.update channel.samples channel.numSamples (some ((w &&& 0x3FFF#32).setWidth 16)))
      (channel.numSamples + 1) (some (((w >>> 16) &&& 0x3FFF#32).setWidth 16))
    numSamples := channel.numSamples + 2 }

namespace Decoder

variable {settings : Settings} {run : RunSettings} {unit : UnitNo} {decoder next : Decoder}
  {w : Word} {c : Chan} {modules : List VF48module} {blocks : Blocks}

/-- A word stores its samples in a channel. -/
def Stores (w : Word) (decoder next : Decoder) (c : Chan) : Prop :=
  (decoder.m.channels c).numSamples < VF48_MAX_SAMPLES - 2 ∧
    next.m.channels c = (decoder.m.channels c).store w

/-- The flag of the current channel, where the constructor left it unset, has some value. -/
def settle (decoder : Decoder) (flag : Bool) : Decoder :=
  decoder.setChannel { decoder.channel with complete := some (decoder.channel.complete.getD flag) }

/-- A word stores samples in the channel only that the last channel header of its block names. -/
def StoresNamed (settings : Settings) (run : RunSettings) (unit : UnitNo) (blocks : Blocks)
    (decoder : Decoder) (w : Word) : Prop :=
  ∀ flag next modules, (decoder.settle flag).word settings run unit w = .ok (next, modules) →
    ∀ c, Stores w (decoder.settle flag) next c → blocks.named? blocks.group = some c

/-- Where a sample word is taken, and the channel of the context is open and has room, the last
channel header of the block names a channel. -/
def Covered (blocks : Blocks) (decoder : Decoder) : Prop :=
  decoder.ctx.accept = true → decoder.channel.complete ≠ some true →
    decoder.channel.numSamples < VF48_MAX_SAMPLES - 2 → (blocks.named? blocks.group).isSome

theorem settle_channel (flag : Bool) :
    (decoder.settle flag).channel =
      { decoder.channel with complete := some (decoder.channel.complete.getD flag) } :=
  Function.update_self ..

theorem Stores.changes (stores : Stores w decoder next c) :
    next.m.channels c ≠ decoder.m.channels c := by
  intro same
  have counts := congrArg VF48channel.numSamples (stores.2.symm.trans same)
  change (decoder.m.channels c).numSamples + 2 = (decoder.m.channels c).numSamples at counts
  omega

theorem word_skipped (sample : tagOf w = 0x00000000) (closed : ¬ decoder.ctx.accept = true) :
    decoder.word settings run unit w = .ok (decoder, []) := by
  have tags : (0x00000000 : Word) ≠ 0x80000000 ∧ (0x00000000 : Word) ≠ 0xF0000000 := by decide
  rw [word, sample, if_neg tags.1, if_pos closed, if_neg tags.2]

theorem word_sample (sample : tagOf w = 0x00000000) (accept : decoder.ctx.accept = true) :
    decoder.word settings run unit w = decoder.sampleWord w >>= fun decoder => .ok (decoder, []) := by
  rw [word, sample, if_neg (by decide), if_neg (not_not.mpr accept), if_neg (by decide),
    if_neg (by decide), if_neg (by decide), if_pos rfl]
  rfl

/-- A sample word stores its samples in the channel of the context, if it is taken and the channel
is open and has room. -/
theorem stores_iff {flag : Bool} (set : decoder.channel.complete = some flag)
    (sample : tagOf w = 0x00000000) :
    ∃ next, decoder.word settings run unit w = .ok (next, []) ∧ ∀ c, Stores w decoder next c ↔
      decoder.ctx.accept = true ∧ flag = false ∧ decoder.channel.numSamples < VF48_MAX_SAMPLES - 2 ∧
        c = decoder.ctx.currentChannel := by
  by_cases accept : decoder.ctx.accept = true
  · have taken : decoder.word settings run unit w = _ := word_sample sample accept
    rw [sampleWord, set] at taken
    cases flag with
    | true =>
      refine ⟨_, taken, fun c => ?_⟩
      exact iff_of_false (fun stores => stores.changes rfl) fun both => by cases both.2.1
    | false =>
      have others {c : Chan} {channel : VF48channel} (ne : c ≠ decoder.ctx.currentChannel) :
          (decoder.setChannel channel).m.channels c = decoder.m.channels c :=
            Function.update_of_ne ne ..
      by_cases room : decoder.channel.numSamples < VF48_MAX_SAMPLES - 2
      · simp only [if_pos room] at taken
        refine ⟨_, taken, fun c => ⟨fun stores => ⟨accept, rfl, room, ?_⟩, ?_⟩⟩
        · by_contra ne
          exact stores.changes (others ne)
        · rintro ⟨_, _, _, rfl⟩
          refine ⟨room, (Function.update_self ..).trans ?_⟩
          rw [← set]
          rfl
      · simp only [if_neg room] at taken
        refine ⟨_, taken, fun c => iff_of_false (fun stores => ?_) fun both => room both.2.2.1⟩
        obtain rfl | ne := eq_or_ne c decoder.ctx.currentChannel
        · exact room stores.1
        · exact stores.changes (others ne)
  · refine ⟨decoder, word_skipped sample accept, fun c => ?_⟩
    exact iff_of_false (fun stores => stores.changes rfl) fun both => accept both.1

/-- In front of a sample word, the block decides. -/
theorem storesNamed_iff_covered (sample : tagOf w = 0x00000000)
    (on : decoder.ctx.accept = true → ∀ c, blocks.named? blocks.group = some c →
      decoder.ctx.currentChannel = c) :
    StoresNamed settings run unit blocks decoder w ↔ Covered blocks decoder := by
  constructor
  · intro named accept open_ room
    obtain ⟨next, read, stores⟩ := @stores_iff settings run unit _ _ _
      (congrArg VF48channel.complete (decoder.settle_channel false)) sample
    have unset : decoder.channel.complete.getD false = false := by
      cases complete : decoder.channel.complete with
      | none => rfl
      | some flag =>
        refine Bool.eq_false_iff.mpr fun finished => open_ ?_
        rw [complete]
        exact congrArg some finished
    have channel := congrArg VF48channel.numSamples (decoder.settle_channel false)
    have stored := (stores decoder.ctx.currentChannel).mpr ⟨accept, unset, by
      rw [channel]; exact room, rfl⟩
    exact Option.isSome_iff_exists.mpr ⟨_, named false next [] read _ stored⟩
  · intro covered flag next modules read c stored
    obtain ⟨last, same, stores⟩ := @stores_iff settings run unit _ _ _
      (congrArg VF48channel.complete (decoder.settle_channel flag)) sample
    rw [same] at read
    cases read
    obtain ⟨accept, unset, room, rfl⟩ := (stores c).mp stored
    have open_ : decoder.channel.complete ≠ some true := by
      intro finished
      rw [finished] at unset
      cases unset
    rw [congrArg VF48channel.numSamples (decoder.settle_channel flag)] at room
    obtain ⟨c, names⟩ := Option.isSome_iff_exists.mp (covered accept open_ room)
    exact names.trans (congrArg some (on accept c names).symm)

end Decoder

/-- The unpacker is in front of a word of a unit: behind some calls, and the words in front
of it in the next call. -/
structure Reaches (settings : Settings) (calls : List Call) (unit : UnitNo)
    (data front : List Word) (state : State) (decoder : Decoder) : Prop where
  ran : ∃ seen, Transducer.run (State.call settings) .initial calls = .ok (state, seen)
  kept : data.all (· == 0) = false
  words : ∃ list sights,
    Transducer.run (State.unpackWord settings state.run unit)
      (state.enter unit, state.list) front = .ok ((decoder, list), sights)

/-- In every run in which the calls for a unit go on with its group, each sample word of the
unit is stored only in the channel that the last channel header of its block names, just
where the block covers it. -/
theorem sampleWord_storesNamed_iff {settings : Settings} {calls : List Call} {unit : UnitNo}
    {front rest : List Word} {w : Word} {state : State} {decoder : Decoder}
    (undisturbed : Undisturbed settings unit (calls ++ [.UnpackVF48 unit (front ++ w :: rest)]))
    (reaches : Reaches settings calls unit (front ++ w :: rest) front state decoder)
    (sample : tagOf w = 0x00000000) :
    Decoder.StoresNamed settings state.run unit
      (Blocks.after (streamOf unit calls ++ front)) decoder w ↔
      Decoder.Covered (Blocks.after (streamOf unit calls ++ front)) decoder := by
  obtain ⟨⟨seen, ran⟩, kept, list, sights, words⟩ := reaches
  have follows := State.follows_of_run undisturbed.of_append ran
  have continues := undisturbed calls (front ++ w :: rest) [] state seen rfl ran
  have here : state.entry unit = (Blocks.after (streamOf unit calls)).group ∨ Decoder.Starts front := by
    refine continues.imp_right fun other => ?_
    have starts := other.resolve_right (by rw [kept]; exact Bool.false_ne_true)
    cases front with
    | nil =>
      have marker := Decoder.Starts.cons.mp starts
      rw [goodMarker?, sample] at marker
      cases marker
    | cons head tail => exact Decoder.Starts.cons.mpr (Decoder.Starts.cons.mp starts)
  rw [State.enter_eq (State.zeroed_of_run ran unit)] at words
  have entered : Follows (Blocks.after (streamOf unit calls))
    ({ state.tables unit with m := (state.buf unit).getD (.new unit), c := state.entry unit } :
      Decoder).gContexts := follows
  obtain ⟨follows, pointer⟩ := entered.words here words
  rw [← Blocks.after_append] at follows pointer
  refine Decoder.storesNamed_iff_covered sample fun accept c names => ?_
  rw [Decoder.ctx, pointer] at accept ⊢
  exact follows.channels _ accept c names

/-- Behind a good header, the samples go to its channel. -/
theorem sampleWord_storesNamed_iff_goodHeader : ∃ state decoder,
    Reaches .initial [.BeginRun 0x3F 2 2] 0 [0x80000001, 0xC0000001, 0x00050004] [0x80000001,
      0xC0000001] state decoder ∧
    Decoder.StoresNamed .initial state.run 0
      (Blocks.after (streamOf 0 [.BeginRun 0x3F 2 2] ++ [0x80000001, 0xC0000001])) decoder
        0x00050004 := by
  obtain ⟨state, decoder, reaches⟩ : ∃ state decoder,
      Reaches .initial [.BeginRun 0x3F 2 2] 0 [0x80000001, 0xC0000001, 0x00050004] [0x80000001,
        0xC0000001] state decoder :=
    ⟨_, _, ⟨_, rfl⟩, rfl, _, _, rfl⟩
  have alone : ∀ call ∈ [Call.BeginRun 0x3F 2 2] ++ [.UnpackVF48 0 [0x80000001, 0xC0000001, 0x00050004]],
      ¬ State.Disturbs 0 call := by
    rintro call member ⟨other, data, ne, rfl⟩
    simp only [List.cons_append, List.nil_append, List.mem_cons, reduceCtorEq,
      Call.UnpackVF48.injEq, List.not_mem_nil, or_false, false_or] at member
    exact ne member.1
  refine ⟨state, decoder, reaches, ?_⟩
  exact (sampleWord_storesNamed_iff (State.undisturbed_of_alone alone) reaches rfl).mpr fun _ _ _ => rfl

/-- Behind the bad header 0xC0000070 a sample word of unit 0 goes on to channel 1. -/
theorem badHeader_stored : ∃ state decoder,
    Reaches .initial [.BeginRun 0x3F 2 2] 0 [0x80000001, 0xC0000001, 0xC0000070,
      0x00050004] [0x80000001, 0xC0000001, 0xC0000070]
      state decoder ∧
    headerChan 0 0xC0000070 = 56 ∧
    ∃ next, decoder.word .initial state.run 0 0x00050004 = .ok (next, []) ∧
      Decoder.Stores 0x00050004 decoder next 1 ∧
      ¬ Decoder.StoresNamed .initial state.run 0
        (Blocks.after (streamOf 0 [.BeginRun 0x3F 2 2] ++ [0x80000001, 0xC0000001, 0xC0000070]))
          decoder 0x00050004 := by
  refine ⟨_, _, ⟨⟨_, rfl⟩, rfl, _, _, rfl⟩, rfl, _, rfl, ⟨by decide, rfl⟩, fun named => ?_⟩
  have names := named false _ _ rfl 1 ⟨by decide, rfl⟩
  cases names

end PtfConverter.OldVF48
