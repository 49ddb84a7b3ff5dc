import PtfConverter.Soundness.VF48Attached

/-! # When `UnpackEvent` is safe

`UnpackEvent` dereferences `m` in front of a channel header, and reads a channel in front of a word
of an unknown kind, without the test that all other data words make. `Watch` is what of the words so
far decides about that: whether the module of a channel header may be null again, and whether the
channel number may be bad. On words that are guarded in this sense no state of the unpacker faults,
and on all others some state does.
-/

namespace PtfConverter.VF48

/-- What some words of a block tell about `m` and `chan`. -/
structure Watch where
  /-- There was a valid channel header. -/
  opened : Bool
  /-- There was one, and behind the last one no trailer at a valid channel. -/
  held : Bool
  /-- The last channel header is valid. -/
  inside : Bool
  /-- There was a timestamp word since the last valid channel header. -/
  stamped : Bool

namespace Watch

def initial : Watch := ⟨false, false, false, false⟩

def next (group : Group) (watch : Watch) (w : Word) : Watch :=
  if Names group w then ⟨true, true, true, false⟩
  else
    { watch with
      held := watch.held && !(tagOf w == 0xE0000000 && watch.inside)
      inside := watch.inside && tagOf w != 0xC0000000
      stamped := watch.stamped || tagOf w == 0xA0000000 }

def after (group : Group) (past : List Word) : Watch := past.foldl (next group) initial

theorem after_concat (group : Group) (past : List Word) (w : Word) :
    after group (past ++ [w]) = (after group past).next group w := List.foldl_concat ..

variable {group : Group} {past : List Word} {w : Word}

theorem after_names (past : List Word) (names : Names group w) :
    after group (past ++ [w]) = ⟨true, true, true, false⟩ := by
  rw [after_concat, next, if_pos names]

theorem after_unnamed (past : List Word) (unnamed : ¬ Names group w) :
    after group (past ++ [w]) =
      { after group past with
        held := (after group past).held && !(tagOf w == 0xE0000000 && (after group past).inside)
        inside := (after group past).inside && tagOf w != 0xC0000000
        stamped := (after group past).stamped || tagOf w == 0xA0000000 } := by
  rw [after_concat, next, if_neg unnamed]

end Watch

/-- The words of a block are guarded: every valid channel header has a module or timestamp
words in front, and every word of an unknown kind behind a valid channel header has a
valid one as the last. -/
def Guarded (group : Group) (data : List Word) : Prop :=
  ∀ past w, past ++ [w] <+: data →
    (Names group w → (Watch.after group past).held = true ∨ (Watch.after group past).stamped = true) ∧
    (Unknown w → (Watch.after group past).opened = true → (Watch.after group past).inside = true)

theorem channel?_headerChan {group : Group} {w : Word} (names : Names group w) :
    channel? (headerChan group w : ℤ) = some ⟨headerChan group w, names.2⟩ :=
      Builder.channel?_val ⟨headerChan group w, names.2⟩

theorem channel?_outside {group : Group} {w : Word} (channel : tagOf w = 0xC0000000)
    (unnamed : ¬ Names group w) :
    channel? (headerChan group w : ℤ) = none := by
  refine dif_neg fun bound => unnamed ⟨channel, ?_⟩
  exact Int.ofNat_lt.mp bound.2

section

open Builder

variable {settings : Settings} {unit : UnitNo} {group : Group} {builder next : Builder}
  {locals following : Locals} {past : List Word} {w : Word}

/-- A channel that is opened leaves a mark of its group. -/
theorem startChannel_completeGroupMask_ne_zero (m : VF48module) (cgroup : Group) (chan : Chan)
    (flag : Bool) :
    (m.startChannel cgroup chan flag).completeGroupMask ≠ 0 := by
  intro empty
  have bit := congrArg (BitVec.getLsbD · cgroup.val) empty
  change (m.completeGroupMask ||| 1#32 <<< cgroup.val).getLsbD cgroup.val =
    (0#32).getLsbD cgroup.val at bit
  have small : cgroup.val < 32 := by omega
  simp [small] at bit

/-- The three ways of a word: a channel is opened, there is no channel for it, or it changes a
channel. -/
theorem unpackWord_cases (present : ∀ index ∈ locals.m, (builder.module? unit index).isSome)
    (ran : unpackWord settings unit group (builder, locals) w = .ok (next, following)) :
    (Names group w ∧ ∃ index m, following.m = some index ∧ next.module? unit index = some m ∧
      m.completeGroupMask ≠ 0) ∨
    (¬ Names group w ∧ (locals.m = none ∨ channel? locals.chan = none) ∧
      next.fBuffer = builder.fBuffer ∧
      following.m = locals.m) ∨
    (¬ Names group w ∧ ∃ index m chan, builder.target unit locals = some (index, m, chan) ∧
      next.fBuffer = (builder.setModule unit index
        (m.takeData settings unit locals.headerTrigNo w chan)).fBuffer ∧
      following.m = if tagOf w = 0xE0000000 ∧
        m.completeGroupMask = settings.fGroupEnabled unit then none else locals.m) := by
  by_cases names : Names group w
  · refine .inl ⟨names, ?_⟩
    cases pointer : locals.m with
    | some index =>
      obtain ⟨m, here⟩ := Option.isSome_iff_exists.mp (present index pointer)
      obtain ⟨state, after, stepped, current, _, _, opened, buffer, takes⟩ :=
        unpackWord_names_attached settings names pointer here
      rw [stepped] at ran
      cases ran
      obtain ⟨labelled, flag, _, _, rfl⟩ := takes.header names
      exact ⟨index, _, current, module?_of_buffer here buffer,
        startChannel_completeGroupMask_ne_zero _ _ _ _⟩
    | none =>
      have counted := counted_of_names names pointer ran
      obtain ⟨_, _, state, after, _, index, labelled, flag, _, _, stepped, current, _, _, _, here, _⟩ :=
        unpackWord_names_detached settings unit builder names pointer counted
      rw [stepped] at ran
      cases ran
      exact ⟨index, _, current, here, startChannel_completeGroupMask_ne_zero _ _ _ _⟩
  · refine .inr ?_
    cases reached : builder.target unit locals with
    | none =>
      refine .inl ⟨names, ?_, unpackWord_lost reached names ran⟩
      cases pointer : locals.m with
      | none => exact .inl rfl
      | some index =>
        obtain ⟨m, here⟩ := Option.isSome_iff_exists.mp (present index pointer)
        cases inside : channel? locals.chan with
        | none => exact .inr rfl
        | some chan =>
          rw [target_eq_some_iff.mpr ⟨pointer, here, inside⟩] at reached
          cases reached
    | some place =>
      obtain ⟨index, m, chan⟩ := place
      exact .inr ⟨names, index, m, chan, rfl, unpackWord_reached reached names ran⟩

/-- The words so far tell what may be wrong with `m` and `chan`. -/
structure Watched (unit : UnitNo) (group : Group) (past : List Word)
    (state : Builder × Locals) : Prop where
  present : ∀ index ∈ state.2.m, (state.1.module? unit index).isSome
  held : (Watch.after group past).held = true → state.2.m.isSome
  opened : state.2.m.isSome → (Watch.after group past).opened = true
  inside : (Watch.after group past).inside = (channel? state.2.chan).isSome
  stamped : (Watch.after group past).stamped = true ↔ state.2.timestampCount ≠ 0

/-- A channel header of one of the channels tells all. -/
theorem Watched.of_names {index : ℕ} {m : VF48module} (names : Names group w)
    (ran : unpackWord settings unit group (builder, locals) w = .ok (next, following))
    (pointer : following.m = some index) (here : next.module? unit index = some m) :
    Watched unit group (past ++ [w]) (next, following) := by
  obtain ⟨current, uncounted⟩ := unpackWord_names names ran
  have watch := Watch.after_names past names
  refine ⟨?_, ?_, ?_, ?_, ?_⟩
  · intro i there
    rw [pointer] at there
    cases there
    rw [here]
    rfl
  · intro _
    rw [pointer]
    rfl
  · intro _
    rw [watch]
  · rw [watch, current, channel?_headerChan names]
    rfl
  · rw [watch, uncounted]
    exact iff_of_false Bool.false_ne_true (fun counted => counted rfl)

/-- Other words, which keep what is told about `m`. -/
theorem Watched.of_unnamed (watched : Watched unit group past (builder, locals))
    (unnamed : ¬ Names group w)
    (ran : unpackWord settings unit group (builder, locals) w = .ok (next, following))
    (present : ∀ index ∈ following.m, (next.module? unit index).isSome)
    (held : (Watch.after group (past ++ [w])).held = true → following.m.isSome)
    (opened : following.m.isSome → locals.m.isSome) :
    Watched unit group (past ++ [w]) (next, following) := by
  obtain ⟨current, count⟩ := unpackWord_unnamed unnamed ran
  have watch := Watch.after_unnamed past unnamed
  refine ⟨present, held, ?_, ?_, ?_⟩
  · intro there
    rw [watch]
    exact watched.opened (opened there)
  · rw [watch, current, watched.inside]
    by_cases channel : tagOf w = 0xC0000000
    · rw [if_pos channel, channel?_outside channel unnamed, channel]
      exact Bool.and_false _
    · rw [if_neg channel, bne_iff_ne.mpr channel, Bool.and_true]
  · rw [watch, count, Bool.or_eq_true, watched.stamped, beq_iff_eq]
    split_ifs with stamp
    · exact iff_of_true (.inr stamp) (Nat.succ_ne_zero _)
    · exact or_iff_left stamp

theorem Watched.step (watched : Watched unit group past (builder, locals))
    (ran : unpackWord settings unit group (builder, locals) w = .ok (next, following)) :
    Watched unit group (past ++ [w]) (next, following) := by
  have present : ∀ index ∈ locals.m, (builder.module? unit index).isSome := watched.present
  obtain ⟨names, index, m, pointer, here, _⟩ | ⟨unnamed, _, buffer, same⟩ |
    ⟨unnamed, place, m, chan, reached, buffer, left⟩ := unpackWord_cases present ran
  · exact .of_names names ran pointer here
  · refine watched.of_unnamed unnamed ran ?_ ?_ ?_
    · intro index pointer
      rw [module?_congr buffer]
      exact present index (same ▸ pointer)
    · intro held
      rw [Watch.after_unnamed past unnamed] at held
      rw [same]
      exact watched.held (Bool.and_eq_true_iff.mp held).1
    · intro there
      rw [← same]
      exact there
  · obtain ⟨current, here, inside⟩ := target_eq_some_iff.mp reached
    refine watched.of_unnamed unnamed ran ?_ ?_ ?_
    · intro index pointer
      rw [left, current] at pointer
      split_ifs at pointer
      · cases pointer
      · obtain rfl := Option.mem_some_iff.mp pointer
        exact Option.isSome_iff_exists.mpr ⟨_, module?_of_buffer here buffer⟩
    · intro held
      rw [Watch.after_unnamed past unnamed] at held
      obtain ⟨held, waiting⟩ := Bool.and_eq_true_iff.mp held
      have valid : (Watch.after group past).inside = true := by
        rw [watched.inside, inside]
        rfl
      have untrailed : tagOf w ≠ 0xE0000000 := by
        rintro trailer
        rw [trailer, valid] at waiting
        cases waiting
      rw [left, if_neg fun closing => untrailed closing.1]
      exact watched.held held
    · intro _
      rw [current]
      rfl

theorem Watched.initial (builder : Builder) : Watched unit group [] (builder, .initial) := by
  refine ⟨?_, ?_, ?_, rfl, ?_⟩
  · intro index pointer
    cases pointer
  · intro held
    cases held
  · intro pointed
    cases pointed
  · exact iff_of_false Bool.false_ne_true (fun counted => counted rfl)

theorem Watched.run {state : Builder × Locals}
    (ran : past.foldlM (unpackWord settings unit group) (builder, .initial) = .ok state) :
    Watched unit group past state :=
  Except.foldlM_keeps (Watched unit group) (fun watched stepped => watched.step stepped)
    (Watched.initial builder) ran

/-- On guarded words no state faults. -/
theorem UnpackEvent_of_guarded (unit : UnitNo) {data : List Word} (guarded : Guarded group data)
    (settings : Settings) (builder : Builder) :
    ∃ next, builder.UnpackEvent settings unit group data = .ok next := by
  have steps (past : List Word) (w : Word) (state : Builder × Locals) (front : past ++ [w] <+: data)
      (watched : Watched unit group past state) : ∃ next, unpackWord settings unit group state w =
        .ok next ∧
        Watched unit group (past ++ [w]) next := by
    obtain ⟨named, unknown⟩ := guarded past w front
    have needs : (Names group w → state.2.m.isSome ∨ state.2.timestampCount ≠ 0) ∧
        (Unknown w → state.2.m.isSome → (channel? state.2.chan).isSome) := by
      refine ⟨fun names => (named names).imp watched.held watched.stamped.mp, fun strange there => ?_⟩
      rw [← watched.inside]
      exact unknown strange (watched.opened there)
    obtain ⟨next, ran⟩ :=
      (@unpackWord_ok_iff settings unit group state.1 state.2 w watched.present).mpr needs
    exact ⟨next, ran, watched.step ran⟩
  obtain ⟨⟨next, locals⟩, ran, _⟩ := Except.foldlM_total _ steps (Watched.initial builder)
  refine ⟨next, ?_⟩
  rw [UnpackEvent, ran]
  rfl

/-- When the words of a block run through, so do those up to any word, and that word. -/
theorem runs_prefix {data : List Word}
    (safe : ∃ next, builder.UnpackEvent settings unit group data = .ok next)
    (front : past ++ [w] <+: data) :
    ∃ state, past.foldlM (unpackWord settings unit group) (builder, .initial) = .ok state ∧
      ∃ next, unpackWord settings unit group state w = .ok next := by
  obtain ⟨next, unpacked⟩ := safe
  obtain ⟨rest, rfl⟩ := front
  obtain ⟨_, ran, _⟩ := Except.bind_eq_ok_iff.mp unpacked
  rw [List.append_assoc, List.foldlM_append] at ran
  obtain ⟨state, earlier, ran⟩ := Except.bind_eq_ok_iff.mp ran
  obtain ⟨after, stepped, _⟩ := Except.bind_eq_ok_iff.mp ran
  exact ⟨state, earlier, after, stepped⟩

/-- With no group enabled, no trailer completes a module. -/
def Settings.unenabled : Settings := { Settings.initial with fGroupEnabled := fun _ => 0 }

/-- `m` keeps its module once it has one. -/
structure Stays (unit : UnitNo) (group : Group) (past : List Word) (state : Builder × Locals) : Prop
    extends Watched unit group past state where
  stays : (Watch.after group past).opened = true → state.2.m.isSome
  seen : ∀ index ∈ state.2.m, ∀ m, state.1.module? unit index = some m → m.completeGroupMask ≠ 0

theorem Stays.step (stays : Stays unit group past (builder, locals))
    (ran : unpackWord .unenabled unit group (builder, locals) w = .ok (next, following)) :
    Stays unit group (past ++ [w]) (next, following) := by
  have present : ∀ index ∈ locals.m, (builder.module? unit index).isSome := stays.present
  obtain ⟨names, index, m, pointer, here, seen⟩ | ⟨unnamed, _, buffer, same⟩ |
    ⟨unnamed, index, m, chan, reached, buffer, left⟩ := unpackWord_cases present ran
  · refine ⟨stays.toWatched.step ran, fun _ => ?_, fun i current found there => ?_⟩
    · rw [pointer]
      rfl
    · rw [pointer] at current
      obtain rfl := Option.mem_some_iff.mp current
      rw [here] at there
      cases there
      exact seen
  · refine ⟨stays.toWatched.step ran, fun opened => ?_, fun i current found there => ?_⟩
    · rw [Watch.after_unnamed past unnamed] at opened
      rw [same]
      exact stays.stays opened
    · rw [same] at current
      exact stays.seen i current found ((module?_congr buffer).symm.trans there)
  · obtain ⟨pointer, here, _⟩ := target_eq_some_iff.mp reached
    have seen : m.completeGroupMask ≠ 0 := stays.seen index pointer m here
    have same : following.m = locals.m := left.trans (if_neg fun closing => seen closing.2)
    refine ⟨stays.toWatched.step ran, fun opened => ?_, fun i current found there => ?_⟩
    · rw [Watch.after_unnamed past unnamed] at opened
      rw [same]
      exact stays.stays opened
    · rw [same, pointer] at current
      obtain rfl := Option.mem_some_iff.mp current
      have filed := module?_of_buffer here buffer
      rw [filed] at there
      cases there
      rw [takeData_completeGroupMask]
      exact seen

theorem Stays.initial (unit : UnitNo) (group : Group) : Stays unit group [] (.initial, .initial) := by
  refine ⟨.initial _, fun opened => ?_, fun index pointer => ?_⟩
  · cases opened
  · cases pointer

/-- One event at time 0, in which the unit has a module that all groups were seen in. -/
def Builder.single (unit : UnitNo) : Builder :=
  { Builder.initial with
    fBuffer := [{ VF48event.new 1 0 with
      modules := Function.update (fun _ => none) unit
        (some { VF48module.new unit with completeGroupMask := 0x3F }) }] }

/-- Every time is in the coincidence window of time 0. -/
def Settings.wide : Settings := { Settings.initial with fFreq := fun _ => 1, fCoinc := 2 ^ 64 }

/-- The only event has a module of the unit that all groups were seen in. -/
def Single (unit : UnitNo) (builder : Builder) : Prop :=
  ∃ e m, builder.fBuffer = [e] ∧ e.timestamp = 0 ∧ e.modules unit = some m ∧ m.completeGroupMask = 0x3F

namespace Single

variable {index : ℕ} {m after : VF48module}

theorem congr (single : Single unit builder) (same : next.fBuffer = builder.fBuffer) :
    Single unit next := by
  rw [Single, same]
  exact single

theorem get (single : Single unit builder) (here : builder.module? unit index = some m) :
    index = 0 ∧ m.completeGroupMask = 0x3F := by
  obtain ⟨e, old, buffer, _, module, seen⟩ := single
  obtain ⟨event, place, found⟩ := Option.bind_eq_some_iff.mp here
  rw [buffer] at place
  match index with
  | 0 =>
    cases place
    rw [module] at found
    cases found
    exact ⟨rfl, seen⟩
  | _ + 1 => cases place

theorem file (single : Single unit builder)
    (buffer : next.fBuffer = (builder.setModule unit 0 after).fBuffer)
    (seen : after.completeGroupMask = 0x3F) : Single unit next := by
  obtain ⟨e, old, alone, time, _, _⟩ := single
  refine ⟨{ e with modules := Function.update e.modules unit (some after) }, after, ?_, time,
    Function.update_self .., seen⟩
  rw [buffer, setModule, alone]
  rfl

theorem startChannel {labelled : VF48module} (seen : labelled.completeGroupMask = 0x3F)
    (cgroup : Group) (chan : Chan) (flag : Bool) :
    (labelled.startChannel cgroup chan flag).completeGroupMask = 0x3F := by
  change labelled.completeGroupMask ||| 1#32 <<< cgroup.val = 0x3F
  rw [seen]
  revert cgroup
  decide

/-- Every time finds the event. -/
theorem FindEvent (single : Single unit builder) (time : BitVec 64) :
    builder.FindEvent .wide unit (time.toNat / Settings.wide.fFreq unit) true = (builder, 0) := by
  obtain ⟨e, old, alone, zero, _, _⟩ := single
  have near : |e.timestamp - (time.toNat : ℚ) / Settings.wide.fFreq unit| < Settings.wide.fCoinc := by
    have small : (time.toNat : ℚ) < 2 ^ 64 := by exact_mod_cast time.isLt
    change |e.timestamp - (time.toNat : ℚ) / 1| < 2 ^ 64
    rw [zero, div_one, zero_sub, abs_neg, abs_of_nonneg (Nat.cast_nonneg _)]
    exact small
  rw [Builder.FindEvent, alone, List.findIdx?_cons]
  simp only [near, decide_true, Bool.or_true, Bool.and_true, if_true]

/-- A channel header files in the module. -/
theorem names (single : Single unit builder)
    (present : ∀ index ∈ locals.m, (builder.module? unit index).isSome) (names : Names group w)
    (ran : unpackWord .wide unit group (builder, locals) w = .ok (next, following)) :
    Single unit next := by
  cases pointer : locals.m with
  | some index =>
    obtain ⟨m, here⟩ := Option.isSome_iff_exists.mp (present index pointer)
    obtain ⟨rfl, seen⟩ := single.get here
    obtain ⟨state, after, stepped, _, _, _, opened, buffer, takes⟩ :=
      unpackWord_names_attached .wide names pointer here
    rw [stepped] at ran
    cases ran
    obtain ⟨labelled, flag, _, same, rfl⟩ := takes.header names
    exact single.file buffer (startChannel (same.trans seen) _ _ _)
  | none =>
    have counted := counted_of_names names pointer ran
    obtain ⟨timed, found, state, after, since, index, labelled, flag, same, event, stepped, _, _,
        _, buffer, _, seen⟩ :=
      unpackWord_names_detached .wide unit builder names pointer counted
    rw [stepped] at ran
    cases ran
    have alone := single.congr same
    rw [alone.FindEvent] at event
    cases event
    obtain ⟨e, m, one, _, module, mask⟩ := id alone
    have here : timed.module? unit 0 = some m := by
      rw [Builder.module?, one]
      exact module
    rw [here] at seen
    exact alone.file buffer (startChannel (seen.trans mask) _ _ _)

end Single

/-- Every trailer at a valid channel takes the module from `m`. -/
structure Leaves (unit : UnitNo) (group : Group) (past : List Word) (state : Builder × Locals) : Prop
    extends Watched unit group past state where
  leaves : state.2.m.isSome → (Watch.after group past).held = true
  single : Single unit state.1

theorem Leaves.step (leaves : Leaves unit group past (builder, locals))
    (ran : unpackWord .wide unit group (builder, locals) w = .ok (next, following)) :
    Leaves unit group (past ++ [w]) (next, following) := by
  have present : ∀ index ∈ locals.m, (builder.module? unit index).isSome := leaves.present
  have watched := leaves.toWatched.step ran
  obtain ⟨names, _⟩ | ⟨unnamed, lost, buffer, same⟩ | ⟨unnamed, index, m, chan, reached, buffer,
      left⟩ :=
    unpackWord_cases present ran
  · refine ⟨watched, fun _ => ?_, leaves.single.names present names ran⟩
    rw [Watch.after_names past names]
  · refine ⟨watched, fun there => ?_, leaves.single.congr buffer⟩
    rw [same] at there
    have outside : (Watch.after group past).inside = false := by
      rw [leaves.inside]
      obtain null | outside := lost
      · rw [null] at there
        cases there
      · rw [outside]
        rfl
    rw [Watch.after_unnamed past unnamed, outside, leaves.leaves there, Bool.and_false]
    rfl
  · obtain ⟨pointer, here, inside⟩ := target_eq_some_iff.mp reached
    obtain ⟨rfl, seen⟩ := leaves.single.get here
    refine ⟨watched, fun there => ?_, leaves.single.file buffer (takeData_completeGroupMask.trans seen)⟩
    have untrailed : tagOf w ≠ 0xE0000000 := by
      intro trailer
      rw [left, if_pos ⟨trailer, seen⟩] at there
      cases there
    have held : (Watch.after group past).held = true := by
      refine leaves.leaves ?_
      rw [pointer]
      rfl
    rw [Watch.after_unnamed past unnamed, held, beq_eq_false_iff_ne.mpr untrailed]
    rfl

theorem Leaves.initial (unit : UnitNo) (group : Group) :
    Leaves unit group [] (.single unit, .initial) := by
  refine ⟨.initial _, fun pointed => ?_, _, { VF48module.new unit with completeGroupMask := 0x3F },
    rfl, rfl, ?_, rfl⟩
  · cases pointed
  · change Function.update (fun _ => none) unit (some _) unit = _
    rw [Function.update_self]

/-- No null module is dereferenced and no channel past the ends is looked up, whatever is in
building and whatever the settings are, just on the guarded words. -/
theorem UnpackEvent_safe_iff (unit : UnitNo) (group : Group) (data : List Word) :
    (∀ settings builder, ∃ next, Builder.UnpackEvent settings builder unit group data = .ok next) ↔
      Guarded group data := by
  refine ⟨fun safe past w front => ⟨fun names => ?_, fun unknown opened => ?_⟩,
    UnpackEvent_of_guarded unit⟩
  · obtain ⟨state, ran, next, stepped⟩ := runs_prefix (safe .wide (.single unit)) front
    have leaves : Leaves unit group past state := Except.foldlM_keeps (Leaves unit group)
      (fun leaves ran => leaves.step ran) (Leaves.initial unit group) ran
    have needs := (@unpackWord_ok_iff _ unit group state.1 state.2 w leaves.present).mp ⟨next, stepped⟩
    exact (needs.1 names).imp leaves.leaves leaves.stamped.mpr
  · obtain ⟨state, ran, next, stepped⟩ := runs_prefix (safe .unenabled .initial) front
    have stays : Stays unit group past state := Except.foldlM_keeps (Stays unit group)
      (fun stays ran => stays.step ran) (Stays.initial unit group) ran
    have needs := (@unpackWord_ok_iff _ unit group state.1 state.2 w stays.present).mp ⟨next, stepped⟩
    rw [stays.inside]
    exact needs.2 unknown (stays.stays opened)

/-- A channel header without timestamp words in front. -/
theorem headerAlone_unsafe :
    Builder.UnpackEvent .initial .initial 0 0 [0x80000005, 0xC0000001, 0xE0000005] =
      .error .nullModule := by
  rfl

end

end PtfConverter.VF48
