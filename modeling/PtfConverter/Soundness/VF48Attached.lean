import PtfConverter.Soundness.VF48Filing
import PtfConverter.Soundness.VF48Samples

/-! # The module that the words of a block work on

Behind the first channel header of a block, `m` points to the module of its event, and every word
changes that module at most. `Takes` says how, word kind by word kind, for words in any order. A
word can only fault where `m` is null in front of a channel header, or where a word of an unknown
kind meets a bad channel number.
-/

namespace PtfConverter.VF48

/-- A channel header of one of the 48 channels. -/
def Names (group : Group) (w : Word) : Prop :=
  tagOf w = 0xC0000000 ∧ headerChan group w < VF48_MAX_CHANNELS

instance (group : Group) (w : Word) : Decidable (Names group w) := inferInstanceAs (Decidable (_ ∧ _))

/-- A word of no kind that `UnpackEvent` knows. -/
def Unknown (w : Word) : Prop :=
  tagOf w ∉ [0xF0000000#32, 0x80000000#32, 0xA0000000#32, 0xC0000000#32, 0x00000000#32,
    0x40000000#32, 0x50000000#32,
    0xE0000000#32] ∧ w ≠ 0xdeaddead ∧ w ≠ 0xdeadbeef

instance (w : Word) : Decidable (Unknown w) := inferInstanceAs (Decidable (_ ∧ _))

/-- A word that holds no data: a marker, a header, a timestamp word or padding. -/
def Idle (w : Word) : Prop :=
  tagOf w ∈ [0xF0000000#32, 0x80000000#32, 0xA0000000#32, 0xC0000000#32] ∨ w = 0xdeaddead ∨
    w = 0xdeadbeef

theorem kinds (w : Word) :
    Idle w ∨ tagOf w = 0x00000000 ∨ tagOf w = 0x40000000 ∨ tagOf w = 0x50000000 ∨
      tagOf w = 0xE0000000 ∨ Unknown w := by
  by_contra other
  simp only [not_or] at other
  obtain ⟨idle, sample, time, charge, trailer, known⟩ := other
  obtain ⟨tags, padding⟩ := not_or.mp idle
  refine known ⟨?_, not_or.mp padding⟩
  simp only [List.mem_cons, List.not_mem_nil, or_false, not_or] at tags ⊢
  obtain ⟨marker, header, stamp, channel⟩ := tags
  exact ⟨marker, header, stamp, channel, sample, time, charge, trailer⟩

/-- A word that is no channel header, at the channel that is open. -/
def VF48module.takeData (settings : Settings) (unit : UnitNo) (trigger : Word) (w : Word)
    (m : VF48module) (chan : Chan) :
    VF48module :=
  if tagOf w = 0x00000000 then m.takeSamples chan w
  else if tagOf w = 0x40000000 then m.takeTime chan w
  else if tagOf w = 0x50000000 then m.takeCharge chan w
  else if tagOf w = 0xE0000000 then m.takeTrailer settings unit trigger chan w
  else if Unknown w then { m with error := 1 }
  else m

/-- What a word does to the module that `m` points to. -/
structure Takes (settings : Settings) (unit : UnitNo) (group : Group) (locals : Locals) (w : Word)
    (m next : VF48module) : Prop where
  header : ∀ names : Names group w, ∃ (stamped : VF48module) (flag : Bool),
    stamped.channels = m.channels ∧ stamped.completeGroupMask = m.completeGroupMask ∧
    next = stamped.startChannel ⟨headerGroup group w, Builder.group_of_channel names.2⟩
      ⟨headerChan group w, names.2⟩ flag
  data : ¬ Names group w →
    next = (channel? locals.chan).elim m (m.takeData settings unit locals.headerTrigNo w)

section

open Builder

variable {settings : Settings} {unit : UnitNo} {group : Group} {index : ℕ} {builder next : Builder}
  {m : VF48module} {locals following : Locals} {w : Word}

/-- A timestamp leaves the buffer as it is, and gives the current module, or that of
its time, the new marks. -/
theorem applyTimestamp_shape (settings : Settings) (unit : UnitNo) (cgroup : Group)
    (builder : Builder) (locals : Locals) :
    ∃ (timed : Builder) (marked : Locals) (ts48 : BitVec 64) (since : BitVec 64),
      applyTimestamp settings unit cgroup builder locals =
        (stampGroup unit cgroup
          (stampedModule settings unit timed marked (since.toNat / settings.fFreq unit)).1
          (stampedModule settings unit timed marked (since.toNat / settings.fFreq unit)).2 ts48
          (since.toNat / settings.fFreq unit),
        { marked with
          m := some (stampedModule settings unit timed marked (since.toNat / settings.fFreq unit)).2 }) ∧
      timed.fBuffer = builder.fBuffer ∧ marked.m = locals.m := by
  unfold applyTimestamp
  simp only
  split_ifs
  all_goals exact ⟨_, _, _, _, rfl, rfl, rfl⟩

theorem setModule_buffer {timed : Builder} (same : timed.fBuffer = builder.fBuffer) (m : VF48module) :
    (timed.setModule unit index m).fBuffer = (builder.setModule unit index m).fBuffer := by
  rw [setModule, setModule, same]

theorem module?_congr {timed : Builder} (same : timed.fBuffer = builder.fBuffer) :
    timed.module? unit index = builder.module? unit index := by
  rw [Builder.module?, Builder.module?, same]

theorem module?_of_buffer (here : builder.module? unit index = some m) {after : VF48module}
    (buffer : next.fBuffer = (builder.setModule unit index after).fBuffer) :
    next.module? unit index = some after := by
  rw [module?_congr buffer]
  exact module?_setModule here

/-- A module that was put in place is replaced. -/
theorem buffer_again {middle : Builder} {after : VF48module}
    (first : middle.fBuffer = (builder.setModule unit index m).fBuffer)
    (second : next.fBuffer = (middle.setModule unit index after).fBuffer) :
    next.fBuffer = (builder.setModule unit index after).fBuffer := by
  rw [second, setModule, setModule, first, setModule]
  simp only [List.modify_modify_eq]
  congr 1
  funext e
  simp only [Function.comp_apply, Function.update_idem]

/-- Where `m` points to a module, a timestamp changes its marks only. -/
theorem stamped_attached (settings : Settings) (cgroup : Group) (pointer : locals.m = some index)
    (here : builder.module? unit index = some m) :
    ∃ state marked, stamped settings unit cgroup builder locals = (state, marked) ∧
      marked.m = some index ∧
      ∃ labelled : VF48module, state.fBuffer = (builder.setModule unit index labelled).fBuffer ∧
        labelled.channels = m.channels ∧ labelled.completeGroupMask = m.completeGroupMask := by
  unfold stamped
  split_ifs with counted
  · obtain ⟨timed, marked, ts48, since, applied, buffer, same⟩ :=
      applyTimestamp_shape settings unit cgroup builder locals
    have found : stampedModule settings unit timed marked (since.toNat / settings.fFreq unit) =
        (timed, index) := by
      rw [stampedModule, same, pointer]
    have there : timed.module? unit index = some m := (module?_congr buffer).trans here
    rw [applied, found, stampGroup, there]
    exact ⟨_, _, rfl, rfl, m.stampGroup cgroup ts48 _, setModule_buffer buffer _, rfl, rfl⟩
  · exact ⟨builder, locals, rfl, pointer, m, (Refiled.of_module? here).buffer, rfl, rfl⟩

/-- Where `m` is null, a timestamp makes it point to the module of its time, which is labelled. -/
theorem stamped_detached (settings : Settings) (unit : UnitNo) (builder : Builder) (cgroup : Group)
    (null : locals.m = none) (counted : locals.timestampCount ≠ 0) :
    ∃ (timed found state : Builder) (marked : Locals) (since : BitVec 64) (index : ℕ)
      (labelled : VF48module),
      timed.fBuffer = builder.fBuffer ∧
      timed.FindEvent settings unit (since.toNat / settings.fFreq unit) true = (found, index) ∧
      stamped settings unit cgroup builder locals = (state, marked) ∧ marked.m = some index ∧
      state.fBuffer = (found.setModule unit index labelled).fBuffer ∧
        state.module? unit index = some labelled ∧
      labelled.completeGroupMask = ((found.module? unit index).getD (.new unit)).completeGroupMask := by
  obtain ⟨timed, marked, ts48, since, applied, buffer, same⟩ :=
    applyTimestamp_shape settings unit cgroup builder locals
  rcases event : timed.FindEvent settings unit (since.toNat / settings.fFreq unit) true with
    ⟨found, index⟩
  obtain ⟨middle, stamps, refiled⟩ := stampedModule_refiled (same.trans null) event cgroup ts48
  rw [stamps] at applied
  have stamped : stamped settings unit cgroup builder locals = _ := (if_pos counted).trans applied
  exact ⟨timed, found, _, _, since, index, _, buffer, event, stamped, rfl, refiled.buffer,
    refiled.module?, rfl⟩

/-- A channel is opened wherever `m` points to a module. -/
theorem openChannel_attached {cgroup : Group} {chan : Chan} (pointer : locals.m = some index)
    (here : builder.module? unit index = some m) :
    ∃ state, openChannel unit cgroup chan builder locals =
        .ok (state, { locals with timestampCount := 0, timestampFlag := false }) ∧
      state.fBuffer = (builder.setModule unit index
        (m.startChannel cgroup chan locals.timestampFlag)).fBuffer := by
  obtain ⟨state, opened, refiled⟩ := openChannel_refiled (Refiled.of_module? here) pointer
  exact ⟨state, opened, refiled.buffer⟩

/-- A channel header of one of the channels, where `m` points to a module. -/
theorem unpackWord_names_attached (settings : Settings) (names : Names group w)
    (pointer : locals.m = some index) (here : builder.module? unit index = some m) :
    ∃ state following, unpackWord settings unit group (builder, locals) w = .ok (state, following) ∧
      following.m = some index ∧ following.timestampCount = 0 ∧ following.chan = headerChan group w ∧
      ∃ next, state.fBuffer = (builder.setModule unit index next).fBuffer ∧
        Takes settings unit group locals w m next := by
  obtain ⟨tag, inside⟩ := names
  have pointed : ({ locals with chan := headerChan group w } : Locals).m = some index := pointer
  obtain ⟨stamping, marked, stamps, current, labelled, buffer, channels, mask⟩ :=
    stamped_attached settings ⟨headerGroup group w, group_of_channel inside⟩ pointed here
  have chan := stamped_chan settings unit ⟨headerGroup group w, group_of_channel inside⟩ builder
    { locals with chan := headerChan group w }
  rw [stamps] at chan
  obtain ⟨state, opened, filed⟩ := openChannel_attached current (module?_of_buffer here buffer)
  rw [unpackWord_channel tag, channelHeader_eq_dite, dif_pos inside, stamps]
  refine ⟨state, _, opened, current, rfl, chan,
    labelled.startChannel ⟨headerGroup group w, group_of_channel inside⟩
      ⟨headerChan group w, inside⟩ marked.timestampFlag,
    buffer_again buffer filed, ?_⟩
  exact ⟨fun _ => ⟨labelled, marked.timestampFlag, channels, mask, rfl⟩,
    fun unnamed => absurd ⟨tag, inside⟩ unnamed⟩

/-- The same where `m` is null, behind timestamp words. -/
theorem unpackWord_names_detached (settings : Settings) (unit : UnitNo) (builder : Builder)
    (names : Names group w) (null : locals.m = none) (counted : locals.timestampCount ≠ 0) :
    ∃ (timed found state : Builder) (following : Locals) (since : BitVec 64) (index : ℕ)
      (labelled : VF48module) (flag : Bool),
      timed.fBuffer = builder.fBuffer ∧
      timed.FindEvent settings unit (since.toNat / settings.fFreq unit) true = (found, index) ∧
      unpackWord settings unit group (builder, locals) w = .ok (state, following) ∧
      following.m = some index ∧ following.timestampCount = 0 ∧ following.chan = headerChan group w ∧
      state.fBuffer = (found.setModule unit index
        (labelled.startChannel ⟨headerGroup group w, group_of_channel names.2⟩
        ⟨headerChan group w, names.2⟩ flag)).fBuffer ∧
      state.module? unit index =
        some (labelled.startChannel ⟨headerGroup group w, group_of_channel names.2⟩
        ⟨headerChan group w, names.2⟩ flag) ∧
      labelled.completeGroupMask = ((found.module? unit index).getD (.new unit)).completeGroupMask := by
  obtain ⟨tag, inside⟩ := names
  have nowhere : ({ locals with chan := headerChan group w } : Locals).m = none := null
  obtain ⟨timed, found, stamping, marked, since, index, labelled, same, event, stamps, current,
      buffer, here, mask⟩ :=
    stamped_detached settings unit builder
      ⟨headerGroup group w, group_of_channel inside⟩ nowhere counted
  have chan := stamped_chan settings unit ⟨headerGroup group w, group_of_channel inside⟩ builder
    { locals with chan := headerChan group w }
  rw [stamps] at chan
  obtain ⟨state, opened, filed⟩ := openChannel_attached current here
  refine ⟨timed, found, state, { marked with timestampCount := 0, timestampFlag := false }, since,
    index, labelled,
    marked.timestampFlag, same, event, ?_, current, rfl, chan,
    buffer_again buffer filed, module?_of_buffer here filed, mask⟩
  rw [unpackWord_channel tag, channelHeader_eq_dite, dif_pos inside, stamps]
  exact opened

theorem channel?_eq_some {chan : ℤ} {c : Chan} (inside : channel? chan = some c) : chan = c.val := by
  unfold channel? at inside
  split_ifs at inside with bound
  cases inside
  exact (Int.toNat_of_nonneg bound.1).symm

/-- Data words without a channel are complaints. -/
theorem target_eq_none (outside : channel? locals.chan = none) : builder.target unit locals = none := by
  cases reached : builder.target unit locals with
  | none => rfl
  | some place =>
    obtain ⟨index, m, chan⟩ := place
    have inside := (target_eq_some_iff.mp reached).2.2
    rw [outside] at inside
    cases inside

theorem target_of_null (null : locals.m = none) : builder.target unit locals = none := by
  rw [Builder.target, null]
  rfl

/-- The module of a trailer is left when its groups are the enabled ones. -/
theorem trailerWord_following {chan : Chan}
    (reached : builder.target unit locals = some (index, m, chan)) :
    (builder.trailerWord settings unit locals w).2 =
      if m.completeGroupMask = settings.fGroupEnabled unit then
        { locals with m := none } else locals := by
  rw [trailerWord, reached]
  simp only
  have mask : (if decide (w &&& 0x00FFFFFF#32 = locals.headerTrigNo) = true then
      m.setChannel chan { m.channels chan with complete := true }
    else { m.setChannel chan { m.channels chan with complete := true } with
      error := 1 }).completeGroupMask =
      m.completeGroupMask := by
    split_ifs <;> rfl
  rw [mask]
  split_ifs <;> rfl

/-- A timestamp word only counts, behind the first two. -/
theorem timestampWord_keeps : (builder.timestampWord locals w).1.fBuffer = builder.fBuffer ∧
    (builder.timestampWord locals w).2.m = locals.m ∧
      (builder.timestampWord locals w).2.chan = locals.chan ∧
    (builder.timestampWord locals w).2.timestampCount = locals.timestampCount + 1 := by
  unfold timestampWord
  simp only
  split_ifs <;> exact ⟨rfl, rfl, rfl, rfl⟩

section takeData

variable {trigger : Word} {chan : Chan}

theorem takeData_idle (idle : Idle w) : m.takeData settings unit trigger w chan = m := by
  unfold VF48module.takeData
  obtain kind | rfl | rfl := idle
  · simp only [List.mem_cons, List.not_mem_nil, or_false] at kind
    obtain tag | tag | tag | tag := kind <;> simp [tag, Unknown]
  · rfl
  · rfl

theorem takeData_sample (tag : tagOf w = 0x00000000) :
    m.takeData settings unit trigger w chan = m.takeSamples chan w :=
  if_pos tag

theorem takeData_time (tag : tagOf w = 0x40000000) :
    m.takeData settings unit trigger w chan = m.takeTime chan w := by
  rw [VF48module.takeData, tag]
  rfl

theorem takeData_charge (tag : tagOf w = 0x50000000) :
    m.takeData settings unit trigger w chan = m.takeCharge chan w := by
  rw [VF48module.takeData, tag]
  rfl

theorem takeData_trailer (tag : tagOf w = 0xE0000000) :
    m.takeData settings unit trigger w chan = m.takeTrailer settings unit trigger chan w := by
  rw [VF48module.takeData, tag]
  rfl

theorem takeData_unknown (unknown : Unknown w) :
    m.takeData settings unit trigger w chan = { m with error := 1 } := by
  have kind := unknown.1
  simp only [List.mem_cons, List.not_mem_nil, or_false, not_or] at kind
  obtain ⟨_, _, _, _, sample, time, charge, trailer⟩ := kind
  simp only [VF48module.takeData, BitVec.ofNat_eq_ofNat, sample, time, charge, trailer, unknown,
    if_false, if_true]

theorem takeData_completeGroupMask :
    (m.takeData settings unit trigger w chan).completeGroupMask = m.completeGroupMask := by
  unfold VF48module.takeData
  split_ifs
  · unfold VF48module.takeSamples
    simp only
    split_ifs <;> rfl
  · rfl
  · rfl
  · unfold VF48module.takeTrailer
    simp only
    split_ifs
    · exact (Kept.CompleteModule ..).seen
    · rfl
    · exact (Kept.CompleteModule ..).seen
    · rfl
  · rfl
  · rfl

end takeData

theorem unpackWord_marker (tag : tagOf w = 0xF0000000) :
    unpackWord settings unit group (builder, locals) w = .ok (builder, locals) := by
  simp only [unpackWord, tag]
  rfl

/-- A word that holds no data changes local variables at most. -/
theorem unpackWord_idle (idle : Idle w) (unnamed : ¬ Names group w) :
    ∃ next following, unpackWord settings unit group (builder, locals) w = .ok (next, following) ∧
      next.fBuffer = builder.fBuffer ∧ following.m = locals.m ∧
      following.chan = (if tagOf w = 0xC0000000 then (headerChan group w : ℤ) else locals.chan) ∧
      following.timestampCount = locals.timestampCount + if tagOf w = 0xA0000000 then 1 else 0 := by
  obtain kind | rfl | rfl := idle
  · simp only [List.mem_cons, List.not_mem_nil, or_false] at kind
    obtain tag | tag | tag | tag := kind
    · refine ⟨_, _, unpackWord_marker tag, rfl, rfl, ?_⟩
      rw [tag]
      exact ⟨rfl, rfl⟩
    · refine ⟨_, _, unpackWord_header tag, rfl, rfl, ?_⟩
      rw [tag]
      exact ⟨rfl, rfl⟩
    · refine ⟨_, _, unpackWord_timestamp tag, ?_⟩
      rw [tag]
      exact timestampWord_keeps
    · have outside : ¬ headerChan group w < VF48_MAX_CHANNELS := fun inside => unnamed ⟨tag, inside⟩
      rw [unpackWord_channel tag, channelHeader_eq_dite, dif_neg outside, tag]
      exact ⟨_, _, rfl, rfl, rfl, rfl, rfl⟩
  · exact ⟨_, _, rfl, rfl, rfl, rfl, rfl⟩
  · exact ⟨_, _, rfl, rfl, rfl, rfl, rfl⟩

theorem unpackWord_unknown (unknown : Unknown w) :
    unpackWord settings unit group (builder, locals) w =
      builder.unexpectedWord unit locals w >>= fun builder => .ok (builder, locals) := by
  have kind := unknown.1
  simp only [List.mem_cons, List.not_mem_nil, or_false, not_or] at kind
  obtain ⟨marker, header, stamp, channel, sample, time, charge, trailer⟩ := kind
  simp only [unpackWord, BitVec.ofNat_eq_ofNat, marker, header, stamp, channel, sample, time,
    charge, trailer, if_false]
  rfl

/-- Any other word than the header of a channel, where there is no channel for it. -/
theorem unpackWord_lost (lost : builder.target unit locals = none) (unnamed : ¬ Names group w)
    (ran : unpackWord settings unit group (builder, locals) w = .ok (next, following)) :
    next.fBuffer = builder.fBuffer ∧ following.m = locals.m := by
  obtain idle | sample | time | charge | trailer | unknown := kinds w
  · obtain ⟨_, _, stepped, buffer, same, _⟩ :=
      @unpackWord_idle settings unit group builder locals w idle unnamed
    rw [stepped] at ran
    cases ran
    exact ⟨buffer, same⟩
  · rw [unpackWord_sample sample, sampleWord, lost] at ran
    cases ran
    exact ⟨rfl, rfl⟩
  · rw [unpackWord_time time, timeWord, lost] at ran
    cases ran
    exact ⟨rfl, rfl⟩
  · rw [unpackWord_charge charge, chargeWord, lost] at ran
    cases ran
    exact ⟨rfl, rfl⟩
  · rw [unpackWord_trailer trailer, trailerWord, lost] at ran
    cases ran
    exact ⟨rfl, rfl⟩
  · rw [unpackWord_unknown unknown, unexpectedWord, if_neg (not_or.mpr unknown.2)] at ran
    cases pointer : locals.m with
    | none =>
      rw [pointer] at ran
      cases ran
      exact ⟨rfl, pointer⟩
    | some index =>
      simp only [pointer] at ran
      split at ran
      · next chan m inside here =>
        rw [target_eq_some_iff.mpr ⟨pointer, here, inside⟩] at lost
        cases lost
      · cases ran

/-- Any other word than the header of a channel, where there is a channel for it. -/
theorem unpackWord_reached {chan : Chan}
    (reached : builder.target unit locals = some (index, m, chan)) (unnamed : ¬ Names group w)
    (ran : unpackWord settings unit group (builder, locals) w = .ok (next, following)) :
    next.fBuffer = (builder.setModule unit index
      (m.takeData settings unit locals.headerTrigNo w chan)).fBuffer ∧
      following.m = if tagOf w = 0xE0000000 ∧
        m.completeGroupMask = settings.fGroupEnabled unit then none else locals.m := by
  obtain ⟨pointer, here, inside⟩ := target_eq_some_iff.mp reached
  have there := Refiled.of_module? here
  have current := channel?_eq_some inside
  have stays (tag : tagOf w ≠ 0xE0000000) :
      (if tagOf w = 0xE0000000 ∧ m.completeGroupMask = settings.fGroupEnabled unit
      then none else locals.m) = locals.m := if_neg fun closing => tag closing.1
  obtain idle | sample | time | charge | trailer | unknown := kinds w
  · have untrailed : tagOf w ≠ 0xE0000000 := by
      obtain kind | rfl | rfl := idle
      · exact ne_of_mem_of_not_mem kind (by decide)
      · decide
      · decide
    obtain ⟨_, _, stepped, buffer, same, _⟩ :=
      @unpackWord_idle settings unit group builder locals w idle unnamed
    rw [stepped] at ran
    cases ran
    rw [takeData_idle idle, stays untrailed]
    exact ⟨buffer.trans there.buffer, same⟩
  · rw [unpackWord_sample sample] at ran
    cases ran
    rw [takeData_sample sample, stays (by rw [sample]; decide)]
    exact ⟨(sampleWord_refiled there pointer current).buffer, rfl⟩
  · rw [unpackWord_time time] at ran
    cases ran
    rw [takeData_time time, stays (by rw [time]; decide)]
    exact ⟨(timeWord_refiled there pointer current).buffer, rfl⟩
  · rw [unpackWord_charge charge] at ran
    cases ran
    rw [takeData_charge charge, stays (by rw [charge]; decide)]
    exact ⟨(chargeWord_refiled there pointer current).buffer, rfl⟩
  · rw [unpackWord_trailer trailer] at ran
    have passed := Except.ok.inj ran
    have state : next = (builder.trailerWord settings unit locals w).1 := congrArg Prod.fst passed.symm
    have rest : following = (builder.trailerWord settings unit locals w).2 :=
      congrArg Prod.snd passed.symm
    rw [takeData_trailer trailer]
    refine ⟨state ▸ (trailerWord_refiled settings there pointer current).buffer, ?_⟩
    rw [rest, trailerWord_following reached]
    by_cases all : m.completeGroupMask = settings.fGroupEnabled unit
    · rw [if_pos all, if_pos ⟨trailer, all⟩]
    · rw [if_neg all, if_neg fun closing => all closing.2]
  · rw [unpackWord_unknown unknown, unexpectedWord, if_neg (not_or.mpr unknown.2)] at ran
    simp only [pointer, inside, here] at ran
    cases ran
    have untrailed : tagOf w ≠ 0xE0000000 := (ne_of_mem_of_not_mem (by decide) unknown.1).symm
    rw [takeData_unknown unknown, stays untrailed]
    exact ⟨rfl, rfl⟩

/-- Any word, where `m` points to a module: only a trailer takes it from `m`. -/
theorem unpackWord_attached (pointer : locals.m = some index)
    (here : builder.module? unit index = some m)
    (ran : unpackWord settings unit group (builder, locals) w = .ok (next, following)) :
    ∃ after, next.fBuffer = (builder.setModule unit index after).fBuffer ∧
      Takes settings unit group locals w m after ∧
      (tagOf w ≠ 0xE0000000 → following.m = some index) := by
  by_cases names : Names group w
  · obtain ⟨state, opening, stepped, current, _, _, after, buffer, takes⟩ :=
      unpackWord_names_attached settings names pointer here
    rw [stepped] at ran
    cases ran
    exact ⟨after, buffer, takes, fun _ => current⟩
  · cases inside : channel? locals.chan with
    | none =>
      have lost : builder.target unit locals = none := target_eq_none inside
      obtain ⟨buffer, same⟩ := unpackWord_lost lost names ran
      refine ⟨m, buffer.trans (Refiled.of_module? here).buffer,
        ⟨fun named => absurd named names, fun _ => ?_⟩,
        fun _ => same.trans pointer⟩
      rw [inside]
      rfl
    | some chan =>
      obtain ⟨buffer, left⟩ :=
        unpackWord_reached (target_eq_some_iff.mpr ⟨pointer, here, inside⟩) names ran
      refine ⟨_, buffer, ⟨fun named => absurd named names, fun _ => ?_⟩, fun untrailed => ?_⟩
      · rw [inside]
        rfl
      · rw [left, if_neg fun closing => untrailed closing.1, pointer]

theorem trailerWord_keeps : (builder.trailerWord settings unit locals w).2.chan = locals.chan ∧
    (builder.trailerWord settings unit locals w).2.timestampCount = locals.timestampCount := by
  cases reached : builder.target unit locals with
  | none =>
    rw [trailerWord, reached]
    exact ⟨rfl, rfl⟩
  | some place =>
    rw [trailerWord_following reached]
    split_ifs <;> exact ⟨rfl, rfl⟩

/-- Behind the header of a channel, its number is the current one and no timestamp words wait. -/
theorem unpackWord_names (names : Names group w)
    (ran : unpackWord settings unit group (builder, locals) w = .ok (next, following)) :
    following.chan = headerChan group w ∧ following.timestampCount = 0 := by
  rw [unpackWord_channel names.1, channelHeader_eq_dite, dif_pos names.2] at ran
  obtain ⟨index, m, _, _, shape⟩ := openChannel_ok ran
  cases shape
  exact ⟨stamped_chan ..,  rfl⟩

/-- Other words keep the channel and the count, unless they are a channel header or a timestamp
word. -/
theorem unpackWord_unnamed (unnamed : ¬ Names group w)
    (ran : unpackWord settings unit group (builder, locals) w = .ok (next, following)) :
    following.chan = (if tagOf w = 0xC0000000 then (headerChan group w : ℤ) else locals.chan) ∧
      following.timestampCount = locals.timestampCount + if tagOf w = 0xA0000000 then 1 else 0 := by
  obtain idle | sample | time | charge | trailer | unknown := kinds w
  · obtain ⟨_, _, stepped, _, _, marks⟩ :=
      @unpackWord_idle settings unit group builder locals w idle unnamed
    rw [stepped] at ran
    cases ran
    exact marks
  · rw [unpackWord_sample sample] at ran
    cases ran
    rw [sample]
    exact ⟨rfl, rfl⟩
  · rw [unpackWord_time time] at ran
    cases ran
    rw [time]
    exact ⟨rfl, rfl⟩
  · rw [unpackWord_charge charge] at ran
    cases ran
    rw [charge]
    exact ⟨rfl, rfl⟩
  · rw [unpackWord_trailer trailer] at ran
    have rest : following = (builder.trailerWord settings unit locals w).2 :=
      congrArg Prod.snd (Except.ok.inj ran).symm
    rw [rest, trailer]
    exact trailerWord_keeps
  · rw [unpackWord_unknown unknown] at ran
    obtain ⟨state, _, done⟩ := Except.bind_eq_ok_iff.mp ran
    cases done
    have channel : tagOf w ≠ 0xC0000000 := (ne_of_mem_of_not_mem (by decide) unknown.1).symm
    have stamp : tagOf w ≠ 0xA0000000 := (ne_of_mem_of_not_mem (by decide) unknown.1).symm
    rw [if_neg channel, if_neg stamp]
    exact ⟨rfl, rfl⟩

/-- Only a channel header changes the channel. -/
theorem unpackWord_chan
    (ran : unpackWord settings unit group (builder, locals) w = .ok (next, following)) :
    following.chan = if tagOf w = 0xC0000000 then (headerChan group w : ℤ) else locals.chan := by
  by_cases names : Names group w
  · rw [if_pos names.1]
    exact (unpackWord_names names ran).1
  · exact (unpackWord_unnamed names ran).1

/-- A channel header that does not fault where `m` is null has timestamp words in front. -/
theorem counted_of_names (names : Names group w) (null : locals.m = none)
    (ran : unpackWord settings unit group (builder, locals) w = .ok (next, following)) :
    locals.timestampCount ≠ 0 := by
  intro uncounted
  rw [unpackWord_channel names.1, channelHeader_eq_dite, dif_pos names.2, stamped,
    if_neg (not_not.mpr uncounted)] at ran
  obtain ⟨index, _, found, _⟩ := openChannel_ok ran
  change locals.m = some index at found
  rw [null] at found
  cases found

/-- A channel header needs a module or timestamp words. -/
theorem unpackWord_names_ok_iff (names : Names group w)
    (present : ∀ index ∈ locals.m, (builder.module? unit index).isSome) :
    (∃ state, unpackWord settings unit group (builder, locals) w = .ok state) ↔
      locals.m.isSome ∨ locals.timestampCount ≠ 0 := by
  cases pointer : locals.m with
  | some index =>
    obtain ⟨m, here⟩ := Option.isSome_iff_exists.mp (present index pointer)
    obtain ⟨state, following, stepped, _⟩ := unpackWord_names_attached settings names pointer here
    exact iff_of_true ⟨_, stepped⟩ (.inl rfl)
  | none =>
    rw [or_iff_right (fun there => by cases there)]
    constructor
    · rintro ⟨state, ran⟩
      exact counted_of_names names pointer ran
    · intro counted
      obtain ⟨_, _, state, following, _, _, _, _, _, _, stepped, _⟩ :=
        unpackWord_names_detached settings unit builder names pointer counted
      exact ⟨_, stepped⟩

/-- A word of an unknown kind needs a channel, when there is a module. -/
theorem unpackWord_unknown_ok_iff (unknown : Unknown w)
    (present : ∀ index ∈ locals.m, (builder.module? unit index).isSome) :
    (∃ state, unpackWord settings unit group (builder, locals) w = .ok state) ↔
      (locals.m.isSome → (channel? locals.chan).isSome) := by
  rw [unpackWord_unknown unknown, unexpectedWord, if_neg (not_or.mpr unknown.2)]
  cases pointer : locals.m with
  | none => exact iff_of_true ⟨_, rfl⟩ fun there => by cases there
  | some index =>
    obtain ⟨m, here⟩ := Option.isSome_iff_exists.mp (present index pointer)
    simp only [here]
    cases inside : channel? locals.chan with
    | none =>
      refine iff_of_false ?_ ?_
      · rintro ⟨state, ran⟩
        cases ran
      · intro valid
        cases valid rfl
    | some chan => exact iff_of_true ⟨_, rfl⟩ fun _ => rfl

/-- All other words are safe. -/
theorem unpackWord_known_ok (unnamed : ¬ Names group w) (known : ¬ Unknown w) :
    ∃ state, unpackWord settings unit group (builder, locals) w = .ok state := by
  obtain idle | sample | time | charge | trailer | unknown := kinds w
  · obtain ⟨_, _, stepped, _⟩ := @unpackWord_idle settings unit group builder locals w idle unnamed
    exact ⟨_, stepped⟩
  · exact ⟨_, unpackWord_sample sample⟩
  · exact ⟨_, unpackWord_time time⟩
  · exact ⟨_, unpackWord_charge charge⟩
  · exact ⟨_, unpackWord_trailer trailer⟩
  · exact absurd unknown known

/-- A channel header needs a module or timestamp words, and a word of an unknown kind needs a
channel for its module. -/
theorem unpackWord_ok_iff (present : ∀ index ∈ locals.m, (builder.module? unit index).isSome) :
    (∃ state, unpackWord settings unit group (builder, locals) w = .ok state) ↔
      (Names group w → locals.m.isSome ∨ locals.timestampCount ≠ 0) ∧
      (Unknown w → locals.m.isSome → (channel? locals.chan).isSome) := by
  by_cases names : Names group w
  · have known : ¬ Unknown w := by
      rintro ⟨kind, _⟩
      rw [names.1] at kind
      exact kind (by decide)
    rw [and_iff_left fun unknown => absurd unknown known, forall_prop_of_true names]
    exact unpackWord_names_ok_iff names present
  · rw [and_iff_right fun named => absurd named names]
    by_cases unknown : Unknown w
    · rw [forall_prop_of_true unknown]
      exact unpackWord_unknown_ok_iff unknown present
    · exact iff_of_true (unpackWord_known_ok names unknown) fun there => absurd there unknown

end

end PtfConverter.VF48
