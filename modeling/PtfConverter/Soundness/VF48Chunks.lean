import PtfConverter.Soundness.VF48Sorter

/-! # Cutting and mixing the streams of the units

However the words of each unit are cut into calls of `UnpackStream`, and however the calls of the
units are mixed, the streams end in the same state and the same blocks go to `UnpackEvent`, as long
as the words fit. They fit exactly when no assertion fails and no word is written past a buffer.
-/

namespace PtfConverter.VF48

open UnpackVF48

/-- Watching what a call hands on does not change what it does. -/
theorem UnpackVF48.watchedStream_fst (self : UnpackVF48) (unit : UnitNo) (data : List Word) :
    (self.watchedStream unit data).map Prod.fst = self.UnpackStream unit data := by
  have erased : (fun state w => (watchedStep self.settings unit state w).map Prod.fst) =
      Stream.step self.settings unit := by
    funext state w
    rw [watchedStep]
    rcases Stream.step self.settings unit state w with fault | next <;> rfl
  rw [watchedStream, UnpackStream]
  rcases (self.streams unit).NewGroup with fault | ⟨stream, grp⟩
  · rfl
  · simp only [Except.ok_bind]
    have fold : (Transducer.run (watchedStep self.settings unit)
        (stream, self.builder, grp) data).map Prod.fst = _ :=
      Transducer.run_map_fst (stream, self.builder, grp) data
    rw [erased] at fold
    rw [← fold]
    rcases Transducer.run (watchedStep self.settings unit)
      (stream, self.builder, grp) data with fault | ⟨final, handed⟩ <;>
      rfl

/-- Chunks of words as calls. -/
def streamCalls (chunks : List (UnitNo × List Word)) : List Call :=
  chunks.map fun chunk => .UnpackStream chunk.1 chunk.2

/-- The words of some chunks, each with its unit. -/
def wordsOf (chunks : List (UnitNo × List Word)) : List (UnitNo × Word) :=
  chunks.flatMap fun chunk => chunk.2.map (Prod.mk chunk.1)

theorem wordsOf_ofIndex (chunks : List (UnitNo × List Word)) (unit : UnitNo) :
    (wordsOf chunks).ofIndex unit = (chunks.ofIndex unit).flatten := by
  induction chunks with
  | nil => rfl
  | cons chunk chunks ih =>
    obtain ⟨other, data⟩ := chunk
    rw [wordsOf, List.flatMap_cons, List.ofIndex_append, ← wordsOf, ih]
    obtain rfl | ne := eq_or_ne other unit
    · rw [List.ofIndex_map_self, List.ofIndex_cons_self, List.flatten_cons]
    · rw [List.ofIndex_map_ne ne, List.ofIndex_cons_ne ne, List.nil_append]

/-- To an unpacker with sorters, chunks are their words. -/
theorem Sorted.run_streamCalls (sorted : Sorted) (chunks : List (UnitNo × List Word)) :
    Transducer.run Sorted.call sorted (streamCalls chunks) = do
      let (state, blocks) ← Transducer.run (Sorted.word sorted.settings)
        (sorted.sorters, sorted.builder) (wordsOf chunks)
      return ({ sorted with builder := state.2, sorters := state.1 }, blocks.map Sight.ofBlock) := by
  induction chunks generalizing sorted with
  | nil => rfl
  | cons chunk chunks ih =>
    rw [streamCalls, List.map_cons, ← streamCalls, Transducer.run, Sorted.call, wordsOf,
      List.flatMap_cons, ← wordsOf, Transducer.run_append]
    rcases Transducer.run (Sorted.word sorted.settings) (sorted.sorters, sorted.builder)
        (chunk.2.map (Prod.mk chunk.1)) with
      fault | ⟨⟨sorters, builder⟩, blocks⟩
    · rfl
    · simp only [Except.ok_bind, pure, Except.pure, ih]
      rcases Transducer.run (Sorted.word sorted.settings) (sorters, builder) (wordsOf chunks) with
        fault | ⟨⟨sorters, builder⟩, blocks⟩
      · rfl
      · simp only [Except.ok_bind, List.map_append]
        rfl

/-- `UnpackEvent` faults on a block of a unit, at some state of the events in building. -/
def CrashesOn (settings : Settings) (blocks : UnitNo → List (Group × List Word))
    (fault : Fault) : Prop :=
  ∃ unit, ∃ block ∈ blocks unit, ∃ builder : Builder,
    builder.UnpackEvent settings unit block.1 block.2 = .error fault

variable {self : UnpackVF48}

/-- The words that a sorter leaves waiting, and the blocks that it hands out, for a list of words. -/
private theorem delivered_crash {settings : Settings} {sorters : UnitNo → Sorter}
    {events : List (UnitNo × Word)} {builder : Builder} {block : UnitNo × Group × List Word}
    {fault : Fault} (member : block ∈ Sorter.machine.family.outputs sorters events)
    (crash : builder.deliver settings block = .error fault) :
    CrashesOn settings (fun unit =>
      Sorter.machine.outputs (sorters unit) (events.ofIndex unit)) fault := by
  have mine : block.2 ∈ (Sorter.machine.family.outputs sorters events).ofIndex block.1 :=
    List.mem_filterMap.mpr ⟨block, member, if_pos rfl⟩
  rw [Mealy.family_outputs] at mine
  exact ⟨block.1, block.2, mine, builder, crash⟩

/-- As long as the words fit, each unit is sorted by itself, and only `UnpackEvent` can fault. -/
theorem run_streamCalls_of_fits (reached : self.Reached) (chunks : List (UnitNo × List Word))
    (fits : ∀ unit, (self.streams unit).sorter.Fits (chunks.ofIndex unit).flatten) :
    (∃ final sights, Transducer.run UnpackVF48.call self (streamCalls chunks) =
      .ok (final, sights) ∧ ∀ unit,
      Sorts (Sorter.machine.after (self.streams unit).sorter (chunks.ofIndex unit).flatten)
        (final.streams unit) ∧
      (sights.filterMap Sight.handed?).ofIndex unit =
        Sorter.machine.outputs (self.streams unit).sorter (chunks.ofIndex unit).flatten) ∨
    ∃ fault, Transducer.run UnpackVF48.call self (streamCalls chunks) = .error fault ∧
      CrashesOn self.settings
        (fun unit => Sorter.machine.outputs (self.streams unit).sorter
          (chunks.ofIndex unit).flatten) fault := by
  have agree := reached.represents.run (streamCalls chunks)
  have accepts : Sorter.machine.family.Accepts
      (fun sorters e => (sorters e.1).Takes e.2) self.sorted.sorters
      (wordsOf chunks) := by
    rw [Mealy.family_accepts]
    intro unit
    rw [wordsOf_ofIndex]
    exact fits unit
  rw [Sorted.run_streamCalls, Sorted.word, Mealy.run_drive_of_accepts accepts] at agree
  simp only [← wordsOf_ofIndex]
  rcases delivered : (Sorter.machine.family.outputs self.sorted.sorters (wordsOf chunks)).foldlM
    (Builder.deliver self.sorted.settings) self.sorted.builder with fault | builder
  · rw [delivered] at agree
    obtain ⟨stopped, block, member, crash⟩ := Mealy.foldlM_error delivered
    exact .inr ⟨fault, agree.of_error, delivered_crash member crash⟩
  · rw [delivered] at agree
    obtain ⟨⟨final, sights⟩, ran, represents, same⟩ := agree.of_ok
    refine .inl ⟨final, sights, ran, fun unit => ⟨?_, ?_⟩⟩
    · have sorts := represents.sorts unit
      simp only [Mealy.family_after] at sorts
      exact sorts
    · change sights = (Sorter.machine.family.outputs self.sorted.sorters (wordsOf chunks)).map
        Sight.ofBlock at same
      rw [same, Sight.handed?_ofBlock, Mealy.family_outputs]
      rfl

/-- However the words of each unit are cut into calls and the calls are mixed, every unit
ends in the same state, and the same blocks of it go to `UnpackEvent`, unless the program
ends in `UnpackEvent`. -/
theorem UnpackStream_chunks (reached : self.Reached) (streams : UnitNo → List Word)
    (fits : ∀ unit, (self.streams unit).sorter.Fits (streams unit)) :
    ∃ (last : UnitNo → Sorter) (blocks : UnitNo → List (Group × List Word)),
      ∀ chunks : List (UnitNo × List Word), (∀ unit, (chunks.ofIndex unit).flatten = streams unit) →
        (∃ final sights, Transducer.run UnpackVF48.call self (streamCalls chunks) =
          .ok (final, sights) ∧ ∀ unit,
          Sorts (last unit) (final.streams unit) ∧
            (sights.filterMap Sight.handed?).ofIndex unit = blocks unit) ∨
        ∃ fault, Transducer.run UnpackVF48.call self (streamCalls chunks) = .error fault ∧
          CrashesOn self.settings blocks fault := by
  refine ⟨fun unit => Sorter.machine.after (self.streams unit).sorter (streams unit),
    fun unit => Sorter.machine.outputs (self.streams unit).sorter (streams unit), fun chunks cut => ?_⟩
  have outcome := run_streamCalls_of_fits reached chunks
  simp only [cut] at outcome
  exact outcome fits

/-- A trigger with a marker in front of it, for one unit. -/
def markedBlock (unit : UnitNo) : List Word :=
  if unit = 3 then [0xF0000002, 0x80000005, 0xA0000001, 0xA0000000, 0xC0000020, 0xE0000005] else []

theorem new_reached : UnpackVF48.new.Reached := ⟨.initial, [], [], rfl⟩

theorem markedBlock_fits (unit : UnitNo) :
    (UnpackVF48.new.streams unit).sorter.Fits (markedBlock unit) := by
  obtain rfl | ne := eq_or_ne unit 3
  · refine ⟨?_, ?_, ?_, ?_, ?_, ?_, trivial⟩ <;> decide
  · rw [markedBlock, if_neg ne]
    exact trivial

theorem UnpackStream_markedBlock :
    ∃ (last : UnitNo → Sorter) (blocks : UnitNo → List (Group × List Word)),
      ∀ chunks : List (UnitNo × List Word), (∀ unit, (chunks.ofIndex unit).flatten = markedBlock unit) →
        (∃ final sights, Transducer.run UnpackVF48.call UnpackVF48.new (streamCalls chunks) =
          .ok (final, sights) ∧ ∀ unit,
          Sorts (last unit) (final.streams unit) ∧
            (sights.filterMap Sight.handed?).ofIndex unit = blocks unit) ∨
        ∃ fault, Transducer.run UnpackVF48.call UnpackVF48.new (streamCalls chunks) = .error fault ∧
          CrashesOn UnpackVF48.new.settings blocks fault :=
  UnpackStream_chunks new_reached markedBlock markedBlock_fits

/-- An assertion fails, or a word is written past a buffer. -/
def Fault.Unsafe : Fault → Prop
  | .assertion => True
  | .wbuf _ => True
  | .nullModule => False
  | .channel _ => False

theorem refusal_breaks (sorter : Sorter) (w : Word) : (sorter.refusal w).Unsafe := by
  rw [Sorter.refusal]
  split_ifs <;> exact trivial

private theorem openChannel_safe {unit : UnitNo} {cgroup : Group} {chan : Chan}
    {builder : Builder} {locals : Locals} {fault : Fault}
    (crash : Builder.openChannel unit cgroup chan builder locals = .error fault) :
    ¬ fault.Unsafe := by
  unfold Builder.openChannel at crash
  split at crash
  · cases crash
    exact id
  · split at crash
    · cases crash
      exact id
    · cases crash

private theorem unexpectedWord_safe {unit : UnitNo} {builder : Builder} {locals : Locals}
    {w : Word} {fault : Fault} (crash : builder.unexpectedWord unit locals w = .error fault) :
    ¬ fault.Unsafe := by
  unfold Builder.unexpectedWord at crash
  split_ifs at crash
  split at crash
  · cases crash
  · split at crash
    · cases crash
    · cases crash
      exact id

private theorem unpackWord_safe {settings : Settings} {unit : UnitNo} {group : Group}
    {state : Builder × Locals} {w : Word} {fault : Fault}
    (crash : Builder.unpackWord settings unit group state w = .error fault) : ¬ fault.Unsafe := by
  obtain ⟨builder, locals⟩ := state
  unfold Builder.unpackWord at crash
  simp only at crash
  split_ifs at crash
  · unfold Builder.channelHeader at crash
    simp only at crash
    split_ifs at crash
    · exact openChannel_safe crash
    · exact openChannel_safe crash
  · rcases unexpected : builder.unexpectedWord unit locals w with early | next
    · rw [unexpected] at crash
      cases crash
      exact unexpectedWord_safe unexpected
    · rw [unexpected] at crash
      cases crash

/-- `UnpackEvent` itself stays within the buffers. -/
theorem UnpackEvent_safe {settings : Settings} {builder : Builder} {unit : UnitNo} {group : Group}
    {data : List Word} {fault : Fault}
    (crash : builder.UnpackEvent settings unit group data = .error fault) : ¬ fault.Unsafe := by
  rw [Builder.UnpackEvent] at crash
  rcases ran : data.foldlM (Builder.unpackWord settings unit group)
    (builder, Locals.initial) with early | ⟨next, locals⟩
  · rw [ran, Except.error_bind] at crash
    cases crash
    obtain ⟨state, w, _, stopped⟩ := Mealy.foldlM_error ran
    exact unpackWord_safe stopped
  · rw [ran] at crash
    cases crash

/-- Words that do not fit fail an assertion or leave a buffer, unless `UnpackEvent` faults first. -/
theorem run_streamCalls_of_not_fits (reached : self.Reached) (chunks : List (UnitNo × List Word))
    (rejects : ¬ ∀ unit, (self.streams unit).sorter.Fits (chunks.ofIndex unit).flatten) :
    ∃ fault, Transducer.run UnpackVF48.call self (streamCalls chunks) = .error fault ∧
      (fault.Unsafe ∨ CrashesOn self.settings
        (fun unit => Sorter.machine.outputs (self.streams unit).sorter
          (chunks.ofIndex unit).flatten) fault) := by
  have agree := reached.represents.run (streamCalls chunks)
  have refused : ¬ Sorter.machine.family.Accepts
      (fun sorters e => (sorters e.1).Takes e.2) self.sorted.sorters
      (wordsOf chunks) := by
    rw [Mealy.family_accepts]
    simp only [wordsOf_ofIndex]
    exact rejects
  obtain ⟨fault, ran, reason⟩ : ∃ fault,
      Transducer.run (Sorted.word self.settings) (self.sorted.sorters, self.builder)
      (wordsOf chunks) = .error fault ∧ _ := Mealy.run_drive_of_not_accepts refused self.builder
  rw [Sorted.run_streamCalls, show self.sorted.settings = self.settings from rfl,
    show self.sorted.builder = self.builder from rfl, ran] at agree
  refine ⟨fault, agree.of_error, ?_⟩
  obtain ⟨sorters, e, _, rfl⟩ | ⟨builder, block, member, crash⟩ := reason
  · exact .inl (refusal_breaks _ _)
  · simp only [← wordsOf_ofIndex]
    exact .inr (delivered_crash member crash)

/-- In the streams of all units that fit, every group is one of the unit's and every word stays in
its buffer; streams that do not fit break this, unless the program ends in `UnpackEvent`. -/
theorem UnpackStream_safe (reached : self.Reached) (chunks : List (UnitNo × List Word)) :
    ((∀ unit, (self.streams unit).sorter.Fits (chunks.ofIndex unit).flatten) →
      ∀ fault, Transducer.run UnpackVF48.call self (streamCalls chunks) = .error fault →
        ¬ fault.Unsafe) ∧
    ((∃ unit, ¬ (self.streams unit).sorter.Fits (chunks.ofIndex unit).flatten) →
      ∃ fault, Transducer.run UnpackVF48.call self (streamCalls chunks) = .error fault ∧
        (fault.Unsafe ∨ CrashesOn self.settings
          (fun unit => Sorter.machine.outputs (self.streams unit).sorter
            (chunks.ofIndex unit).flatten) fault)) := by
  constructor
  · intro fits fault stopped
    obtain ⟨final, sights, ran, _⟩ | ⟨other, ran, unit, block, _, builder, crash⟩ :=
      run_streamCalls_of_fits reached chunks fits
    · rw [ran] at stopped
      cases stopped
    · rw [ran] at stopped
      cases stopped
      exact UnpackEvent_safe crash
  · intro ⟨unit, rejects⟩
    exact run_streamCalls_of_not_fits reached chunks fun fits => rejects (fits unit)

theorem UnpackStream_safe_markedBlock :
    (∀ unit, (UnpackVF48.new.streams unit).sorter.Fits
      (([(3, markedBlock 3)] : List (UnitNo × List Word)).ofIndex unit).flatten) ∧
    ∀ fault, Transducer.run UnpackVF48.call UnpackVF48.new (streamCalls [(3, markedBlock 3)]) =
      .error fault →
      ¬ fault.Unsafe := by
  have fits : ∀ unit, (UnpackVF48.new.streams unit).sorter.Fits
      (([(3, markedBlock 3)] : List (UnitNo × List Word)).ofIndex unit).flatten := by
    intro unit
    have cut : (([(3, markedBlock 3)] : List (UnitNo × List Word)).ofIndex unit).flatten =
        markedBlock unit := by
      obtain rfl | ne := eq_or_ne unit 3
      · rfl
      · rw [List.ofIndex_cons_ne ne.symm, markedBlock, if_neg ne]
        rfl
    rw [cut]
    exact markedBlock_fits unit
  exact ⟨fits, (UnpackStream_safe new_reached [(3, markedBlock 3)]).1 fits⟩

/-- Words between markers, headers and trailers finish no block. -/
private theorem Sorter.outputs_inner (sorter : Sorter) {words : List Word}
    (inner : ∀ w ∈ words, Inner w) :
    machine.outputs sorter words = [] := by
  induction words generalizing sorter with
  | nil => rfl
  | cons w words ih =>
    obtain ⟨here, later⟩ := List.forall_mem_cons.mp inner
    rw [Mealy.outputs_cons, ih _ later, List.append_nil]
    simp only [machine, step, if_neg here.marker, if_neg here.header, if_neg here.trailer]
    split_ifs <;> rfl

/-- More such words than the buffer has room for do not fit. -/
private theorem Sorter.not_fits_inner {sorter : Sorter} {words : List Word}
    (inner : ∀ w ∈ words, Inner w) (accepting : sorter.acc sorter.grp = true)
    (within : (sorter.words sorter.grp).length ≤ Stream.wmaxWords)
    (long : Stream.wmaxWords < (sorter.words sorter.grp).length + words.length) :
    ¬ sorter.Fits words := by
  induction words generalizing sorter with
  | nil =>
    rw [List.length_nil] at long
    omega
  | cons w words ih =>
    obtain ⟨here, later⟩ := List.forall_mem_cons.mp inner
    intro ⟨takes, rest⟩
    simp only [Takes, if_neg here.marker, if_neg here.header, if_neg here.trailer] at takes
    have next : (machine.step sorter w).1 = sorter.fill (sorter.words sorter.grp ++ [w]) true := by
      simp only [machine, step, if_neg here.marker, if_neg here.header, if_neg here.trailer,
        if_pos accepting]
    rw [next] at rest
    obtain ⟨filled, accepts⟩ := sorter.fill_self (sorter.words sorter.grp ++ [w]) true
    have count : ((sorter.fill (sorter.words sorter.grp ++ [w]) true).words sorter.grp).length =
        (sorter.words sorter.grp).length + 1 := by
          rw [filled, List.length_append, List.length_singleton]
    rw [List.length_cons] at long
    refine ih later accepts ?_ ?_ rest
    · exact count.le.trans (takes accepting)
    · refine lt_of_lt_of_eq long ?_
      change _ = ((sorter.fill (sorter.words sorter.grp ++ [w]) true).words sorter.grp).length +
        words.length
      rw [count]
      omega

/-- A header, and samples without an end. -/
def endless : List Word := 0x80000001 :: List.replicate Stream.wmaxWords 0

/-- A marker of group 6 fails the assertion, and a block without a trailer leaves the buffer. -/
theorem UnpackStream_unsafe :
    Transducer.run UnpackVF48.call UnpackVF48.new (streamCalls [(0, [0xF0000006])]) =
      .error .assertion ∧
    ∃ fault, Transducer.run UnpackVF48.call UnpackVF48.new (streamCalls [(0, endless)]) =
      .error fault ∧ fault.Unsafe := by
  have sample : ∀ w ∈ List.replicate Stream.wmaxWords (0 : Word), Inner w := by
    intro w member
    rw [List.eq_of_mem_replicate member]
    constructor <;> decide
  have cut (unit : UnitNo) : (([(0, endless)] : List (UnitNo × List Word)).ofIndex unit).flatten =
      if unit = 0 then endless else [] := by
    obtain rfl | ne := eq_or_ne unit 0
    · rw [List.ofIndex_cons_self, List.flatten_cons, if_pos rfl]
      exact List.append_nil _
    · rw [List.ofIndex_cons_ne ne.symm, if_neg ne]
      rfl
  constructor
  · rfl
  · obtain ⟨fault, ran, reason⟩ := run_streamCalls_of_not_fits new_reached [(0, endless)] fun fits => by
      have mine := fits 0
      rw [cut, if_pos rfl] at mine
      exact Sorter.not_fits_inner sample (by decide) (by decide)
        (by rw [List.length_replicate]; decide) mine.2
    refine ⟨fault, ran, reason.resolve_right ?_⟩
    rintro ⟨unit, block, member, _⟩
    simp only [cut] at member
    split_ifs at member
    · rw [endless, Mealy.outputs_cons, Sorter.outputs_inner _ sample] at member
      cases member
    · cases member

end PtfConverter.VF48
