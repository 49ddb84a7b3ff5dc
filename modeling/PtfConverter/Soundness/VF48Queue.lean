import PtfConverter.Soundness.VF48Isolation
import PtfConverter.Soundness.VF48Words

/-! # Delivery of events in order

The events that were returned, followed by those in the buffer, have the numbers 1, 2, 3, ... up to
the last event that was made: `UnpackStream` numbers new events in order and puts them at the end of
the buffer, and `GetEvent` takes the first one.
-/

namespace PtfConverter.VF48

/-- The buffered events are numbered in order, behind the events that were returned. -/
structure Numbered (returned : ℕ) (builder : Builder) : Prop where
  eventNos : builder.fBuffer.map VF48event.eventNo = List.range' (returned + 1) builder.fBuffer.length
  last : builder.fEventNo = returned + builder.fBuffer.length

/-- Only new events change the numbers, and they get the next one. -/
private theorem Numbered.setModule {returned : ℕ} {builder : Builder}
    (numbered : Numbered returned builder) (unit : UnitNo) (index : ℕ) (m : VF48module) :
    Numbered returned (builder.setModule unit index m) := by
  obtain ⟨eventNos, last⟩ := numbered
  have same : (builder.setModule unit index m).fBuffer.map VF48event.eventNo =
      builder.fBuffer.map VF48event.eventNo := by
    apply List.ext_getElem?
    intro i
    rw [Builder.setModule, List.getElem?_map, List.getElem?_modify, List.getElem?_map,
      Option.map_eq_map, Option.map_map]
    congr 1
    funext event
    rw [Function.comp_apply]
    split_ifs <;> rfl
  refine ⟨?_, ?_⟩
  · rw [same, eventNos, Builder.setModule, List.length_modify]
  · rw [Builder.setModule, List.length_modify]
    exact last

theorem Numbered.stable (returned : ℕ) (unit : UnitNo) : Stable unit (Numbered returned) where
  count := fun _ _ numbered => ⟨numbered.eventNos, numbered.last⟩
  times := fun _ _ _ numbered => ⟨numbered.eventNos, numbered.last⟩
  newModule := fun _ index numbered => numbered.setModule unit index _
  relabel := fun _ index _ _ numbered _ _ => numbered.setModule unit index _
  setModule := fun _ index _ numbered => numbered.setModule unit index _
  newEvent := by
    intro builder timestamp numbered
    obtain ⟨eventNos, last⟩ := numbered
    refine ⟨?_, ?_⟩
    · simp only [List.map_append, eventNos, List.map_cons, List.map_nil, VF48event.new,
        List.length_append, List.length_singleton, List.range'_concat, last]
      rw [Nat.one_mul, Nat.add_right_comm]
    · rw [List.length_append, List.length_singleton, last, Nat.add_assoc]

namespace VF48event

variable {settings : Settings}

theorem tryComplete_eventNo (settings : Settings) (e : VF48event) :
    (e.tryComplete settings).eventNo = e.eventNo := by
  unfold tryComplete CompleteEvent
  split_ifs <;> rfl

theorem tryComplete_modules (settings : Settings) (e : VF48event) :
    (e.tryComplete settings).modules = e.modules := by
  unfold tryComplete CompleteEvent
  split_ifs <;> rfl

end VF48event

namespace Builder

variable {settings : Settings} {builder : Builder} {flush : Bool}

/-- The loop of `GetEvent` keeps what completing an event keeps. -/
theorem completeUntil_map {α : Type*} {f : VF48event → α} (same : ∀ e, f (e.tryComplete settings) = f e)
    (events : List VF48event) : (completeUntil settings events).1.map f = events.map f := by
  induction events with
  | nil => rfl
  | cons e rest ih =>
    rw [completeUntil]
    simp only
    split_ifs
    · rw [List.map_cons, List.map_cons, same]
    · rw [List.map_cons, List.map_cons, same, ih]

/-- The loop that finds nothing went through all events, and none is complete. -/
theorem completeUntil_none {events : List VF48event}
    (absent : (completeUntil settings events).2 = false) :
    (∀ e ∈ events, (e.tryComplete settings).complete = false) ∧
      ∀ e ∈ (completeUntil settings events).1, e.complete = false := by
  induction events with
  | nil => exact ⟨List.forall_mem_nil _, List.forall_mem_nil _⟩
  | cons e rest ih =>
    rw [completeUntil] at absent ⊢
    simp only at absent ⊢
    split_ifs at absent ⊢ with complete
    have incomplete := Bool.eq_false_iff.mpr complete
    exact ⟨List.forall_mem_cons.mpr ⟨incomplete, (ih absent).1⟩,
      List.forall_mem_cons.mpr ⟨incomplete, (ih absent).2⟩⟩

/-- `GetEvent` returns the first event, or nothing; the others stay in order, up to
what completing changes. -/
theorem GetEvent_map {α : Type*} {f : VF48event → α}
    (same : ∀ e, f (e.tryComplete settings) = f e) (builder : Builder) (flush : Bool) :
    ((builder.GetEvent settings flush).2.toList ++ (builder.GetEvent settings flush).1.fBuffer).map f =
      builder.fBuffer.map f := by
  unfold GetEvent
  cases buffer : builder.fBuffer with
  | nil =>
    rw [List.map_append, buffer]
    rfl
  | cons first rest =>
    have kept := completeUntil_map same (first.tryComplete settings :: rest)
    rw [List.map_cons, same, ← List.map_cons] at kept
    simp only
    split_ifs
    · simp only [Option.toList_some, List.singleton_append, List.map_cons, same]
    · cases events : (completeUntil settings (first.tryComplete settings :: rest)).1 with
      | nil =>
        rw [events] at kept
        cases kept
      | cons e later =>
        rw [events] at kept
        exact kept
    · exact kept

theorem GetEvent_fEventNo (settings : Settings) (builder : Builder) (flush : Bool) :
    (builder.GetEvent settings flush).1.fEventNo = builder.fEventNo := by
  unfold GetEvent
  split
  · rfl
  · simp only
    split_ifs <;> rfl

/-- Nothing is returned only when few events wait, and none of them is complete. -/
theorem GetEvent_none (absent : (builder.GetEvent settings false).2 = none) :
    builder.fBuffer.length ≤ settings.fFlushIncompleteThreshold.toNat ∧
    (∀ e ∈ builder.fBuffer, (e.tryComplete settings).complete = false) ∧
    ∀ e ∈ (builder.GetEvent settings false).1.fBuffer, e.complete = false := by
  unfold GetEvent at absent ⊢
  cases buffer : builder.fBuffer with
  | nil =>
    simp only [buffer]
    exact ⟨Nat.zero_le _, List.forall_mem_nil _, List.forall_mem_nil _⟩
  | cons first rest =>
    simp only [buffer] at absent ⊢
    have kept := completeUntil_map (VF48event.tryComplete_eventNo settings)
      (first.tryComplete settings :: rest)
    have length := congrArg List.length kept
    rw [List.length_map, List.length_map, List.length_cons] at length
    split_ifs at absent ⊢ with complete found
    · -- the buffer has a first event
      rw [List.head?_eq_none_iff] at absent
      rw [absent] at length
      cases length
    · simp only [Bool.or_eq_true, decide_eq_true_eq, not_or, Bool.not_eq_true] at complete found
      obtain ⟨each, after⟩ := completeUntil_none found.1
      refine ⟨?_, List.forall_mem_cons.mpr ⟨complete.1, (List.forall_mem_cons.mp each).2⟩, after⟩
      rw [List.length_cons, ← length]
      exact Nat.le_of_not_lt found.2

end Builder

/-- The event that is returned has the next number. -/
theorem Numbered.GetEvent {count : ℕ} {builder : Builder} (numbered : Numbered count builder)
    (settings : Settings) (flush : Bool) :
    (builder.GetEvent settings flush).2.toList.map VF48event.eventNo =
        List.range' (count + 1) (builder.GetEvent settings flush).2.toList.length ∧
      Numbered (count + (builder.GetEvent settings flush).2.toList.length)
        (builder.GetEvent settings flush).1 := by
  obtain ⟨eventNos, last⟩ := numbered
  have kept := Builder.GetEvent_map (VF48event.tryComplete_eventNo settings) builder flush
  have made := Builder.GetEvent_fEventNo settings builder flush
  generalize builder.GetEvent settings flush = result at kept made ⊢
  obtain ⟨next, event⟩ := result
  simp only at kept made ⊢
  rw [eventNos] at kept
  have total := congrArg List.length kept
  rw [List.length_map, List.length_append, List.length_range'] at total
  rw [← total, ← List.range'_append_1, List.map_append] at kept
  obtain ⟨first, rest⟩ := List.append_inj kept (by rw [List.length_map, List.length_range'])
  refine ⟨first, ?_, ?_⟩
  · rw [rest, Nat.add_right_comm]
  · rw [made, last, ← total, Nat.add_assoc]

theorem handed_append (first second : List Sight) :
    handed (first ++ second) = handed first ++ handed second :=
  List.filterMap_append

theorem returned_append (first second : List Sight) :
    returned (first ++ second) = returned first ++ returned second :=
  List.filterMap_append

theorem returned_map (events : List VF48event) : returned (events.map .returned) = events := by
  rw [returned, List.filterMap_map]
  exact List.filterMap_some

theorem returned_blocks (blocks : List (UnitNo × Group × List Word)) :
    returned (blocks.map Sight.ofBlock) = [] := by
  rw [returned, List.filterMap_map]
  exact List.filterMap_eq_nil_iff.mpr fun block _ => rfl

/-- Every call but `Reset` keeps the events numbered behind those that were returned. -/
theorem Numbered.call {count : ℕ} {self next : Sorted} {c : Call} {sights : List Sight}
    (ordinary : c ≠ .Reset) (numbered : Numbered count self.builder)
    (ran : self.call c = .ok (next, sights)) :
    (returned sights).map VF48event.eventNo = List.range' (count + 1) (returned sights).length ∧
      Numbered (count + (returned sights).length) next.builder := by
  cases c with
  | Reset => exact absurd rfl ordinary
  | UnpackStream unit data =>
    obtain ⟨⟨⟨sorters, builder⟩, blocks⟩, streamed, done⟩ := Except.bind_eq_ok_iff.mp ran
    cases done
    rw [show (blocks.map fun block => Sight.handed block.1 block.2.1 block.2.2) =
        blocks.map Sight.ofBlock from rfl,
      returned_blocks]
    refine ⟨rfl, ?_⟩
    exact Sorted.words_keep (fun _ builder => Numbered count builder)
      (fun kept delivered => (Numbered.stable count _).UnpackEvent kept delivered) [] numbered streamed
  | GetEvent flush =>
    obtain ⟨first, rest⟩ := numbered.GetEvent self.settings flush
    have done : self.call (.GetEvent flush) = .ok
        ({ self with builder := (self.builder.GetEvent self.settings flush).1 },
          (self.builder.GetEvent self.settings flush).2.toList.map .returned) := rfl
    rw [done] at ran
    cases ran
    rw [returned_map]
    exact ⟨first, rest⟩

/-- So does every run without a `Reset`. -/
theorem Numbered.run {self final : Sorted} {calls : List Call} {sights : List Sight}
    (ordinary : .Reset ∉ calls) (numbered : Numbered 0 self.builder)
    (ran : Transducer.run Sorted.call self calls = .ok (final, sights)) :
    (returned sights).map VF48event.eventNo = List.range' 1 (returned sights).length ∧
      Numbered (returned sights).length final.builder := by
  have keeps := Transducer.run_keeps
    (fun past given (self : Sorted) => .Reset ∉ past →
      (returned given).map VF48event.eventNo = List.range' 1 (returned given).length ∧
        Numbered (returned given).length self.builder) ?_ (fun _ => ⟨rfl, numbered⟩) ran
  · exact keeps ordinary
  · intro past given self c next out kept ran absent
    rw [List.mem_append, List.mem_singleton, not_or] at absent
    obtain ⟨eventNos, numbered⟩ := kept absent.1
    obtain ⟨later, numbered⟩ := numbered.call (fun reset => absent.2 reset.symm) ran
    rw [returned_append, List.map_append, List.length_append, eventNos, later]
    refine ⟨?_, numbered⟩
    rw [← List.range'_append_1, Nat.add_comm 1]

/-- `GetEvent(true)` returns the buffered events one by one, and then nothing. -/
theorem flush_all (self : UnpackVF48) :
    ∃ flushed, Transducer.run UnpackVF48.call self
        (List.replicate self.builder.fBuffer.length (.GetEvent true)) =
        .ok (flushed, (self.builder.fBuffer.map (VF48event.tryComplete self.settings)).map .returned) ∧
      (flushed.builder.GetEvent flushed.settings true).2 = none := by
  obtain ⟨buffer, shape⟩ : ∃ buffer, buffer = self.builder.fBuffer := ⟨_, rfl⟩
  rw [← shape]
  induction buffer generalizing self with
  | nil =>
    refine ⟨self, rfl, ?_⟩
    rw [Builder.GetEvent, ← shape]
  | cons first rest ih =>
    have popped : self.call (.GetEvent true) =
        .ok ({ self with builder := { self.builder with fBuffer := rest } },
          [.returned (first.tryComplete self.settings)]) := by
      rw [UnpackVF48.call, Builder.GetEvent, ← shape]
      simp only [Bool.or_true, if_true, Option.toList_some, List.map_cons, List.map_nil]
    obtain ⟨flushed, ran, done⟩ := ih { self with builder := { self.builder with fBuffer := rest } } rfl
    refine ⟨flushed, ?_, done⟩
    rw [List.length_cons, List.replicate_succ, Transducer.run, popped, Except.ok_bind]
    simp only [ran]
    rfl

/-- Between two calls of `Reset`, `GetEvent` returns the events that are made in order,
one by one; with `true` it returns all that wait, and without it nothing only when few
wait and none is complete. -/
theorem GetEvent_fifo (self : UnpackVF48) {calls : List Call} (ordinary : .Reset ∉ calls)
    {final : UnpackVF48} {sights : List Sight}
    (ran : Transducer.run UnpackVF48.call self.Reset calls = .ok (final, sights)) :
    (returned sights).map VF48event.eventNo = List.range' 1 (returned sights).length ∧
    (returned sights ++ final.builder.fBuffer).map VF48event.eventNo =
      List.range' 1 final.builder.fEventNo ∧
    (∃ flushed, Transducer.run UnpackVF48.call final
        (List.replicate final.builder.fBuffer.length (.GetEvent true)) =
        .ok (flushed, (final.builder.fBuffer.map (VF48event.tryComplete final.settings)).map
          .returned) ∧
      (flushed.builder.GetEvent flushed.settings true).2 = none) ∧
    ((final.builder.GetEvent final.settings false).2 = none →
      final.builder.fBuffer.length ≤ final.settings.fFlushIncompleteThreshold.toNat ∧
      (∀ e ∈ final.builder.fBuffer, (e.tryComplete final.settings).complete = false) ∧
      ∀ e ∈ (final.builder.GetEvent final.settings false).1.fBuffer, e.complete = false) := by
  have opened : Sorted.Represents ⟨self.Reset.settings, .initial, fun _ => .initial⟩ self.Reset :=
    Reset_represents rfl
  have agree := opened.run calls
  rw [ran] at agree
  obtain ⟨⟨sorted, seen⟩, sortedRan, represents, same⟩ := agree.to_ok
  obtain rfl : sights = seen := same
  obtain ⟨eventNos, waiting, last⟩ := Numbered.run ordinary ⟨rfl, rfl⟩ sortedRan
  rw [← represents.builder] at waiting last
  refine ⟨eventNos, ?_, flush_all final, Builder.GetEvent_none⟩
  rw [List.map_append, eventNos, waiting, last, ← List.range'_append_1, Nat.add_comm 1]

/-- Two modules are awaited for an event, and more than one event does not wait. -/
def oneWaits : Settings :=
  { Settings.initial with fNumModules := 2, fModulesMask := 3, fFlushIncompleteThreshold := 1 }

/-- A block of one channel, with a timestamp. -/
def blockAt (low : Word) : List Word := [0x80000005, low, 0xA0000000, 0xC0000001, 0xE0000005]

/-- Blocks of three events from one module, with calls that do not flush. -/
def threeEvents : List Call :=
  [.UnpackStream 0 (blockAt 0xA0000001), .GetEvent false, .UnpackStream 0 (blockAt 0xA000EAC1),
    .GetEvent false,
    .UnpackStream 0 (blockAt 0xA001D581), .GetEvent false, .GetEvent false]

/-- Two events are returned because another one is behind them; the last one waits until it is
flushed. -/
theorem GetEvent_fifo_threeEvents :
    ∃ final sights,
      Transducer.run UnpackVF48.call { UnpackVF48.new with
        settings := oneWaits }.Reset threeEvents = .ok (final, sights) ∧
      (returned sights).map VF48event.eventNo = [1, 2] ∧
      (returned sights ++ final.builder.fBuffer).map VF48event.eventNo = [1, 2, 3] ∧
      (∃ flushed, Transducer.run UnpackVF48.call final [.GetEvent true] =
          .ok (flushed, (final.builder.fBuffer.map (VF48event.tryComplete final.settings)).map
            .returned) ∧
        (flushed.builder.GetEvent flushed.settings true).2 = none) ∧
      ∀ e ∈ final.builder.fBuffer, (e.tryComplete final.settings).complete = false := by
  have counts : ((Transducer.run UnpackVF48.call { UnpackVF48.new with
      settings := oneWaits }.Reset threeEvents).map
      fun result => ((returned result.2).length, result.1.builder.fBuffer.length,
        result.1.builder.fEventNo,
        (result.1.builder.GetEvent result.1.settings false).2.isNone)).toOption =
          some (2, 1, 3, true) := by
    decide +kernel
  have ordinary : .Reset ∉ threeEvents := by
    simp only [threeEvents, List.mem_cons, reduceCtorEq, List.not_mem_nil, or_self, not_false_eq_true]
  cases ran : Transducer.run UnpackVF48.call { UnpackVF48.new with
      settings := oneWaits }.Reset threeEvents with
  | error fault =>
    rw [ran] at counts
    cases counts
  | ok result =>
    obtain ⟨final, sights⟩ := result
    rw [ran] at counts
    obtain ⟨two, rest⟩ := Prod.mk.inj (Option.some.inj counts)
    obtain ⟨one, rest⟩ := Prod.mk.inj rest
    obtain ⟨three, waits⟩ := Prod.mk.inj rest
    obtain ⟨eventNos, all, flushes, incomplete⟩ :=
      GetEvent_fifo { UnpackVF48.new with settings := oneWaits } ordinary ran
    rw [two] at eventNos
    rw [three] at all
    rw [one] at flushes
    exact ⟨final, sights, rfl, eventNos, all, flushes,
      (incomplete (Option.isNone_iff_eq_none.mp waits)).2.1⟩

end PtfConverter.VF48
