import PtfConverter.Model.DataContainer
import PtfConverter.Soundness.BankWalk
import PtfConverter.ToMathlib.Agreement
import Mathlib.Data.List.Nodup

/-! # The cache of decoded banks

Without a cache, each request is a `FindBank` on the current event and then the constructor of the
class. The container answers as that, request by request and event by event, and fails where that
fails. Within an event, the answers to one name are one object, and no object outlives its event.
The invariant is that the cached banks are what the current event has under their names, were made
since the event came, and have different names.
-/

namespace PtfConverter.Midas

variable {Class Decoded : Type} {classes : BankClasses Class Decoded} {classOf : Name → Class}

/-- A request without a cache: `FindBank` on the event, and then the constructor. -/
def uncached (classes : BankClasses Class Decoded) (event : TMidasEvent) (type : Class) (name : Name) :
    Except Failure (Option (TGenericData Class Decoded)) := do
  match ← (FindBank event.fData name).mapError .event with
  | none => return none
  | some found => do
      let object ← classes.make type event name found
      return some object

/-- The data of an event are all that a request looks at. -/
theorem uncached_congr {event other : TMidasEvent} (same : event.fData = other.fData)
    (type : Class) (name : Name) :
    uncached classes event type name = uncached classes other type name := by
  rw [uncached, uncached, same]
  refine bind_congr fun found => ?_
  cases found with
  | none => rfl
  | some found =>
    change (classes.make type event name found >>= _) = (classes.make type other name found >>= _)
    rw [BankClasses.make, BankClasses.make, same]

/-- The object that an answer points to. -/
def Answer.object (answer : Answer Class Decoded) : Option (TGenericData Class Decoded) :=
  answer.pointer.map Pointer.object

def Handled.objects (handled : Handled Class Decoded) : List (Option (TGenericData Class Decoded)) :=
  handled.answers.map Answer.object

namespace TRootanaEventLoop

def uncachedAnswer (classes : BankClasses Class Decoded) (event : TMidasEvent)
    (request : Request classOf) :
    Except Failure (TMidasEvent × List (Option (TGenericData Class Decoded))) := do
  let object ← uncached classes event request.type request.name
  return (event, [object])

/-- One event in `ProcessMidasFile`, without a cache. -/
def uncachedEvent (loop : TRootanaEventLoop) (classes : BankClasses Class Decoded) (none : Unit)
    (occurrence : Occurrence classOf) :
    Except Failure (Unit × List (List (Option (TGenericData Class Decoded)))) :=
  if loop.processed occurrence.event.fEventHeader.fEventId then do
    let (event, _) ← (SetBankList occurrence.event).mapError .event
    let (event, filtered) ← Transducer.run (uncachedAnswer classes) event occurrence.PreFilter
    let (_, answered) ←
      if occurrence.satisfied then
        Transducer.run (uncachedAnswer classes) event occurrence.ProcessMidasEvent
      else .ok (event, [])
    return (none, [filtered ++ answered])
  else .ok (none, [])

/-- The whole loop without a cache. -/
def uncachedLoop (loop : TRootanaEventLoop) (classes : BankClasses Class Decoded)
    (files : List (List (Occurrence classOf))) :
    Except Failure (Unit × List (List (Option (TGenericData Class Decoded)))) :=
  Transducer.run (fun none file =>
    Transducer.run (loop.uncachedEvent classes) none (loop.eventsRead 0 file)) () files

end TRootanaEventLoop

/-- The bank of a name in a list of banks. -/
def cachedBank (list : List (Pointer Class Decoded)) (name : Name) : Option (Pointer Class Decoded) :=
  list.find? fun bank => bank.object.fBankName = name

/-- The container holds banks of the current event, made since the object `first` could be made. -/
structure Cached (classes : BankClasses Class Decoded) (classOf : Name → Class)
    (event : TMidasEvent) (first : ℕ) (container : TDataContainer Class Decoded) : Prop where
  current : container.fMidasEventPointer = some event
  borrowed : container.fOwnMidasEventMemory = false
  since : first ≤ container.allocated
  built : ∀ bank ∈ container.fEventDataList, bank.object.type = classOf bank.object.fBankName ∧
    uncached classes event bank.object.type bank.object.fBankName = .ok (some bank.object)
  made : ∀ bank ∈ container.fEventDataList, first ≤ bank.address ∧ bank.address < container.allocated
  nodup : (container.fEventDataList.map fun bank => bank.object.fBankName).Nodup

/-- What holds of an answer, from the state after it on. -/
structure Answered (classes : BankClasses Class Decoded) (classOf : Name → Class) (event : TMidasEvent)
    (container : TDataContainer Class Decoded) (answer : Answer Class Decoded) : Prop where
  one : answer.type = classOf answer.name
  fetched : uncached classes event answer.type answer.name = .ok answer.object
  kept : answer.pointer = cachedBank container.fEventDataList answer.name
  nodup : (answer.cached.map fun bank => bank.object.fBankName).Nodup

theorem make_eq {type : Class} {event : TMidasEvent} {name : Name} {found : Found}
    {object : TGenericData Class Decoded} (made : classes.make type event name found = .ok object) :
    object.type = type ∧ object.fBankName = name := by
  obtain ⟨decoded, _, done⟩ := Except.bind_eq_ok_iff.mp made
  cases done
  exact ⟨rfl, rfl⟩

/-- A bank that is made is added to the cache. -/
theorem Cached.push {event : TMidasEvent} {first : ℕ} {self : TDataContainer Class Decoded}
    (cached : Cached classes classOf event first self) {object : TGenericData Class Decoded}
    (type : object.type = classOf object.fBankName)
    (fetched : uncached classes event object.type object.fBankName = .ok (some object))
    (absent : ∀ bank ∈ self.fEventDataList, bank.object.fBankName ≠ object.fBankName) :
    Cached classes classOf event first
      { self with
        fEventDataList := self.fEventDataList ++ [⟨self.allocated, object⟩]
        allocated := self.allocated + 1 } := by
  refine ⟨cached.current, cached.borrowed, cached.since.trans (Nat.le_succ _), ?_, ?_, ?_⟩
  · intro bank member
    obtain old | new := List.mem_append.mp member
    · exact cached.built bank old
    · obtain rfl := List.mem_singleton.mp new
      exact ⟨type, fetched⟩
  · intro bank member
    obtain old | new := List.mem_append.mp member
    · obtain ⟨since, before⟩ := cached.made bank old
      exact ⟨since, Nat.lt_succ_of_lt before⟩
    · obtain rfl := List.mem_singleton.mp new
      exact ⟨cached.since, Nat.lt_succ_self _⟩
  · rw [List.map_append, List.map_singleton, ← List.concat_eq_append]
    refine (List.nodup_concat _ _).mpr ⟨?_, cached.nodup⟩
    intro seen
    obtain ⟨bank, member, same⟩ := List.mem_map.mp seen
    exact absent bank member same

/-- A request is answered as without the cache, and fails as without it. -/
theorem Cached.GetEventData {event : TMidasEvent} {first : ℕ} {self : TDataContainer Class Decoded}
    (cached : Cached classes classOf event first self) (name : Name) :
    Except.Agree
      (fun served object => Cached classes classOf event first served.1 ∧
        served.2.map Pointer.object = object ∧
        served.2 = cachedBank served.1.fEventDataList name ∧
        ∃ more, served.1.fEventDataList = self.fEventDataList ++ more)
      (self.GetEventData classes (classOf name) name) (uncached classes event (classOf name) name) := by
  unfold TDataContainer.GetEventData
  cases hit : self.fEventDataList.find? fun bank => bank.object.fBankName = name with
  | some bank =>
    have member := List.mem_of_find?_eq_some hit
    have named : bank.object.fBankName = name := by simpa using List.find?_some hit
    obtain ⟨type, fetched⟩ := cached.built bank member
    rw [named] at type fetched
    rw [type] at fetched
    simp only [type, classes.own, if_true, fetched]
    exact .ok ⟨cached, rfl, hit.symm, [], (List.append_nil _).symm⟩
  | none =>
    have absent : ∀ bank ∈ self.fEventDataList, bank.object.fBankName ≠ name := fun bank member =>
      mt decide_eq_true (List.find?_eq_none.mp hit bank member)
    have current : self.GetMidasData = .ok event := by rw [TDataContainer.GetMidasData, cached.current]
    have fetch : uncached classes event (classOf name) name =
        (FindBank event.fData name).mapError Failure.event >>= fun found => match found with
          | none => pure none
          | some found => classes.make (classOf name) event name found >>= fun object =>
            pure (some object) := rfl
    simp only [current, Except.ok_bind]
    rw [fetch]
    cases searched : (FindBank event.fData name).mapError Failure.event with
    | error failure => exact .error failure
    | ok found =>
      rw [searched, Except.ok_bind] at fetch
      cases found with
      | none => exact .ok ⟨cached, rfl, hit.symm, [], (List.append_nil _).symm⟩
      | some found =>
        simp only [Except.ok_bind] at fetch ⊢
        cases made : classes.make (classOf name) event name found with
        | error failure => exact .error failure
        | ok object =>
          rw [made, Except.ok_bind] at fetch
          obtain ⟨type, named⟩ := make_eq made
          obtain rfl := named
          refine .ok ⟨cached.push type (type ▸ fetch) absent, rfl, ?_, [⟨self.allocated, object⟩], rfl⟩
          rw [cachedBank, List.find?_append, hit, Option.none_or, List.find?_singleton,
            if_pos (decide_eq_true rfl)]

/-- A later request of the event does not change what holds of an answer. -/
theorem Answered.later {event : TMidasEvent} {first : ℕ} {container next : TDataContainer Class Decoded}
    {answer : Answer Class Decoded} (answered : Answered classes classOf event container answer)
    (cached : Cached classes classOf event first next)
    (grown : ∃ more, next.fEventDataList = container.fEventDataList ++ more) :
    Answered classes classOf event next answer := by
  obtain ⟨more, grown⟩ := grown
  refine ⟨answered.one, answered.fetched, ?_, answered.nodup⟩
  have kept := answered.kept
  rw [cachedBank] at kept
  rw [cachedBank, grown, List.find?_append, ← kept]
  cases pointer : answer.pointer with
  | some bank => rfl
  | none =>
    -- a bank of that name would have been found before
    apply Eq.symm
    apply List.find?_eq_none.mpr
    intro bank member named
    have name : bank.object.fBankName = answer.name := of_decide_eq_true named
    have inside : bank ∈ next.fEventDataList := by
      rw [grown]
      exact List.mem_append_right _ member
    obtain ⟨type, fetched⟩ := cached.built bank inside
    rw [name] at type fetched
    rw [type, ← answered.one, answered.fetched, Answer.object, pointer] at fetched
    cases fetched

namespace TRootanaEventLoop

/-- Some requests of an event were answered as without the cache. -/
structure AsUncached (classes : BankClasses Class Decoded) (classOf : Name → Class)
    (event : TMidasEvent) (first : ℕ) (container : TDataContainer Class Decoded)
    (served : TDataContainer Class Decoded × List (Answer Class Decoded))
    (plain : TMidasEvent × List (Option (TGenericData Class Decoded))) : Prop where
  current : plain.1 = event
  cached : Cached classes classOf event first served.1
  grown : ∃ more, served.1.fEventDataList = container.fEventDataList ++ more
  same : served.2.map Answer.object = plain.2
  answered : ∀ a ∈ served.2, Answered classes classOf event served.1 a

theorem AsUncached.nil {event : TMidasEvent} {first : ℕ} {self : TDataContainer Class Decoded}
    (cached : Cached classes classOf event first self) :
    AsUncached classes classOf event first self (self, []) (event, []) :=
  ⟨rfl, cached, ⟨[], (List.append_nil _).symm⟩, rfl, List.forall_mem_nil _⟩

theorem AsUncached.append {event : TMidasEvent} {first : ℕ}
    {self next final : TDataContainer Class Decoded} {out outs : List (Answer Class Decoded)}
    {plain plains : List (Option (TGenericData Class Decoded))}
    (here : AsUncached classes classOf event first self (next, out) (event, plain))
    (later : AsUncached classes classOf event first next (final, outs) (event, plains)) :
    AsUncached classes classOf event first self (final, out ++ outs) (event, plain ++ plains) := by
  obtain ⟨_, _, ⟨more, grown⟩, same, answered⟩ := here
  obtain ⟨_, cached, ⟨others, extended⟩, after, rest⟩ := later
  refine ⟨rfl, cached, ⟨more ++ others, ?_⟩, ?_, ?_⟩
  · rw [extended, grown, List.append_assoc]
  · rw [List.map_append, same, after]
  · intro a member
    obtain before | behind := List.mem_append.mp member
    · exact (answered a before).later cached ⟨others, extended⟩
    · exact rest a behind

/-- A request of the user is answered as without the cache. -/
theorem answer_agree {event : TMidasEvent} {first : ℕ} {self : TDataContainer Class Decoded}
    (cached : Cached classes classOf event first self) (request : Request classOf) :
    Except.Agree (AsUncached classes classOf event first self) (answer classes self request)
      (uncachedAnswer classes event request) := by
  obtain ⟨type, name, rfl⟩ := request
  refine (cached.GetEventData name).remember.bind ?_
  rintro ⟨next, pointer⟩ object ⟨⟨cached, rfl, kept, grown⟩, _, fetched⟩
  refine .ok ⟨rfl, cached, grown, rfl, ?_⟩
  intro a member
  obtain rfl := List.mem_singleton.mp member
  exact ⟨rfl, fetched, kept, cached.nodup⟩

/-- So are all requests of an event. -/
theorem requests_agree {event : TMidasEvent} {first : ℕ} {self : TDataContainer Class Decoded}
    (cached : Cached classes classOf event first self) (requests : List (Request classOf)) :
    Except.Agree (AsUncached classes classOf event first self)
      (Transducer.run (answer classes) self requests)
      (Transducer.run (uncachedAnswer classes) event requests) := by
  induction requests generalizing self with
  | nil => exact .ok (.nil cached)
  | cons request rest ih =>
    refine (answer_agree cached request).bind ?_
    rintro ⟨next, out⟩ ⟨now, plain⟩ here
    obtain rfl : now = event := here.current
    refine (ih here.cached).bind ?_
    rintro ⟨final, outs⟩ ⟨last, plains⟩ later
    obtain rfl : last = now := later.current
    exact .ok (here.append later)

/-- The container between two events. -/
structure Idle (container : TDataContainer Class Decoded) : Prop where
  borrowed : container.fOwnMidasEventMemory = false
  empty : container.fEventDataList = []

/-- The container with a new event has no bank of another one. -/
theorem Idle.cached {container : TDataContainer Class Decoded} (idle : Idle container)
    (event : TMidasEvent) :
    Cached classes classOf event container.allocated
      { container with fMidasEventPointer := some event, fOwnMidasEventMemory := false } := by
  refine ⟨rfl, rfl, le_rfl, ?_, ?_, ?_⟩
  all_goals simp only [idle.empty]
  · exact List.forall_mem_nil _
  · exact List.forall_mem_nil _
  · exact List.nodup_nil

/-- What holds of an event that was handled while the objects from `first` up to `last` were made. -/
def Served (classes : BankClasses Class Decoded) (classOf : Name → Class) (first last : ℕ)
    (handled : Handled Class Decoded) : Prop :=
  ∃ container, Cached classes classOf handled.event first container ∧ container.allocated = last ∧
    ∀ a ∈ handled.answers, Answered classes classOf handled.event container a

/-- An event is handled as without the cache, and leaves no bank behind. -/
theorem processEvent_agree {self : TDataContainer Class Decoded} (idle : Idle self)
    (loop : TRootanaEventLoop) (occurrence : Occurrence classOf) :
    Except.Agree
      (fun served plain => Idle served.1 ∧ served.2.map Handled.objects = plain.2 ∧
        (served = (self, []) ∨
          ∃ handled, served.2 = [handled] ∧
            Served classes classOf self.allocated served.1.allocated handled))
      (loop.processEvent classes self occurrence) (loop.uncachedEvent classes () occurrence) := by
  unfold processEvent uncachedEvent
  apply Except.Agree.ite
  · intro _
    cases (SetBankList occurrence.event).mapError Failure.event with
    | error failure => exact .error failure
    | ok listed =>
      obtain ⟨event, count⟩ := listed
      have free : ¬ (self.fOwnMidasEventMemory ∧ self.fMidasEventPointer.isSome) := by
        rw [idle.borrowed]
        exact fun owned => Bool.false_ne_true owned.1
      have pointed : self.SetMidasEventPointer event =
          .ok { self with fMidasEventPointer := some event, fOwnMidasEventMemory := false } := by
        rw [TDataContainer.SetMidasEventPointer, if_neg free]
      have cached : Cached classes classOf event self.allocated
          { self with fMidasEventPointer := some event, fOwnMidasEventMemory := false } :=
            idle.cached event
      simp only [Except.ok_bind, pointed]
      refine (requests_agree cached occurrence.PreFilter).bind ?_
      rintro ⟨filtering, filtered⟩ ⟨now, plain⟩ here
      obtain rfl : now = event := here.current
      have finish {final : TDataContainer Class Decoded} {processed : List (Answer Class Decoded)}
          {plains : List (Option (TGenericData Class Decoded))}
          (later : AsUncached classes classOf now self.allocated filtering (final, processed)
            (now, plains)) :
          Handled.objects ⟨now, filtered ++ processed⟩ = plain ++ plains ∧
            Served classes classOf self.allocated final.allocated ⟨now, filtered ++ processed⟩ :=
        ⟨(here.append later).same, final, later.cached, rfl, (here.append later).answered⟩
      apply Except.Agree.ite
      · intro _
        refine (requests_agree here.cached occurrence.ProcessMidasEvent).bind ?_
        rintro ⟨final, processed⟩ ⟨last, plains⟩ later
        obtain rfl : last = now := later.current
        obtain ⟨same, served⟩ := finish later
        exact .ok ⟨⟨later.cached.borrowed, rfl⟩, congrArg (fun objects => [objects]) same,
          .inr ⟨_, rfl, served⟩⟩
      · intro _
        obtain ⟨same, served⟩ := finish (.nil here.cached)
        exact .ok ⟨⟨here.cached.borrowed, rfl⟩, congrArg (fun objects => [objects]) same,
          .inr ⟨_, rfl, served⟩⟩
  · exact fun _ => .ok ⟨idle, rfl, .inl rfl⟩

/-- The events handled so far: each as the cache should, and each object before the
next one that is made. -/
structure Faithful (classes : BankClasses Class Decoded) (classOf : Name → Class)
    (trace : List (Handled Class Decoded)) (container : TDataContainer Class Decoded) : Prop where
  idle : Idle container
  served : ∀ handled ∈ trace, ∃ first last, Served classes classOf first last handled
  past : ∀ handled ∈ trace, ∀ a ∈ handled.answers, ∀ bank ∈ a.pointer,
    bank.address < container.allocated
  fresh : trace.Pairwise fun earlier later => ∀ a ∈ earlier.answers, ∀ b ∈ later.answers,
    ∀ bank ∈ a.pointer, ∀ other ∈ b.pointer, bank.address ≠ other.address

theorem Served.address {first last : ℕ} {handled : Handled Class Decoded}
    (served : Served classes classOf first last handled) {a : Answer Class Decoded}
    (member : a ∈ handled.answers) {bank : Pointer Class Decoded} (answer : bank ∈ a.pointer) :
    first ≤ bank.address ∧ bank.address < last := by
  obtain ⟨container, cached, rfl, answered⟩ := served
  have kept := (answered a member).kept
  rw [Option.mem_def.mp answer] at kept
  exact cached.made bank (List.mem_of_find?_eq_some kept.symm)

theorem Served.le {first last : ℕ} {handled : Handled Class Decoded}
    (served : Served classes classOf first last handled) :
    first ≤ last := by
  obtain ⟨container, cached, rfl, _⟩ := served
  exact cached.since

/-- One more event keeps that. -/
theorem Faithful.processEvent {trace : List (Handled Class Decoded)}
    {self next : TDataContainer Class Decoded} (faithful : Faithful classes classOf trace self)
    {loop : TRootanaEventLoop} {occurrence : Occurrence classOf}
    {out : List (Handled Class Decoded)}
    (ran : loop.processEvent classes self occurrence = .ok (next, out)) :
    Faithful classes classOf (trace ++ out) next := by
  have agree := @processEvent_agree _ _ classes _ _ faithful.idle loop occurrence
  rw [ran] at agree
  obtain ⟨plain, _, idle, _, same | ⟨handled, alone, served⟩⟩ := agree.to_ok
  · cases same
    rw [List.append_nil]
    exact faithful
  · obtain rfl : out = [handled] := alone
    refine ⟨idle, ?_, ?_, ?_⟩
    · intro event member
      obtain old | new := List.mem_append.mp member
      · exact faithful.served event old
      · obtain rfl := List.mem_singleton.mp new
        exact ⟨_, _, served⟩
    · intro event member a within bank answer
      obtain old | new := List.mem_append.mp member
      · exact (faithful.past event old a within bank answer).trans_le served.le
      · obtain rfl := List.mem_singleton.mp new
        exact (served.address within answer).2
    · apply List.pairwise_append.mpr
      refine ⟨faithful.fresh, List.pairwise_singleton _ _, ?_⟩
      intro earlier member later new a within b inside bank answer other another
      obtain rfl := List.mem_singleton.mp new
      have before := faithful.past earlier member a within bank answer
      have since := (served.address inside another).1
      exact (before.trans_le since).ne

theorem ProcessMidasFile_agree {self : TDataContainer Class Decoded} (idle : Idle self)
    (loop : TRootanaEventLoop) (file : List (Occurrence classOf)) :
    Except.Agree (fun served plain => Idle served.1 ∧ served.2.map Handled.objects = plain.2)
      (loop.ProcessMidasFile classes self file)
      (Transducer.run (loop.uncachedEvent classes) () (loop.eventsRead 0 file)) := by
  have agree := Transducer.run_agree_map (R := fun container (_ : Unit) => Idle container)
    (f := loop.processEvent classes)
    (g := loop.uncachedEvent classes) (t := ()) id Handled.objects
    (fun self _ occurrence idle => (processEvent_agree idle loop occurrence).mono fun _ _ served =>
      ⟨served.1, served.2.1⟩)
    idle (loop.eventsRead 0 file)
  rwa [List.map_id] at agree

/-- The whole loop does what it does without the cache. -/
theorem ExecuteLoop_agree (loop : TRootanaEventLoop) (classes : BankClasses Class Decoded)
    (files : List (List (Occurrence classOf))) :
    Except.Agree (fun served plain => Idle served.1 ∧ served.2.map Handled.objects = plain.2)
      (loop.ExecuteLoop classes files) (loop.uncachedLoop classes files) := by
  have agree := Transducer.run_agree_map (R := fun container (_ : Unit) => Idle container)
    (f := loop.ProcessMidasFile classes)
    (g := fun none file => Transducer.run (loop.uncachedEvent classes) none (loop.eventsRead 0 file))
    (s := .new) (t := ()) id Handled.objects
    (fun self _ file idle => ProcessMidasFile_agree idle loop file) ⟨rfl, rfl⟩ files
  rwa [List.map_id] at agree

theorem Faithful.ProcessMidasFile {trace : List (Handled Class Decoded)}
    {self next : TDataContainer Class Decoded} (faithful : Faithful classes classOf trace self)
    {loop : TRootanaEventLoop} {file : List (Occurrence classOf)}
    {out : List (Handled Class Decoded)}
    (ran : loop.ProcessMidasFile classes self file = .ok (next, out)) :
    Faithful classes classOf (trace ++ out) next := by
  apply Transducer.run_keeps
    (fun _ given container => Faithful classes classOf (trace ++ given) container) ?_ ?_ ran
  · intro past given self occurrence next out faithful ran
    rw [← List.append_assoc]
    exact faithful.processEvent ran
  · rwa [List.append_nil]

/-- The answers of a run are those of the uncached requests on the event of their time;
within an event one object answers each name, no object is seen in two events, and no two
cached banks have one name. -/
structure Transparent (classes : BankClasses Class Decoded)
    (trace : List (Handled Class Decoded)) : Prop where
  fetched : ∀ handled ∈ trace, ∀ a ∈ handled.answers,
    uncached classes handled.event a.type a.name = .ok a.object
  repeated : ∀ handled ∈ trace, ∀ a ∈ handled.answers, ∀ b ∈ handled.answers, a.name = b.name →
    a.pointer = b.pointer
  fresh : trace.Pairwise fun earlier later => ∀ a ∈ earlier.answers, ∀ b ∈ later.answers,
    ∀ bank ∈ a.pointer, ∀ other ∈ b.pointer, bank.address ≠ other.address
  nodup : ∀ handled ∈ trace, ∀ a ∈ handled.answers,
    (a.cached.map fun bank => bank.object.fBankName).Nodup

theorem Faithful.transparent {trace : List (Handled Class Decoded)}
    {container : TDataContainer Class Decoded}
    (faithful : Faithful classes classOf trace container) : Transparent classes trace := by
  refine ⟨?_, ?_, faithful.fresh, ?_⟩
  · intro handled member a within
    obtain ⟨_, _, container, _, _, answered⟩ := faithful.served handled member
    exact (answered a within).fetched
  · intro handled member a within b inside same
    obtain ⟨_, _, container, _, _, answered⟩ := faithful.served handled member
    rw [(answered a within).kept, (answered b inside).kept, same]
  · intro handled member a within
    obtain ⟨_, _, container, _, _, answered⟩ := faithful.served handled member
    exact (answered a within).nodup

/-- The cache cannot be seen: the event loop returns or fails as without it, with the same answers,
and what it returns is transparent. -/
theorem ExecuteLoop_transparent (loop : TRootanaEventLoop) (classes : BankClasses Class Decoded)
    (files : List (List (Occurrence classOf))) :
    (loop.ExecuteLoop classes files).map (fun served => served.2.map Handled.objects) =
        (loop.uncachedLoop classes files).map Prod.snd ∧
      ∀ {final trace}, loop.ExecuteLoop classes files = .ok (final, trace) →
        Transparent classes trace := by
  constructor
  · exact (ExecuteLoop_agree loop classes files).map_eq fun _ _ served => served.2
  · intro final trace ran
    have faithful : Faithful classes classOf trace final := by
      apply Transducer.run_keeps
        (fun _ given container => Faithful classes classOf given container) ?_ ?_ ran
      · exact fun faithful ran => faithful.ProcessMidasFile ran
      · exact ⟨⟨rfl, rfl⟩, List.forall_mem_nil _, List.forall_mem_nil _, List.Pairwise.nil⟩
    exact faithful.transparent

end TRootanaEventLoop

/-- A bank of two words. -/
def twoWordsEvent : TMidasEvent :=
  ⟨⟨0, 0, 0, 0, 24⟩,
    .strict [16, 0, 0, 0, 1, 0, 0, 0, 0x42, 0x4e, 0x4b, 0x30, 4, 0, 4, 0, 1, 2, 3, 4, 0, 0, 0, 0],
    0, none⟩

def BNK0 : Name := #v[0x42, 0x4e, 0x4b, 0x30]

/-- A class that reads the first byte of the data. -/
def firstByte : BankClasses Unit Byte where
  dynamic_cast := fun _ _ => true
  construct := fun _ memory _ found => (memory.readByte found.pdata).mapError .event
  own := fun _ => rfl

/-- The decoded bank. -/
def firstBank : Pointer Unit Byte := ⟨0, ⟨(), 2, 4, BNK0, 16, 1⟩⟩

/-- A file of that event, with a request in `PreFilter` and one in `ProcessMidasEvent`. -/
def askedTwice : List (Occurrence fun _ : Name => ()) :=
  [⟨twoWordsEvent, [⟨(), BNK0, rfl⟩], true, [⟨(), BNK0, rfl⟩]⟩]

private theorem FindBank_twoWordsEvent : FindBank twoWordsEvent.fData BNK0 = .ok (some ⟨2, 4, 16⟩) := by
  have narrow : IsBank32 twoWordsEvent.fData = .ok false := by decide
  have reach : twoWordsEvent.fData.Reaches 16 := fun _ => by decide
  rw [FindBank, narrow, Except.ok_bind, if_neg Bool.false_ne_true,
    findBankLoop_of_reaches (reach.mono (by decide)) reach, if_pos (by decide)]
  decide

theorem ExecuteLoop_transparent_askedTwice :
    TRootanaEventLoop.ExecuteLoop ⟨0, []⟩ firstByte [askedTwice] =
        .ok (⟨some twoWordsEvent, false, [], 1⟩,
        [⟨twoWordsEvent, [⟨BNK0, (), some firstBank, [firstBank]⟩,
          ⟨BNK0, (), some firstBank, [firstBank]⟩]⟩]) ∧
      TRootanaEventLoop.Transparent firstByte
        [⟨twoWordsEvent, [⟨BNK0, (), some firstBank, [firstBank]⟩,
          ⟨BNK0, (), some firstBank, [firstBank]⟩]⟩] := by
  have first : (⟨some twoWordsEvent, false, [], 0⟩ : TDataContainer Unit Byte).GetEventData
      firstByte () BNK0 =
      .ok (⟨some twoWordsEvent, false, [firstBank], 1⟩, some firstBank) := by
    simp only [TDataContainer.GetEventData, List.find?_nil, TDataContainer.GetMidasData, Except.ok_bind,
      FindBank_twoWordsEvent]
    rfl
  have event : TRootanaEventLoop.processEvent ⟨0, []⟩ firstByte .new
      (⟨twoWordsEvent, [⟨(), BNK0, rfl⟩], true, [⟨(), BNK0, rfl⟩]⟩ : Occurrence fun _ : Name => ()) =
        .ok (⟨some twoWordsEvent, false, [], 1⟩,
          [⟨twoWordsEvent, [⟨BNK0, (), some firstBank, [firstBank]⟩,
            ⟨BNK0, (), some firstBank, [firstBank]⟩]⟩]) := by
    have answered : TRootanaEventLoop.answer firstByte ⟨some twoWordsEvent, false, [], 0⟩
        (⟨(), BNK0, rfl⟩ : Request fun _ : Name => ()) =
          .ok (⟨some twoWordsEvent, false, [firstBank], 1⟩,
            [⟨BNK0, (), some firstBank, [firstBank]⟩]) := by
      rw [TRootanaEventLoop.answer, first]
      rfl
    have filtered : Transducer.run (TRootanaEventLoop.answer firstByte)
        ⟨some twoWordsEvent, false, [], 0⟩
        [(⟨(), BNK0, rfl⟩ : Request fun _ : Name => ())] =
          .ok (⟨some twoWordsEvent, false, [firstBank], 1⟩,
            [⟨BNK0, (), some firstBank, [firstBank]⟩]) :=
      Transducer.run_cons_ok_iff.mpr ⟨_, _, [], answered, rfl, rfl⟩
    have processed : TRootanaEventLoop.processed ⟨0, []⟩ twoWordsEvent.fEventHeader.fEventId =
      true := rfl
    rw [TRootanaEventLoop.processEvent, if_pos processed]
    change (Transducer.run (TRootanaEventLoop.answer firstByte)
      ⟨some twoWordsEvent, false, [], 0⟩ _ >>= _) = _
    rw [filtered]
    rfl
  have file : TRootanaEventLoop.ProcessMidasFile ⟨0, []⟩ firstByte .new askedTwice =
      .ok (⟨some twoWordsEvent, false, [], 1⟩,
      [⟨twoWordsEvent, [⟨BNK0, (), some firstBank, [firstBank]⟩,
        ⟨BNK0, (), some firstBank, [firstBank]⟩]⟩]) :=
    Transducer.run_cons_ok_iff.mpr ⟨_, _, [], event, rfl, rfl⟩
  have ran : TRootanaEventLoop.ExecuteLoop ⟨0, []⟩ firstByte [askedTwice] =
      .ok (⟨some twoWordsEvent, false, [], 1⟩,
      [⟨twoWordsEvent, [⟨BNK0, (), some firstBank, [firstBank]⟩,
        ⟨BNK0, (), some firstBank, [firstBank]⟩]⟩]) :=
    Transducer.run_cons_ok_iff.mpr ⟨_, _, [], file, rfl, rfl⟩
  exact ⟨ran, (TRootanaEventLoop.ExecuteLoop_transparent _ _ _).2 ran⟩

end PtfConverter.Midas
