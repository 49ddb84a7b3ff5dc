import PtfConverter.Soundness.VF48Filing
import PtfConverter.Soundness.VF48Queue
import PtfConverter.ToMathlib.FirstFit

/-! # Events do not mix triggers

Blocks of many triggers arrive in any order. An event has the time of the first block that was filed
in it, and takes a block whose time is inside the coincidence window. When blocks of one trigger are
less than the window apart, and blocks of different triggers are not, the events in the buffer are the
triggers, each with the modules that its own blocks make.
-/

namespace PtfConverter.VF48

open FirstFit (group Grouped)

/-- What reaches the builder: a block of a trigger, or a call of `GetEvent`. -/
inductive Arrival (τ : Type*) where
  | block (trigger : τ) (block : Block)
  | poll (flush : Bool)

/-- A block with its trigger, and with the timestamps that it gets. -/
structure Timed (τ : Type*) where
  trigger : τ
  block : Block
  ts48 : BitVec 64
  time : ℚ

variable {τ : Type*}

/-- An arrival in the builder, with the event that it removes. -/
def Builder.arrive (settings : Settings) (builder : Builder) :
    Arrival τ → Except Fault (Builder × List VF48event)
  | .block _ block => do
      let builder ← builder.UnpackEvent settings block.unit block.group block.words
      return (builder, [])
  | .poll flush => .ok ((builder.GetEvent settings flush).1, (builder.GetEvent settings flush).2.toList)

/-- The timestamps of a block follow from the blocks in front of it. -/
def Arrival.read (settings : Settings) (state : Clock × List (Timed τ)) :
    Arrival τ → Clock × List (Timed τ)
  | .block trigger b =>
      (state.1.advance settings b,
        state.2 ++ [⟨trigger, b, state.1.ts48 settings b, state.1.time settings b⟩])
  | .poll _ => state

/-- The time tables behind some arrivals, and their blocks. -/
def readArrivals (settings : Settings) (arrivals : List (Arrival τ)) : Clock × List (Timed τ) :=
  arrivals.foldl (Arrival.read settings) (Builder.initial.clock, [])

def timedBlocks (settings : Settings) (arrivals : List (Arrival τ)) : List (Timed τ) :=
  (readArrivals settings arrivals).2

/-- Two blocks are less than the window apart if they are of one trigger, and not otherwise. -/
structure Separated (settings : Settings) (blocks : List (Timed τ)) : Prop where
  near : blocks.Pairwise fun a b => a.trigger = b.trigger → |a.time - b.time| < settings.fCoinc
  apart : blocks.Pairwise fun a b => a.trigger ≠ b.trigger → settings.fCoinc ≤ |a.time - b.time|

theorem readArrivals_concat (settings : Settings) (arrivals : List (Arrival τ)) (arrival : Arrival τ) :
    readArrivals settings (arrivals ++ [arrival]) =
      arrival.read settings (readArrivals settings arrivals) :=
  List.foldl_concat ..

section Separated

variable {settings : Settings} {blocks : List (Timed τ)} {b : Timed τ}

theorem Separated.of_concat (separated : Separated settings (blocks ++ [b])) :
    Separated settings blocks :=
  ⟨(List.pairwise_append.mp separated.near).1, (List.pairwise_append.mp separated.apart).1⟩

theorem Separated.near_last (separated : Separated settings (blocks ++ [b])) {a : Timed τ}
    (member : a ∈ blocks) (same : a.trigger = b.trigger) : |a.time - b.time| < settings.fCoinc :=
  (List.pairwise_append.mp separated.near).2.2 a member b (List.mem_singleton.mpr rfl) same

/-- A block that is near the last one is of its trigger. -/
theorem Separated.same_last (separated : Separated settings (blocks ++ [b])) {a : Timed τ}
    (member : a ∈ blocks) (near : |a.time - b.time| < settings.fCoinc) : a.trigger = b.trigger := by
  by_contra other
  have apart := (List.pairwise_append.mp separated.apart).2.2 a member b
    (List.mem_singleton.mpr rfl) other
  exact absurd near (not_lt.mpr apart)

end Separated

/-- The modules of an event, once a block is filed. -/
def Timed.place (settings : Settings) (modules : UnitNo → Option VF48module) (b : Timed τ) :
    UnitNo → Option VF48module :=
  Function.update modules b.block.unit
    (some (b.block.file settings b.ts48 b.time ((modules b.block.unit).getD (.new b.block.unit))))

/-- The time of an event and its modules, from its blocks. -/
def gather (settings : Settings) (blocks : List (Timed τ)) : ℚ × (UnitNo → Option VF48module) :=
  ((blocks.head?.map Timed.time).getD 0, blocks.foldl (Timed.place settings) fun _ => none)

theorem gather_concat (settings : Settings) {blocks : List (Timed τ)} (some : blocks ≠ [])
    (b : Timed τ) :
    gather settings (blocks ++ [b]) =
      ((gather settings blocks).1, b.place settings (gather settings blocks).2) := by
  rw [gather, gather, List.foldl_concat, List.head?_append_of_ne_nil _ some]

/-- What an event shows of its blocks: the modules of their units with their groups,
triggers and timestamps. -/
structure Shows (modules : UnitNo → Option VF48module) (blocks : List (Timed τ)) : Prop where
  present : ∀ unit, (modules unit).isSome = true ↔ ∃ b ∈ blocks, b.block.unit = unit
  trigger : ∀ unit m, modules unit = some m →
    ∃ b ∈ blocks, b.block.unit = unit ∧ m.trigger = b.block.trigger
  groups : ∀ unit m, modules unit = some m → ∀ g : Group,
    m.groupMask.getLsbD g.val = true ↔ ∃ b ∈ blocks, b.block.unit = unit ∧ b.block.group = g
  stamps : ∀ unit m, modules unit = some m → ∀ g : Group, m.groupMask.getLsbD g.val = true →
    ∃ b ∈ blocks, b.block.unit = unit ∧ b.block.group = g ∧ m.timestamp64 g = b.ts48 ∧
      m.timestamps g = b.time

/-- The event of a trigger: it has the time of the trigger's first block, and the modules
that its blocks make. -/
structure EventOf [DecidableEq τ] (settings : Settings) (blocks : List (Timed τ)) (trigger : τ)
    (e : VF48event) : Prop where
  timestamp : ((group Timed.trigger blocks trigger).head?.map Timed.time) = some e.timestamp
  modules : e.modules = (group Timed.trigger blocks trigger).foldl (Timed.place settings) fun _ => none
  shows : Shows e.modules (group Timed.trigger blocks trigger)

section Shows

variable {blocks : List (Timed τ)} {modules : UnitNo → Option VF48module}

theorem groupBit_getLsbD (g h : Group) : (1#32 <<< g.val).getLsbD h.val = decide (g = h) := by
  revert g h
  decide

theorem groupMask_getLsbD (mask : Word) (g h : Group) :
    (mask ||| 1#32 <<< g.val).getLsbD h.val = true ↔ mask.getLsbD h.val = true ∨ g = h := by
  rw [BitVec.getLsbD_or, Bool.or_eq_true, groupBit_getLsbD, decide_eq_true_eq]

theorem Shows.nil : Shows (fun _ => none) ([] : List (Timed τ)) := by
  refine ⟨fun unit => ?_, nofun, nofun, nofun⟩
  constructor
  · intro some
    cases some
  · rintro ⟨_, member, _⟩
    cases member

/-- A new module shows no block. -/
private theorem Shows.module (shows : Shows modules blocks) (unit : UnitNo) (g : Group) :
    ((modules unit).getD (.new unit)).groupMask.getLsbD g.val = true ↔
      ∃ b ∈ blocks, b.block.unit = unit ∧ b.block.group = g := by
  cases here : modules unit with
  | some m => exact shows.groups unit m here g
  | none =>
    rw [Option.getD_none]
    constructor
    · intro seen
      change (0#32).getLsbD g.val = true at seen
      rw [BitVec.getLsbD_zero] at seen
      cases seen
    · rintro ⟨b, member, mine, _⟩
      have present := (shows.present unit).mpr ⟨b, member, mine⟩
      rw [here] at present
      cases present

private theorem exists_concat {P : Timed τ → Prop} {b : Timed τ} :
    (∃ a ∈ blocks ++ [b], P a) ↔ (∃ a ∈ blocks, P a) ∨ P b := by
  simp only [List.mem_append, List.mem_singleton, or_and_right, exists_or, exists_eq_left]

/-- A block that is filed is shown, and all others are shown as before. -/
theorem Shows.place (settings : Settings) (shows : Shows modules blocks) (b : Timed τ) :
    Shows (b.place settings modules) (blocks ++ [b]) := by
  obtain ⟨old, held⟩ : ∃ old, old = (modules b.block.unit).getD (.new b.block.unit) := ⟨_, rfl⟩
  have marks := b.block.file_marks settings b.ts48 b.time old
  have seen (g : Group) : old.groupMask.getLsbD g.val = true ↔
      ∃ a ∈ blocks, a.block.unit = b.block.unit ∧ a.block.group = g := by
    rw [held]
    exact shows.module b.block.unit g
  have stamped (g : Group) (bit : old.groupMask.getLsbD g.val = true) : ∃ a ∈ blocks,
      a.block.unit = b.block.unit ∧ a.block.group = g ∧ old.timestamp64 g = a.ts48 ∧
        old.timestamps g = a.time := by
    obtain ⟨a, member, mine, _⟩ := (seen g).mp bit
    obtain ⟨m, here⟩ := Option.isSome_iff_exists.mp ((shows.present _).mpr ⟨a, member, mine⟩)
    rw [here, Option.getD_some] at held
    subst held
    exact shows.stamps _ old here g bit
  rw [Timed.place, ← held]
  obtain ⟨filed, shape⟩ : ∃ filed, filed = b.block.file settings b.ts48 b.time old := ⟨_, rfl⟩
  rw [← shape] at marks ⊢
  simp only [VF48module.marks, Prod.mk.injEq] at marks
  obtain ⟨trigger, groupMask, timestamp64, timestamps⟩ := marks
  have other {unit : UnitNo} (ne : unit ≠ b.block.unit) :
      Function.update modules b.block.unit (some filed) unit = modules unit :=
        Function.update_of_ne ne ..
  refine ⟨fun unit => ?_, fun unit m here => ?_, fun unit m here g => ?_, fun unit m here g bit => ?_⟩
  · rw [exists_concat]
    obtain rfl | ne := eq_or_ne unit b.block.unit
    · rw [Function.update_self]
      exact iff_of_true rfl (.inr rfl)
    · rw [other ne, shows.present, or_iff_left ne.symm]
  · rw [exists_concat]
    obtain rfl | ne := eq_or_ne unit b.block.unit
    · rw [Function.update_self] at here
      cases here
      exact .inr ⟨rfl, trigger⟩
    · rw [other ne] at here
      exact .inl (shows.trigger unit m here)
  · rw [exists_concat]
    obtain rfl | ne := eq_or_ne unit b.block.unit
    · rw [Function.update_self] at here
      cases here
      rw [groupMask, groupMask_getLsbD, seen, eq_self, true_and]
    · rw [other ne] at here
      rw [shows.groups unit m here, or_iff_left fun mine => ne mine.1.symm]
  · rw [exists_concat]
    obtain rfl | ne := eq_or_ne unit b.block.unit
    · rw [Function.update_self] at here
      cases here
      rw [timestamp64, timestamps]
      obtain rfl | away := eq_or_ne g b.block.group
      · rw [Function.update_self, Function.update_self]
        exact .inr ⟨rfl, rfl, rfl, rfl⟩
      · rw [Function.update_of_ne away, Function.update_of_ne away]
        rw [groupMask, groupMask_getLsbD, or_iff_left away.symm] at bit
        exact .inl (stamped g bit)
    · rw [other ne] at here
      exact .inl (shows.stamps unit m here g bit)

/-- The modules that some blocks make show these blocks. -/
theorem shows_foldl (settings : Settings) (blocks : List (Timed τ)) :
    Shows (blocks.foldl (Timed.place settings) fun _ => none) blocks := by
  induction blocks using List.reverseRecOn with
  | nil => exact .nil
  | append_singleton blocks b ih =>
    rw [List.foldl_concat]
    exact ih.place settings b

end Shows

/-- What a bin of events is known by: its time and its modules. -/
def VF48event.bin (e : VF48event) : ℚ × (UnitNo → Option VF48module) := (e.timestamp, e.modules)

/-- A bin takes the blocks whose time is inside the coincidence window. -/
def takes (settings : Settings) (time : ℚ) (bin : ℚ × (UnitNo → Option VF48module)) : Bool :=
  decide (|bin.1 - time| < settings.fCoinc)

namespace Builder

variable {settings : Settings} {builder : Builder} {unit : UnitNo}

def bins (builder : Builder) : List (ℚ × (UnitNo → Option VF48module)) :=
  builder.fBuffer.map VF48event.bin

theorem setModule_bins (builder : Builder) (unit : UnitNo) (index : ℕ) (m : VF48module) :
    (builder.setModule unit index m).bins =
      builder.bins.modify index fun bin => (bin.1, Function.update bin.2 unit (some m)) := by
  apply List.ext_getElem?
  intro i
  rw [bins, bins, setModule, List.getElem?_map, List.getElem?_modify, List.getElem?_modify,
    List.getElem?_map]
  cases builder.fBuffer[i]? with
  | none => rfl
  | some e =>
    simp only [Option.map_eq_map, Option.map_some]
    split_ifs <;> rfl

theorem module?_bins (builder : Builder) (unit : UnitNo) (index : ℕ) :
    builder.module? unit index = builder.bins[index]?.bind fun bin => bin.2 unit := by
  rw [module?, bins, List.getElem?_map]
  cases builder.fBuffer[index]? <;> rfl

/-- `FindEvent` looks for the first bin that takes the time. -/
theorem FindEvent_bins (settings : Settings) (builder : Builder) (unit : UnitNo) (time : ℚ) :
    builder.FindEvent settings unit time true =
      match builder.bins.findIdx? (takes settings time) with
      | some index => (builder, index)
      | none => ({ builder with
          fEventNo := builder.fEventNo + 1
          fBuffer := builder.fBuffer ++ [.new (builder.fEventNo + 1) time] },
          builder.fBuffer.length) := by
  have near : (fun event : VF48event =>
      decide (|event.timestamp - time| < settings.fCoinc) && ((event.modules unit).isNone || true)) =
        takes settings time ∘ VF48event.bin := by
    funext event
    rw [Bool.or_true, Bool.and_true]
    rfl
  have searched : builder.bins.findIdx? (takes settings time) = builder.fBuffer.findIdx? fun event =>
      decide (|event.timestamp - time| < settings.fCoinc) && ((event.modules unit).isNone || true) := by
    rw [near, bins, List.findIdx?_map]
  rw [searched]
  rfl

/-- A call of `GetEvent` that removes nothing changes no bin. -/
theorem GetEvent_bins (absent : (builder.GetEvent settings flush).2 = none) :
    (builder.GetEvent settings flush).1.bins = builder.bins := by
  have kept := GetEvent_map
    (fun e : VF48event => (?same : (e.tryComplete settings).bin = e.bin)) builder flush
  case same =>
    unfold VF48event.tryComplete VF48event.CompleteEvent
    split_ifs <;> rfl
  rw [absent] at kept
  exact kept

theorem GetEvent_clock (settings : Settings) (builder : Builder) (flush : Bool) :
    (builder.GetEvent settings flush).1.clock = builder.clock := by
  unfold GetEvent
  split
  · rfl
  · simp only
    split_ifs <;> rfl

private theorem modify_congr {α : Type*} {l : List α} {i : ℕ} {f g : α → α}
    (same : ∀ a, l[i]? = some a → f a = g a) :
    l.modify i f = l.modify i g := by
  apply List.ext_getElem?
  intro j
  rw [List.getElem?_modify, List.getElem?_modify]
  by_cases here : i = j
  · subst here
    cases place : l[i]? with
    | none => rfl
    | some a => simp only [if_true, Option.map_eq_map, Option.map_some, same a place]
  · simp only [here, if_false]

private theorem modify_length_concat {α : Type*} (l : List α) (a : α) (f : α → α) :
    (l ++ [a]).modify l.length f = l ++ [f a] := by
  induction l with
  | nil => rfl
  | cons b l ih => rw [List.cons_append, List.length_cons, List.modify_succ_cons, ih, List.cons_append]

/-- `UnpackEvent` files a block in the first bin that takes its time, or in a new one. -/
theorem UnpackEvent_bins (settings : Settings) (builder : Builder) (b : Timed τ)
    (stamp : b.ts48 = builder.clock.ts48 settings b.block)
    (time : b.time = builder.clock.time settings b.block) :
    ∃ next, builder.UnpackEvent settings b.block.unit b.block.group b.block.words = .ok next ∧
      next.clock = builder.clock.advance settings b.block ∧
      next.bins = match builder.bins.findIdx? (takes settings b.time) with
        | some index => builder.bins.modify index fun bin => (bin.1, b.place settings bin.2)
        | none => builder.bins ++ [(b.time, b.place settings fun _ => none)] := by
  have bins : (builder.timed settings b.block).bins = builder.bins :=
    congrArg (List.map VF48event.bin) (timed_fBuffer settings b.block builder)
  have event := FindEvent_bins settings (builder.timed settings b.block) b.block.unit
    (builder.clock.time settings b.block)
  rw [bins, ← time] at event
  cases place : builder.bins.findIdx? (takes settings b.time) with
  | some index =>
    rw [place] at event
    rw [time] at event
    obtain ⟨next, unpacked, refiled⟩ := UnpackEvent_refiled settings b.block builder event
    refine ⟨next, unpacked, refiled.clock.trans (timed_clock settings b.block builder), ?_⟩
    have filed : next.bins = _ := congrArg (List.map VF48event.bin) refiled.buffer
    rw [filed]
    refine (setModule_bins _ _ _ _).trans ?_
    rw [module?_bins, bins, ← stamp, ← time]
    apply modify_congr
    intro bin here
    rw [here, Option.bind_some]
    rfl
  | none =>
    rw [place] at event
    rw [time] at event
    obtain ⟨next, unpacked, refiled⟩ := UnpackEvent_refiled settings b.block builder event
    refine ⟨next, unpacked, refiled.clock.trans (timed_clock settings b.block builder), ?_⟩
    have filed : next.bins = _ := congrArg (List.map VF48event.bin) refiled.buffer
    have new (e : VF48event) : ({ builder.timed settings b.block with
        fEventNo := (builder.timed settings b.block).fEventNo + 1
        fBuffer := (builder.timed settings b.block).fBuffer ++ [e] } : Builder).bins =
          builder.bins ++ [e.bin] := by
      rw [← bins]
      exact List.map_append
    have last : (builder.timed settings b.block).fBuffer.length = builder.bins.length := by
      rw [← bins]
      exact (List.length_map _).symm
    rw [filed]
    refine (setModule_bins _ _ _ _).trans ?_
    rw [module?_bins, new, last, modify_length_concat, List.getElem?_concat_length, ← stamp, ← time]
    rfl

end Builder

/-- Every block can be unpacked. -/
theorem arrive_total (settings : Settings) (builder : Builder) (arrival : Arrival τ) :
    ∃ next removed, builder.arrive settings arrival = .ok (next, removed) := by
  cases arrival with
  | poll flush => exact ⟨_, _, rfl⟩
  | block trigger block =>
    obtain ⟨next, unpacked, _⟩ := builder.UnpackEvent_bins settings
      (⟨trigger, block, builder.clock.ts48 settings block, builder.clock.time settings block⟩ :
        Timed τ) rfl rfl
    exact ⟨next, [], by rw [Builder.arrive, unpacked]; rfl⟩

theorem run_arrive (settings : Settings) (arrivals : List (Arrival τ)) :
    ∃ builder removed, Transducer.run (Builder.arrive settings) .initial arrivals =
      .ok (builder, removed) := by
  have ran := @Transducer.run_total _ _ _ _ (Builder.arrive settings) (fun _ _ => True)
    (fun {_ builder} arrival _ => ?total) [] Builder.initial trivial arrivals
  case total =>
    obtain ⟨next, removed, arrived⟩ := arrive_total settings builder arrival
    exact ⟨next, removed, arrived, trivial⟩
  obtain ⟨builder, removed, ran, _⟩ := ran
  exact ⟨builder, removed, ran⟩

section Run

variable [DecidableEq τ] {settings : Settings} {blocks : List (Timed τ)} {b : Timed τ}

/-- The bin of a trigger has the time of one of its blocks. -/
theorem gather_time (settings : Settings) {trigger : τ} (some : ∃ a ∈ blocks, a.trigger = trigger) :
    ∃ a ∈ blocks, a.trigger = trigger ∧
      (group Timed.trigger blocks trigger).head?.map Timed.time = .some a.time ∧
      (gather settings (group Timed.trigger blocks trigger)).1 = a.time := by
  obtain ⟨a, member, same⟩ := some
  have here : a ∈ group Timed.trigger blocks trigger := FirstFit.mem_group.mpr ⟨member, same⟩
  cases shape : group Timed.trigger blocks trigger with
  | nil =>
    rw [shape] at here
    cases here
  | cons first rest =>
    have inside : first ∈ group Timed.trigger blocks trigger := by
      rw [shape]
      exact List.mem_cons_self
    obtain ⟨earlier, own⟩ := FirstFit.mem_group.mp inside
    exact ⟨first, earlier, own, rfl, rfl⟩

/-- A block goes into the bin of its trigger, which is the one that takes it. -/
theorem grouped_concat {triggers : List τ} {bins : List (ℚ × (UnitNo → Option VF48module))}
    (grouped : Grouped Timed.trigger (gather settings) blocks triggers bins)
    (separated : Separated settings (blocks ++ [b])) :
    ∃ triggers, Grouped Timed.trigger (gather settings) (blocks ++ [b]) triggers
      (match bins.findIdx? (takes settings b.time) with
        | some index => bins.modify index fun bin => (bin.1, b.place settings bin.2)
        | none => bins ++ [(b.time, b.place settings fun _ => none)]) := by
  cases place : bins.findIdx? (takes settings b.time) with
  | some index =>
    have here := grouped.found (x := b) (i := index) ?apart place
    case apart =>
      intro trigger member taken
      obtain ⟨a, earlier, rfl, _, time⟩ := gather_time settings ((grouped.mem_iff trigger).mp member)
      rw [takes, time, decide_eq_true_eq] at taken
      exact separated.same_last earlier taken
    refine ⟨triggers, grouped.join here ?_⟩
    obtain ⟨a, earlier, same⟩ := (grouped.mem_iff b.trigger).mp (List.mem_of_getElem? here)
    have filled : group Timed.trigger blocks b.trigger ≠ [] :=
      List.ne_nil_of_mem (FirstFit.mem_group.mpr ⟨earlier, same⟩)
    rw [gather_concat settings filled]
  | none =>
    refine ⟨triggers ++ [b.trigger], grouped.concat (grouped.unfound ?_ place)⟩
    intro member
    obtain ⟨a, earlier, same, _, time⟩ := gather_time settings ((grouped.mem_iff b.trigger).mp member)
    rw [takes, time, decide_eq_true_eq]
    exact separated.near_last earlier same

/-- Behind some arrivals the bins are the triggers so far. -/
structure Unmixed (settings : Settings) (arrivals : List (Arrival τ)) (builder : Builder) : Prop where
  clock : builder.clock = (readArrivals settings arrivals).1
  grouped : Separated settings (timedBlocks settings arrivals) →
    ∃ triggers, Grouped Timed.trigger (gather settings)
      (timedBlocks settings arrivals) triggers builder.bins

theorem Unmixed.initial (settings : Settings) : Unmixed settings ([] : List (Arrival τ)) .initial :=
  ⟨rfl, fun _ => ⟨[], .nil⟩⟩

/-- One arrival that removes nothing. -/
theorem Unmixed.arrive {arrivals : List (Arrival τ)} {builder next : Builder}
    (unmixed : Unmixed settings arrivals builder) {arrival : Arrival τ}
    (arrived : builder.arrive settings arrival = .ok (next, [])) :
    Unmixed settings (arrivals ++ [arrival]) next := by
  obtain ⟨clock, grouped⟩ := unmixed
  cases arrival with
  | poll flush =>
    obtain ⟨rfl, removed⟩ := Prod.ext_iff.mp (Except.ok.inj arrived)
    have absent := Option.toList_eq_nil_iff.mp removed
    have blocks : readArrivals settings (arrivals ++ [.poll flush]) = readArrivals settings arrivals :=
      readArrivals_concat settings arrivals _
    refine ⟨?_, ?_⟩
    · rw [blocks, ← clock]
      exact Builder.GetEvent_clock settings builder flush
    · rw [timedBlocks, blocks]
      change _ → ∃ triggers, Grouped _ _ _ triggers (builder.GetEvent settings flush).1.bins
      rw [Builder.GetEvent_bins absent]
      exact grouped
  | block trigger block =>
    obtain ⟨b, shape⟩ : ∃ b : Timed τ,
      b = ⟨trigger, block, builder.clock.ts48 settings block, builder.clock.time settings block⟩ :=
        ⟨_, rfl⟩
    obtain ⟨filed, unpacked, times, bins⟩ :=
      builder.UnpackEvent_bins settings b (by rw [shape]) (by rw [shape])
    have ran : builder.arrive settings (.block trigger block) = .ok (filed, []) := by
      rw [shape] at unpacked
      rw [Builder.arrive, unpacked]
      rfl
    obtain rfl : filed = next := congrArg Prod.fst (Except.ok.inj (ran.symm.trans arrived))
    have blocks : readArrivals settings (arrivals ++ [.block trigger block]) =
        (builder.clock.advance settings block, timedBlocks settings arrivals ++ [b]) := by
      rw [readArrivals_concat, Arrival.read, ← clock, shape]
      rfl
    refine ⟨?_, ?_⟩
    · rw [times, blocks, shape]
    · rw [timedBlocks, blocks, bins]
      intro separated
      obtain ⟨triggers, bins⟩ := grouped separated.of_concat
      exact grouped_concat bins separated

end Run

/-- In every order of arrival of the blocks of any triggers, with calls of `GetEvent` between
them: as long as these remove nothing, the buffered events are the triggers that have arrived.
Each event has the modules that the blocks of its trigger make, and shows the units and groups of
these blocks and no others. -/
theorem events_unmixed [DecidableEq τ] (settings : Settings) (arrivals : List (Arrival τ))
    (separated : Separated settings (timedBlocks settings arrivals)) :
    ∃ builder removed, Transducer.run (Builder.arrive settings) .initial arrivals =
      .ok (builder, removed) ∧
      (removed = [] → ∃ triggers : List τ, triggers.Nodup ∧
        (∀ trigger, trigger ∈ triggers ↔ ∃ b ∈ timedBlocks settings arrivals, b.trigger = trigger) ∧
        List.Forall₂ (EventOf settings (timedBlocks settings arrivals)) triggers builder.fBuffer) := by
  obtain ⟨builder, removed, ran⟩ := run_arrive settings arrivals
  refine ⟨builder, removed, ran, ?_⟩
  rintro rfl
  have unmixed := Transducer.run_keeps
    (fun past (removed : List VF48event) (builder : Builder) => removed = [] →
      Unmixed settings past builder) ?kept
    (fun _ => Unmixed.initial settings) ran rfl
  case kept =>
    intro past given builder arrival next removed earlier arrived absent
    obtain ⟨before, rfl⟩ := List.append_eq_nil_iff.mp absent
    exact (earlier before).arrive arrived
  obtain ⟨triggers, grouped⟩ := unmixed.grouped separated
  refine ⟨triggers, grouped.nodup, grouped.mem_iff, ?_⟩
  have bins : List.Forall₂ (fun trigger (e : VF48event) => trigger ∈ triggers ∧
      gather settings (group Timed.trigger (timedBlocks settings arrivals) trigger) =
        e.bin) triggers builder.fBuffer := by
    refine (List.forall₂_and_left _ _).mpr ⟨fun _ member => member, ?_⟩
    apply List.forall₂_map_right_iff.mp
    apply List.forall₂_map_left_iff.mp
    rw [List.forall₂_eq_eq_eq]
    exact grouped.bins.symm
  refine bins.imp ?_
  rintro trigger e ⟨member, bin⟩
  obtain ⟨time, modules⟩ := Prod.ext_iff.mp bin
  obtain ⟨a, _, _, first, own⟩ := gather_time settings ((grouped.mem_iff trigger).mp member)
  refine ⟨?_, modules.symm, ?_⟩
  · rw [first, ← own]
    exact congrArg some time
  · change Shows e.bin.2 _
    rw [← modules]
    exact shows_foldl settings _

/-- A block of group 0 with one channel and two samples. -/
def shortBlock (unit : UnitNo) (low : Word) (tag : tagOf low = 0xA0000000)
    (positive : stampOf low 0xA0000000 ≠ 0) : Block where
  unit := unit
  group := 0
  header := 0x80000001
  low := low
  high := 0xA0000000
  first := 0xC0000000
  rest := [0x00020001]
  trailer := some 0xE0000001
  header_tag := rfl
  low_tag := tag
  high_tag := rfl
  positive := positive
  first_opens := ⟨rfl, rfl⟩
  rest_sound := List.forall_mem_singleton.mpr (.inr (.inl rfl))
  trailer_tag := by rintro _ ⟨⟩; rfl

/-- Two modules are awaited for an event, with all groups. -/
def twoUnits : Settings := { Settings.initial with fNumModules := 2, fModulesMask := 3 }

/-- The second trigger comes 1 ms behind the first, and the units start their clocks at different
times. -/
def crossedBlocks : List (Arrival Bool) :=
  [.block true (shortBlock 0 0xA0000064 rfl (by decide)),
    .block false (shortBlock 0 0xA000EAC4 rfl (by decide)),
    .poll false, .block true (shortBlock 1 0xA0000007 rfl (by decide)),
    .block false (shortBlock 1 0xA000EA67 rfl (by decide)),
    .poll false]

/-- No event is complete, and both triggers are buffered, each with the blocks of both units. -/
theorem events_unmixed_crossedBlocks :
    ∃ builder, Transducer.run (Builder.arrive twoUnits) .initial crossedBlocks = .ok (builder, []) ∧
      builder.fBuffer.length = 2 ∧ ∃ triggers : List Bool, triggers.Nodup ∧
        (∀ trigger, trigger ∈ triggers ↔
          ∃ b ∈ timedBlocks twoUnits crossedBlocks, b.trigger = trigger) ∧
        List.Forall₂ (EventOf twoUnits (timedBlocks twoUnits crossedBlocks)) triggers
          builder.fBuffer := by
  have times : (timedBlocks twoUnits crossedBlocks).map (fun b => (b.trigger, b.time)) =
      [(true, 0), (false, 1 / 1000), (true, 0), (false, 1 / 1000)] := by
    decide +kernel
  have near : ((timedBlocks twoUnits crossedBlocks).map fun b => (b.trigger, b.time)).Pairwise
      fun a b => a.1 = b.1 → |a.2 - b.2| < twoUnits.fCoinc := by
    rw [times]
    decide +kernel
  have apart : ((timedBlocks twoUnits crossedBlocks).map fun b => (b.trigger, b.time)).Pairwise
      fun a b => a.1 ≠ b.1 → twoUnits.fCoinc ≤ |a.2 - b.2| := by
    rw [times]
    decide +kernel
  have counts : ((Transducer.run (Builder.arrive twoUnits) .initial crossedBlocks).map fun result =>
      (result.1.fBuffer.length, result.2.length)).toOption = some (2, 0) := by
    decide +kernel
  obtain ⟨builder, removed, ran, partition⟩ :=
    events_unmixed twoUnits crossedBlocks ⟨List.pairwise_map.mp near, List.pairwise_map.mp apart⟩
  rw [ran] at counts
  obtain ⟨buffered, none⟩ := Prod.mk.inj (Option.some.inj counts)
  obtain rfl := List.length_eq_zero_iff.mp none
  exact ⟨builder, ran, buffered, partition rfl⟩

end PtfConverter.VF48
