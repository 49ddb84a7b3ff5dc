import PtfConverter.Model.VF48Delivery
import PtfConverter.Soundness.VF48Stream
import PtfConverter.ToMathlib.Agreement
import PtfConverter.ToMathlib.MachineFamily

/-! # What UnpackStream does with the words of a unit

A `Sorter` sorts the words of one unit by group and cuts them into blocks, with no buffers, no cuts
between calls and no limits; `Takes` says which words the code has a place for. `Sorted` is the
unpacker with a sorter for each unit, and the unpacker of the code agrees with it call by call, on
results and on faults.
-/

namespace PtfConverter.VF48

/-- The words of a unit, sorted by group. -/
structure Sorter where
  grp : Group
  words : Group → List Word
  acc : Group → Bool

namespace Sorter

def initial : Sorter := ⟨0, fun _ => [], fun _ => false⟩

/-- The words of the current group, and whether it takes more of them. -/
def fill (sorter : Sorter) (words : List Word) (acc : Bool) : Sorter :=
  { sorter with
    words := Function.update sorter.words sorter.grp words
    acc := Function.update sorter.acc sorter.grp acc }

theorem fill_self (sorter : Sorter) (words : List Word) (acc : Bool) :
    (sorter.fill words acc).words sorter.grp = words ∧ (sorter.fill words acc).acc sorter.grp = acc :=
  ⟨Function.update_self .., Function.update_self ..⟩

theorem fill_other (sorter : Sorter) {g : Group} (ne : g ≠ sorter.grp) (words : List Word)
    (acc : Bool) :
    (sorter.fill words acc).words g = sorter.words g ∧ (sorter.fill words acc).acc g = sorter.acc g :=
  ⟨Function.update_of_ne ne .., Function.update_of_ne ne ..⟩

/-- The group that a marker names; a sorter stays where it is when there is no such group. -/
def named (sorter : Sorter) (w : Word) : Group :=
  if inside : (w &&& 0x00000007#32).toNat < VF48_MAX_GROUPS then
    ⟨(w &&& 0x00000007#32).toNat, inside⟩ else sorter.grp

/-- One word, with the block that it finishes. -/
def step (sorter : Sorter) (w : Word) : Sorter × List (Group × List Word) :=
  let waiting := sorter.words sorter.grp
  if tagOf w = 0xF0000000 then ({ sorter with grp := sorter.named w }, [])
  else if tagOf w = 0x80000000 then
    if 1 < waiting.length then (sorter.fill [w] true, [(sorter.grp, waiting)])
    else (sorter.fill (waiting ++ [w]) true, [])
  else if tagOf w = 0xE0000000 then (sorter.fill [] false, [(sorter.grp, waiting ++ [w])])
  else if sorter.acc sorter.grp then (sorter.fill (waiting ++ [w]) true, [])
  else (sorter, [])

def machine : Mealy Sorter Word (Group × List Word) := ⟨step⟩

/-- The code has a place for a word: a marker names a group, and the buffer that a word
goes into is not full. -/
def Takes (sorter : Sorter) (w : Word) : Prop :=
  if tagOf w = 0xF0000000 then (w &&& 0x00000007#32).toNat < VF48_MAX_GROUPS
  else if tagOf w = 0x80000000 then True
  else if tagOf w = 0xE0000000 then (sorter.words sorter.grp).length < Stream.wmaxWords
  else sorter.acc sorter.grp = true → (sorter.words sorter.grp).length < Stream.wmaxWords

instance (sorter : Sorter) (w : Word) : Decidable (sorter.Takes w) := by
  delta Takes
  infer_instance

/-- What the code does with a word that it has no place for. -/
def refusal (sorter : Sorter) (w : Word) : Fault :=
  if tagOf w = 0xF0000000 then .assertion else .wbuf (sorter.words sorter.grp).length

/-- The code has a place for every word of a list. -/
def Fits (sorter : Sorter) (words : List Word) : Prop := machine.Accepts Takes sorter words

end Sorter

/-- A block as it is seen from outside. -/
def Sight.ofBlock (block : UnitNo × Group × List Word) : Sight := .handed block.1 block.2.1 block.2.2

theorem Sight.handed?_ofBlock (blocks : List (UnitNo × Group × List Word)) :
    (blocks.map Sight.ofBlock).filterMap Sight.handed? = blocks := by
  rw [List.filterMap_map]
  exact List.filterMap_some

/-- A block of a unit goes to `UnpackEvent`. -/
def Builder.deliver (settings : Settings) (builder : Builder) (block : UnitNo × Group × List Word) :
    Except Fault Builder :=
  builder.UnpackEvent settings block.1 block.2.1 block.2.2

/-- The unpacker with a sorter for each unit. -/
structure Sorted where
  settings : Settings
  builder : Builder
  sorters : UnitNo → Sorter

namespace Sorted

/-- A word of a unit, with the blocks that go to `UnpackEvent`. -/
def word (settings : Settings) : (UnitNo → Sorter) × Builder → UnitNo × Word →
    Except Fault (((UnitNo → Sorter) × Builder) × List (UnitNo × Group × List Word)) :=
  Sorter.machine.family.drive (fun sorters e => (sorters e.1).Takes e.2)
    (fun sorters e => (sorters e.1).refusal e.2)
    (Builder.deliver settings)

/-- A word goes to the sorter of its unit, and the blocks that it finishes to `UnpackEvent`. -/
theorem word_eq (settings : Settings) (sorters : UnitNo → Sorter) (builder : Builder)
    (unit : UnitNo) (w : Word) :
    word settings (sorters, builder) (unit, w) =
      if (sorters unit).Takes w then do
        let builder ← ((sorters unit).step w).2.foldlM
          (fun b block => b.UnpackEvent settings unit block.1 block.2) builder
        return ((Function.update sorters unit ((sorters unit).step w).1, builder),
          ((sorters unit).step w).2.map (Prod.mk unit))
      else .error ((sorters unit).refusal w) := by
  simp only [word, Mealy.drive, Mealy.family, List.foldlM_map]
  rfl

section Kinds

variable {settings : Settings} {sorters : UnitNo → Sorter} {builder : Builder} {unit : UnitNo}
  {w : Word}

/-- A word that finishes no block only moves the sorter. -/
theorem word_silent (takes : (sorters unit).Takes w) {next : Sorter}
    (stepped : (sorters unit).step w = (next, [])) :
    word settings (sorters, builder) (unit, w) =
      .ok ((Function.update sorters unit next, builder), []) := by
  rw [word_eq, if_pos takes, stepped]
  rfl

/-- A word that finishes a block hands it to `UnpackEvent`. -/
theorem word_block (takes : (sorters unit).Takes w) {next : Sorter} {block : Group × List Word}
    (stepped : (sorters unit).step w = (next, [block])) :
    word settings (sorters, builder) (unit, w) = do
      let builder ← builder.UnpackEvent settings unit block.1 block.2
      return ((Function.update sorters unit next, builder), [(unit, block)]) := by
  rw [word_eq, if_pos takes, stepped, List.foldlM_cons, bind_assoc]
  rfl

theorem word_refused (refused : ¬ (sorters unit).Takes w) :
    word settings (sorters, builder) (unit, w) = .error ((sorters unit).refusal w) := by
  rw [word_eq, if_neg refused]

end Kinds

/-- What `UnpackEvent` keeps on every block, in view of the blocks so far, the words of a unit
keep. -/
theorem words_keep {settings : Settings} (P : List (UnitNo × Group × List Word) → Builder → Prop)
    (deliver : ∀ {given builder block next}, P given builder →
      Builder.deliver settings builder block = .ok next → P (given ++ [block]) next)
    {sorters : UnitNo → Sorter} {builder : Builder} {events : List (UnitNo × Word)}
    {next : (UnitNo → Sorter) × Builder} {blocks : List (UnitNo × Group × List Word)}
    (given : List (UnitNo × Group × List Word)) (kept : P given builder)
    (ran : Transducer.run (word settings) (sorters, builder) events = .ok (next, blocks)) :
    P (given ++ blocks) next.2 := by
  refine Transducer.run_keeps
    (fun _ out (state : (UnitNo → Sorter) × Builder) => P (given ++ out) state.2) ?_
    (by rwa [List.append_nil]) ran
  intro past out state e after blocks kept stepped
  rw [word, Mealy.drive] at stepped
  split_ifs at stepped
  obtain ⟨builder, delivered, done⟩ := Except.bind_eq_ok_iff.mp stepped
  cases done
  rw [← List.append_assoc]
  refine Except.foldlM_keeps (fun past b => P (given ++ out ++ past) b) ?_
    (by rwa [List.append_nil]) delivered
  intro past b block b' kept delivered
  rw [← List.append_assoc]
  exact deliver kept delivered

/-- A call of the unpacker with sorters. -/
def call (self : Sorted) : Call → Except Fault (Sorted × List Sight)
  | .UnpackStream unit data => do
      let ((sorters, builder), blocks) ← Transducer.run (word self.settings)
        (self.sorters, self.builder) (data.map (Prod.mk unit))
      return ({ self with builder := builder, sorters := sorters },
        blocks.map fun block => .handed block.1 block.2.1 block.2.2)
  | .GetEvent flush =>
      let (builder, event) := self.builder.GetEvent self.settings flush
      .ok ({ self with builder := builder }, event.toList.map .returned)
  | .Reset =>
      .ok ({ settings := { self.settings with
              fChanEnabled := fun unit chan =>
                self.settings.fGroupEnabled unit &&& (1#32 <<< (chan.val / 8)) != 0 }
             builder := .initial
             sorters := fun _ => .initial }, [])

end Sorted

/-- A stream holds the words of a sorter; a group without a buffer accepts none. -/
structure Sorts (sorter : Sorter) (stream : Stream) : Prop where
  grp : stream.wgrp = sorter.grp.val
  words : ∀ g, stream.words g = sorter.words g
  acc : ∀ g, stream.wacc g = sorter.acc g
  fresh : ∀ g, stream.wbuf g = none → sorter.acc g = false

namespace Sorts

variable {sorter : Sorter} {stream : Stream}

theorem NewGroup (sorts : Sorts sorter stream) :
    ∃ next, stream.NewGroup = .ok (next, sorter.grp) ∧ Sorts sorter next ∧
      (next.wbuf sorter.grp).isSome := by
  obtain ⟨next, created, allocated, wgrp, words, accepts, absent⟩ := stream.NewGroup_of_lt sorts.grp
  refine ⟨next, created, ⟨wgrp.trans sorts.grp, fun g => (words g).trans (sorts.words g), fun g => ?_,
    fun g none => sorts.fresh g (absent g none).1⟩, allocated⟩
  rw [accepts]
  split_ifs with new
  · exact (sorts.fresh g new.2).symm
  · exact sorts.acc g

theorem fill (sorts : Sorts sorter stream) (words : List Word) (acc : Bool) :
    Sorts (sorter.fill words acc) (stream.filled sorter.grp words acc) := by
  have same (g : Group) : (stream.filled sorter.grp words acc).words g =
      (sorter.fill words acc).words g ∧
      (stream.filled sorter.grp words acc).wacc g = (sorter.fill words acc).acc g := by
    obtain rfl | ne := eq_or_ne g sorter.grp
    · obtain ⟨mine, accepts⟩ := sorter.fill_self words acc
      exact ⟨(stream.filled_words ..).trans mine.symm, (Function.update_self ..).trans accepts.symm⟩
    · obtain ⟨others, accepts⟩ := stream.filled_other ne words acc
      obtain ⟨others', accepts'⟩ := sorter.fill_other ne words acc
      rw [others, accepts, others', accepts']
      exact ⟨sorts.words g, sorts.acc g⟩
  refine ⟨sorts.grp, fun g => (same g).1, fun g => (same g).2, fun g absent => ?_⟩
  have ne : g ≠ sorter.grp := by
    rintro rfl
    have allocated := stream.filled_isSome sorter.grp words acc
    rw [absent] at allocated
    cases allocated
  rw [← (same g).2, (stream.filled_other ne words acc).2, sorts.acc g]
  refine sorts.fresh g ?_
  rwa [show (stream.filled sorter.grp words acc).wbuf g =
    stream.wbuf g from Function.update_of_ne ne ..] at absent

/-- A word only moves the stream, or finishes a block, or finds no place, for the
stream as for the sorter. -/
theorem step (settings : Settings) (unit : UnitNo) (sorts : Sorts sorter stream)
    (allocated : (stream.wbuf sorter.grp).isSome) (w : Word) :
    (∃ next after, sorter.Takes w ∧ sorter.step w = (next, []) ∧ stream.handed sorter.grp w = [] ∧
      Sorts next after ∧ (after.wbuf next.grp).isSome ∧
      ∀ builder, Stream.step settings unit (stream, builder, sorter.grp) w =
        .ok (after, builder, next.grp)) ∨
    (∃ next after block, sorter.Takes w ∧ sorter.step w = (next, [(sorter.grp, block)]) ∧
      stream.handed sorter.grp w = [(sorter.grp, block)] ∧ Sorts next after ∧
        (after.wbuf next.grp).isSome ∧
      ∀ builder : Builder, Stream.step settings unit (stream, builder, sorter.grp) w = do
        let builder ← builder.UnpackEvent settings unit sorter.grp block
        return (after, builder, next.grp)) ∨
    (¬ sorter.Takes w ∧
      ∀ builder, Stream.step settings unit (stream, builder, sorter.grp) w =
        .error (sorter.refusal w)) := by
  obtain ⟨words, buffer⟩ := Option.isSome_iff_exists.mp allocated
  have waiting : sorter.words sorter.grp = words := by rw [← sorts.words, Stream.words_of_wbuf buffer]
  have handed : (stream.wbuf sorter.grp).getD [] = words := by rw [buffer, Option.getD_some]
  have filled (words : List Word) (acc : Bool) := stream.filled_isSome sorter.grp words acc
  simp only [Sorter.Takes, Sorter.step, Sorter.refusal, Stream.handed, waiting, handed]
  by_cases marker : tagOf w = 0xF0000000
  · have header : ¬ tagOf w = 0x80000000 := by rw [marker]; decide
    have trailer : ¬ tagOf w = 0xE0000000 := by rw [marker]; decide
    simp only [if_pos marker, if_neg header, if_neg trailer]
    by_cases inside : (w &&& 0x00000007#32).toNat < VF48_MAX_GROUPS
    · have moved : Sorts { sorter with grp := sorter.named w } { stream with
        wgrp := (w &&& 0x00000007#32).toNat } := by
        refine ⟨?_, sorts.words, sorts.acc, sorts.fresh⟩
        rw [Sorter.named, dif_pos inside]
      obtain ⟨after, created, sorts, allocated⟩ := moved.NewGroup
      refine .inl ⟨_, after, inside, rfl, trivial, sorts, allocated, fun builder => ?_⟩
      rw [Stream.step_marker settings unit builder marker, created]
      rfl
    · refine .inr (.inr ⟨inside, fun builder => ?_⟩)
      rw [Stream.step_marker settings unit builder marker, Stream.NewGroup, dif_neg inside]
      rfl
  by_cases header : tagOf w = 0x80000000
  · simp only [if_neg marker, if_pos header]
    by_cases several : 1 < words.length
    · simp only [if_pos several]
      exact .inr (.inl ⟨_, _, words, trivial, rfl, rfl, sorts.fill [w] true, filled _ _,
        fun builder => Stream.step_restart settings unit builder header buffer several⟩)
    · simp only [if_neg several]
      exact .inl ⟨_, _, trivial, rfl, trivial, sorts.fill (words ++ [w]) true, filled _ _,
        fun builder => Stream.step_header settings unit builder header buffer several⟩
  by_cases trailer : tagOf w = 0xE0000000
  · simp only [if_neg marker, if_neg header, if_pos trailer]
    by_cases room : words.length < Stream.wmaxWords
    · exact .inr (.inl ⟨_, _, _, room, rfl, rfl, sorts.fill [] false, filled _ _,
        fun builder => Stream.step_trailer settings unit builder trailer buffer room⟩)
    · exact .inr (.inr ⟨room, fun builder =>
        Stream.step_full settings unit builder ⟨marker, header⟩ (.inl trailer) buffer room⟩)
  simp only [if_neg marker, if_neg header, if_neg trailer, ← sorts.acc]
  have inner : Inner w := ⟨marker, header, trailer⟩
  cases accepting : stream.wacc sorter.grp with
  | false =>
    simp only [Bool.false_eq_true, if_false]
    exact .inl ⟨_, _, False.elim, rfl, trivial, sorts, allocated,
      fun builder => Stream.step_skipped settings unit builder inner accepting⟩
  | true =>
    simp only [if_true]
    by_cases room : words.length < Stream.wmaxWords
    · exact .inl ⟨_, _, fun _ => room, rfl, trivial, sorts.fill (words ++ [w]) true, filled _ _,
        fun builder => Stream.step_inner settings unit builder inner buffer accepting room⟩
    · exact .inr (.inr ⟨fun takes => room (takes trivial), fun builder =>
        Stream.step_full settings unit builder ⟨marker, header⟩ (.inr accepting) buffer room⟩)

end Sorts

/-- Inside a call for a unit, its stream holds the words of its sorter, and the current group has a
buffer. -/
structure Current (unit : UnitNo) (rest : UnitNo → Sorter) (code : Stream × Builder × Group)
    (sorted : (UnitNo → Sorter) × Builder) : Prop where
  sorts : Sorts (sorted.1 unit) code.1
  grp : code.2.2 = (sorted.1 unit).grp
  allocated : (code.1.wbuf code.2.2).isSome
  builder : code.2.1 = sorted.2
  others : ∀ other ≠ unit, sorted.1 other = rest other

namespace Current

open UnpackVF48

variable {settings : Settings} {unit : UnitNo} {rest sorters : UnitNo → Sorter} {stream : Stream}
  {builder : Builder}

/-- A word in front of which both are current leaves both current. -/
private theorem update {next : Sorter} {after : Stream}
    (others : ∀ other ≠ unit, sorters other = rest other) (sorts : Sorts next after)
    (allocated : (after.wbuf next.grp).isSome) (builder : Builder) :
    Current unit rest (after, builder, next.grp) (Function.update sorters unit next, builder) := by
  refine ⟨?_, ?_, allocated, rfl, fun other ne => ?_⟩
  · simpa only [Function.update_self] using sorts
  · simp only [Function.update_self]
  · simpa only [Function.update_of_ne ne] using others other ne

/-- A word does the same to a stream and to its sorter, up to the same fault. -/
theorem word {code : Stream × Builder × Group} {sorted : (UnitNo → Sorter) × Builder}
    (current : Current unit rest code sorted) (w : Word) :
    Except.Agree (fun a b => Current unit rest a.1 b.1 ∧ a.2.map (Prod.mk unit) = b.2)
      (watchedStep settings unit code w) (Sorted.word settings sorted (unit, w)) := by
  obtain ⟨stream, builder, grp⟩ := code
  obtain ⟨sorters, _⟩ := sorted
  obtain ⟨sorts, place, allocated, same, others⟩ := current
  simp only at sorts place allocated same others
  subst place same
  obtain ⟨sorter, shape⟩ : ∃ sorter, sorter = sorters unit := ⟨_, rfl⟩
  rw [← shape] at sorts allocated ⊢
  obtain ⟨next, after, takes, sorted, handed, sorts, allocated, stepped⟩ |
      ⟨next, after, block, takes, sorted, handed, sorts, allocated, stepped⟩ | ⟨refused, stepped⟩ :=
    sorts.step settings unit allocated w
  · rw [shape] at takes sorted
    rw [watchedStep, stepped, Sorted.word_silent takes sorted, handed]
    exact .ok ⟨update others sorts allocated builder, rfl⟩
  · rw [shape] at takes sorted
    rw [watchedStep, stepped, Sorted.word_block takes sorted, handed, ← shape, bind_assoc]
    rcases builder.UnpackEvent settings unit sorter.grp block with fault | unpacked
    · exact .error fault
    · exact .ok ⟨update others sorts allocated unpacked, rfl⟩
  · rw [shape] at refused
    rw [watchedStep, stepped, Sorted.word_refused refused, ← shape]
    exact .error _

theorem words (settings : Settings) {code : Stream × Builder × Group}
    {sorted : (UnitNo → Sorter) × Builder} (current : Current unit rest code sorted)
    (data : List Word) :
    Except.Agree (fun a b => Current unit rest a.1 b.1 ∧ a.2.map (Prod.mk unit) = b.2)
      (Transducer.run (watchedStep settings unit) code data)
      (Transducer.run (Sorted.word settings) sorted (data.map (Prod.mk unit))) :=
  Transducer.run_agree_map (R := Current unit rest) _ _
    (fun _ _ w current => current.word w) current data

end Current

/-- An unpacker with sorters stands for one of the code. -/
structure Sorted.Represents (sorted : Sorted) (code : UnpackVF48) : Prop where
  settings : code.settings = sorted.settings
  builder : code.builder = sorted.builder
  sorts : ∀ unit, Sorts (sorted.sorters unit) (code.streams unit)

namespace Sorted.Represents

open UnpackVF48

variable {sorted : Sorted} {self : UnpackVF48}

/-- Every call does the same on both sides, up to the same fault. -/
theorem call (represents : sorted.Represents self) (c : Call) :
    Except.Agree (fun a b => b.1.Represents a.1 ∧ a.2 = b.2) (self.call c) (sorted.call c) := by
  obtain ⟨settings, builder, streams⟩ := self
  obtain ⟨_, _, sorters⟩ := sorted
  obtain ⟨same, building, sorts⟩ := represents
  simp only at same building sorts
  subst same building
  cases c with
  | UnpackStream unit data =>
    obtain ⟨opened, created, here, allocated⟩ := (sorts unit).NewGroup
    have start : Current unit sorters (opened, builder, (sorters unit).grp) (sorters, builder) :=
      ⟨here, rfl, allocated, rfl, fun _ _ => rfl⟩
    rw [UnpackVF48.call, watchedStream, created, Except.ok_bind, Sorted.call, bind_assoc]
    apply (start.words settings data).bind
    rintro ⟨⟨stream, builder, grp⟩, handed⟩ ⟨⟨sorters', _⟩, blocks⟩ ⟨⟨here, _, _, same, others⟩, listed⟩
    simp only at same listed here
    subst same listed
    refine .ok ⟨⟨rfl, rfl, fun other => ?_⟩, ?_⟩
    · obtain rfl | ne := eq_or_ne other unit
      · simpa only [Function.update_self] using here
      · simp only [Function.update_of_ne ne]
        rw [show sorters' other = sorters other from others other ne]
        exact sorts other
    · simp only [List.map_map, Function.comp_def]
  | GetEvent flush => exact .ok ⟨⟨rfl, rfl, sorts⟩, rfl⟩
  | Reset =>
    refine .ok ⟨⟨rfl, rfl, fun unit => ⟨rfl, fun g => ?_, fun g => rfl, fun g _ => rfl⟩⟩, rfl⟩
    change ((((streams unit).wbuf g).map fun _ => []).getD [] : List Word) = []
    cases (streams unit).wbuf g <;> rfl

/-- So does every run. -/
theorem run (represents : sorted.Represents self) (calls : List Call) :
    Except.Agree (fun a b => b.1.Represents a.1 ∧ a.2 = b.2)
      (Transducer.run UnpackVF48.call self calls) (Transducer.run Sorted.call sorted calls) := by
  exact Transducer.run_agree (R := fun (self : UnpackVF48) (sorted : Sorted) => sorted.Represents self)
    (fun _ _ c represents => represents.call c)
    represents calls

end Sorted.Represents

/-- A state that some calls lead to, from the constructor with some settings. -/
def UnpackVF48.Reached (self : UnpackVF48) : Prop :=
  ∃ settings calls sights,
    Transducer.run UnpackVF48.call { UnpackVF48.new with settings := settings } calls =
      .ok (self, sights)

/-- The sorter of a stream; a reached stream is in a group. -/
def Stream.sorter (stream : Stream) : Sorter where
  grp := if inside : stream.wgrp < VF48_MAX_GROUPS then ⟨stream.wgrp, inside⟩ else 0
  words := stream.words
  acc := stream.wacc

theorem Sorts.sorter_eq {sorter : Sorter} {stream : Stream} (sorts : Sorts sorter stream) :
    stream.sorter = sorter := by
  have inside : stream.wgrp < VF48_MAX_GROUPS := by rw [sorts.grp]; exact sorter.grp.isLt
  have place : (⟨stream.wgrp, inside⟩ : Group) = sorter.grp := Fin.ext sorts.grp
  rw [Stream.sorter, dif_pos inside, place, funext sorts.words, funext sorts.acc]

/-- The unpacker with the sorters of the streams. -/
def UnpackVF48.sorted (self : UnpackVF48) : Sorted :=
  ⟨self.settings, self.builder, fun unit => (self.streams unit).sorter⟩

theorem Sorted.new_represents (settings : Settings) :
    Sorted.Represents ⟨settings, .initial, fun _ => .initial⟩ { UnpackVF48.new with
      settings := settings } :=
  ⟨rfl, rfl, fun _ => ⟨rfl, fun _ => rfl, fun _ => rfl, fun _ _ => rfl⟩⟩

theorem UnpackVF48.Reached.represents {self : UnpackVF48} (reached : self.Reached) :
    self.sorted.Represents self := by
  obtain ⟨settings, calls, sights, ran⟩ := reached
  have agree := (Sorted.new_represents settings).run calls
  rw [ran] at agree
  obtain ⟨⟨final, _⟩, _, represents, _⟩ := agree.to_ok
  refine ⟨rfl, rfl, fun unit => ?_⟩
  have sorts : Sorts (final.sorters unit) (self.streams unit) := represents.sorts unit
  rw [← sorts.sorter_eq] at sorts
  exact sorts

end PtfConverter.VF48
