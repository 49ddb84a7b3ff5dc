import Mathlib.Data.List.DropRight
import PtfConverter.Soundness.VF48Safety

/-! # The samples of a channel are those behind its last header

In a block with timestamp words in front, a trailer only at the end and no unknown words behind a
channel header, every channel that is named ends with the samples behind its last header, up to the
next word that closes it. The array takes 1098 of them.
-/

namespace PtfConverter.VF48

/-- The header of a channel. -/
def NamesChan (group : Group) (c : Chan) (w : Word) : Prop :=
  tagOf w = 0xC0000000 ∧ headerChan group w = c.val

instance (group : Group) (c : Chan) (w : Word) : Decidable (NamesChan group c w) :=
  inferInstanceAs (Decidable (_ ∧ _))

/-- A channel header, a time, a charge, or a trailer. -/
def Closes (w : Word) : Prop := tagOf w ∈ [0xC0000000#32, 0x40000000#32, 0x50000000#32, 0xE0000000#32]

instance (w : Word) : Decidable (Closes w) := inferInstanceAs (Decidable (_ ∈ _))

/-- The words behind the last header of a channel. -/
def behind (group : Group) (c : Chan) (data : List Word) : List Word :=
  data.rtakeWhile fun w => decide (¬ NamesChan group c w)

/-- The sample words behind the last header of a channel, up to the word that closes the channel. -/
def attributed (group : Group) (c : Chan) (data : List Word) : List Word :=
  ((behind group c data).takeWhile fun w => decide (¬ Closes w)).filter fun w => tagOf w == 0x00000000

/-- The two samples of each sample word. -/
def halves (words : List Word) : List (BitVec 16) :=
  words.flatMap fun w => [(w &&& 0x3FFF#32).setWidth 16, ((w >>> 16) &&& 0x3FFF#32).setWidth 16]

/-- The samples that a channel stores of those it counts. -/
def VF48channel.stored (channel : VF48channel) : List (Option (BitVec 16)) :=
  (List.range (min channel.numSamples (VF48_MAX_SAMPLES - 2))).map channel.samples

/-- The samples of a channel are the first ones of its sample words. -/
def Attributes (group : Group) (c : Chan) (data : List Word) (m : VF48module) : Prop :=
  (m.channels c).stored = ((halves (attributed group c data)).take (VF48_MAX_SAMPLES - 2)).map some

/-- A block whose words come in order: timestamp words in front of the channel headers, a trailer
only at the end, and no unknown word behind a channel header. -/
structure Orderly (data : List Word) : Prop where
  stamped : (∃ w ∈ data, tagOf w = 0xC0000000) →
    ∃ w ∈ data.takeWhile fun w => tagOf w != 0xC0000000, tagOf w = 0xA0000000
  closed : ∀ w ∈ data.dropLast, tagOf w ≠ 0xE0000000
  known : data.Pairwise fun v w => tagOf v = 0xC0000000 → ¬ Unknown w

/-- The last channel header of some words is none of a channel. -/
def Misnamed (group : Group) (past : List Word) : Prop :=
  ∃ before header after, past = before ++ header :: after ∧ tagOf header = 0xC0000000 ∧
    ¬ Names group header ∧
    ∀ w ∈ after, ¬ Names group w

theorem not_namesChan {group : Group} {c : Chan} {w : Word} {tag : Word} (tagged : tagOf w = tag)
    (ne : tag ≠ 0xC0000000#32) : ¬ NamesChan group c w := fun names => ne (tagged.symm.trans names.1)

theorem NamesChan.names {group : Group} {c : Chan} {w : Word} (names : NamesChan group c w) :
    Names group w :=
  ⟨names.1, by rw [names.2]; exact c.isLt⟩

section

variable {group : Group} {c : Chan} {past : List Word} {w : Word}

theorem behind_names (names : NamesChan group c w) : behind group c (past ++ [w]) = [] := by
  apply List.rtakeWhile_concat_neg
  rw [decide_eq_true_iff, not_not]
  exact names

theorem behind_concat (other : ¬ NamesChan group c w) :
    behind group c (past ++ [w]) = behind group c past ++ [w] := by
  apply List.rtakeWhile_concat_pos
  rw [decide_eq_true_iff]
  exact other

theorem attributed_names (names : NamesChan group c w) : attributed group c (past ++ [w]) = [] := by
  rw [attributed, behind_names names]
  rfl

/-- A sample word is added while the channel is open. -/
theorem attributed_sample (sample : tagOf w = 0x00000000)
    (open_ : ∀ v ∈ behind group c past, ¬ Closes v) :
    attributed group c (past ++ [w]) = attributed group c past ++ [w] := by
  have other : ¬ NamesChan group c w := not_namesChan sample (by decide)
  have goesOn : ¬ Closes w := by
    rw [Closes, sample]
    decide
  have all : ∀ v ∈ behind group c past ++ [w], decide (¬ Closes v) = true := by
    intro v member
    obtain earlier | last := List.mem_append.mp member
    · exact decide_eq_true (open_ v earlier)
    · rw [List.mem_singleton.mp last]
      exact decide_eq_true goesOn
  rw [attributed, attributed, behind_concat other, List.takeWhile_eq_self_iff.mpr all,
    List.takeWhile_eq_self_iff.mpr fun v member => all v (List.mem_append_left _ member),
    List.filter_append]
  congr 1
  exact List.filter_eq_self.mpr fun v member => by rw [List.mem_singleton.mp member, sample]; rfl

/-- Nothing is added otherwise. -/
theorem attributed_concat (other : ¬ NamesChan group c w)
    (closed : tagOf w = 0x00000000 → ¬ ∀ v ∈ behind group c past, ¬ Closes v) :
    attributed group c (past ++ [w]) = attributed group c past := by
  rw [attributed, attributed, behind_concat other, List.takeWhile_append]
  split_ifs with all
  · have open_ : ∀ v ∈ behind group c past, ¬ Closes v := by
      have whole := (List.takeWhile_prefix _).eq_of_length all
      intro v member
      exact of_decide_eq_true (List.takeWhile_eq_self_iff.mp whole v member)
    have nothing : ([w].takeWhile fun w => decide (¬ Closes w)).filter
        (fun w => tagOf w == 0x00000000) = [] := by
      refine List.filter_eq_nil_iff.mpr fun v member sample => ?_
      rw [List.mem_singleton.mp ((List.takeWhile_prefix _).subset member)] at sample
      exact closed (beq_iff_eq.mp sample) open_
    rw [List.takeWhile_eq_self_iff.mpr fun v member => decide_eq_true (open_ v member),
      List.filter_append, nothing, List.append_nil]
  · rfl

/-- A channel that was named holds the samples behind its last header. -/
structure Filled (group : Group) (c : Chan) (past : List Word) (channel : VF48channel)
    (current : ℤ) : Prop where
  count : channel.numSamples = (halves (attributed group c past)).length
  samples : ∀ k < VF48_MAX_SAMPLES - 2, ∀ v, (halves (attributed group c past))[k]? = some v →
    channel.samples k = some v
  open_ : (∀ v ∈ behind group c past, ¬ Closes v) ↔ channel.complete = false ∧ current = c.val

theorem halves_concat (words : List Word) (w : Word) :
    halves (words ++ [w]) =
      halves words ++ [(w &&& 0x3FFF#32).setWidth 16, ((w >>> 16) &&& 0x3FFF#32).setWidth 16] := by
  rw [halves, halves, List.flatMap_append, List.flatMap_singleton]

namespace Filled

variable {channel next : VF48channel} {current following : ℤ}

theorem names (names : NamesChan group c w) (empty : next.numSamples = 0)
    (opened : next.complete = false) (here : following = c.val) :
    Filled group c (past ++ [w]) next following := by
  refine ⟨?_, ?_, ?_⟩
  · rw [attributed_names names, empty]
    rfl
  · intro k _ v place
    rw [attributed_names names] at place
    cases place
  · rw [behind_names names]
    exact iff_of_true (fun v member => by cases member) ⟨opened, here⟩

theorem startChannel (names : NamesChan group c w)
    (inside : headerChan group w < VF48_MAX_CHANNELS) {m : VF48module} {cgroup : Group}
    {flag : Bool} (here : current = headerChan group w) :
    Filled group c (past ++ [w])
      ((m.startChannel cgroup ⟨headerChan group w, inside⟩ flag).channels c) current := by
  have place : (⟨headerChan group w, inside⟩ : Chan) = c := Fin.ext names.2
  have opened : (m.startChannel cgroup c flag).channels c =
      { m.channels c with complete := false, numSamples := 0, channel := c.val } :=
        Function.update_self ..
  rw [place, opened]
  exact .names names rfl rfl (here.trans (congrArg Nat.cast names.2))

/-- A word that stores no sample in the channel. -/
theorem pass (filled : Filled group c past channel current) (other : ¬ NamesChan group c w)
    (closed : tagOf w = 0x00000000 → ¬ (channel.complete = false ∧ current = c.val))
    (count : next.numSamples = channel.numSamples) (samples : next.samples = channel.samples)
    (open_ : ¬ Closes w ∧ channel.complete = false ∧ current = c.val ↔
      next.complete = false ∧ following = c.val) :
    Filled group c (past ++ [w]) next following := by
  have same := attributed_concat other fun sample opened => closed sample (filled.open_.mp opened)
  refine ⟨?_, ?_, ?_⟩
  · rw [same, count]
    exact filled.count
  · rw [same, samples]
    exact filled.samples
  · rw [behind_concat other, ← open_, ← filled.open_, List.forall_mem_append, List.forall_mem_singleton]
    exact and_comm

/-- A sample word of the channel. -/
theorem sample (filled : Filled group c past channel current) (tag : tagOf w = 0x00000000)
    (opened : channel.complete = false) (here : current = c.val)
    (count : next.numSamples = channel.numSamples + 2) (still : next.complete = false)
    (samples : next.samples = if channel.numSamples < VF48_MAX_SAMPLES - 2 then
      Function.update (Function.update channel.samples channel.numSamples
      (some ((w &&& 0x3FFF#32).setWidth 16))) (channel.numSamples + 1)
      (some (((w >>> 16) &&& 0x3FFF#32).setWidth 16)) else channel.samples) :
    Filled group c (past ++ [w]) next current := by
  have same := attributed_sample tag (filled.open_.mpr ⟨opened, here⟩)
  have other : ¬ NamesChan group c w := not_namesChan tag (by decide)
  have goesOn : ¬ Closes w := by
    rw [Closes, tag]
    decide
  refine ⟨?_, fun k inside v place => ?_, ?_⟩
  · rw [same, halves_concat, count, filled.count, List.length_append]
    rfl
  · rw [same, halves_concat] at place
    rw [samples]
    have counted := filled.count
    obtain before | rfl | rfl | past : k < channel.numSamples ∨ k = channel.numSamples ∨
        k = channel.numSamples + 1 ∨
        channel.numSamples + 2 ≤ k := by omega
    · rw [List.getElem?_append_left (by omega)] at place
      have stored := filled.samples k inside v place
      split_ifs
      · rw [Function.update_of_ne (by omega), Function.update_of_ne (by omega), stored]
      · exact stored
    · rw [counted, List.getElem?_append_right (Nat.le_refl _), Nat.sub_self] at place
      cases place
      rw [if_pos inside, Function.update_of_ne (Nat.succ_ne_self _).symm, Function.update_self]
    · rw [counted, List.getElem?_append_right (Nat.le_succ _), Nat.succ_sub (Nat.le_refl _),
        Nat.sub_self] at place
      cases place
      rw [if_pos (by omega), Function.update_self]
    · rw [List.getElem?_eq_none (by rw [List.length_append, ← counted]; exact past)] at place
      cases place
  · rw [behind_concat other, List.forall_mem_append, List.forall_mem_singleton, filled.open_, still]
    exact ⟨fun both => ⟨rfl, both.1.2⟩, fun both => ⟨⟨opened, both.2⟩, goesOn⟩⟩

end Filled

theorem takeData_other {settings : Settings} {unit : UnitNo} {trigger : Word} {m : VF48module}
    {chan : Chan} (ne : c ≠ chan) (untrailed : tagOf w ≠ 0xE0000000) :
    (m.takeData settings unit trigger w chan).channels c = m.channels c := by
  unfold VF48module.takeData
  split_ifs
  · unfold VF48module.takeSamples
    simp only
    split_ifs
    · rfl
    · exact VF48module.setChannel_other _ ne
    · exact VF48module.setChannel_other _ ne
  · exact VF48module.setChannel_other _ ne
  · exact VF48module.setChannel_other _ ne
  · rfl
  · rfl

/-- A word on the channel that is open. -/
theorem Filled.takeData {settings : Settings} {unit : UnitNo} {trigger : Word} {m : VF48module}
    {current : ℤ} (filled : Filled group c past (m.channels c) current) (here : current = c.val)
    (data : tagOf w ≠ 0xC0000000) (untrailed : tagOf w ≠ 0xE0000000) :
    Filled group c (past ++ [w]) ((m.takeData settings unit trigger w c).channels c) current := by
  have other : ¬ NamesChan group c w := fun names => data names.1
  unfold VF48module.takeData
  split_ifs with sample time charge
  · have goesOn : ¬ Closes w := by
      rw [Closes, sample]
      decide
    unfold VF48module.takeSamples
    simp only
    split_ifs with complete few
    · refine filled.pass other ?_ rfl rfl ?_
      · intro _ opened
        rw [complete] at opened
        cases opened.1
      · exact ⟨fun both => both.2, fun both => ⟨goesOn, both⟩⟩
    · have opened := Bool.eq_false_iff.mpr complete
      rw [VF48module.setChannel_channels]
      exact filled.sample sample opened here rfl opened (if_pos few).symm
    · have opened := Bool.eq_false_iff.mpr complete
      change Filled _ _ _ ((m.setChannel c _).channels c) _
      rw [VF48module.setChannel_channels]
      exact filled.sample sample opened here rfl opened (if_neg few).symm
  · have closing : Closes w := by
      rw [Closes, time]
      decide
    rw [VF48module.takeTime, VF48module.setChannel_channels]
    refine filled.pass other (fun none => absurd none sample) rfl rfl ?_
    exact iff_of_false (fun both => both.1 closing) fun both => by cases both.1
  · have closing : Closes w := by
      rw [Closes, charge]
      decide
    rw [VF48module.takeCharge, VF48module.setChannel_channels]
    refine filled.pass other (fun none => absurd none sample) rfl rfl ?_
    exact iff_of_false (fun both => both.1 closing) fun both => by cases both.1
  all_goals
    have goesOn : ¬ Closes w := by
      simp only [Closes, List.mem_cons, List.not_mem_nil, or_false, not_or]
      exact ⟨data, time, charge, untrailed⟩
    exact filled.pass other (fun none => absurd none sample) rfl rfl
      ⟨fun both => both.2, fun both => ⟨goesOn, both⟩⟩

theorem Filled.step {settings : Settings} {unit : UnitNo} {locals following : Locals}
    {m after : VF48module} (filled : Filled group c past (m.channels c) locals.chan)
    (takes : Takes settings unit group locals w m after) (other : ¬ NamesChan group c w)
    (untrailed : tagOf w ≠ 0xE0000000)
    (current : following.chan = if tagOf w = 0xC0000000 then
      (headerChan group w : ℤ) else locals.chan) :
    Filled group c (past ++ [w]) (after.channels c) following.chan := by
  have away (channel : tagOf w = 0xC0000000) (same : after.channels c = m.channels c) :
      Filled group c (past ++ [w]) (after.channels c) following.chan := by
    rw [same, current, if_pos channel]
    refine filled.pass other ?_ rfl rfl ?_
    · intro sample
      rw [channel] at sample
      cases sample
    · refine iff_of_false (fun both => both.1 ?_) fun both => other ⟨channel, Int.ofNat_inj.mp both.2⟩
      rw [Closes, channel]
      decide
  by_cases names : Names group w
  · obtain ⟨stamped, flag, channels, _, rfl⟩ := takes.header names
    have ne : c ≠ ⟨headerChan group w, names.2⟩ :=
      fun same => other ⟨names.1, (congrArg Fin.val same).symm⟩
    exact away names.1 ((Function.update_of_ne ne ..).trans (congrFun channels c))
  by_cases channel : tagOf w = 0xC0000000
  · refine away channel ?_
    rw [takes.data names]
    cases channel? locals.chan with
    | none => rfl
    | some chan =>
      rw [Option.elim_some, takeData_idle (.inl (by rw [channel]; decide))]
  rw [current, if_neg channel, takes.data names]
  by_cases here : locals.chan = c.val
  · rw [here, Builder.channel?_val, Option.elim_some]
    rw [here] at filled
    exact filled.takeData rfl channel untrailed
  · have same : ((channel? locals.chan).elim m
      (m.takeData settings unit locals.headerTrigNo w)).channels c = m.channels c := by
      cases inside : channel? locals.chan with
      | none => rfl
      | some chan =>
        refine takeData_other ?_ untrailed
        rintro rfl
        exact here (channel?_eq_some inside)
    rw [same]
    refine filled.pass other (fun _ both => here both.2) rfl rfl ?_
    exact iff_of_false (fun both => here both.2.2) fun both => here both.2

theorem Filled.attributes {m : VF48module} {current : ℤ}
    (filled : Filled group c past (m.channels c) current) :
    Attributes group c past m := by
  apply List.ext_getElem
  · simp only [VF48channel.stored, List.length_map, List.length_range, List.length_take, filled.count]
    exact Nat.min_comm _ _
  · intro k left right
    simp only [VF48channel.stored, List.length_map, List.length_range] at left
    simp only [List.length_map, List.length_take] at right
    simp only [VF48channel.stored, List.getElem_map, List.getElem_range, List.getElem_take]
    exact filled.samples k (by omega) _ (List.getElem?_eq_getElem (by omega))

namespace VF48module

variable {m : VF48module} {settings : Settings}

theorem setChannel_stored {chan : Chan} {channel : VF48channel}
    (same : channel.stored = (m.channels chan).stored) (c : Chan) :
    ((m.setChannel chan channel).channels c).stored = (m.channels c).stored := by
  obtain rfl | ne := eq_or_ne c chan
  · rw [setChannel_channels, same]
  · rw [setChannel_other _ ne]

theorem completeChannel_stored (c : Chan) (state : ℕ × VF48module) (i : Chan) :
    ((completeChannel settings state i).2.channels c).stored = (state.2.channels c).stored := by
  obtain ⟨complaints, m⟩ := state
  have cut (long : (m.channels i).numSamples > VF48_MAX_SAMPLES) :
      ({ m.channels i with numSamples := VF48_MAX_SAMPLES } : VF48channel).stored =
        (m.channels i).stored := by
    have counts : min VF48_MAX_SAMPLES (VF48_MAX_SAMPLES - 2) =
        min (m.channels i).numSamples (VF48_MAX_SAMPLES - 2) := by
      omega
    simp only [VF48channel.stored, counts]
  simp only [completeChannel]
  split_ifs with enabled unseen empty long odd odd
  · rfl
  · rfl
  · exact setChannel_stored (cut long) c
  · exact setChannel_stored (cut long) c
  · rfl
  · rfl
  · rfl

theorem completeGroup_channels (t : ℚ) (state : ℕ × VF48module) (i : Group) :
    (completeGroup settings t state i).2.channels = state.2.channels := by
  simp only [completeGroup]
  split_ifs <;> rfl

theorem CompleteModule_stored (c : Chan) :
    ((m.CompleteModule settings).2.channels c).stored = (m.channels c).stored := by
  unfold CompleteModule
  split_ifs
  · rfl
  · dsimp only
    rw [foldl_view (completeGroup_channels _)]
    exact @foldl_view _ _ (fun m => (m.channels c).stored) _ (completeChannel_stored c) _ (0, m)

theorem takeTrailer_stored {unit : UnitNo} {trigger : Word} {chan : Chan} (c : Chan) :
    ((m.takeTrailer settings unit trigger chan w).channels c).stored = (m.channels c).stored := by
  have marked : ((m.setChannel chan { m.channels chan with complete := true }).channels c).stored =
      (m.channels c).stored := by
    refine setChannel_stored ?_ c
    rfl
  unfold takeTrailer
  simp only
  split_ifs
  · exact (CompleteModule_stored c).trans marked
  · exact marked
  · exact (CompleteModule_stored c).trans marked
  · exact marked

end VF48module

section

open Builder

variable {settings : Settings} {unit : UnitNo} {index : ℕ} {builder next : Builder}
  {locals following : Locals} {data : List Word}

/-- The named channels of the module of a block are filled. -/
structure Filed (unit : UnitNo) (group : Group) (past : List Word)
    (state : Builder × Locals) : Prop where
  present : ∀ index ∈ state.2.m, (state.1.module? unit index).isSome
  pointed : (∃ v ∈ past, Names group v) → state.2.m.isSome
  filled : ∀ index ∈ state.2.m, ∀ m, state.1.module? unit index = some m →
    ∀ c, (∃ v ∈ past, NamesChan group c v) →
    Filled group c past (m.channels c) state.2.chan

/-- What `m` points to is all there is to fill. -/
theorem Filed.of_pointer {m : VF48module} (pointer : following.m = some index)
    (here : next.module? unit index = some m)
    (filled : ∀ c, (∃ v ∈ past, NamesChan group c v) →
      Filled group c past (m.channels c) following.chan) :
    Filed unit group past (next, following) := by
  refine ⟨?_, fun _ => Option.isSome_iff_exists.mpr ⟨index, pointer⟩, ?_⟩
  · intro i found
    obtain rfl := Option.mem_some_iff.mp (pointer ▸ found)
    exact Option.isSome_iff_exists.mpr ⟨m, here⟩
  · intro i found other place
    obtain rfl := Option.mem_some_iff.mp (pointer ▸ found)
    obtain rfl := Option.some.inj (here.symm.trans place)
    exact filled

/-- What some words have and the last one has not, the earlier ones have. -/
theorem exists_earlier {P : Word → Prop} (last : ¬ P w) (some : ∃ v ∈ past ++ [w], P v) :
    ∃ v ∈ past, P v := by
  obtain ⟨v, member, holds⟩ := some
  obtain before | here := List.mem_append.mp member
  · exact ⟨v, before, holds⟩
  · rw [List.mem_singleton.mp here] at holds
    exact absurd holds last

/-- A word in front of the first channel header. -/
theorem Filed.of_null (filed : Filed unit group past (builder, locals)) (null : locals.m = none)
    (ran : unpackWord settings unit group (builder, locals) w = .ok (next, following)) :
    Filed unit group (past ++ [w]) (next, following) := by
  have unopened : ¬ ∃ v ∈ past, Names group v := by
    intro some
    have there : locals.m.isSome := filed.pointed some
    rw [null] at there
    cases there
  by_cases names : Names group w
  · obtain ⟨_, _, state, after, _, index, labelled, flag, _, _, stepped, current, _, chan, _, here,
      _⟩ :=
      unpackWord_names_detached settings unit builder names null (counted_of_names names null ran)
    rw [stepped] at ran
    cases ran
    refine .of_pointer current here fun c some => ?_
    have first : NamesChan group c w := by
      by_contra earlier
      obtain ⟨v, member, holds⟩ := exists_earlier earlier some
      exact unopened ⟨v, member, holds.names⟩
    exact .startChannel first names.2 chan
  · have still : following.m = none := (unpackWord_lost (target_of_null null) names ran).2.trans null
    refine ⟨fun i found => ?_, fun some => absurd (exists_earlier names some) unopened,
      fun i found => ?_⟩
    · rw [still] at found
      cases found
    · rw [still] at found
      cases found

theorem Filed.step (filed : Filed unit group past (builder, locals)) (untrailed : tagOf w ≠ 0xE0000000)
    (ran : unpackWord settings unit group (builder, locals) w = .ok (next, following)) :
    Filed unit group (past ++ [w]) (next, following) := by
  have present : ∀ index ∈ locals.m, (builder.module? unit index).isSome := filed.present
  cases pointer : locals.m with
  | none => exact filed.of_null pointer ran
  | some index =>
    obtain ⟨m, here⟩ := Option.isSome_iff_exists.mp (present index pointer)
    obtain ⟨after, buffer, takes, kept⟩ := unpackWord_attached pointer here ran
    refine .of_pointer (kept untrailed) (module?_of_buffer here buffer) fun c some => ?_
    by_cases names : NamesChan group c w
    · obtain ⟨stamped, flag, _, _, rfl⟩ := takes.header names.names
      exact .startChannel names names.names.2 (unpackWord_names names.names ran).1
    · have filled := filed.filled index pointer m here c (exists_earlier names some)
      exact filled.step takes names untrailed (unpackWord_chan ran)

theorem Filed.initial (builder : Builder) : Filed unit group [] (builder, .initial) := by
  refine ⟨?_, ?_, ?_⟩
  · intro index pointer
    cases pointer
  · rintro ⟨v, member, _⟩
    cases member
  · intro index pointer
    cases pointer

theorem Filed.run {state : Builder × Locals} (untrailed : ∀ v ∈ data, tagOf v ≠ 0xE0000000)
    (ran : data.foldlM (unpackWord settings unit group) (builder, .initial) = .ok state) :
    Filed unit group data state := by
  have kept := Except.foldlM_keeps
    (fun past state => (∀ v ∈ past, tagOf v ≠ 0xE0000000) → Filed unit group past state) ?_
      (fun _ => Filed.initial builder) ran
  · exact kept untrailed
  · intro past state w next filed stepped all
    obtain ⟨earlier, last⟩ := List.forall_mem_append.mp all
    exact (filed earlier).step (last w (List.mem_singleton.mpr rfl)) stepped

/-- Up to a trailer, `m` keeps pointing to its module. -/
theorem foldlM_pointer {state final : Builder × Locals} (pointer : state.2.m = some index)
    (present : (state.1.module? unit index).isSome) (untrailed : ∀ v ∈ data, tagOf v ≠ 0xE0000000)
    (ran : data.foldlM (unpackWord settings unit group) state = .ok final) :
    final.2.m = some index := by
  have kept := Except.foldlM_keeps
    (fun past (state : Builder × Locals) => (∀ v ∈ past, tagOf v ≠ 0xE0000000) →
    state.2.m = some index ∧ (state.1.module? unit index).isSome) ?_ (fun _ => ⟨pointer, present⟩) ran
  · exact (kept untrailed).1
  · intro past state w next held stepped all
    obtain ⟨earlier, last⟩ := List.forall_mem_append.mp all
    obtain ⟨pointer, present⟩ := held earlier
    obtain ⟨m, here⟩ := Option.isSome_iff_exists.mp present
    obtain ⟨after, buffer, _, kept⟩ :=
      @unpackWord_attached _ _ _ _ state.1 next.1 m state.2 next.2 w pointer here stepped
    exact ⟨kept (last w (List.mem_singleton.mpr rfl)),
      Option.isSome_iff_exists.mpr ⟨after, module?_of_buffer here buffer⟩⟩

end

namespace Watch

theorem exists_names (opened : (after group past).opened = true) : ∃ v ∈ past, Names group v := by
  induction past using List.reverseRecOn with
  | nil => cases opened
  | append_singleton past w ih =>
    by_cases names : Names group w
    · exact ⟨w, List.mem_append_right _ (List.mem_singleton.mpr rfl), names⟩
    · rw [after_unnamed past names] at opened
      obtain ⟨v, member, named⟩ := ih opened
      exact ⟨v, List.mem_append_left _ member, named⟩

/-- Behind a timestamp word, and in front of all trailers, a channel header has a
module or a timestamp. -/
theorem ready (timed : ∃ v ∈ past, tagOf v = 0xA0000000)
    (untrailed : ∀ v ∈ past, tagOf v ≠ 0xE0000000) :
    (after group past).held = true ∨ (after group past).stamped = true := by
  induction past using List.reverseRecOn with
  | nil =>
    obtain ⟨v, member, _⟩ := timed
    cases member
  | append_singleton past w ih =>
    by_cases names : Names group w
    · rw [after_names past names]
      exact .inl rfl
    obtain ⟨earlier, last⟩ := List.forall_mem_append.mp untrailed
    have open_ : (tagOf w == 0xE0000000) = false :=
      beq_eq_false_iff_ne.mpr (last w (List.mem_singleton.mpr rfl))
    rw [after_unnamed past names, open_, Bool.false_and, Bool.not_false, Bool.and_true]
    obtain ⟨v, member, stamp⟩ := timed
    obtain before | here := List.mem_append.mp member
    · obtain held | stamped := ih ⟨v, before, stamp⟩ earlier
      · exact .inl held
      · exact .inr (Bool.or_eq_true_iff.mpr (.inl stamped))
    · rw [List.mem_singleton.mp here] at stamp
      exact .inr (Bool.or_eq_true_iff.mpr (.inr (beq_iff_eq.mpr stamp)))

theorem outside (misnamed : Misnamed group past) : (after group past).inside = false := by
  obtain ⟨before, header, rest, rfl, channel, unnamed, later⟩ := misnamed
  induction rest using List.reverseRecOn with
  | nil =>
    rw [after_unnamed before unnamed, channel]
    exact Bool.and_false _
  | append_singleton rest w ih =>
    obtain ⟨earlier, last⟩ := List.forall_mem_append.mp later
    have shape : before ++ header :: (rest ++ [w]) = (before ++ header :: rest) ++ [w] := by
      rw [List.append_assoc, List.cons_append]
    rw [shape, after_unnamed _ (last w (List.mem_singleton.mpr rfl)), ih earlier]
    rfl

end Watch

namespace Orderly

variable {data : List Word}

theorem untrailed (orderly : Orderly data) (front : past ++ [w] <+: data) :
    ∀ v ∈ past, tagOf v ≠ 0xE0000000 := by
  obtain ⟨rest, rfl⟩ := front
  intro v member
  refine orderly.closed v ?_
  rw [List.append_assoc, List.singleton_append,
    List.dropLast_append_of_ne_nil (List.cons_ne_nil w rest)]
  exact List.mem_append_left _ member

theorem timed (orderly : Orderly data) (front : past ++ [w] <+: data) (channel : tagOf w = 0xC0000000) :
    ∃ v ∈ past, tagOf v = 0xA0000000 := by
  obtain ⟨rest, rfl⟩ := front
  obtain ⟨v, member, stamp⟩ := orderly.stamped ⟨w, by simp, channel⟩
  refine ⟨v, ?_, stamp⟩
  have stops : (w :: rest).takeWhile (fun w => tagOf w != 0xC0000000) = [] := by
    refine List.takeWhile_cons_of_neg ?_
    rw [channel]
    decide
  rw [List.append_assoc, List.singleton_append, List.takeWhile_append, stops, List.append_nil] at member
  split_ifs at member
  · exact member
  · exact (List.takeWhile_prefix _).subset member

theorem unopened (orderly : Orderly data) (front : past ++ [w] <+: data) (unknown : Unknown w) :
    ∀ v ∈ past, tagOf v ≠ 0xC0000000 := by
  obtain ⟨rest, rfl⟩ := front
  intro v member channel
  rw [List.append_assoc] at orderly
  exact (List.pairwise_append.mp orderly.known).2.2 v member w List.mem_cons_self channel unknown

theorem guarded (orderly : Orderly data) (group : Group) : Guarded group data := by
  intro past w front
  refine ⟨fun names => Watch.ready (orderly.timed front names.1) (orderly.untrailed front),
    fun unknown opened => ?_⟩
  obtain ⟨v, member, names⟩ := Watch.exists_names opened
  exact absurd names.1 (orderly.unopened front unknown v member)

end Orderly

/-- A trailer stores no sample. -/
theorem Attributes.trailer {settings : Settings} {unit : UnitNo} {locals : Locals}
    {m after : VF48module} (shows : Attributes group c past m) (trailer : tagOf w = 0xE0000000)
    (takes : Takes settings unit group locals w m after) :
    Attributes group c (past ++ [w]) after := by
  have other : ¬ NamesChan group c w := not_namesChan trailer (by decide)
  have unnamed : ¬ Names group w := by
    rintro ⟨channel, _⟩
    rw [trailer] at channel
    cases channel
  have nothing : tagOf w = 0x00000000 → ¬ ∀ v ∈ behind group c past, ¬ Closes v := by
    intro sample
    rw [trailer] at sample
    cases sample
  have stored : (after.channels c).stored = (m.channels c).stored := by
    rw [takes.data unnamed]
    cases channel? locals.chan with
    | none => rfl
    | some chan =>
      rw [Option.elim_some, takeData_trailer trailer]
      exact VF48module.takeTrailer_stored c
  rw [Attributes, stored, attributed_concat other nothing]
  exact shows

/-- A block that runs through ends in the module of any of its channel headers, with the
samples of the channel. -/
theorem shows_of_ran {settings : Settings} {unit : UnitNo} {builder : Builder} {data : List Word}
    (orderly : Orderly data) {final : Builder × Locals}
    (ran : data.foldlM (Builder.unpackWord settings unit group) (builder, .initial) = .ok final)
    (front : past ++ [w] <+: data) (names : NamesChan group c w) :
    ∃ state index m, (past ++ [w]).foldlM (Builder.unpackWord settings unit group)
      (builder, .initial) = .ok state ∧
      state.2.m = some index ∧ final.1.module? unit index = some m ∧ Attributes group c data m := by
  have before := orderly.untrailed front
  obtain ⟨tail, rfl⟩ := front
  have opened : ∀ v ∈ past ++ [w], tagOf v ≠ 0xE0000000 := by
    refine List.forall_mem_append.mpr ⟨before, List.forall_mem_singleton.mpr ?_⟩
    rw [names.1]
    decide
  obtain ⟨state, first, rest⟩ := Except.bind_eq_ok_iff.mp ((List.foldlM_append ..).symm.trans ran)
  have filed := Filed.run opened first
  have last : w ∈ past ++ [w] := List.mem_append_right _ (List.mem_singleton.mpr rfl)
  obtain ⟨index, pointer⟩ := Option.isSome_iff_exists.mp (filed.pointed ⟨w, last, names.names⟩)
  have present := filed.present index pointer
  have member : ∃ v ∈ past ++ [w], NamesChan group c v := ⟨w, last, names⟩
  -- the words up to the trailer fill the channel
  have fills {body : List Word}
      (untrailed : ∀ v ∈ body, tagOf v ≠ 0xE0000000) {middle : Builder × Locals}
      (ran : body.foldlM (Builder.unpackWord settings unit group) state = .ok middle) :
      middle.2.m = some index ∧ ∃ m, middle.1.module? unit index = some m ∧
        Attributes group c (past ++ [w] ++ body) m := by
    have whole : (past ++ [w] ++ body).foldlM (Builder.unpackWord settings unit group)
        (builder, .initial) = .ok middle := by
      rw [List.foldlM_append, first, Except.ok_bind, ran]
    have filed := Filed.run (List.forall_mem_append.mpr ⟨opened, untrailed⟩) whole
    have current := foldlM_pointer pointer present untrailed ran
    obtain ⟨m, here⟩ := Option.isSome_iff_exists.mp (filed.present index current)
    obtain ⟨v, there, named⟩ := member
    exact ⟨current, m, here,
      (filed.filled index current m here c ⟨v, List.mem_append_left _ there, named⟩).attributes⟩
  by_cases untrailed : ∀ v ∈ tail, tagOf v ≠ 0xE0000000
  · obtain ⟨_, m, here, shows⟩ := fills untrailed rest
    exact ⟨state, index, m, first, pointer, here, shows⟩
  · obtain rfl | ⟨body, t, rfl⟩ := List.eq_nil_or_concat' tail
    · exact absurd (fun v member => by cases member) untrailed
    have early : ∀ v ∈ body, tagOf v ≠ 0xE0000000 := by
      intro v there
      refine orderly.closed v ?_
      rw [← List.append_assoc, List.dropLast_concat]
      exact List.mem_append_right _ there
    have trailer : tagOf t = 0xE0000000 := by
      by_contra other
      exact untrailed (List.forall_mem_append.mpr ⟨early, List.forall_mem_singleton.mpr other⟩)
    obtain ⟨middle, ran, last⟩ := Except.bind_eq_ok_iff.mp ((List.foldlM_append ..).symm.trans rest)
    obtain ⟨current, m, here, shows⟩ := fills early ran
    obtain ⟨_, stepped, done⟩ := Except.bind_eq_ok_iff.mp last
    cases done
    obtain ⟨after, buffer, takes, _⟩ :=
      @unpackWord_attached _ _ _ _ middle.1 final.1 m middle.2 final.2 t current here stepped
    refine ⟨state, index, after, first, pointer, module?_of_buffer here buffer, ?_⟩
    rw [← List.append_assoc]
    exact shows.trailer trailer takes

/-- The samples of every channel that a block names are those behind the last header of the
channel, up to the next channel header, time, charge or trailer; samples behind a header of
no channel go nowhere. -/
theorem UnpackEvent_attributes (settings : Settings) (builder : Builder) (unit : UnitNo)
    (group : Group) {data : List Word} (orderly : Orderly data) :
    ∃ next, builder.UnpackEvent settings unit group data = .ok next ∧
      (∀ past w c, past ++ [w] <+: data → NamesChan group c w → ∃ state index m,
        (past ++ [w]).foldlM (Builder.unpackWord settings unit group) (builder, .initial) = .ok state ∧
        state.2.m = some index ∧ next.module? unit index = some m ∧ Attributes group c data m) ∧
      (∀ past w, past ++ [w] <+: data → tagOf w = 0x00000000 → Misnamed group past → ∃ state,
        past.foldlM (Builder.unpackWord settings unit group) (builder, .initial) = .ok state ∧
        Builder.unpackWord settings unit group state w = .ok (state.1.bad, state.2)) := by
  obtain ⟨next, unpacked⟩ := UnpackEvent_of_guarded unit (orderly.guarded group) settings builder
  refine ⟨next, unpacked, fun past w c front names => ?_, fun past w front sample misnamed => ?_⟩
  · obtain ⟨⟨_, locals⟩, ran, done⟩ := Except.bind_eq_ok_iff.mp unpacked
    cases done
    exact shows_of_ran orderly ran front names
  · obtain ⟨state, ran, _⟩ := runs_prefix ⟨next, unpacked⟩ front
    have outside : channel? state.2.chan = none := by
      have inside := (Watched.run ran).inside
      rw [Watch.outside misnamed] at inside
      exact Option.isSome_eq_false_iff.mp inside.symm |> Option.isNone_iff_eq_none.mp
    have lost : state.1.target unit state.2 = none := target_eq_none outside
    refine ⟨state, ran, ?_⟩
    obtain ⟨builder, locals⟩ := state
    rw [unpackWord_sample sample, Builder.sampleWord, lost]

end

/-- A block of channel 2 with the samples 7 and 5, a header of no channel, and two
samples that are lost. -/
theorem UnpackEvent_attributes_misnamed : ∃ next index m,
    Builder.UnpackEvent .initial .initial 0 0 [0x80000001, 0xA0000009, 0xA0000000, 0xC0000002,
      0x00050007, 0xC0000070, 0x00030004,
      0xE0000001] = .ok next ∧ next.module? 0 index = some m ∧
        (m.channels 2).stored = [some 7, some 5] := by
  have orderly : Orderly
      [0x80000001, 0xA0000009, 0xA0000000, 0xC0000002, 0x00050007, 0xC0000070, 0x00030004,
        0xE0000001] := by
    refine ⟨fun _ => ⟨0xA0000009, by decide, by decide⟩, ?_, ?_⟩
    · simp [tagOf]
    · simp [tagOf, Unknown]
  obtain ⟨next, unpacked, named, _⟩ := UnpackEvent_attributes .initial .initial 0 0 orderly
  obtain ⟨_, index, m, _, _, here, shows⟩ := named [0x80000001, 0xA0000009, 0xA0000000] 0xC0000002 2
    ⟨[0x00050007, 0xC0000070, 0x00030004, 0xE0000001], rfl⟩ (by decide)
  refine ⟨next, index, m, unpacked, here, shows.trans ?_⟩
  decide

end PtfConverter.VF48
