import PtfConverter.Model.OldUnpackVF48

/-! # Where the words of a unit belong

Group markers alone move the pointer `c`: the words behind a marker of a group belong to its context.
A context that a marker opened knows its own group, and no word changes that.
-/

namespace PtfConverter.OldVF48

open VF48 (UnitNo Word Group tagOf)

/-- The group that a word moves to, if it is the marker of a group. -/
def goodMarker? (w : Word) : Option Group := if tagOf w = 0xF0000000 then markedGroup? w else none

/-- The group of the word behind some words, from the group of the first one. -/
def groupAfter (group : Group) (words : List Word) : Group :=
  words.foldl (fun group w => (goodMarker? w).getD group) group

namespace Decoder

variable {settings : Settings} {run : RunSettings} {unit : UnitNo} {decoder next : Decoder} {w : Word}
  {modules : List VF48module}

/-- The pointer stays, and so do the groups of the contexts. -/
def Stays (decoder next : Decoder) : Prop :=
  next.c = decoder.c ∧ ∀ group, (next.gContexts group).group = (decoder.gContexts group).group

theorem Stays.refl (decoder : Decoder) : decoder.Stays decoder := ⟨rfl, fun _ => rfl⟩

theorem Stays.trans {middle last : Decoder} (first : decoder.Stays middle)
    (second : middle.Stays last) :
    decoder.Stays last := ⟨second.1.trans first.1, fun group => (second.2 group).trans (first.2 group)⟩

theorem Stays.ite {p : Prop} [Decidable p] {left right : Decoder} (yes : decoder.Stays left)
    (no : decoder.Stays right) :
    decoder.Stays (if p then left else right) := by
  split_ifs
  · exact yes
  · exact no

theorem Stays.dite {p : Prop} [Decidable p] {left : p → Decoder} {right : ¬ p → Decoder}
    (yes : ∀ h, decoder.Stays (left h)) (no : ∀ h, decoder.Stays (right h)) :
    decoder.Stays (if h : p then left h else right h) := by
  split_ifs with h
  · exact yes h
  · exact no h

theorem Stays.ite_fst {p : Prop} [Decidable p] {left right : Decoder × List VF48module}
    (yes : decoder.Stays left.1) (no : decoder.Stays right.1) :
    decoder.Stays (if p then left else right).1 := by
  split_ifs
  · exact yes
  · exact no

theorem setCtx_stays (ctx : Context) (same : ctx.group = decoder.ctx.group) :
    decoder.Stays (decoder.setCtx ctx) := by
  refine ⟨rfl, fun group => ?_⟩
  obtain rfl | ne := eq_or_ne group decoder.c
  · simp only [setCtx, Function.update_self]
    exact same
  · simp only [setCtx, Function.update_of_ne ne]

theorem reject_stays (decoder : Decoder) : decoder.Stays decoder.reject :=
  setCtx_stays { decoder.ctx with accept := false } rfl

theorem header_stays (run : RunSettings) (unit : UnitNo) (decoder : Decoder) (w : Word) :
    decoder.Stays (decoder.header run unit w).1 :=
  setCtx_stays { decoder.ctx.Init with accept := true, headerTrigNo := w &&& 0x00FFFFFF#32 } rfl

theorem timestampWord_stays (decoder : Decoder) (w : Word) :
    decoder.Stays (decoder.timestampWord w) := by
  apply setCtx_stays
  split_ifs <;> rfl

theorem applyTimestamp_stays (settings : Settings) (unit : UnitNo) (group : Group) (decoder : Decoder) :
    decoder.Stays (decoder.applyTimestamp settings unit group) := by
  have reset (first : Bool) :
      decoder.Stays (if first then decoder.setCtx { decoder.ctx with timestamp1 := 1 } else decoder) :=
    .ite (setCtx_stays _ rfl) (.refl decoder)
  exact reset _

theorem openChannel_stays (group : Group) (chan : VF48.Chan) (decoder : Decoder) :
    decoder.Stays (decoder.openChannel group chan) :=
  setCtx_stays
    { decoder.ctx with
      currentGroup := group
      timestampCount := 0
      currentChannel := chan
      timestampFlag := false } rfl

theorem channelHeader_stays (settings : Settings) (unit : UnitNo) (decoder : Decoder) (w : Word) :
    decoder.Stays (decoder.channelHeader settings unit w) := by
  apply Stays.dite
  · intro inside
    exact (Stays.ite (applyTimestamp_stays settings unit _ decoder) (.refl decoder)).trans
      (openChannel_stays _ _ _)
  · intro _
    exact .refl decoder

theorem sampleWord_stays (read : decoder.sampleWord w = .ok next) : decoder.Stays next := by
  simp only [sampleWord] at read
  split at read
  · cases read
  · cases read
    exact .refl decoder
  · split at read <;> cases read <;> exact .refl decoder

theorem chargeWord_stays (decoder : Decoder) (w : Word) : decoder.Stays (decoder.chargeWord w) :=
  .refl decoder

theorem trailer_stays (run : RunSettings) (unit : UnitNo) (decoder : Decoder) (w : Word) :
    decoder.Stays (decoder.trailer run unit w).1 := by
  apply Stays.ite_fst
  · exact .refl decoder
  · exact .refl decoder

/-- A good marker moves to its group, from wherever the pointer was. -/
theorem word_marker {group : Group} (marker : goodMarker? w = some group) (settings : Settings)
    (run : RunSettings) (unit : UnitNo) (decoder : Decoder) :
    decoder.word settings run unit w = .ok (decoder.switchGroup group, []) := by
  rw [goodMarker?] at marker
  split_ifs at marker with tag
  have header : ¬ (0xF0000000 : Word) = 0x80000000 := by decide
  simp only [word, tag, marker, if_neg header, ↓reduceIte, ite_self]

/-- Any other word leaves the pointer where it is. -/
theorem word_stays (other : goodMarker? w = none)
    (read : decoder.word settings run unit w = .ok (next, modules)) :
    decoder.Stays next := by
  rw [word] at read
  obtain ⟨_, read⟩ | ⟨_, read⟩ := ite_eq_iff.mp read
  · cases read
    exact header_stays run unit decoder w
  obtain ⟨_, read⟩ | ⟨_, read⟩ := ite_eq_iff.mp read
  · obtain ⟨marker, read⟩ | ⟨_, read⟩ := ite_eq_iff.mp read
    · rw [goodMarker?, if_pos marker] at other
      rw [other] at read
      cases read
      exact .refl decoder
    · cases read
      exact .refl decoder
  obtain ⟨marker, read⟩ | ⟨_, read⟩ := ite_eq_iff.mp read
  · rw [goodMarker?, if_pos marker] at other
    rw [other] at read
    cases read
    exact reject_stays decoder
  obtain ⟨_, read⟩ | ⟨_, read⟩ := ite_eq_iff.mp read
  · cases read
    exact timestampWord_stays decoder w
  obtain ⟨_, read⟩ | ⟨_, read⟩ := ite_eq_iff.mp read
  · cases read
    exact channelHeader_stays settings unit decoder w
  obtain ⟨_, read⟩ | ⟨_, read⟩ := ite_eq_iff.mp read
  · obtain ⟨last, taken, same⟩ := Except.bind_eq_ok_iff.mp read
    cases same
    exact sampleWord_stays taken
  obtain ⟨_, read⟩ | ⟨_, read⟩ := ite_eq_iff.mp read
  · cases read
    exact .refl decoder
  obtain ⟨_, read⟩ | ⟨_, read⟩ := ite_eq_iff.mp read
  · cases read
    exact chargeWord_stays decoder w
  obtain ⟨_, read⟩ | ⟨_, read⟩ := ite_eq_iff.mp read
  · obtain ⟨rfl, rfl⟩ := Prod.mk.inj (Except.ok.inj read)
    exact trailer_stays run unit decoder w
  obtain ⟨_, read⟩ | ⟨_, read⟩ := ite_eq_iff.mp read
  · cases read
    exact .refl decoder
  · cases read
    exact reject_stays decoder

/-- The context that the pointer is on knows its group. -/
def AtHome (decoder : Decoder) : Prop := decoder.ctx.group = decoder.c

theorem switchGroup_atHome (decoder : Decoder) (group : Group) :
    (decoder.switchGroup group).AtHome := by
  simp only [AtHome, ctx, switchGroup, Function.update_self]

/-- After each word the pointer is on the group of the last good marker. -/
theorem word_group (read : decoder.word settings run unit w = .ok (next, modules)) :
    next.c = (goodMarker? w).getD decoder.c ∧
      (decoder.AtHome ∨ (goodMarker? w).isSome → next.AtHome) := by
  cases marker : goodMarker? w with
  | none =>
    obtain ⟨pointer, groups⟩ := word_stays marker read
    refine ⟨pointer, fun home => ?_⟩
    rw [AtHome, ctx, groups, pointer]
    exact home.resolve_right Bool.false_ne_true
  | some group =>
    rw [word_marker marker] at read
    cases read
    exact ⟨rfl, fun _ => switchGroup_atHome decoder group⟩

/-- The context of group 0 keeps its group. -/
theorem word_zero (read : decoder.word settings run unit w = .ok (next, modules))
    (zero : (decoder.gContexts 0).group = 0) : (next.gContexts 0).group = 0 := by
  cases marker : goodMarker? w with
  | none => exact ((word_stays marker read).2 0).trans zero
  | some group =>
    rw [word_marker marker] at read
    cases read
    simp only [switchGroup]
    obtain rfl | ne := eq_or_ne 0 group
    · rw [Function.update_self]
    · rw [Function.update_of_ne ne]
      exact zero

/-- What a word is seen to do: its group, the module, and the modules that are complete. -/
abbrev Reading := Group × VF48module × List VF48module

/-- One word, with what it is seen to do; the list of events plays no part. -/
def read (settings : Settings) (run : RunSettings) (unit : UnitNo) (decoder : Decoder) (w : Word) :
    Except Fault (Decoder × List Reading) := do
  let (decoder, modules) ← decoder.word settings run unit w
  return (decoder, [(decoder.ctx.group, decoder.m, modules)])

/-- The words of a call. -/
def readAll (settings : Settings) (run : RunSettings) (unit : UnitNo) (decoder : Decoder)
    (data : List Word) :
    Except Fault (Decoder × List Reading) :=
  if data.all (· == 0) then
    .ok (decoder, []) else Transducer.run (Decoder.read settings run unit) decoder data

/-- The first word is the marker of a group. -/
def Starts (data : List Word) : Prop := ∃ w ∈ data.head?, (goodMarker? w).isSome

theorem Starts.cons {w : Word} {rest : List Word} : Starts (w :: rest) ↔ (goodMarker? w).isSome := by
  constructor
  · rintro ⟨_, ⟨⟩, good⟩
    exact good
  · intro good
    exact ⟨w, rfl, good⟩

theorem Starts.not_nil : ¬ Starts [] := fun ⟨_, first, _⟩ => by cases first

/-- A marker is not zero. -/
theorem Starts.not_zeros {data : List Word} (starts : Starts data) : data.all (· == 0) = false := by
  cases data with
  | nil => exact absurd starts not_nil
  | cons w rest =>
    rw [Starts.cons] at starts
    have nonzero : (w == 0) = false := by
      apply beq_false_of_ne
      rintro rfl
      cases starts
    rw [List.all_cons, nonzero, Bool.false_and]

/-- From a marker on it makes no difference where the pointer was. -/
theorem readAll_starts {data : List Word} (starts : Starts data) (group : Group) :
    readAll settings run unit { decoder with c := group } data =
      readAll settings run unit decoder data := by
  rw [readAll, readAll, starts.not_zeros, if_neg Bool.false_ne_true, if_neg Bool.false_ne_true]
  cases data with
  | nil => exact absurd starts Starts.not_nil
  | cons head rest =>
    obtain ⟨next, marker⟩ := Option.isSome_iff_exists.mp (Starts.cons.mp starts)
    have same : read settings run unit { decoder with c := group } head =
        read settings run unit decoder head := by
      rw [read, read, word_marker marker, word_marker marker]
      rfl
    rw [Transducer.run, Transducer.run, same]

/-- Words that are all zero move nothing. -/
theorem groupAfter_zeros {data : List Word} (zeros : data.all (· == 0) = true) (group : Group) :
    groupAfter group data = group := by
  induction data generalizing group with
  | nil => rfl
  | cons w rest ih =>
    rw [List.all_cons, Bool.and_eq_true, beq_iff_eq] at zeros
    obtain ⟨rfl, zeros⟩ := zeros
    exact ih zeros group

/-- After a call the pointer is on the group of the last good marker, and that context knows its
group. -/
theorem readAll_group {data : List Word} {readings : List Reading}
    (ran : readAll settings run unit decoder data = .ok (next, readings)) :
    next.c = groupAfter decoder.c data ∧ (decoder.AtHome ∨ Starts data → next.AtHome) := by
  rw [readAll] at ran
  split_ifs at ran with zeros
  · cases ran
    refine ⟨(groupAfter_zeros zeros _).symm, ?_⟩
    rintro (home | starts)
    · exact home
    · rw [starts.not_zeros] at zeros
      cases zeros
  · obtain ⟨pointer, home⟩ := Transducer.run_keeps
      (fun past (_ : List Reading) (next : Decoder) =>
        next.c = groupAfter decoder.c past ∧ (decoder.AtHome ∨ Starts past → next.AtHome))
      (fun {past _ middle w last _} ⟨pointer, home⟩ stepped => by
        obtain ⟨⟨final, modules⟩, worded, same⟩ := Except.bind_eq_ok_iff.mp stepped
        cases same
        obtain ⟨moved, kept⟩ := word_group worded
        refine ⟨?_, ?_⟩
        · rw [moved, pointer, groupAfter, groupAfter, List.foldl_append]
          rfl
        · intro good
          apply kept
          cases past with
          | nil => exact good.imp (fun here => home (.inl here)) Starts.cons.mp
          | cons head past =>
            exact .inl (home (good.imp_right fun starts =>
            Starts.cons.mpr (Starts.cons.mp starts))))
      ⟨rfl, fun home => home.resolve_right Starts.not_nil⟩ ran
    exact ⟨pointer, home⟩

theorem readAll_zero {data : List Word} {readings : List Reading}
    (ran : readAll settings run unit decoder data = .ok (next, readings))
    (zero : (decoder.gContexts 0).group = 0) :
    (next.gContexts 0).group = 0 := by
  rw [readAll] at ran
  split_ifs at ran
  · cases ran
    exact zero
  · refine Transducer.run_keeps
      (fun _ (_ : List Reading) (next : Decoder) => (next.gContexts 0).group = 0) ?_ zero ran
    intro _ _ middle w last _ here stepped
    obtain ⟨⟨final, modules⟩, worded, same⟩ := Except.bind_eq_ok_iff.mp stepped
    cases same
    exact word_zero worded here

end Decoder

/-- The group whose context the next call of a unit starts in. -/
def State.entry (state : State) (unit : UnitNo) : Group :=
  match state.c with
  | none => 0
  | some (other, group) => if other = unit then group else ((state.tables other).gContexts group).group

/-- A call starts on the tables of its unit. -/
theorem State.enter_eq {state : State} {unit : UnitNo}
    (zero : ((state.tables unit).gContexts 0).group = 0) :
    state.enter unit = { state.tables unit with
      m := (state.buf unit).getD (.new unit), c := state.entry unit } := by
  rw [enter, entry]
  cases state.c with
  | none =>
    have home (ctx : Context) (zero : ctx.group = 0) : { ctx with group := 0 } = ctx := by rw [← zero]
    have still : Function.update
        (state.tables unit).gContexts 0 { (state.tables unit).gContexts 0 with group := 0 } =
        (state.tables unit).gContexts :=
      (congrArg (Function.update _ 0) (home _ zero)).trans (Function.update_eq_self 0 _)
    exact congrArg
      (fun contexts : Group → Context =>
        ({ state.tables unit with
          gContexts := contexts, m := (state.buf unit).getD (.new unit), c := 0 } : Decoder)) still
  | some place => rfl

end PtfConverter.OldVF48
