import PtfConverter.Model.UnpackVF48A

/-! # What one word does to the buffers of a unit

A word goes into the buffer of the current group, or finishes the block that waits there. Each kind
of word has one lemma, which says what becomes of the stream and what goes to `UnpackEvent`.
-/

namespace PtfConverter.VF48

/-- A word that neither switches the group nor starts or ends a block. -/
structure Inner (w : Word) : Prop where
  marker : tagOf w ≠ 0xF0000000
  header : tagOf w ≠ 0x80000000
  trailer : tagOf w ≠ 0xE0000000

/-- The words of a group that wait for a trailer. -/
def Stream.words (stream : Stream) (g : Group) : List Word := (stream.wbuf g).getD []

namespace Stream

variable {stream : Stream} {g : Group} {words : List Word}

theorem words_of_wbuf (buffer : stream.wbuf g = some words) : stream.words g = words := by
  rw [Stream.words, buffer, Option.getD_some]

/-- The stream behind a word that goes into the buffer of its group. -/
def filled (stream : Stream) (g : Group) (words : List Word) (wacc : Bool) : Stream :=
  { stream with
    wbuf := Function.update stream.wbuf g (some words)
    wacc := Function.update stream.wacc g wacc }

theorem filled_isSome (stream : Stream) (g : Group) (words : List Word) (wacc : Bool) :
    ((stream.filled g words wacc).wbuf g).isSome := by
  change (Function.update stream.wbuf g (some words) g).isSome
  rw [Function.update_self, Option.isSome_some]

theorem filled_words (stream : Stream) (g : Group) (words : List Word) (wacc : Bool) :
    (stream.filled g words wacc).words g = words :=
  words_of_wbuf (Function.update_self ..)

theorem filled_other (stream : Stream) {g h : Group} (ne : h ≠ g) (words : List Word) (wacc : Bool) :
    (stream.filled g words wacc).words h = stream.words h ∧
      (stream.filled g words wacc).wacc h = stream.wacc h := by
  refine ⟨?_, Function.update_of_ne ne ..⟩
  change (Function.update stream.wbuf g (some words) h).getD [] = stream.words h
  rw [Function.update_of_ne ne]
  rfl

section Kinds

variable (settings : Settings) (unit : UnitNo) (builder : Builder) {w : Word}

/-- A marker makes its group the current one. -/
theorem step_marker (marker : tagOf w = 0xF0000000) :
    step settings unit (stream, builder, g) w = do
      let (stream, grp) ← NewGroup { stream with wgrp := (w &&& 0x00000007#32).toNat }
      return (stream, builder, grp) := by
  simp only [step]
  rw [if_pos marker]

/-- A header behind less than two words is added to them. -/
theorem step_header (header : tagOf w = 0x80000000) (buffer : stream.wbuf g = some words)
    (few : ¬ 1 < words.length) :
    step settings unit (stream, builder, g) w =
      .ok (stream.filled g (words ++ [w]) true, builder, g) := by
  have marker : ¬ tagOf w = 0xF0000000 := by rw [header]; decide
  have pointer : ¬ 1 < stream.wptr g := by
    rw [wptr, buffer]
    exact few
  have room : words.length < wmaxWords := (Nat.le_of_not_lt few).trans_lt (by decide)
  simp only [step]
  rw [if_neg marker, if_pos header, if_neg pointer]
  simp only [pure_bind, append, setAcc, buffer, if_pos room, Except.ok_bind, filled]
  rfl

/-- A header behind two words or more hands them to `UnpackEvent`. -/
theorem step_restart (header : tagOf w = 0x80000000) (buffer : stream.wbuf g = some words)
    (several : 1 < words.length) :
    step settings unit (stream, builder, g) w = do
      let builder ← builder.UnpackEvent settings unit g words
      return (stream.filled g [w] true, builder, g) := by
  have marker : ¬ tagOf w = 0xF0000000 := by rw [header]; decide
  have pointer : 1 < stream.wptr g := by
    rw [wptr, buffer]
    exact several
  have room : ([] : List Word).length < wmaxWords := by decide
  simp only [step]
  rw [if_neg marker, if_pos header, if_pos pointer, buffer, Option.getD_some]
  rcases builder.UnpackEvent settings unit g words with fault | next
  · rfl
  · simp only [Except.ok_bind, pure_bind, append, clear, setAcc, buffer, Function.update_self,
      Option.map_some, if_pos room, Function.update_idem, List.nil_append, filled]

/-- A trailer hands the block to `UnpackEvent`. -/
theorem step_trailer (trailer : tagOf w = 0xE0000000) (buffer : stream.wbuf g = some words)
    (room : words.length < wmaxWords) :
    step settings unit (stream, builder, g) w = do
      let builder ← builder.UnpackEvent settings unit g (words ++ [w])
      return (stream.filled g [] false, builder, g) := by
  have marker : ¬ tagOf w = 0xF0000000 := by rw [trailer]; decide
  have header : ¬ tagOf w = 0x80000000 := by rw [trailer]; decide
  simp only [step]
  rw [if_neg marker, if_neg header, if_pos trailer]
  simp only [append, buffer, if_pos room, Except.ok_bind, Function.update_self, Option.getD_some,
    clear, setAcc, filled, Option.map_some, Function.update_idem]

/-- An accepted word that starts no block is only added to the buffer. -/
theorem step_inner (inner : Inner w) (buffer : stream.wbuf g = some words)
    (accepting : stream.wacc g = true) (room : words.length < wmaxWords) :
    step settings unit (stream, builder, g) w =
      .ok (stream.filled g (words ++ [w]) true, builder, g) := by
  have same : Function.update stream.wacc g true = stream.wacc := by
    rw [← accepting, Function.update_eq_self]
  simp only [step, if_neg inner.marker, if_neg inner.header, if_neg inner.trailer, accepting,
    if_true, append, buffer, if_pos room, Except.ok_bind, filled, same]
  rfl

/-- A word in front of a header is skipped. -/
theorem step_skipped (inner : Inner w) (waiting : stream.wacc g = false) :
    step settings unit (stream, builder, g) w = .ok (stream, builder, g) := by
  simp only [step, if_neg inner.marker, if_neg inner.header, if_neg inner.trailer, waiting,
    Bool.false_eq_true, if_false]

/-- A word that goes into a full buffer is written past its end. -/
theorem step_full (other : tagOf w ≠ 0xF0000000 ∧ tagOf w ≠ 0x80000000)
    (goes : tagOf w = 0xE0000000 ∨ stream.wacc g = true) (buffer : stream.wbuf g = some words)
    (full : ¬ words.length < wmaxWords) :
    step settings unit (stream, builder, g) w = .error (.wbuf words.length) := by
  simp only [step, if_neg other.1, if_neg other.2, append, buffer, if_neg full, Except.error_bind]
  split_ifs with trailer accepting
  · rfl
  · rfl
  · exact absurd goes (not_or.mpr ⟨trailer, accepting⟩)

end Kinds

/-- A current group has a buffer, and nothing else changes; the group accepts nothing when it is
new. -/
theorem NewGroup_of_lt (stream : Stream) (current : stream.wgrp = g.val) :
    ∃ next, stream.NewGroup = .ok (next, g) ∧ (next.wbuf g).isSome ∧ next.wgrp = stream.wgrp ∧
      (∀ h, next.words h = stream.words h) ∧
      (∀ h, next.wacc h = if h = g ∧ stream.wbuf h = none then false else stream.wacc h) ∧
      ∀ h, next.wbuf h = none → stream.wbuf h = none ∧ h ≠ g := by
  have inside : stream.wgrp < VF48_MAX_GROUPS := by rw [current]; exact g.isLt
  have place : (⟨stream.wgrp, inside⟩ : Group) = g := Fin.ext current
  simp only [NewGroup, dif_pos inside, place]
  cases buffer : stream.wbuf g with
  | some words =>
    refine ⟨stream, rfl, by
      rw [buffer]; rfl, rfl, fun h => rfl, fun h => ?_, fun h absent => ⟨absent, ?_⟩⟩
    · rw [if_neg]
      rintro ⟨rfl, absent⟩
      rw [buffer] at absent
      cases absent
    · rintro rfl
      rw [buffer] at absent
      cases absent
  | none =>
    obtain ⟨next, shape⟩ : ∃ next : Stream,
      next = ⟨stream.wgrp, Function.update stream.wbuf g (some []),
        Function.update stream.wacc g false⟩ := ⟨_, rfl⟩
    have buffers : next.wbuf = Function.update stream.wbuf g (some []) := by rw [shape]
    have accepts : next.wacc = Function.update stream.wacc g false := by rw [shape]
    refine ⟨next, by rw [shape]; rfl, ?_, by rw [shape], fun h => ?_, fun h => ?_, fun h absent => ?_⟩
    · rw [buffers, Function.update_self, Option.isSome_some]
    · obtain rfl | ne := eq_or_ne h g
      · rw [Stream.words, Stream.words, buffers, Function.update_self, buffer]
        rfl
      · rw [Stream.words, Stream.words, buffers, Function.update_of_ne ne]
    · obtain rfl | ne := eq_or_ne h g
      · rw [accepts, Function.update_self, if_pos ⟨rfl, buffer⟩]
      · rw [accepts, Function.update_of_ne ne, if_neg (fun both => ne both.1)]
    · rw [buffers] at absent
      obtain rfl | ne := eq_or_ne h g
      · rw [Function.update_self] at absent
        cases absent
      · rw [Function.update_of_ne ne] at absent
        exact ⟨absent, ne⟩

end Stream

end PtfConverter.VF48
