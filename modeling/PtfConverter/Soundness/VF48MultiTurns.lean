import PtfConverter.Soundness.VF48MultiCopies
import PtfConverter.Soundness.VF48MultiDrain

/-! # When a VF48 buffer drains without loss

A turn of the loop over the segments loses the words that it drops behind the cut: a padding word is
skipped, and two more words are overwritten where something is left. `Drainable` says of the
buffered segments that all the dropped words are padding. It is unfolded one turn at a time: a drain
without loss is a turn without loss in front of a drain without loss.
-/

namespace PtfConverter.VF48Multi

open MultiBuffer

variable {gDmaByteswap : Bool} {words : List Word} {segments : List (List Word)} {event : Event}

/-- Behind a trailer that ends an event: nothing, one padding word, or three of them and more. -/
def Gap (left : List Word) : Prop :=
  left = [] ∨ left = [pad] ∨ ∃ more, more ≠ [] ∧ left = pad :: pad :: pad :: more

/-- The last segment ends with a trailer and the padding behind it. -/
def EndsPadded (segments : List (List Word)) : Prop :=
  ∀ words ∈ segments.getLast?, ∃ w x, [w, x] <:+ words ∧ stops format w [x] ∧ isPadding x

/-- The segments lose nothing to the event banks but padding: there is a gap behind each trailer
that ends an event inside a segment, padding only between a trailer with event number 0 and the next
header, and no padding in the memory behind the last segment, unless that segment ends with the
padding behind a trailer. -/
structure Drainable (segments : List (List Word)) (behind : Word) : Prop where
  gap : ∀ words ∈ segments, ∀ w after, w :: after <:+ words → stops format w after → Gap after
  numbered : ∀ w after, w :: after <:+ segments.flatten → format.isTrailer w →
    format.trailerEventNo w = 0 → Quiet after
  last : isPadding behind → EndsPadded segments

/-- The same for the rest of a drain, which may begin without copying. -/
structure DrainsFrom (copy : Bool) (segments : List (List Word)) (behind : Word) : Prop
    extends Drainable segments behind where
  quiet : copy = false → Quiet segments.flatten

/-- The words that a turn drops behind the cut, and the segments that it leaves. -/
inductive Turn (segments : List (List Word)) :
    (left dropped : List Word) → List (List Word) → Prop where
  | whole : Turn segments [] [] segments
  | padded {x : Word} (padding : isPadding x) : Turn segments [x] [x] segments
  | overwritten {a b : Word} {more : List Word} (data : isPadding a = false) (some : more ≠ []) :
      Turn segments (a :: b :: more) [a, b] (more :: segments)
  | skipped {x a b : Word} {more : List Word} (padding : isPadding x) (some : more ≠ []) :
      Turn segments (x :: a :: b :: more) [x, a, b] (more :: segments)

namespace Turn

variable {left dropped : List Word} {rest : List (List Word)}

theorem flatten (turn : Turn segments left dropped rest) :
    left ++ segments.flatten = dropped ++ rest.flatten := by
  cases turn with
  | whole | padded => rfl
  | overwritten | skipped => rw [List.flatten_cons]; rfl

theorem gap_iff (turn : Turn segments left dropped rest) : Gap left ↔ ∀ w ∈ dropped, w = pad := by
  cases turn with
  | whole => exact iff_of_true (.inl rfl) fun w member => absurd member List.not_mem_nil
  | @padded x padding =>
    constructor
    · rintro (none | one | ⟨more, _, three⟩)
      · cases none
      · exact List.forall_mem_singleton.mpr (List.cons.inj one).1
      · cases three
    · intro pads
      obtain rfl : x = pad := pads x List.mem_cons_self
      exact .inr (.inl rfl)
  | @overwritten a b more data some =>
    have other : a ≠ pad := by
      rintro rfl
      exact absurd data (by decide)
    constructor
    · rintro (none | one | ⟨more, _, three⟩)
      · cases none
      · exact absurd (List.cons.inj one).1 other
      · exact absurd (List.cons.inj three).1 other
    · exact fun pads => absurd (pads a List.mem_cons_self) other
  | @skipped x a b more padding some =>
    constructor
    · rintro (none | one | ⟨more, _, three⟩)
      · cases none
      · cases one
      · simp only [List.cons.injEq] at three
        simp only [List.forall_mem_cons, three, List.not_mem_nil, false_implies, implies_true, and_self]
    · intro pads
      simp only [List.forall_mem_cons] at pads
      obtain ⟨rfl, rfl, rfl, _⟩ := pads
      exact .inr (.inr ⟨more, some, rfl⟩)

/-- What is left apart from the dropped words is the next segment. -/
theorem split (turn : Turn segments left dropped rest) :
    ∃ more, left = dropped ++ more ∧
      (more = [] ∧ dropped.length ≤ 1 ∧ rest = segments ∨ more ≠ [] ∧ 2 ≤ dropped.length ∧
        rest = more :: segments) := by
  cases turn with
  | whole => exact ⟨[], rfl, .inl ⟨rfl, Nat.zero_le 1, rfl⟩⟩
  | @padded x padding => exact ⟨[], rfl, .inl ⟨rfl, Nat.le_refl 1, rfl⟩⟩
  | overwritten data some => exact ⟨_, rfl, .inr ⟨some, Nat.le_refl 2, rfl⟩⟩
  | skipped padding some => exact ⟨_, rfl, .inr ⟨some, Nat.le_succ 2, rfl⟩⟩

end Turn

/-- A trailer is not among padding words. -/
theorem suffix_of_pads {pads words after : List Word} {w : Word} (padding : ∀ x ∈ pads, x = pad)
    (trailer : format.isTrailer w) (suffix : w :: after <:+ pads ++ words) : w :: after <:+ words := by
  induction pads with
  | nil => exact suffix
  | cons x pads ih =>
    obtain ⟨first, later⟩ := List.forall_mem_cons.mp padding
    rcases List.suffix_cons_iff.mp suffix with same | behind
    · obtain rfl := (List.cons.inj same).1.trans first
      exact absurd trailer (by decide)
    · exact ih later behind

/-- A suffix that starts in the first of two lists. -/
theorem suffix_append_cases {first second after : List Word} {w : Word}
    (suffix : w :: after <:+ first ++ second) :
    w :: after <:+ second ∨ ∃ rest, w :: rest <:+ first ∧ after = rest ++ second := by
  induction first with
  | nil => exact .inl suffix
  | cons x first ih =>
    rcases List.suffix_cons_iff.mp suffix with same | behind
    · obtain ⟨rfl, rfl⟩ := List.cons.inj same
      exact .inr ⟨first, List.suffix_refl _, rfl⟩
    · rcases ih behind with second | ⟨rest, inside, split⟩
      · exact .inl second
      · exact .inr ⟨rest, inside.trans (List.suffix_cons x first), split⟩

section Step

variable {dropped : List Word} {rest : List (List Word)} {behind : Word} {copy : Bool}

/-- Behind a trailer in front of the cut, with its number 0. -/
theorem quiet_of_taken {after : List Word} {w : Word} (suffix : w :: after <:+ (cut format words).1)
    (trailer : format.isTrailer w) (others : List Word)
    (quiet : ∀ front, (cut format words).1 = front ++ [w] → Quiet ((cut format words).2 ++ others)) :
    Quiet (after ++ ((cut format words).2 ++ others)) := by
  have inside : w :: (after ++ (cut format words).2) <:+ words := by
    obtain ⟨before, split⟩ := suffix
    refine ⟨before, ?_⟩
    conv_rhs => rw [← @cut_append format words, ← split, List.append_assoc]
    rfl
  cases ends : stops format w (after ++ (cut format words).2) with
  | true =>
    rcases stops_suffix inside ends with ⟨front, taken, left⟩ | later
    · have nothing : after = [] := List.append_left_eq_self.mp left.symm
      rw [nothing]
      exact quiet front taken
    · have short := later.length_le
      rw [List.length_cons, List.length_append] at short
      omega
  | false =>
    have header := head_isHeader trailer ends
    rw [← List.append_assoc]
    cases split : after ++ (cut format words).2 with
    | nil =>
      rw [split] at header
      cases header
    | cons ww more =>
      rw [split] at header
      exact (quiet_cons ww (more ++ others)).mpr (.inl header)

theorem endsPadded_cons (words : List Word) {others : List (List Word)} (some : others ≠ []) :
    EndsPadded (words :: others) ↔ EndsPadded others := by
  cases others with
  | nil => exact absurd rfl some
  | cons other others => rw [EndsPadded, EndsPadded, List.getLast?_cons_cons]

theorem suffix_left (words : List Word) : (cut format words).2 <:+ words :=
  ⟨(cut format words).1, cut_append words⟩

theorem gap_left (gap : ∀ w after, w :: after <:+ words → stops format w after → Gap after) :
    Gap (cut format words).2 := by
  by_cases more : (cut format words).2 = []
  · exact .inl more
  · obtain ⟨front, w, taken, ends⟩ := exists_stops_of_left more
    exact gap w _ (suffix_of_taken taken) ends

theorem flatten_turn (turn : Turn segments (cut format words).2 dropped rest) :
    (words :: segments).flatten = (cut format words).1 ++ (dropped ++ rest.flatten) := by
  rw [List.flatten_cons, ← turn.flatten, ← List.append_assoc, cut_append]

theorem EndsPadded.step (ends : EndsPadded (words :: segments))
    (turn : Turn segments (cut format words).2 dropped rest) (pads : ∀ w ∈ dropped, w = pad) :
    EndsPadded rest := by
  obtain ⟨more, left, ⟨_, _, rfl⟩ | ⟨some, two, rfl⟩⟩ := turn.split
  · by_cases none : rest = []
    · rw [none]
      exact fun words member => absurd member (Option.not_mem_none _)
    · exact (endsPadded_cons words none).mp ends
  · by_cases none : segments = []
    · subst none
      intro segment member
      obtain rfl := Option.some.inj member
      obtain ⟨w, x, suffix, stop, isPad⟩ := ends words rfl
      refine ⟨w, x, ?_, stop, isPad⟩
      rcases stops_suffix suffix stop with ⟨_, _, single⟩ | later
      · have length := congrArg List.length (left.symm.trans single)
        rw [List.length_append, List.length_singleton] at length
        omega
      · rw [left] at later
        exact suffix_of_pads pads (isTrailer_of_stops stop) later
    · exact (endsPadded_cons _ none).mpr ((endsPadded_cons words none).mp ends)

/-- A turn that drops all of the last segment drops a padding word behind its trailer. -/
theorem EndsPadded.of_step (ends : EndsPadded rest)
    (turn : Turn segments (cut format words).2 dropped rest) (pads : ∀ w ∈ dropped, w = pad)
    (goesOn : (cut format words).2 = [] → segments ≠ []) :
    EndsPadded (words :: segments) := by
  obtain ⟨more, left, ⟨nothing, one, rfl⟩ | ⟨some, _, rfl⟩⟩ := turn.split
  · by_cases none : rest = []
    · intro segment member
      rw [none] at member
      obtain rfl := Option.some.inj member
      cases left_split : dropped with
      | nil =>
        rw [left_split, nothing] at left
        exact absurd none (goesOn left)
      | cons x others =>
        rw [left_split, List.length_cons] at one
        obtain rfl : others = [] := List.length_eq_zero_iff.mp (by omega)
        rw [left_split, nothing, List.append_nil] at left
        obtain ⟨front, w, taken, stop⟩ := exists_stops_of_left (left ▸ List.cons_ne_nil x [])
        have suffix := suffix_of_taken taken
        rw [left] at stop suffix
        obtain rfl : x = pad := pads x (left_split ▸ List.mem_cons_self)
        exact ⟨w, pad, suffix, stop, rfl⟩
    · exact (endsPadded_cons words none).mpr ends
  · by_cases none : segments = []
    · subst none
      intro segment member
      obtain rfl := Option.some.inj member
      obtain ⟨w, x, suffix, rest⟩ := ends more rfl
      refine ⟨w, x, suffix.trans (List.IsSuffix.trans ?_ (suffix_left words)), rest⟩
      rw [left]
      exact List.suffix_append dropped more
    · exact (endsPadded_cons words none).mpr ((endsPadded_cons more none).mp ends)

/-- A drain without loss has a turn without loss, and goes on so. -/
theorem DrainsFrom.step (drains : DrainsFrom event.copy (words :: segments) behind)
    (turn : Turn segments (cut format words).2 dropped rest) (unseen : event.trailerEventNo ≤ 0) :
    (event.copy = false → Quiet (cut format words).1) ∧ (∀ w ∈ dropped, w = pad) ∧
      DrainsFrom (resumed ((cut format words).1.foldl (Event.word format) event)) rest behind := by
  have gap := drains.gap words List.mem_cons_self
  have pads := turn.gap_iff.mp (gap_left gap)
  have whole := flatten_turn turn
  obtain ⟨more, left, left_cases⟩ := turn.split
  have suffix_more : more <:+ words := by
    refine List.IsSuffix.trans ?_ (suffix_left words)
    rw [left]
    exact List.suffix_append dropped more
  refine ⟨fun idle => ?_, pads, ⟨⟨?_, ?_, fun padding => (drains.last padding).step turn pads⟩, ?_⟩⟩
  · have quiet := drains.quiet idle
    rw [whole, quiet_append] at quiet
    exact quiet.1
  · intro segment member w after suffix ends
    rcases left_cases with ⟨_, _, rfl⟩ | ⟨_, _, rfl⟩
    · exact drains.gap segment (List.mem_cons_of_mem _ member) w after suffix ends
    · rcases List.mem_cons.mp member with rfl | member
      · exact gap w after (suffix.trans suffix_more) ends
      · exact drains.gap segment (List.mem_cons_of_mem _ member) w after suffix ends
  · intro w after suffix
    refine drains.numbered w after (suffix.trans ?_)
    rw [whole]
    exact (List.suffix_append _ _).trans (List.suffix_append _ _)
  · intro stopped
    rcases stops_or_goesOn words with ⟨front, w, taken, ends⟩ | ⟨all, goesOn⟩
    · rw [taken, resumed_foldl_of_stops ends, decide_eq_false_iff_not, Nat.not_lt,
        Nat.le_zero] at stopped
      have suffix : w :: (dropped ++ rest.flatten) <:+ (words :: segments).flatten := by
        rw [whole, taken, List.append_assoc]
        exact List.suffix_append front _
      have quiet := drains.numbered w _ suffix (isTrailer_of_stops ends) stopped
      exact (quiet_of_pads pads _).mp quiet
    · rw [all, resumed_foldl_of_goesOn goesOn unseen, Bool.or_eq_false_iff] at stopped
      have quiet := drains.quiet stopped.1
      rw [whole, all, quiet_append] at quiet
      exact (quiet_of_pads pads _).mp (quiet.2 stopped.2)

/-- Behind a trailer with event number 0 that a turn copies, nothing is copied until the next
header. -/
theorem DrainsFrom.quiet_of_numbered
    (drains : DrainsFrom
      (resumed ((cut format words).1.foldl (Event.word format) event)) rest behind)
    (turn : Turn segments (cut format words).2 dropped rest) (pads : ∀ w ∈ dropped, w = pad)
    {w : Word} {between : List Word} (taken : w :: between <:+ (cut format words).1)
    (trailer : format.isTrailer w) (zero : format.trailerEventNo w = 0) :
    Quiet (between ++ (dropped ++ rest.flatten)) := by
  rw [← turn.flatten]
  refine quiet_of_taken taken trailer segments.flatten fun front split => ?_
  rw [turn.flatten, quiet_of_pads pads]
  apply drains.quiet
  rcases stops_or_goesOn words with ⟨front', w', taken', ends⟩ | ⟨all, goesOn⟩
  · obtain ⟨_, same⟩ := List.append_inj' (split.symm.trans taken') rfl
    obtain rfl := (List.cons.inj same).1
    rw [taken', resumed_foldl_of_stops ends, zero]
    rfl
  · -- a trailer at the end of a segment always ends the loop
    rw [all] at split
    have last := goesOn w [] ⟨front, split.symm⟩
    rw [stops, trailer] at last
    cases last

/-- A turn without loss in front of a drain without loss. -/
theorem DrainsFrom.of_step (turn : Turn segments (cut format words).2 dropped rest)
    (unseen : event.trailerEventNo ≤ 0)
    (inside : (cut format words).2 = [] → segments = [] → isPadding behind = false)
    (copied : event.copy = false → Quiet (cut format words).1) (pads : ∀ w ∈ dropped, w = pad)
    (drains : DrainsFrom
      (resumed ((cut format words).1.foldl (Event.word format) event)) rest behind) :
    DrainsFrom event.copy (words :: segments) behind := by
  have whole := flatten_turn turn
  have gap := turn.gap_iff.mpr pads
  obtain ⟨more, left, left_cases⟩ := turn.split
  refine ⟨⟨?_, ?_, fun padding => (drains.last padding).of_step turn pads fun nothing none => ?_⟩, ?_⟩
  · intro segment member w after suffix ends
    rcases List.mem_cons.mp member with rfl | member
    · rcases stops_suffix suffix ends with ⟨_, _, same⟩ | later
      · exact same ▸ gap
      · rw [left] at later
        have later := suffix_of_pads pads (isTrailer_of_stops ends) later
        rcases left_cases with ⟨rfl, _, _⟩ | ⟨_, _, rfl⟩
        · exact absurd later not_suffix_nil
        · exact drains.gap more List.mem_cons_self w after later ends
    · refine drains.gap segment ?_ w after suffix ends
      rcases left_cases with ⟨_, _, rfl⟩ | ⟨_, _, rfl⟩
      · exact member
      · exact List.mem_cons_of_mem _ member
  · intro w after suffix trailer zero
    rw [whole] at suffix
    rcases suffix_append_cases suffix with later | ⟨between, taken, rfl⟩
    · exact drains.numbered w after (suffix_of_pads pads trailer later) trailer zero
    · exact drains.quiet_of_numbered turn pads taken trailer zero
  · exact absurd padding (ne_true_of_eq_false (inside nothing none))
  · intro idle
    rw [whole, quiet_append]
    refine ⟨copied idle, fun headerless => (quiet_of_pads pads _).mpr (drains.quiet ?_)⟩
    rcases stops_or_goesOn words with ⟨front, w, taken, ends⟩ | ⟨all, goesOn⟩
    · -- without a header the trailer would have to be padding
      have padding := pads_of_quiet headerless (copied idle) w
      rw [taken] at padding
      obtain rfl := padding (List.mem_append_right _ List.mem_cons_self)
      exact absurd (isTrailer_of_stops ends) (by decide)
    · rw [all] at headerless
      rw [all, resumed_foldl_of_goesOn goesOn unseen, idle, headerless]
      rfl

end Step

variable {behind : ℕ → Word}

theorem rewritten_eq_holding (a b : Word) (more : List Word) :
    ((RingBuffer.prepend ((a :: b :: more).map (order gDmaByteswap))
        (holding gDmaByteswap segments behind)).set 0
        magic).set 1 (BitVec.ofInt 32 (4 * ((a :: b :: more).length : ℤ) - 8)) =
      holding gDmaByteswap (more :: segments) behind := by
  have size : 4 * ((a :: b :: more).length : ℤ) - 8 = ((4 * more.length : ℕ) : ℤ) := by
    rw [List.length_cons, List.length_cons]
    omega
  rw [size, BitVec.ofInt_natCast]
  exact RingBuffer.set_two _ _ _ _ _ _

/-- One or two words are too few for a segment. -/
theorem bytes_of_short {kept : List Word} (some : kept ≠ []) (short : kept.length ≤ 2) (ring : Ring) :
    (((RingBuffer.prepend (kept.map (order gDmaByteswap)) ring).set 0 magic).set 1
        (BitVec.ofInt 32 (4 * (kept.length : ℤ) - 8))).pending ≠ [] ∧
      ((((RingBuffer.prepend (kept.map (order gDmaByteswap)) ring).set 0 magic).set 1
        (BitVec.ofInt 32 (4 * (kept.length : ℤ) - 8))).get 1 = 0#32 ∨
      rb_size ≤ ((((RingBuffer.prepend (kept.map (order gDmaByteswap)) ring).set 0 magic).set 1
        (BitVec.ofInt 32 (4 * (kept.length : ℤ) - 8))).get 1).toNat) := by
  rw [RingBuffer.get_set_self]
  constructor
  · apply List.ne_nil_of_length_pos
    rw [RingBuffer.length_set, RingBuffer.length_set, RingBuffer.prepend, List.length_append,
      List.length_map]
    exact Nat.add_pos_left (List.length_pos_iff.mpr some) _
  · have positive := List.length_pos_iff.mpr some
    obtain one | two : kept.length = 1 ∨ kept.length = 2 := by omega
    · rw [one]
      exact .inr (by decide)
    · rw [two]
      exact .inl rfl

theorem exists_cons_three {left : List Word} (long : ¬left.length ≤ 2) :
    ∃ a b c more, left = a :: b :: c :: more := by
  rcases left with _ | ⟨a, _ | ⟨b, _ | ⟨c, more⟩⟩⟩
  · exact absurd (Nat.zero_le 2) long
  · exact absurd (Nat.le_succ 1) long
  · exact absurd (Nat.le_refl 2) long
  · exact ⟨a, b, c, more, rfl⟩

/-- What is left of a segment is dropped, or too short for a header with data, or the next segment. -/
theorem kept_cases (segments : List (List Word)) (left : List Word) :
    (kept left = [] ∧ Turn segments left left segments) ∨
      (kept left ≠ [] ∧ (kept left).length ≤ 2 ∧ ¬Gap left) ∨
      ∃ dropped a b more, kept left = a :: b :: more ∧ more ≠ [] ∧
        Turn segments left dropped (more :: segments) := by
  have gap_length : Gap left → kept left = [] ∨ 3 ≤ (kept left).length := by
    rintro (rfl | rfl | ⟨more, some, rfl⟩)
    · exact .inl rfl
    · exact .inl rfl
    · have positive := List.length_pos_iff.mpr some
      right
      change 3 ≤ more.length + 2
      omega
  by_cases none : kept left = []
  · refine .inl ⟨none, ?_⟩
    cases left with
    | nil => exact .whole
    | cons x after =>
      cases padding : isPadding x with
      | true =>
        have nothing : after = [] := by
          rwa [kept, skipped, List.head?_cons, Option.any_some, if_pos padding] at none
        rw [nothing]
        exact .padded padding
      | false =>
        rw [kept, skipped, List.head?_cons, Option.any_some, padding] at none
        cases none
  · by_cases short : (kept left).length ≤ 2
    · refine .inr (.inl ⟨none, short, fun gap => ?_⟩)
      rcases gap_length gap with nothing | long
      · exact none nothing
      · omega
    · refine .inr (.inr ?_)
      cases left with
      | nil => exact absurd rfl none
      | cons x after =>
        cases padding : isPadding x with
        | true =>
          have behindPad : kept (x :: after) = after := by
            rw [kept, skipped, List.head?_cons, Option.any_some, if_pos padding]
            rfl
          rw [behindPad] at short ⊢
          obtain ⟨a, b, c, more, rfl⟩ := exists_cons_three short
          exact ⟨_, a, b, c :: more, rfl, List.cons_ne_nil _ _, .skipped padding (List.cons_ne_nil _ _)⟩
        | false =>
          have all : kept (x :: after) = x :: after := by
            rw [kept, skipped, List.head?_cons, Option.any_some, padding]
            rfl
          rw [all] at short ⊢
          obtain ⟨a, b, c, more, split⟩ := exists_cons_three short
          obtain ⟨rfl, rfl⟩ := List.cons.inj split
          exact ⟨_, x, b, c :: more, rfl, List.cons_ne_nil _ _,
            .overwritten padding (List.cons_ne_nil _ _)⟩

end PtfConverter.VF48Multi
