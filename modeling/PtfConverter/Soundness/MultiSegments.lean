import PtfConverter.Model.MultiBuffer
import Mathlib.Tactic.IntervalCases
import Mathlib.Data.List.Infix
import Mathlib.Tactic.SplitIfs
import Mathlib.Tactic.Conv

/-! # Where a call for one event leaves a segment

The loop over a segment's words ends behind the first trailer that no duplicate header follows, or
with the segment. `cut` takes a list of words apart there. What is in front of the cut is what the
call consumes; the two readouts differ in what they do about the rest.
-/

namespace PtfConverter.MultiBuffer

/-- A byte swap moves each bit with its byte. -/
theorem getLsbD_be2cpu (w : Word) {i : ℕ} (inside : i < 32) :
    (be2cpu w).getLsbD i = w.getLsbD (24 - i / 8 * 8 + i % 8) := by
  interval_cases i <;> simp [be2cpu]

theorem be2cpu_be2cpu (w : Word) : be2cpu (be2cpu w) = w := by
  apply BitVec.eq_of_getLsbD_eq
  intro i inside
  have twice : 24 - (24 - i / 8 * 8 + i % 8) / 8 * 8 + (24 - i / 8 * 8 + i % 8) % 8 = i := by omega
  rw [getLsbD_be2cpu _ inside, getLsbD_be2cpu _ (by omega), twice]

theorem order_order (gDmaByteswap : Bool) (w : Word) :
    order gDmaByteswap (order gDmaByteswap w) = w := by
  cases gDmaByteswap with
  | false => rfl
  | true => exact be2cpu_be2cpu w

theorem map_order_order (gDmaByteswap : Bool) (words : List Word) :
    (words.map (order gDmaByteswap)).map (order gDmaByteswap) = words := by
  rw [List.map_map]
  exact (List.map_congr_left fun w _ => order_order gDmaByteswap w).trans (List.map_id' words)

variable (gDmaByteswap : Bool)

/-- The words of a segment whose data are read as `words`. -/
def encode (words : List Word) : List Word :=
  magic :: BitVec.ofNat 32 (4 * words.length) :: words.map (order gDmaByteswap)

/-- A buffer whose read pointer is at the header of the first of some segments. -/
def holding (segments : List (List Word)) (behind : ℕ → Word) : Ring :=
  ⟨segments.flatMap (encode gDmaByteswap), behind⟩

variable {gDmaByteswap} {words left : List Word} {segments : List (List Word)} {behind : ℕ → Word}

variable (gDmaByteswap) in
/-- A segment's data as they go into a bank. -/
def Segment.read (segment : Segment) : List Word := segment.data.map (order gDmaByteswap)

theorem Segment.read_ne_nil (segment : Segment) : segment.read gDmaByteswap ≠ [] :=
  fun empty => segment.positive (List.map_eq_nil_iff.mp empty)

theorem Segment.read_fits (segment : Segment) :
    4 * (segment.read gDmaByteswap).length + 8 ≤ rb_size := by
  rw [Segment.read, List.length_map]
  exact segment.fits

theorem Segment.encode_read (segment : Segment) :
    encode gDmaByteswap (segment.read gDmaByteswap) = segment.words := by
  rw [encode, Segment.read, map_order_order, List.length_map]
  rfl

/-- Pushed segments are what a buffer holds. -/
theorem holding_read (segments : List Segment) :
    holding gDmaByteswap (segments.map (Segment.read gDmaByteswap)) behind =
      ⟨segments.flatMap Segment.words, behind⟩ := by
  rw [holding, List.flatMap_map]
  exact congrArg (RingBuffer.mk · behind) (List.flatMap_congr fun segment _ => segment.encode_read)

theorem length_encode (words : List Word) : (encode gDmaByteswap words).length = words.length + 2 := by
  rw [encode, List.length_cons, List.length_cons, List.length_map]

theorem holding_cons (words : List Word) (segments : List (List Word)) :
    holding gDmaByteswap (words :: segments) behind =
      .prepend (encode gDmaByteswap words) (holding gDmaByteswap segments behind) := rfl

theorem get_magic : (holding gDmaByteswap (words :: segments) behind).get 0 = magic := rfl

theorem get_size :
    (holding gDmaByteswap (words :: segments) behind).get 1 = BitVec.ofNat 32 (4 * words.length) := rfl

/-- The data words of the first segment. -/
theorem get_data {i : ℕ} (inside : i < words.length) :
    (holding gDmaByteswap (words :: segments) behind).get (2 + i) = order gDmaByteswap words[i] := by
  have encoded : 2 + i < (encode gDmaByteswap words).length := by
    rw [length_encode]
    omega
  rw [holding_cons, RingBuffer.get_prepend_of_lt encoded]
  simp only [encode, Nat.add_comm 2 i, List.getElem_cons_succ, List.getElem_map]

/-- The word behind the first segment. -/
theorem get_next :
    (holding gDmaByteswap (words :: segments) behind).get (2 + words.length) =
      (holding gDmaByteswap segments behind).get 0 := by
  rw [holding_cons, Nat.add_comm, ← @length_encode gDmaByteswap]
  exact RingBuffer.get_prepend_add 0

/-- The words of segments tell the segments. -/
theorem flatMap_words_injective :
    Function.Injective fun segments : List Segment => segments.flatMap Segment.words := by
  intro segments others same
  induction segments generalizing others with
  | nil =>
    cases others with
    | nil => rfl
    | cons other others => cases same
  | cons segment segments ih =>
    cases others with
    | nil => cases same
    | cons other others =>
      obtain ⟨-, size, words⟩ := List.cons_eq_cons.mp same |>.imp_right List.cons_eq_cons.mp
      have fits := segment.fits
      have other_fits := other.fits
      rw [rb_size] at fits other_fits
      have numbers := congrArg BitVec.toNat size
      rw [BitVec.toNat_ofNat, BitVec.toNat_ofNat, Nat.mod_eq_of_lt (by omega),
        Nat.mod_eq_of_lt (by omega)] at numbers
      obtain ⟨data, rest⟩ := List.append_inj words (by omega)
      obtain ⟨_, _, _⟩ := segment
      obtain ⟨_, _, _⟩ := other
      subst data
      rw [ih rest]

/-- There are fewer segments than words. -/
theorem length_le_words (segments : List Segment) :
    segments.length ≤ (segments.flatMap Segment.words).length := by
  induction segments with
  | nil => exact Nat.le_refl _
  | cons segment segments ih =>
    rw [List.flatMap_cons, List.length_append, List.length_cons, Nat.add_comm segments.length 1]
    exact Nat.add_le_add (Nat.succ_pos _) ih

variable (format : Format)

/-- A trailer with these words behind it ends the loop. -/
def stops (w : Word) (after : List Word) : Bool :=
  format.isTrailer w && !after.head?.any (format.duplicate w)

/-- A segment's words up to where the loop over them ends, and the others. -/
def cut : List Word → List Word × List Word
  | [] => ([], [])
  | w :: after => if stops format w after then ([w], after) else (w :: (cut after).1, (cut after).2)

variable {format} {w : Word} {after : List Word}

theorem isTrailer_of_stops (ends : stops format w after) : format.isTrailer w :=
  (Bool.and_eq_true_iff.mp ends).1

theorem not_suffix_nil : ¬w :: after <:+ [] :=
  fun suffix => List.cons_ne_nil w after (List.suffix_nil.mp suffix)

theorem cut_cons_of_stops (ends : stops format w after) : cut format (w :: after) = ([w], after) :=
  if_pos ends

theorem cut_cons_of_not_stops (goesOn : stops format w after = false) :
    cut format (w :: after) = (w :: (cut format after).1, (cut format after).2) := by
  rw [cut, goesOn]
  rfl

theorem cut_append (words : List Word) : (cut format words).1 ++ (cut format words).2 = words := by
  induction words with
  | nil => rfl
  | cons w after ih =>
    cases ends : stops format w after with
    | true => rw [cut_cons_of_stops ends, List.singleton_append]
    | false => rw [cut_cons_of_not_stops ends, List.cons_append, ih]

theorem cut_ne_nil (some : words ≠ []) : (cut format words).1 ≠ [] := by
  cases words with
  | nil => exact absurd rfl some
  | cons w after =>
    cases ends : stops format w after with
    | true => rw [cut_cons_of_stops ends]; exact List.cons_ne_nil _ _
    | false => rw [cut_cons_of_not_stops ends]; exact List.cons_ne_nil _ _

theorem suffix_of_taken {front : List Word} (taken : (cut format words).1 = front ++ [w]) :
    w :: (cut format words).2 <:+ words := by
  refine ⟨front, ?_⟩
  calc front ++ w :: (cut format words).2 = front ++ [w] ++ (cut format words).2 :=
    List.append_cons _ _ _
    _ = words := by rw [← taken, cut_append]

/-- Where something is left, the loop ended at a trailer. -/
theorem exists_stops_of_left (more : (cut format words).2 ≠ []) :
    ∃ front w, (cut format words).1 = front ++ [w] ∧ stops format w (cut format words).2 := by
  induction words with
  | nil => exact absurd rfl more
  | cons w after ih =>
    cases ends : stops format w after with
    | true =>
      rw [cut_cons_of_stops ends]
      exact ⟨[], w, rfl, ends⟩
    | false =>
      rw [cut_cons_of_not_stops ends] at more ⊢
      obtain ⟨front, last, split, stopped⟩ := ih more
      exact ⟨w :: front, last, congrArg (w :: ·) split, stopped⟩

/-- A trailer that can end the loop is where it ended, or behind. -/
theorem stops_suffix (suffix : w :: after <:+ words) (ends : stops format w after) :
    (∃ front, (cut format words).1 = front ++ [w] ∧ (cut format words).2 = after) ∨
      w :: after <:+ (cut format words).2 := by
  induction words with
  | nil => exact absurd suffix not_suffix_nil
  | cons first rest ih =>
    rcases List.suffix_cons_iff.mp suffix with same | later
    · obtain ⟨rfl, rfl⟩ := List.cons.inj same
      rw [cut_cons_of_stops ends]
      exact .inl ⟨[], rfl, rfl⟩
    · cases first_ends : stops format first rest with
      | true =>
        rw [cut_cons_of_stops first_ends]
        exact .inr later
      | false =>
        rw [cut_cons_of_not_stops first_ends]
        rcases ih later with ⟨front, taken, left⟩ | behind
        · exact .inl ⟨first :: front, congrArg (first :: ·) taken, left⟩
        · exact .inr behind

/-- A trailer that does not end the loop is in front of a header. -/
theorem head_isHeader (trailer : format.isTrailer w) (goesOn : stops format w after = false) :
    after.head?.any format.isHeader := by
  rw [stops, trailer, Bool.true_and, Bool.not_eq_false'] at goesOn
  cases after with
  | nil => cases goesOn
  | cons ww more => exact (Bool.and_eq_true_iff.mp goesOn).1

variable (format) in
/-- Nothing in a segment ends the loop. -/
def GoesOn (words : List Word) : Prop := ∀ w after, w :: after <:+ words → stops format w after = false

theorem GoesOn.tail (goesOn : GoesOn format (w :: after)) : GoesOn format after :=
  fun v rest suffix => goesOn v rest (suffix.trans (List.suffix_cons w after))

/-- Nothing is left of words in which every trailer that ends the loop is the last word. -/
theorem cut_of_ends_last (last : ∀ w after, w :: after <:+ words → stops format w after → after = []) :
    cut format words = (words, []) := by
  have nothing : (cut format words).2 = [] := by
    by_contra more
    obtain ⟨front, w, taken, ends⟩ := exists_stops_of_left more
    exact more (last w _ (suffix_of_taken taken) ends)
  have whole := @cut_append format words
  rw [nothing, List.append_nil] at whole
  exact Prod.ext whole nothing

/-- A cut is behind a trailer, or nothing ends the loop. -/
theorem stops_or_goesOn (words : List Word) :
    (∃ front w, (cut format words).1 = front ++ [w] ∧ stops format w (cut format words).2) ∨
      cut format words = (words, []) ∧ GoesOn format words := by
  by_cases goesOn : GoesOn format words
  · exact .inr ⟨cut_of_ends_last fun w after suffix ends =>
      absurd (goesOn w after suffix) (ne_false_of_eq_true ends), goesOn⟩
  · simp only [GoesOn, not_forall, Bool.not_eq_false] at goesOn
    obtain ⟨w, after, suffix, ends⟩ := goesOn
    rcases stops_suffix suffix ends with ⟨front, taken, left⟩ | behind
    · exact .inl ⟨front, w, taken, left ▸ ends⟩
    · refine .inl (exists_stops_of_left fun nothing => ?_)
      rw [nothing] at behind
      exact absurd behind not_suffix_nil

/-- The loop handles the words up to the cut, whatever memory holds behind the segment. -/
theorem copyLoop_cut {src32 : ℕ → Word} {j : ℕ} (event : Event)
    (reads : ∀ i (inside : i < words.length), order gDmaByteswap (src32 (j + i)) = words[i]) :
    copyLoop format gDmaByteswap src32 words.length j event =
      ((cut format words).1.foldl (Event.word format) event, j + (cut format words).1.length) := by
  induction words generalizing j event with
  | nil => rfl
  | cons w after ih =>
    have first : order gDmaByteswap (src32 j) = w := reads 0 (Nat.succ_pos _)
    have later := ih (j := j + 1) (event.word format w) fun i inside => by
      have position : j + 1 + i = j + (i + 1) := Nat.add_right_comm j 1 i
      exact position ▸ reads (i + 1) (Nat.succ_lt_succ inside)
    rw [List.length_cons, copyLoop, first]
    cases after with
    | nil =>
      have single : cut format [w] = ([w], []) := by
        rw [cut]
        split <;> rfl
      rw [single]
      split <;> rfl
    | cons ww more =>
      have next : order gDmaByteswap (src32 (j + 1)) = ww := reads 1 (Nat.succ_lt_succ (Nat.succ_pos _))
      rw [next]
      cases ends : stops format w (ww :: more) with
      | true =>
        rw [cut_cons_of_stops ends]
        exact if_pos ends
      | false =>
        rw [cut_cons_of_not_stops ends]
        have goesOn : (format.isTrailer w && !format.duplicate w ww) = false := ends
        rw [goesOn, if_neg Bool.false_ne_true]
        exact later.trans (congrArg (Prod.mk _) (Nat.add_right_comm j 1 _))

theorem copyLoop_holding (event : Event) :
    copyLoop format gDmaByteswap
        (fun j => (holding gDmaByteswap (words :: segments) behind).get (2 + j))
        words.length 0 event =
      ((cut format words).1.foldl (Event.word format) event, (cut format words).1.length) := by
  refine (copyLoop_cut event fun i inside => ?_).trans (congrArg (Prod.mk _) (Nat.zero_add _))
  rw [Nat.zero_add, get_data inside, order_order]

theorem trailerEventNo_word (event : Event) (w : Word) :
    (event.word format w).trailerEventNo =
      if format.isTrailer w then (format.trailerEventNo w : ℤ) else event.trailerEventNo := by
  rw [Event.word]
  split_ifs <;> rfl

theorem copy_word (event : Event) (w : Word) :
    (event.word format w).copy = ((event.copy || format.isHeader w) && !format.isTrailer w) := by
  rw [Event.word]
  cases format.isHeader w <;> cases format.isTrailer w <;> cases copying : event.copy <;> simp [copying]

theorem bank_word (event : Event) (w : Word) :
    (event.word format w).bank = if event.copy || format.isHeader w then
      event.bank ++ [w] else event.bank := by
  rw [Event.word]
  cases format.isHeader w <;> cases format.isTrailer w <;> cases copying : event.copy <;> simp [copying]

theorem sizes_word (event : Event) (w : Word) : (event.word format w).sizes = event.sizes := by
  rw [Event.word]
  split_ifs <;> rfl

theorem sizes_foldl (event : Event) (words : List Word) :
    (words.foldl (Event.word format) event).sizes = event.sizes := by
  induction words generalizing event with
  | nil => rfl
  | cons w words ih => exact (ih _).trans (sizes_word event w)

end PtfConverter.MultiBuffer
