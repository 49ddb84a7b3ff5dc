import PtfConverter.Model.VF48Multi
import PtfConverter.Soundness.MultiSegments

/-! # The words that a VF48 call for one event copies

A call copies from its start. Behind a trailer it stops copying until the next event header. The
trailer ends the call, except when its event number is 0; then the call goes on, and loses the words
in front of that header.
-/

namespace PtfConverter.VF48Multi

open MultiBuffer

variable {words : List Word} {event : Event}

/-- A padding word of a bank. -/
def pad : Word := 0xdeaddead#32

def isData (w : Word) : Bool := w != pad

/-- The words in front of the first event header. -/
def untilHeader (words : List Word) : List Word := words.takeWhile fun w => !format.isHeader w

def fromHeader (words : List Word) : List Word := words.dropWhile fun w => !format.isHeader w

/-- The words up to the cut are all copied when the call copies already, or starts with a header. -/
theorem bank_foldl_cut_of_ready (ready : event.copy || words.head?.any format.isHeader) :
    ((cut format words).1.foldl (Event.word format) event).bank =
      event.bank ++ (cut format words).1 := by
  induction words generalizing event with
  | nil => exact (List.append_nil _).symm
  | cons w after ih =>
    change event.copy || format.isHeader w at ready
    have first : (event.word format w).bank = event.bank ++ [w] := by
      rw [bank_word, if_pos ready]
    cases ends : stops format w after with
    | true =>
      rw [cut_cons_of_stops ends]
      exact first
    | false =>
      have next : (event.word format w).copy || after.head?.any format.isHeader := by
        rw [copy_word, ready, Bool.true_and]
        cases trailer : format.isTrailer w with
        | false => rfl
        | true => exact head_isHeader trailer ends
      rw [cut_cons_of_not_stops ends, List.foldl_cons, ih next, first, List.append_assoc]
      rfl

/-- A call that does not copy yet copies from the first header on. -/
theorem bank_foldl_cut_of_idle (idle : event.copy = false) :
    ((cut format words).1.foldl (Event.word format) event).bank =
      event.bank ++ fromHeader (cut format words).1 := by
  induction words generalizing event with
  | nil => exact (List.append_nil _).symm
  | cons w after ih =>
    cases header : format.isHeader w with
    | true =>
      have ready : event.copy || (w :: after).head?.any format.isHeader := by
        rw [idle]
        exact header
      have some : fromHeader (cut format (w :: after)).1 = (cut format (w :: after)).1 := by
        cases ends : stops format w after with
        | true => rw [cut_cons_of_stops ends, fromHeader, List.dropWhile_cons, header]; rfl
        | false => rw [cut_cons_of_not_stops ends, fromHeader, List.dropWhile_cons, header]; rfl
      rw [bank_foldl_cut_of_ready ready, some]
    | false =>
      have first : (event.word format w).bank = event.bank := by
        rw [bank_word, idle, header]
        rfl
      have next : (event.word format w).copy = false := by
        rw [copy_word, idle, header]
        rfl
      cases ends : stops format w after with
      | true =>
        rw [cut_cons_of_stops ends, fromHeader, List.dropWhile_cons, header]
        exact first.trans (List.append_nil _).symm
      | false =>
        rw [cut_cons_of_not_stops ends, fromHeader, List.dropWhile_cons, header, List.foldl_cons,
          ih next, first]
        rfl

/-- Whether the words behind a turn are copied: a new call copies everything. -/
def resumed (event : Event) : Bool := decide (0 < event.trailerEventNo) || event.copy

/-- Behind a trailer that ends the loop, its number decides. -/
theorem resumed_foldl_of_stops {front after : List Word} {w : Word} (ends : stops format w after) :
    resumed ((front ++ [w]).foldl (Event.word format) event) =
      decide (0 < format.trailerEventNo w) := by
  have trailer : format.isTrailer w := isTrailer_of_stops ends
  rw [List.foldl_append, List.foldl_cons, List.foldl_nil, resumed, trailerEventNo_word,
    if_pos trailer, copy_word, trailer, Bool.not_true, Bool.and_false, Bool.or_false]
  exact decide_eq_decide.mpr Int.natCast_pos

/-- Where nothing ends the loop, it copies to the end. -/
theorem copy_foldl_of_ready (goesOn : GoesOn format words) (some : words ≠ [])
    (ready : event.copy || words.head?.any format.isHeader) :
    (words.foldl (Event.word format) event).copy := by
  induction words generalizing event with
  | nil => exact absurd rfl some
  | cons w after ih =>
    change event.copy || format.isHeader w at ready
    have here := goesOn w after (List.suffix_refl _)
    have next : (event.word format w).copy || after.head?.any format.isHeader := by
      rw [copy_word, ready, Bool.true_and]
      cases trailer : format.isTrailer w with
      | false => rfl
      | true => exact head_isHeader trailer here
    cases after with
    | nil =>
      rw [List.head?_nil, Option.any_none, Bool.or_false] at next
      exact next
    | cons ww more => exact ih goesOn.tail (List.cons_ne_nil _ _) next

/-- Where nothing ends the loop, the call copies behind it if it did before or has seen a header. -/
theorem resumed_foldl_of_goesOn (goesOn : GoesOn format words) (unseen : event.trailerEventNo ≤ 0) :
    resumed (words.foldl (Event.word format) event) = (event.copy || words.any format.isHeader) := by
  induction words generalizing event with
  | nil =>
    rw [List.foldl_nil, resumed, decide_eq_false (not_lt.mpr unseen), List.any_nil, Bool.or_false]
    rfl
  | cons w after ih =>
    have here := goesOn w after (List.suffix_refl _)
    cases ready : event.copy || format.isHeader w with
    | true =>
      rw [List.any_cons, ← Bool.or_assoc, ready, Bool.true_or, resumed,
        copy_foldl_of_ready goesOn (List.cons_ne_nil _ _) ready, Bool.or_true]
    | false =>
      rw [List.any_cons, ← Bool.or_assoc, ready, Bool.false_or, List.foldl_cons]
      have idle : (event.word format w).copy = false := by
        rw [copy_word, ready]
        rfl
      cases trailer : format.isTrailer w with
      | false =>
        rw [ih goesOn.tail, idle, Bool.false_or]
        rw [trailerEventNo_word, trailer]
        exact unseen
      | true =>
        have header := head_isHeader trailer here
        cases after with
        | nil => cases header
        | cons ww more =>
          have any : (ww :: more).any format.isHeader := Bool.or_eq_true_iff.mpr (.inl header)
          rw [any, resumed,
            copy_foldl_of_ready goesOn.tail (List.cons_ne_nil _ _) (by rw [idle]; exact header),
            Bool.or_true]

/-- In front of the first event header there is only padding. -/
def Quiet (words : List Word) : Prop := ∀ w ∈ untilHeader words, w = pad

theorem quiet_cons (w : Word) (words : List Word) :
    Quiet (w :: words) ↔ format.isHeader w ∨ w = pad ∧ Quiet words := by
  rw [Quiet, untilHeader, List.takeWhile_cons]
  cases header : format.isHeader w with
  | true => exact iff_of_true (fun _ member => absurd member List.not_mem_nil) (.inl rfl)
  | false =>
    rw [Bool.not_false, if_pos rfl, List.forall_mem_cons]
    exact (or_iff_right Bool.false_ne_true).symm

theorem quiet_append (first second : List Word) :
    Quiet (first ++ second) ↔ Quiet first ∧ (first.any format.isHeader = false → Quiet second) := by
  induction first with
  | nil => exact ⟨fun quiet => ⟨fun _ member => absurd member List.not_mem_nil, fun _ => quiet⟩,
      fun both => both.2 rfl⟩
  | cons w first ih =>
    rw [List.cons_append, quiet_cons, quiet_cons, ih, List.any_cons]
    cases header : format.isHeader w with
    | true => simp only [true_or, Bool.true_or, Bool.true_eq_false, false_implies, and_self]
    | false => simp only [Bool.false_eq_true, false_or, Bool.false_or, and_assoc]

theorem pads_of_quiet (headerless : words.any format.isHeader = false) (quiet : Quiet words) :
    ∀ w ∈ words, w = pad := by
  induction words with
  | nil => exact fun w member => absurd member List.not_mem_nil
  | cons w words ih =>
    obtain ⟨first, later⟩ := Bool.or_eq_false_iff.mp headerless
    rw [quiet_cons, first] at quiet
    obtain ⟨here, behind⟩ := quiet.resolve_left Bool.false_ne_true
    exact List.forall_mem_cons.mpr ⟨here, ih later behind⟩

/-- Padding is no header, so that what is behind it counts. -/
theorem quiet_of_pads {pads : List Word} (padding : ∀ w ∈ pads, w = pad) (words : List Word) :
    Quiet (pads ++ words) ↔ Quiet words := by
  have quiet : Quiet pads := fun w member => padding w ((List.takeWhile_sublist _).subset member)
  have none : pads.any format.isHeader = false := by
    rw [List.any_eq_false]
    intro w member
    obtain rfl := padding w member
    decide
  rw [quiet_append]
  exact ⟨fun both => both.2 none, fun quiet' => ⟨quiet, fun _ => quiet'⟩⟩

theorem filter_eq_nil_iff_pads (words : List Word) :
    words.filter isData = [] ↔ ∀ w ∈ words, w = pad := by
  simp only [List.filter_eq_nil_iff, isData, bne_iff_ne, ne_eq, not_not]

/-- Copying from the first header on loses nothing but padding. -/
theorem filter_fromHeader_iff (words : List Word) :
    (fromHeader words).filter isData = words.filter isData ↔ Quiet words := by
  have whole : words.filter isData =
      (untilHeader words).filter isData ++ (fromHeader words).filter isData := by
    rw [← List.filter_append, untilHeader, fromHeader, List.takeWhile_append_dropWhile]
  rw [whole, Quiet, ← filter_eq_nil_iff_pads]
  exact List.self_eq_append_left

end PtfConverter.VF48Multi
