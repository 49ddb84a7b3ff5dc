import PtfConverter.Model.TDC1190
import Mathlib.Data.List.Basic

/-! # What an accepted V1190 bank says about its headers and trailers

The lists of headers and of status flags are the header words and the trailer words of the bank,
in whatever order they come. The tests of the constructor see the first word, the last trailer and
the sum of the word counts: a header that has no trailer of its own passes them when the other
trailers count its words.
-/

namespace PtfConverter.TDC1190

def isGlobalHeader (word : Word) : Bool := tagOf word == globalHeaderTag

def isGlobalTrailer (word : Word) : Bool := tagOf word == globalTrailerTag

/-- The sum of the word counts of a bank, as a 32-bit integer. -/
def wordCountTotal (words : List Word) : BitVec 32 :=
  ((words.filter isGlobalTrailer).map wordCountOf).sum

namespace Scan

section Word

variable (scan : Scan) (word : Word)

theorem interpret_header (header : isGlobalHeader word) : scan.interpret word =
    { scan with
      fGlobalHeader := scan.fGlobalHeader ++ [word]
      numberEventsInBank := scan.numberEventsInBank + 1 } :=
  if_pos (eq_of_beq header)

/-- Any other word keeps what a global header changes. -/
theorem interpret_noHeader (other : ¬ isGlobalHeader word) :
    (scan.interpret word).fGlobalHeader = scan.fGlobalHeader ∧
      (scan.interpret word).numberEventsInBank = scan.numberEventsInBank := by
  have tag : tagOf word ≠ globalHeaderTag := fun same => other (beq_iff_eq.mpr same)
  unfold interpret
  rw [if_neg tag]
  split_ifs <;> exact ⟨rfl, rfl⟩

/-- The tests in front of the one for a global trailer. -/
theorem interpret_trailer (trailer : isGlobalTrailer word) : scan.interpret word =
    { scan with
      found_trailer_word := scan.i
      fWordCountTotal := scan.fWordCountTotal + wordCountOf word
      fStatus := scan.fStatus ++ [statusOf word] } := by
  have tag : tagOf word = globalTrailerTag := eq_of_beq trailer
  rw [interpret, tag]
  rfl

/-- Any other word keeps what a global trailer changes. -/
theorem interpret_noTrailer (other : ¬ isGlobalTrailer word) :
    (scan.interpret word).found_trailer_word = scan.found_trailer_word ∧
      (scan.interpret word).fWordCountTotal = scan.fWordCountTotal ∧
        (scan.interpret word).fStatus = scan.fStatus := by
  have tag : tagOf word ≠ globalTrailerTag := fun same => other (beq_iff_eq.mpr same)
  unfold interpret
  rw [if_neg tag]
  split_ifs <;> exact ⟨rfl, rfl, rfl⟩

theorem next_fGlobalHeader :
    (scan.next word).fGlobalHeader = scan.fGlobalHeader ++ if isGlobalHeader word then
      [word] else [] := by
  rw [next]
  split_ifs with header
  · rw [interpret_header scan word header]
  · rw [List.append_nil]
    exact (interpret_noHeader scan word header).1

theorem next_numberEventsInBank :
    (scan.next word).numberEventsInBank = scan.numberEventsInBank + if isGlobalHeader word then
      1 else 0 := by
  rw [next]
  split_ifs with header
  · rw [interpret_header scan word header]
  · exact (interpret_noHeader scan word header).2

theorem next_fStatus :
    (scan.next word).fStatus = scan.fStatus ++ if isGlobalTrailer word then
      [statusOf word] else [] := by
  rw [next]
  split_ifs with trailer
  · rw [interpret_trailer scan word trailer]
  · rw [List.append_nil]
    exact (interpret_noTrailer scan word trailer).2.2

theorem next_fWordCountTotal :
    (scan.next word).fWordCountTotal = scan.fWordCountTotal + if isGlobalTrailer word then
      wordCountOf word else 0 := by
  rw [next]
  split_ifs with trailer
  · rw [interpret_trailer scan word trailer]
  · rw [add_zero]
    exact (interpret_noTrailer scan word trailer).2.1

theorem next_found_trailer_word : (scan.next word).found_trailer_word =
    if isGlobalTrailer word then (scan.i : ℤ) else scan.found_trailer_word := by
  rw [next]
  split_ifs with trailer
  · rw [interpret_trailer scan word trailer]
  · exact (interpret_noTrailer scan word trailer).1

end Word

variable (scan : Scan) (words : List Word)

theorem foldl_i : (words.foldl next scan).i = scan.i + words.length := by
  induction words generalizing scan with
  | nil => rfl
  | cons word words ih =>
    rw [List.foldl_cons, ih, List.length_cons, Nat.add_comm words.length, ← Nat.add_assoc]
    rfl

theorem foldl_fGlobalHeader :
    (words.foldl next scan).fGlobalHeader = scan.fGlobalHeader ++ words.filter isGlobalHeader := by
  induction words generalizing scan with
  | nil => rw [List.foldl_nil, List.filter_nil, List.append_nil]
  | cons word words ih =>
    rw [List.foldl_cons, ih, next_fGlobalHeader, List.append_assoc, List.filter_cons]
    split_ifs <;> rfl

theorem foldl_fStatus : (words.foldl next scan).fStatus =
    scan.fStatus ++ (words.filter isGlobalTrailer).map statusOf := by
  induction words generalizing scan with
  | nil => rw [List.foldl_nil, List.filter_nil, List.map_nil, List.append_nil]
  | cons word words ih =>
    rw [List.foldl_cons, ih, next_fStatus, List.append_assoc, List.filter_cons]
    split_ifs <;> rfl

theorem foldl_fWordCountTotal :
    (words.foldl next scan).fWordCountTotal = scan.fWordCountTotal + wordCountTotal words := by
  induction words generalizing scan with
  | nil => exact (BitVec.add_zero _).symm
  | cons word words ih =>
    rw [List.foldl_cons, ih, next_fWordCountTotal, BitVec.add_assoc, wordCountTotal, wordCountTotal,
      List.filter_cons]
    split_ifs
    · rfl
    · rw [zero_add]

/-- The event that later measurements are numbered after counts the header words. -/
theorem foldl_numberEventsInBank :
    (words.foldl next scan).numberEventsInBank =
      scan.numberEventsInBank + words.countP isGlobalHeader := by
  induction words generalizing scan with
  | nil => rfl
  | cons word words ih =>
    rw [List.foldl_cons, ih, next_numberEventsInBank, List.countP_cons, Nat.add_assoc,
      Nat.add_comm (words.countP _)]

/-- The last trailer is before the end of the words. -/
theorem foldl_found_trailer_word_lt (before : scan.found_trailer_word < scan.i) :
    (words.foldl next scan).found_trailer_word < (words.foldl next scan).i := by
  induction words generalizing scan with
  | nil => exact before
  | cons word words ih =>
    apply ih
    rw [next_found_trailer_word]
    change _ < ((scan.i + 1 : ℕ) : ℤ)
    split_ifs <;> omega

end Scan

namespace TV1190Data

variable (bank : Bank)

theorem decode_fGlobalHeader : (decode bank).fGlobalHeader = bank.words.filter isGlobalHeader :=
  Scan.foldl_fGlobalHeader ..

theorem decode_fStatus : (decode bank).fStatus = (bank.words.filter isGlobalTrailer).map statusOf :=
  Scan.foldl_fStatus ..

end TV1190Data

/-- The first word is a header, the last word is a trailer, and the trailers count the words. -/
structure Framed (words : List Word) : Prop where
  first : ∃ word, words.head? = some word ∧ isGlobalHeader word
  last : ∃ word, words.getLast? = some word ∧ isGlobalTrailer word
  counted : (wordCountTotal words).toInt = words.length

/-- The loop found a trailer, in the last word. -/
theorem found_trailer_word_iff (words : List Word) :
    let found := (words.foldl Scan.next .initial).found_trailer_word
    (found ≠ -1 ∧ found = words.length - 1) ↔
      ∃ word, words.getLast? = some word ∧ isGlobalTrailer word := by
  induction words using List.reverseRecOn with
  | nil =>
    refine iff_of_false (fun found => found.1 rfl) ?_
    rintro ⟨_, absent, _⟩
    cases absent
  | append_singleton words word _ =>
    have before := Scan.foldl_found_trailer_word_lt .initial words (by decide)
    rw [Scan.foldl_i] at before
    simp only [List.foldl_append, List.foldl_cons, List.foldl_nil, Scan.next_found_trailer_word,
      Scan.foldl_i, List.length_append, List.length_singleton, List.getLast?_concat,
      Option.some.injEq, exists_eq_left']
    split_ifs with trailer
    · exact iff_of_true (by constructor <;> simp [Scan.initial]) trailer
    · refine iff_of_false (fun found => ?_) trailer
      simp only [Scan.initial, Nat.zero_add] at before found
      omega

/-- The constructor accepts a bank exactly when its words are framed. -/
theorem accepted_iff (bank : Bank) :
    (TV1190Data.decode bank).IsBankCorrupted = false ↔ Framed bank.words := by
  have total : (bank.words.foldl Scan.next .initial).fWordCountTotal = wordCountTotal bank.words := by
    rw [Scan.foldl_fWordCountTotal]
    exact zero_add _
  have last := found_trailer_word_iff bank.words
  simp only [TV1190Data.IsBankCorrupted, TV1190Data.decode, total, Bool.or_eq_false_iff,
    decide_eq_false_iff_not, not_not]
  constructor
  · rintro ⟨⟨⟨header, some⟩, ends⟩, counted⟩
    obtain ⟨word, final, trailer⟩ := last.mp ⟨some, ends⟩
    refine ⟨?_, ⟨word, final, trailer⟩, counted⟩
    cases words : bank.words with
    | nil =>
      rw [words] at final
      cases final
    | cons first rest =>
      rw [words] at header
      exact ⟨first, rfl, beq_iff_eq.mpr header⟩
  · rintro ⟨⟨word, head, header⟩, ends, counted⟩
    obtain ⟨some, ends⟩ := last.mpr ends
    refine ⟨⟨⟨?_, some⟩, ends⟩, counted⟩
    rw [List.headD_eq_head?_getD, head]
    exact eq_of_beq header

/-- As many headers as trailers, so that the accessors of every counted event read a list inside. -/
def Consistent (data : TV1190Data) : Prop :=
  data.fGlobalHeader.length = data.fStatus.length ∧ ∀ i < data.GetEventsInBank,
    (data.GetEventCounter i).isSome ∧ (data.GetGeoAddress i).isSome ∧ (data.IsTriggerLost i).isSome ∧
      (data.HasBufferOverflow i).isSome ∧ (data.HasTDCError i).isSome

theorem consistent_iff (bank : Bank) : Consistent (TV1190Data.decode bank) ↔
    bank.words.countP isGlobalHeader = bank.words.countP isGlobalTrailer := by
  have lengths : (TV1190Data.decode bank).fGlobalHeader.length = bank.words.countP isGlobalHeader ∧
      (TV1190Data.decode bank).fStatus.length = bank.words.countP isGlobalTrailer := by
    rw [TV1190Data.decode_fGlobalHeader, TV1190Data.decode_fStatus, List.length_map,
      List.countP_eq_length_filter, List.countP_eq_length_filter]
    exact ⟨rfl, rfl⟩
  rw [← lengths.1, ← lengths.2]
  refine ⟨And.left, fun same => ⟨same, fun i inside => ?_⟩⟩
  have header : ((TV1190Data.decode bank).fGlobalHeader[i]?).isSome := by
    rw [List.getElem?_eq_getElem inside]
    rfl
  have status : ((TV1190Data.decode bank).fStatus[i]?).isSome := by
    rw [List.getElem?_eq_getElem (Nat.lt_of_lt_of_eq inside same)]
    rfl
  simp only [TV1190Data.GetEventCounter, TV1190Data.GetGeoAddress, TV1190Data.IsTriggerLost,
    TV1190Data.HasBufferOverflow, TV1190Data.HasTDCError, Option.isSome_map, header, status, and_self]

/-- An accepted bank is consistent exactly when a framed bank has as many header words as trailer
words. -/
theorem accepted_consistent_iff (bank : Bank) :
    ((TV1190Data.decode bank).IsBankCorrupted = false → Consistent (TV1190Data.decode bank)) ↔
      (Framed bank.words → bank.words.countP isGlobalHeader = bank.words.countP isGlobalTrailer) := by
  rw [accepted_iff, consistent_iff]

/-- Two headers and one trailer, which counts three words: event 1 has no status. -/
theorem lostTrailer_accepted :
    ¬ ((TV1190Data.decode ⟨[0x40000000#32, 0x40000020#32, 0x80000060#32], 0⟩).IsBankCorrupted = false →
      Consistent (TV1190Data.decode ⟨[0x40000000#32, 0x40000020#32, 0x80000060#32], 0⟩)) := by
  intro consistent
  have status := ((consistent (by decide)).2 1 (by decide)).2.2.1
  revert status
  decide

end PtfConverter.TDC1190
