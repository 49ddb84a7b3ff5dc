import PtfConverter.Model.VF48Pio
import PtfConverter.ToMathlib.Transducer

/-! # How many words a PIO read writes

The answers of the module determine a list of items for each group, the markers and the data words
that would be written into a buffer without end. The read tests for the end of its buffer behind each
data word only. So it stops in time when the last word that fits is a data word, and writes on when
it is a marker and the group is not over.
-/

namespace PtfConverter.VF48Vme

inductive Item where
  | marker (i : ℕ)
  | data (w : Word)
deriving DecidableEq

def Item.isMarker : Item → Bool
  | marker _ => true
  | data _ => false

/-- The data words that are there of an announced number, up to the end of the event; whether it
ends, and the answers behind them. -/
def roundWords : ℕ → Trace → List Word × Bool × Trace
  | 0, trace => ([], false, trace)
  | _ + 1, [] => ([], false, [])
  | nw + 1, (_, w) :: rest =>
      if isEnd w then ([w], true, rest)
      else
        let round := roundWords nw rest
        (w :: round.1, round.2)

theorem roundWords_trace (nw : ℕ) (trace : Trace) :
    (roundWords nw trace).2.2.length ≤ trace.length := by
  induction nw generalizing trace with
  | zero => exact le_rfl
  | succ nw ih =>
    cases trace with
    | nil => exact le_rfl
    | cons access rest =>
      rw [roundWords]
      split_ifs
      · exact Nat.le_succ _
      · exact (ih rest).trans (Nat.le_succ _)

/-- The items of a group, and the answers behind them. -/
def groupItems (i : ℕ) : Trace → List Item × Trace
  | [] => ([], [])
  | (_, status) :: rest =>
      if fifoEmpty i status then ([], rest)
      else
        let round := roundWords (fifoCount i status) rest
        if round.2.1 then (.marker i :: round.1.map .data, round.2.2)
        else
          let more := groupItems i round.2.2
          (.marker i :: (round.1.map .data ++ more.1), more.2)
termination_by trace => trace.length
decreasing_by exact Nat.lt_succ_of_le (roundWords_trace _ rest)

/-- The items of the enabled groups, one after the other. -/
def groupsItems (grpEnable : Word) : List ℕ → Trace → List (List Item)
  | [], _ => []
  | i :: groups, trace =>
      if (1#32 <<< i) &&& grpEnable != 0 then
        (groupItems i trace).1 :: groupsItems grpEnable groups (groupItems i trace).2
      else groupsItems grpEnable groups trace

/-- All that the module has for one read. -/
def transfer : Trace → List (List Item)
  | _ :: (_, grpEnable) :: trace => groupsItems grpEnable (List.range 6) trace
  | _ => []

/-- A group that goes on behind `room` items, the last of which is not a data word. -/
def Overruns (room : ℕ) (items : List Item) : Prop :=
  room < items.length ∧ ∀ item ∈ (items.take room).getLast?, item.isMarker

/-- The word that fills the buffer is a marker, and its group goes on. -/
def MarkerFills (max_words : ℕ) (groups : List (List Item)) : Prop :=
  ∃ before items after, groups = before ++ items :: after ∧ before.flatten.length < max_words ∧
    Overruns (max_words - before.flatten.length) items

variable {room : ℕ} {items more : List Item}

theorem overruns_zero : Overruns 0 items ↔ items ≠ [] := by
  rw [Overruns, List.take_zero, List.length_pos_iff]
  exact and_iff_left fun _ member => by cases member

/-- Items in front of the last one that fits do not matter. -/
theorem overruns_append {front : List Item} (fits : front.length ≤ room)
    (marks : front.length = room → ∀ item ∈ front.getLast?, item.isMarker) :
    Overruns room (front ++ more) ↔ Overruns (room - front.length) more := by
  rw [Overruns, Overruns, List.length_append, List.take_append, List.take_of_length_le fits,
    List.getLast?_append]
  have lengths : room < front.length + more.length ↔ room - front.length < more.length := by omega
  rw [lengths]
  refine and_congr_right fun longer => ?_
  rcases Nat.eq_zero_or_pos (room - front.length) with full | space
  · rw [full, List.take_zero]
    exact iff_of_true (marks (by omega)) fun _ member => by cases member
  · obtain ⟨last, isLast⟩ : ∃ last, (more.take (room - front.length)).getLast? = some last := by
      rw [← Option.isSome_iff_exists, List.getLast?_isSome]
      intro none
      have short := congrArg List.length none
      rw [List.length_take, List.length_nil] at short
      omega
    rw [isLast]
    rfl

theorem overruns_marker (i : ℕ) (space : 0 < room) :
    Overruns room (.marker i :: more) ↔ Overruns (room - 1) more := by
  apply @overruns_append room more [.marker i] space
  rintro - item member
  obtain rfl := Option.some.inj member
  rfl

/-- The last word that fits is a data word. -/
theorem not_overruns_data {ws : List Word} (space : 0 < room) (fills : room ≤ ws.length) :
    ¬ Overruns room (ws.map .data ++ more) := by
  rintro ⟨_, marks⟩
  have lengths : (ws.map Item.data).length = ws.length := List.length_map ..
  rw [List.take_append_of_le_length (by omega), ← List.map_take, List.getLast?_map] at marks
  obtain ⟨last, isLast⟩ : ∃ last, (ws.take room).getLast? = some last := by
    rw [← Option.isSome_iff_exists, List.getLast?_isSome]
    intro none
    have short := congrArg List.length none
    rw [List.length_take, List.length_nil] at short
    omega
  rw [isLast] at marks
  cases marks _ rfl

section Loops

variable {addr max_words nw i : ℕ} {pio next : Pio} {done : Bool}

/-- The count is the number of words written. -/
def Pio.Counts (pio : Pio) : Prop := pio.pdest.length = pio.nread

theorem Pio.Counts.put (counts : pio.Counts) (w : Word) : (pio.put w).Counts := by
  rw [Counts, Pio.put, List.length_append, counts]
  rfl

/-- One access of the loop over the data words. -/
theorem readWords_succ (ran : readWords addr max_words (nw + 1) pio = .ok (done, next)) :
    ∃ w rest, pio.trace = (addr, w) :: rest ∧
      (if isEnd w ∨ max_words ≤ pio.nread + 1 then
        done = true ∧ next = Pio.put { pio with trace := rest } w
        else readWords addr max_words nw (Pio.put { pio with trace := rest } w) =
          .ok (done, next)) := by
  rw [readWords] at ran
  obtain ⟨⟨w, rest⟩, read, ran⟩ := Except.bind_eq_ok_iff.mp ran
  refine ⟨w, rest, RegisterRead_ok read, ?_⟩
  change (if isEnd w then _ else if max_words ≤ pio.nread + 1 then _ else _) = _ at ran
  split_ifs at ran with ends full
  · cases ran
    rw [if_pos (.inl ends)]
    exact ⟨rfl, rfl⟩
  · cases ran
    rw [if_pos (.inr full)]
    exact ⟨rfl, rfl⟩
  · rw [if_neg (not_or.mpr ⟨ends, full⟩)]
    exact ran

theorem readWords_counts (counts : pio.Counts)
    (ran : readWords addr max_words nw pio = .ok (done, next)) :
    next.Counts ∧ pio.nread ≤ next.nread := by
  induction nw generalizing pio with
  | zero =>
    cases ran
    exact ⟨counts, le_rfl⟩
  | succ nw ih =>
    obtain ⟨w, rest, _, ran⟩ := readWords_succ ran
    have one : (Pio.put { pio with trace := rest } w).Counts := Pio.Counts.put counts w
    split_ifs at ran
    · obtain ⟨-, rfl⟩ := ran
      exact ⟨one, Nat.le_succ _⟩
    · obtain ⟨all, more⟩ := ih one ran
      exact ⟨all, (Nat.le_succ _).trans more⟩

/-- The words of a round that ends in front of the end of the buffer. -/
theorem readWords_of_space (ran : readWords addr max_words nw pio = .ok (done, next))
    (space : (roundWords nw pio.trace).1 = [] ∨
      pio.nread + (roundWords nw pio.trace).1.length < max_words) :
    next.nread = pio.nread + (roundWords nw pio.trace).1.length ∧ done = (roundWords nw pio.trace).2.1 ∧
      next.trace = (roundWords nw pio.trace).2.2 := by
  induction nw generalizing pio with
  | zero =>
    cases ran
    exact ⟨rfl, rfl, rfl⟩
  | succ nw ih =>
    obtain ⟨w, rest, trace, ran⟩ := readWords_succ ran
    rw [trace, roundWords] at space ⊢
    by_cases ends : isEnd w
    · rw [if_pos (.inl ends)] at ran
      obtain ⟨rfl, rfl⟩ := ran
      rw [if_pos ends]
      exact ⟨rfl, rfl, rfl⟩
    · rw [if_neg ends] at space ⊢
      have later := space.resolve_left (List.cons_ne_nil _ _)
      rw [List.length_cons] at later
      rw [if_neg (not_or.mpr ⟨ends, by omega⟩)] at ran
      obtain ⟨nread, ended, left⟩ :=
        ih ran (.inr (by change pio.nread + 1 + (roundWords nw rest).1.length < _; omega))
      refine ⟨?_, ended, left⟩
      rw [nread, List.length_cons]
      exact Nat.add_right_comm ..

/-- The words of a round that reaches the end of the buffer: the read stops there, but
never in front of a word. -/
theorem readWords_of_full (ran : readWords addr max_words nw pio = .ok (done, next))
    (some : (roundWords nw pio.trace).1 ≠ [])
    (full : max_words ≤ pio.nread + (roundWords nw pio.trace).1.length) :
    done = true ∧ next.nread = max max_words (pio.nread + 1) := by
  induction nw generalizing pio with
  | zero => exact absurd rfl some
  | succ nw ih =>
    obtain ⟨w, rest, trace, ran⟩ := readWords_succ ran
    rw [trace, roundWords] at full
    by_cases ends : isEnd w
    · rw [if_pos (.inl ends)] at ran
      obtain ⟨rfl, rfl⟩ := ran
      rw [if_pos ends, List.length_singleton] at full
      exact ⟨rfl, (max_eq_right full).symm⟩
    · rw [if_neg ends, List.length_cons] at full
      by_cases last : max_words ≤ pio.nread + 1
      · rw [if_pos (.inr last)] at ran
        obtain ⟨rfl, rfl⟩ := ran
        exact ⟨rfl, (max_eq_right last).symm⟩
      · rw [if_neg (not_or.mpr ⟨ends, last⟩)] at ran
        have more : (roundWords nw rest).1 ≠ [] := by
          intro none
          rw [none, List.length_nil] at full
          omega
        obtain ⟨stops, nread⟩ :=
          ih ran more (by change _ ≤ pio.nread + 1 + (roundWords nw rest).1.length; omega)
        refine ⟨stops, nread.trans ?_⟩
        change max max_words (pio.nread + 1 + 1) = _
        omega

/-- One round of the loop over the FIFO of a group. -/
theorem readGroup_round (ran : readGroup i max_words pio = .ok next) :
    ∃ status rest, pio.trace = (VF48_FifoStat10 + 0x10 * (i / 2), status) :: rest ∧
      if fifoEmpty i status then next = { pio with trace := rest }
      else ∃ done round, readWords (VF48_FifoData0 + 0x10 * i) max_words (fifoCount i status)
          (Pio.put { pio with trace := rest } (groupMarker i)) = .ok (done, round) ∧
        if done then next = round else readGroup i max_words round = .ok next := by
  rw [readGroup] at ran
  split at ran
  · cases ran
  · next status rest read =>
    refine ⟨status, rest, RegisterRead_ok read, ?_⟩
    split_ifs at ran ⊢
    · cases ran
      rfl
    · split at ran
      · cases ran
      · next round words =>
        cases ran
        exact ⟨true, next, words, rfl⟩
      · next round words => exact ⟨false, round, words, ran⟩

theorem readGroup_of_done {status : Word} {rest : Trace}
    (read : RegisterRead (VF48_FifoStat10 + 0x10 * (i / 2)) pio.trace = .ok (status, rest))
    (some : fifoEmpty i status = false)
    (words : readWords (VF48_FifoData0 + 0x10 * i) max_words (fifoCount i status)
      (Pio.put { pio with trace := rest } (groupMarker i)) = .ok (true, next)) :
    readGroup i max_words pio = .ok next := by
  rw [readGroup]
  split
  · next stop failed => cases read.symm.trans failed
  · next status' rest' again =>
    cases read.symm.trans again
    rw [if_neg (Bool.eq_false_iff.mp some)]
    split
    · next stop failed => cases words.symm.trans failed
    · next round done =>
      cases words.symm.trans done
      rfl
    · next round done => cases words.symm.trans done

theorem groupItems_cons (i register : ℕ) (status : Word) (rest : Trace) :
    groupItems i ((register, status) :: rest) =
      if fifoEmpty i status then ([], rest)
      else if (roundWords (fifoCount i status) rest).2.1 then
        (.marker i :: ((roundWords (fifoCount i status) rest).1.map .data ++ []),
          (roundWords (fifoCount i status) rest).2.2)
      else
        (.marker i :: ((roundWords (fifoCount i status) rest).1.map .data ++
          (groupItems i (roundWords (fifoCount i status) rest).2.2).1),
          (groupItems i (roundWords (fifoCount i status) rest).2.2).2) := by
  rw [groupItems, List.append_nil]

/-- What a read of a group comes to: all its items, when they fit with space behind them; else the
buffer is filled, and more is written just when the group overruns. -/
structure Reads (max_words : ℕ) (pio next : Pio) (items : List Item) (left : Trace) : Prop where
  counts : next.Counts
  later : pio.nread ≤ next.nread
  all : pio.nread + items.length < max_words → next.nread = pio.nread + items.length ∧ next.trace = left
  full : pio.nread ≤ max_words → max_words ≤ pio.nread + items.length →
    max_words ≤ next.nread ∧ (next.nread ≤ max_words ↔ ¬ Overruns (max_words - pio.nread) items)

variable {round : Pio} {ws : List Word} {more : List Item} {left : Trace}

/-- A round in front of the end of the buffer, and what comes behind it. -/
theorem Reads.behind_round (reads : Reads max_words round next more left)
    (nread : round.nread = pio.nread + 1 + ws.length) (space : ws = [] ∨ round.nread < max_words) :
    Reads max_words pio next (.marker i :: (ws.map .data ++ more)) left := by
  have length : (Item.marker i :: (ws.map .data ++ more)).length = 1 + ws.length + more.length := by
    rw [List.length_cons, List.length_append, List.length_map]
    omega
  have later := reads.later
  refine ⟨reads.counts, by omega, fun inside => ?_, fun room past => ?_⟩
  · obtain ⟨count, rest⟩ := reads.all (by omega)
    exact ⟨by omega, rest⟩
  · rcases Nat.eq_or_lt_of_le room with none | some
    · -- No space for the marker.
      have overruns : Overruns (max_words - pio.nread) (Item.marker i :: (ws.map .data ++ more)) := by
        rw [none, Nat.sub_self, overruns_zero]
        exact List.cons_ne_nil _ _
      exact ⟨by omega, iff_of_false (by omega) fun not => not overruns⟩
    · have fits : round.nread ≤ max_words := by
        rcases space with rfl | space
        · rw [nread, List.length_nil]
          omega
        · omega
      obtain ⟨filled, exact⟩ := reads.full fits (by omega)
      refine ⟨filled, exact.trans (not_congr ?_)⟩
      have data : (ws.map Item.data).length = ws.length := List.length_map ..
      rw [overruns_marker i (by omega), overruns_append]
      · have same : max_words - pio.nread - 1 - (ws.map Item.data).length =
          max_words - round.nread := by omega
        rw [same]
      · rcases space with rfl | space
        · exact Nat.zero_le _
        · omega
      · intro last item member
        rcases space with rfl | space
        · cases member
        · omega

/-- A round that reaches the end of the buffer. -/
theorem reads_of_full (counts : next.Counts) (nread : next.nread = max max_words (pio.nread + 2))
    (some : ws ≠ []) (past : max_words ≤ pio.nread + 1 + ws.length) :
    Reads max_words pio next (.marker i :: (ws.map .data ++ more)) left := by
  have length : (Item.marker i :: (ws.map .data ++ more)).length = 1 + ws.length + more.length := by
    rw [List.length_cons, List.length_append, List.length_map]
    omega
  refine ⟨counts, by omega, fun inside => absurd inside (by omega), fun room _ => ⟨by omega, ?_⟩⟩
  rcases Nat.eq_or_lt_of_le room with none | one
  · rw [none, Nat.sub_self, overruns_zero]
    exact iff_of_false (by omega) fun not => not (List.cons_ne_nil _ _)
  · rw [overruns_marker i (by omega)]
    rcases Nat.eq_zero_or_pos (max_words - pio.nread - 1) with last | more
    · rw [last, overruns_zero]
      refine iff_of_false (by omega) fun not => not ?_
      exact List.append_ne_nil_of_left_ne_nil (List.map_eq_nil_iff.not.mpr some) _
    · exact iff_of_true (by omega) (not_overruns_data more (by omega))

theorem readGroup_reads (counts : pio.Counts) (ran : readGroup i max_words pio = .ok next) :
    Reads max_words pio next (groupItems i pio.trace).1 (groupItems i pio.trace).2 := by
  induction length : pio.trace.length using Nat.strong_induction_on generalizing pio with
  | _ n ih =>
  subst length
  obtain ⟨status, rest, trace, ran⟩ := readGroup_round ran
  rw [trace, groupItems_cons]
  by_cases empty : fifoEmpty i status
  · rw [if_pos empty] at ran ⊢
    subst ran
    refine ⟨counts, le_rfl, fun _ => ⟨rfl, rfl⟩, fun room full => ⟨full, iff_of_true room ?_⟩⟩
    rintro ⟨some, _⟩
    cases some
  · rw [if_neg empty] at ran ⊢
    obtain ⟨done, round, words, ran⟩ := ran
    have startCounts : (Pio.put { pio with trace := rest } (groupMarker i)).Counts :=
      Pio.Counts.put counts _
    obtain ⟨roundCounts, -⟩ := readWords_counts startCounts words
    have shorter := readWords_trace words
    change round.trace.length ≤ rest.length at shorter
    by_cases space : (roundWords (fifoCount i status) rest).1 = [] ∨
        pio.nread + 1 + (roundWords (fifoCount i status) rest).1.length < max_words
    · obtain ⟨nread, ended, left⟩ := readWords_of_space words space
      rw [Pio.put_nread, Pio.put_trace] at nread
      rw [Pio.put_trace] at ended left
      have fits : (roundWords (fifoCount i status) rest).1 = [] ∨ round.nread < max_words := by
        rw [nread]
        exact space
      cases done with
      | true =>
        -- The end of the event: nothing comes behind the round.
        obtain rfl := ran
        rw [if_pos ended.symm, ← left]
        have last : Reads max_words next next [] next.trace := by
          refine ⟨roundCounts, le_rfl, fun _ => ⟨rfl, rfl⟩,
            fun room full => ⟨full, iff_of_true room ?_⟩⟩
          rintro ⟨some, _⟩
          cases some
        exact last.behind_round nread fits
      | false =>
        rw [if_neg (by rw [← ended]; exact Bool.false_ne_true), ← left]
        exact (ih round.trace.length
          (by rw [trace, List.length_cons]; omega) roundCounts ran rfl).behind_round nread fits
    · rw [not_or, Nat.not_lt] at space
      obtain ⟨some, past⟩ := space
      obtain ⟨rfl, nread⟩ := readWords_of_full words some past
      obtain rfl := ran
      rw [Pio.put_nread] at nread
      split_ifs
      · exact reads_of_full roundCounts nread some past
      · exact reads_of_full roundCounts nread some past

end Loops

theorem markerFills_nil (room : ℕ) : ¬ MarkerFills room [] := by
  rintro ⟨before, items, after, split, _⟩
  cases before <;> cases split

theorem markerFills_cons {groups : List (List Item)} (space : 0 < room) :
    MarkerFills room (items :: groups) ↔
      Overruns room items ∨ items.length < room ∧ MarkerFills (room - items.length) groups := by
  constructor
  · rintro ⟨before, items', after, split, fits, past⟩
    cases before with
    | nil =>
      obtain ⟨rfl, rfl⟩ := List.cons.inj split
      exact .inl past
    | cons first before =>
      obtain ⟨rfl, rfl⟩ := List.cons.inj split
      rw [List.flatten_cons, List.length_append] at fits past
      refine .inr ⟨by omega, before, items', after, rfl, by omega, ?_⟩
      rwa [Nat.sub_sub]
  · rintro (past | ⟨fits, before, items', after, rfl, later, past⟩)
    · exact ⟨[], items, groups, rfl, space, past⟩
    · refine ⟨items :: before, items', after, rfl, ?_, ?_⟩
      · rw [List.flatten_cons, List.length_append]
        omega
      · rwa [List.flatten_cons, List.length_append, ← Nat.sub_sub]

theorem readGroups_bounded_iff {grpEnable : Word} {max_words : ℕ} {groups : List ℕ}
    {pio next : Pio} (counts : pio.Counts) (room : pio.nread < max_words)
    (ran : readGroups grpEnable max_words groups pio = .ok next) :
    next.Counts ∧
      (next.nread ≤ max_words ↔
        ¬ MarkerFills (max_words - pio.nread) (groupsItems grpEnable groups pio.trace)) := by
  induction groups generalizing pio with
  | nil =>
    cases ran
    exact ⟨counts, iff_of_true room.le (markerFills_nil _)⟩
  | cons i groups ih =>
    rw [readGroups] at ran
    rw [groupsItems]
    split_ifs at ran ⊢ with enabled
    · obtain ⟨round, read, ran⟩ := Except.bind_eq_ok_iff.mp ran
      have reads := readGroup_reads counts read
      rw [markerFills_cons (by omega)]
      by_cases fits : pio.nread + (groupItems i pio.trace).1.length < max_words
      · obtain ⟨nread, left⟩ := reads.all fits
        have inside : ¬ Overruns (max_words - pio.nread) (groupItems i pio.trace).1 := fun past => by
          have longer := past.1
          omega
        rw [if_neg (by omega)] at ran
        obtain ⟨all, bounded⟩ := ih reads.counts (by omega) ran
        refine ⟨all, bounded.trans (not_congr ?_)⟩
        rw [left, nread, ← Nat.sub_sub, or_iff_right inside]
        exact (and_iff_right (by omega)).symm
      · obtain ⟨filled, bounded⟩ := reads.full room.le (by omega)
        rw [if_pos filled] at ran
        cases ran
        refine ⟨reads.counts, bounded.trans (not_congr ?_)⟩
        exact (or_iff_left fun later => absurd later.1 (by omega)).symm
    · exact ih counts room ran

/-- A read that returns stays inside its buffer exactly when the word that fills the buffer is not a
marker whose group goes on. -/
theorem EventReadPio_bounded_iff (max_words : ℕ) (some : 1 ≤ max_words) (trace : Trace) (result : Pio)
    (returns : EventReadPio max_words trace = .ok result) :
    (result.pdest.length ≤ max_words ∧ result.nread ≤ max_words) ↔
      ¬ MarkerFills max_words (transfer trace) := by
  obtain ⟨⟨csr, enabled⟩, first, ran⟩ := Except.bind_eq_ok_iff.mp returns
  obtain rfl := RegisterRead_ok first
  dsimp only at ran
  split_ifs at ran with disabled
  · obtain ⟨⟨grpEnable, answers⟩, second, groups⟩ := Except.bind_eq_ok_iff.mp ran
    obtain rfl := RegisterRead_ok second
    have empty : Pio.Counts ⟨[], 0, answers⟩ := rfl
    obtain ⟨counts, bounded⟩ := readGroups_bounded_iff empty some groups
    rw [Pio.Counts] at counts
    rw [counts, and_self]
    exact bounded

/-- Group 0 has the two words of an event. -/
def twoWords : Trace :=
  [(0x0000, 0x00020000), (0x0090, 1), (0x0120, 2), (0x0150, 0x80000001), (0x0150, 0xE0000001)]

/-- The read of group 0 ends when its buffer is full, behind the first data word. -/
private theorem twoWords_read {max_words : ℕ} (short : max_words ≤ 2) :
    EventReadPio max_words twoWords = .ok ⟨[0xFFFFFFF0, 0x80000001], 2, [(0x0150, 0xE0000001)]⟩ := by
  have words : readWords 0x0150 max_words 2
      ⟨[0xFFFFFFF0], 1, [(0x0150, 0x80000001), (0x0150, 0xE0000001)]⟩ =
      .ok (true, ⟨[0xFFFFFFF0, 0x80000001], 2, [(0x0150, 0xE0000001)]⟩) := by
    change (if max_words ≤ 2 then _ else _) = _
    rw [if_pos short]
    rfl
  have group : readGroup 0 max_words ⟨[], 0, twoWords.drop 2⟩ =
      .ok ⟨[0xFFFFFFF0, 0x80000001], 2, [(0x0150, 0xE0000001)]⟩ :=
    readGroup_of_done rfl (by decide) words
  change (readGroup 0 max_words ⟨[], 0, twoWords.drop 2⟩ >>= fun pio => if max_words ≤
    pio.nread then _ else _) = _
  rw [group, Except.ok_bind, if_pos short]
  rfl

theorem EventReadPio_bounded_iff_twoWords :
    EventReadPio 2 twoWords = .ok ⟨[0xFFFFFFF0, 0x80000001], 2, [(0x0150, 0xE0000001)]⟩ ∧
      ¬ MarkerFills 2 (transfer twoWords) :=
  have returns := twoWords_read le_rfl
  ⟨returns, (EventReadPio_bounded_iff 2 (by decide) twoWords _ returns).mp ⟨by decide, by decide⟩⟩

/-- One word of space: the marker takes it, and the first data word is written behind it. -/
theorem oneWord_overrun :
    ∃ result, EventReadPio 1 twoWords = .ok result ∧
      ¬ (result.pdest.length ≤ 1 ∧ result.nread ≤ 1) :=
  ⟨_, twoWords_read (Nat.le_succ 1), by decide⟩

end PtfConverter.VF48Vme
