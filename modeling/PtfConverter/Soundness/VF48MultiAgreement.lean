import PtfConverter.Soundness.VF48MultiTurns

/-! # The VF48 event banks against the stream bank

What the rest of a drain adds to the banks is a sublist of the buffered words, so that no loss in
one turn is made good in another. Turn by turn, the banks have the stream's words up to padding when
and only when the buffer drains without loss.
-/

namespace PtfConverter.VF48Multi

open MultiBuffer

variable {gDmaByteswap : Bool} {words : List Word} {segments : List (List Word)} {event : Event}
  {behind : ℕ → Word}

/-- The drain returns, every new header has a byte count, and the banks have these
words but for padding. -/
def Yields (result : Except Fault (List Event)) (words : List Word) : Prop :=
  ∃ events, result = .ok events ∧ (∀ size ∈ events.flatMap Event.sizes, 0 ≤ size) ∧
    (events.flatMap Event.bank).filter isData = words.filter isData

/-- A drain whose calls have a bank so far: what it adds is among some words, and is all
of them on a condition. -/
structure Settles (result : Except Fault (List Event)) (bank words : List Word)
    (condition : Prop) : Prop where
  among : ∀ events, result = .ok events →
    ∃ tail, tail.Sublist words ∧ events.flatMap Event.bank = bank ++ tail
  yields_iff : Yields result (bank ++ words) ↔ condition

theorem Settles.of_error {result : Except Fault (List Event)} {bank words : List Word}
    {condition : Prop} (failed : ∃ fault, result = .error fault) (never : ¬condition) :
    Settles result bank words condition := by
  obtain ⟨fault, rfl⟩ := failed
  refine ⟨?_, iff_of_false ?_ never⟩
  · intro events ran
    cases ran
  · rintro ⟨events, ran, _⟩
    cases ran

/-- Sublists of two lists make up both only if each makes up its own. -/
theorem append_eq_append_of_sublist {α : Type*} {first second whole other : List α}
    (left : first.Sublist whole) (right : second.Sublist other) :
    first ++ second = whole ++ other ↔ first = whole ∧ second = other := by
  constructor
  · intro same
    have total := congrArg List.length same
    rw [List.length_append, List.length_append] at total
    have less := left.length_le
    have less' := right.length_le
    exact ⟨left.eq_of_length (by omega), right.eq_of_length (by omega)⟩
  · rintro ⟨rfl, rfl⟩
    rfl

/-- Words that a turn consumes, of which it copies some. -/
theorem Settles.append {result : Except Fault (List Event)}
    {bank copied consumed words : List Word} {condition : Prop}
    (sublist : copied.Sublist consumed) (later : Settles result (bank ++ copied) words condition) :
    Settles result bank (consumed ++ words)
      (copied.filter isData = consumed.filter isData ∧ condition) := by
  refine ⟨fun events ran => ?_, ?_⟩
  · obtain ⟨tail, among, all⟩ := later.among events ran
    exact ⟨copied ++ tail, sublist.append among, by rw [all, List.append_assoc]⟩
  · rw [← later.yields_iff]
    constructor
    · rintro ⟨events, ran, sizes, same⟩
      obtain ⟨tail, among, all⟩ := later.among events ran
      have parts := same
      rw [all, List.append_assoc, List.filter_append, List.filter_append (bank), List.append_right_inj,
        List.filter_append, List.filter_append,
        append_eq_append_of_sublist (sublist.filter _) (among.filter _)] at parts
      refine ⟨parts.1, events, ran, sizes, ?_⟩
      rw [same, List.append_assoc, List.filter_append, List.filter_append, List.filter_append,
        List.filter_append, parts.1]
    · rintro ⟨here, events, ran, sizes, same⟩
      refine ⟨events, ran, sizes, ?_⟩
      rw [same, List.append_assoc, List.filter_append, List.filter_append, List.filter_append,
        List.filter_append, here]

/-- The segments of a buffer have data, and fit. -/
def Proper (segments : List (List Word)) : Prop :=
  ∀ words ∈ segments, words ≠ [] ∧ 4 * words.length + 8 ≤ rb_size

theorem length_holding_cons (words : List Word) (segments : List (List Word)) :
    (holding gDmaByteswap (words :: segments) behind).pending.length =
      words.length + 2 + (holding gDmaByteswap segments behind).pending.length := by
  rw [holding_cons, RingBuffer.prepend, List.length_append, length_encode]

theorem holding_ne_nil (words : List Word) (segments : List (List Word)) :
    (holding gDmaByteswap (words :: segments) behind).pending ≠ [] := List.cons_ne_nil _ _

/-- A turn leaves fewer words. -/
theorem Turn.smaller {rest : List (List Word)} {dropped : List Word} (some : words ≠ [])
    (turn : Turn segments (cut format words).2 dropped rest) :
    rest.flatten.length < (words :: segments).flatten.length ∧
      (holding gDmaByteswap rest behind).pending.length <
        (holding gDmaByteswap (words :: segments) behind).pending.length := by
  have positive : 0 < (cut format words).1.length := List.length_pos_iff.mpr (cut_ne_nil some)
  have whole := congrArg List.length (flatten_turn turn)
  have parts := congrArg List.length (@cut_append format words)
  rw [List.length_append, List.length_append] at whole
  rw [List.length_append] at parts
  refine ⟨by omega, ?_⟩
  rw [length_holding_cons]
  obtain ⟨more, left, ⟨_, _, rfl⟩ | ⟨_, _, rfl⟩⟩ := turn.split
  · omega
  · have lengths := congrArg List.length left
    rw [List.length_append] at lengths
    rw [length_holding_cons]
    omega

theorem Turn.proper {rest : List (List Word)} {dropped : List Word}
    (proper : Proper (words :: segments)) (turn : Turn segments (cut format words).2 dropped rest) :
    Proper rest := by
  obtain ⟨here, others⟩ := List.forall_mem_cons.mp proper
  obtain ⟨more, left, ⟨_, _, rfl⟩ | ⟨some, _, rfl⟩⟩ := turn.split
  · exact others
  · refine List.forall_mem_cons.mpr ⟨⟨some, ?_⟩, others⟩
    have parts := congrArg List.length (@cut_append format words)
    rw [left, List.length_append, List.length_append] at parts
    have fits := here.2
    omega

/-- A turn settles what the rest of the drain settles. -/
theorem Settles.of_turn {rest : List (List Word)} {dropped : List Word}
    {result : Except Fault (List Event)} (turn : Turn segments (cut format words).2 dropped rest)
    (unseen : event.trailerEventNo ≤ 0)
    (inside : (cut format words).2 = [] → segments = [] → isPadding (behind 0) = false)
    (later : Settles result
      ((cut format words).1.foldl (Event.word format) event).bank rest.flatten
      (DrainsFrom (resumed ((cut format words).1.foldl (Event.word format) event)) rest
      (behind 0))) :
    Settles result event.bank (words :: segments).flatten
      (DrainsFrom event.copy (words :: segments) (behind 0)) := by
  have whole : (words :: segments).flatten = ((cut format words).1 ++ dropped) ++ rest.flatten := by
    rw [flatten_turn turn, List.append_assoc]
  obtain ⟨copied, bank, sublist, lossless⟩ : ∃ copied,
      ((cut format words).1.foldl (Event.word format) event).bank = event.bank ++ copied ∧
      copied.Sublist (cut format words).1 ∧
      (copied.filter isData = (cut format words).1.filter isData ↔
        (event.copy = false → Quiet (cut format words).1)) := by
    cases copying : event.copy with
    | true =>
      refine ⟨_, bank_foldl_cut_of_ready (by rw [copying]; rfl), List.Sublist.refl _,
        iff_of_true rfl ?_⟩
      intro idle
      cases idle
    | false =>
      refine ⟨_, bank_foldl_cut_of_idle copying, List.dropWhile_sublist _, ?_⟩
      rw [filter_fromHeader_iff]
      exact ⟨fun quiet _ => quiet, fun quiet => quiet rfl⟩
  rw [bank] at later
  rw [whole]
  have settled := later.append (sublist.trans (List.sublist_append_left _ dropped))
  refine ⟨settled.among, settled.yields_iff.trans ?_⟩
  have consumed : copied.filter isData = ((cut format words).1 ++ dropped).filter isData ↔
      copied.filter isData = (cut format words).1.filter isData ∧ dropped.filter isData = [] := by
    rw [List.filter_append, ← List.append_nil (copied.filter isData),
      append_eq_append_of_sublist (sublist.filter _) (List.nil_sublist _), List.append_nil]
    exact and_congr_right fun _ => eq_comm
  rw [consumed, lossless, filter_eq_nil_iff_pads]
  constructor
  · rintro ⟨⟨quiet, pads⟩, drains⟩
    exact drains.of_step turn unseen inside quiet pads
  · intro drains
    obtain ⟨quiet, pads, later⟩ := drains.step turn unseen
    exact ⟨⟨quiet, pads⟩, later⟩

/-- One more call in front of the others. -/
theorem Settles.cons {result : Except Fault (List Event)} {condition : Prop}
    (sizes : ∀ size ∈ event.sizes, 0 ≤ size) (later : Settles result [] words condition) :
    Settles (result.map (event :: ·)) event.bank words condition := by
  refine ⟨fun events ran => ?_, ?_⟩
  · cases result with
    | error fault => cases ran
    | ok others =>
      obtain rfl := Except.ok.inj ran
      obtain ⟨tail, among, all⟩ := later.among others rfl
      exact ⟨tail, among, by rw [List.flatMap_cons, all, List.nil_append]⟩
  · rw [← later.yields_iff]
    cases result with
    | error fault =>
      refine iff_of_false ?_ ?_
      · rintro ⟨_, ran, _⟩
        cases ran
      · rintro ⟨_, ran, _⟩
        cases ran
    | ok others =>
      constructor
      · rintro ⟨events, ran, nonneg, same⟩
        obtain rfl := Except.ok.inj ran
        rw [List.flatMap_cons, List.filter_append, List.filter_append, List.append_right_inj] at same
        rw [List.flatMap_cons] at nonneg
        exact ⟨others, rfl, fun size member => nonneg size (List.mem_append_right _ member), same⟩
      · rintro ⟨events, ran, nonneg, same⟩
        obtain rfl := Except.ok.inj ran
        refine ⟨_, rfl, ?_, ?_⟩
        · intro size member
          rw [List.flatMap_cons] at member
          exact (List.mem_append.mp member).elim (sizes size) (nonneg size)
        · rw [List.flatMap_cons, List.filter_append, List.filter_append, same]
          rfl

/-- One turn in front of the rest of a drain. -/
theorem finish_settles {fuel fuel' : ℕ} (proper : Proper (words :: segments))
    (unseen : event.trailerEventNo ≤ 0) (sizes : ∀ size ∈ event.sizes, 0 ≤ size)
    (positive : 0 < fuel) (positive' : 0 < fuel')
    (later : ∀ {rest dropped} {event : Event}, Turn segments (cut format words).2 dropped rest →
      (∀ size ∈ event.sizes, 0 ≤ size) →
      Settles (goOn gDmaByteswap fuel fuel' event (holding gDmaByteswap rest behind)) event.bank
      rest.flatten (DrainsFrom (resumed event) rest (behind 0))) :
    Settles (finish gDmaByteswap (fuel + 1) fuel' event
      (holding gDmaByteswap (words :: segments) behind)) event.bank
      (words :: segments).flatten (DrainsFrom event.copy (words :: segments) (behind 0)) := by
  obtain ⟨⟨some, fits⟩, _⟩ := List.forall_mem_cons.mp proper
  rw [finish_succ (holding_ne_nil _ _)]
  by_cases past : (cut format words).2 = [] ∧ segments = [] ∧ isPadding (behind 0)
  · obtain ⟨whole, rfl, padding⟩ := past
    rw [bankSegment_pastEnd some fits whole padding]
    refine .of_error ⟨_, rfl⟩ fun drains => ?_
    obtain ⟨w, x, suffix, ends, _⟩ := drains.last padding words rfl
    rcases stops_suffix suffix ends with ⟨_, _, left⟩ | more
    · cases whole.symm.trans left
    · rw [whole] at more
      exact absurd more not_suffix_nil
  · have inside : (cut format words).2 = [] → segments = [] → isPadding (behind 0) = false :=
      fun whole none => Bool.eq_false_of_not_eq_true fun padding => past ⟨whole, none, padding⟩
    have next : (cut format words).2 = [] →
        isPadding ((holding gDmaByteswap segments behind).get 0) = false := by
      intro whole
      cases segments with
      | nil => exact inside whole rfl
      | cons other others => rfl
    rw [bankSegment_holding some fits next]
    have nonneg : ∀ size ∈ ((cut format words).1.foldl (Event.word format) event).sizes, 0 ≤ size := by
      rw [sizes_foldl]
      exact sizes
    rcases kept_cases segments (cut format words).2 with ⟨none, turn⟩ | ⟨short, few, noGap⟩ |
      ⟨dropped, a, b, more, three, enough, turn⟩
    · rw [if_pos none]
      exact (later turn nonneg).of_turn turn unseen inside
    · rw [if_neg short]
      obtain ⟨fuel, rfl⟩ := Nat.exists_eq_succ_of_ne_zero (Nat.ne_of_gt positive)
      obtain ⟨fuel', rfl⟩ := Nat.exists_eq_succ_of_ne_zero (Nat.ne_of_gt positive')
      obtain ⟨nonempty, bytes⟩ :=
        @bytes_of_short gDmaByteswap _ short few (holding gDmaByteswap segments behind)
      exact .of_error (goOn_bytes nonempty bytes) fun drains =>
        noGap (gap_left (drains.gap words List.mem_cons_self))
    · rw [three, if_neg (List.cons_ne_nil _ _), rewritten_eq_holding]
      refine Settles.of_turn turn unseen inside (later turn fun size member => ?_)
      rcases List.mem_append.mp member with before | new
      · exact sizes size before
      · obtain rfl := List.mem_singleton.mp new
        rw [List.length_cons, List.length_cons]
        omega

theorem DrainsFrom.nil (copy : Bool) (behind : Word) : DrainsFrom copy [] behind where
  gap := fun _ member => absurd member List.not_mem_nil
  numbered := fun _ _ suffix => absurd suffix not_suffix_nil
  last := fun _ _ member => absurd member (Option.not_mem_none _)
  quiet := fun _ _ member => absurd member List.not_mem_nil

variable (gDmaByteswap behind) in
/-- However a call stands, and with enough turns, the rest of a drain settles. -/
def RestSettles (segments : List (List Word)) : Prop :=
  ∀ {event : Event} {fuel fuel' : ℕ}, (holding gDmaByteswap segments behind).pending.length < fuel →
    (holding gDmaByteswap segments behind).pending.length < fuel' → (∀ size ∈ event.sizes, 0 ≤ size) →
    Settles (goOn gDmaByteswap fuel fuel' event (holding gDmaByteswap segments behind)) event.bank
      segments.flatten
      (DrainsFrom (resumed event) segments (behind 0))

/-- Behind a turn there are fewer words and segments, so that the turns suffice. -/
theorem settles_behind_turn {rest : List (List Word)} {dropped : List Word} {fuel fuel' : ℕ}
    (later : ∀ rest, rest.flatten.length < (words :: segments).flatten.length → Proper rest →
      RestSettles gDmaByteswap behind rest)
    (proper : Proper (words :: segments)) (turn : Turn segments (cut format words).2 dropped rest)
    (enough : (holding gDmaByteswap (words :: segments) behind).pending.length ≤ fuel)
    (enough' : (holding gDmaByteswap (words :: segments) behind).pending.length ≤ fuel')
    (nonneg : ∀ size ∈ event.sizes, 0 ≤ size) :
    Settles (goOn gDmaByteswap fuel fuel' event (holding gDmaByteswap rest behind)) event.bank
      rest.flatten
      (DrainsFrom (resumed event) rest (behind 0)) := by
  obtain ⟨fewer, shorter⟩ :=
    @Turn.smaller gDmaByteswap words segments behind _ _ (proper words List.mem_cons_self).1 turn
  exact later _ fewer (turn.proper proper) (shorter.trans_le enough) (shorter.trans_le enough') nonneg

/-- The next call, when every drain of fewer words settles. -/
theorem drainEvents_settles_of {fuel' : ℕ} (proper : Proper segments)
    (enough : (holding gDmaByteswap segments behind).pending.length < fuel')
    (later : ∀ rest, rest.flatten.length < segments.flatten.length → Proper rest →
      RestSettles gDmaByteswap behind rest) :
    Settles (drainEvents gDmaByteswap fuel' (holding gDmaByteswap segments behind)) [] segments.flatten
      (DrainsFrom true segments (behind 0)) := by
  obtain ⟨fuel', rfl⟩ := Nat.exists_eq_succ_of_ne_zero (Nat.ne_zero_of_lt enough)
  cases segments with
  | nil =>
    refine ⟨fun events ran => ⟨[], List.Sublist.refl _, ?_⟩,
      iff_of_true ⟨[], rfl, ?_, rfl⟩ (.nil true _)⟩
    · obtain rfl := Except.ok.inj ran
      rfl
    · exact fun _ member => absurd member List.not_mem_nil
  | cons words segments =>
    have enough := Nat.le_of_lt_succ enough
    have positive : 0 < (holding gDmaByteswap (words :: segments) behind).pending.length :=
      List.length_pos_iff.mpr (holding_ne_nil words segments)
    rw [drainEvents_succ (holding_ne_nil _ _)]
    apply @finish_settles gDmaByteswap words segments { copy := true } behind _ _ proper (by decide)
      (fun _ member => absurd member List.not_mem_nil) positive (positive.trans_le enough)
    intro rest dropped event turn nonneg
    exact settles_behind_turn later proper turn (Nat.le_refl _) enough nonneg

theorem rest_settles (proper : Proper segments) : RestSettles gDmaByteswap behind segments := by
  induction count : segments.flatten.length using Nat.strong_induction_on generalizing segments with
  | _ count' ih =>
    subst count
    intro event fuel fuel' enough enough' nonneg
    have later : ∀ rest : List (List Word), rest.flatten.length < segments.flatten.length →
        Proper rest →
        RestSettles gDmaByteswap behind rest := fun rest fewer proper => ih _ fewer proper rfl
    by_cases trailer : 0 < event.trailerEventNo
    · have settled := (drainEvents_settles_of proper enough' later).cons nonneg
      rw [goOn_of_trailer trailer, resumed, decide_eq_true trailer, Bool.true_or]
      exact settled
    · rw [goOn, if_neg trailer, resumed, decide_eq_false trailer, Bool.false_or]
      obtain ⟨fuel, rfl⟩ := Nat.exists_eq_succ_of_ne_zero (Nat.ne_zero_of_lt enough)
      cases segments with
      | nil =>
        obtain ⟨fuel', rfl⟩ := Nat.exists_eq_succ_of_ne_zero (Nat.ne_zero_of_lt enough')
        rw [finish_empty rfl]
        have bank : [event].flatMap Event.bank = event.bank := List.append_nil _
        refine ⟨fun events ran => ⟨[], List.Sublist.refl _, ?_⟩,
          iff_of_true ⟨_, rfl, ?_, ?_⟩ (.nil _ _)⟩
        · obtain rfl := Except.ok.inj ran
          rw [bank, List.append_nil]
        · exact fun size member => nonneg size (List.append_nil event.sizes ▸ member)
        · rw [bank, List.flatten_nil, List.append_nil]
      | cons words segments =>
        have enough := Nat.le_of_lt_succ enough
        have positive : 0 < (holding gDmaByteswap (words :: segments) behind).pending.length :=
          List.length_pos_iff.mpr (holding_ne_nil words segments)
        apply finish_settles proper (not_lt.mp trailer) nonneg (positive.trans_le enough)
          (positive.trans enough')
        intro rest dropped event turn nonneg
        exact settles_behind_turn later proper turn enough enough'.le nonneg

theorem streamLoop_segments (segments : List Segment) {fuel : ℕ} (enough : segments.length < fuel)
    (p32 : List Word) :
    streamLoop gDmaByteswap fuel ⟨segments.flatMap Segment.words, behind⟩ p32 =
      .ok (p32 ++ (segments.map (Segment.read gDmaByteswap)).flatten, ⟨[], behind⟩) := by
  induction segments generalizing fuel p32 with
  | nil =>
    obtain ⟨fuel, rfl⟩ := Nat.exists_eq_succ_of_ne_zero (Nat.ne_zero_of_lt enough)
    rw [List.map_nil, List.flatten_nil, List.append_nil]
    rfl
  | cons segment segments ih =>
    obtain ⟨fuel, rfl⟩ := Nat.exists_eq_succ_of_ne_zero (Nat.ne_zero_of_lt enough)
    have fits := @Segment.read_fits gDmaByteswap segment
    rw [rb_size] at fits
    have nw : (BitVec.ofNat 32 (4 * (segment.read gDmaByteswap).length)).toNat / 4 =
        (segment.read gDmaByteswap).length := by
      rw [BitVec.toNat_ofNat, Nat.mod_eq_of_lt (by omega), Nat.mul_div_cancel_left _ (by decide)]
    have data : ((List.range (segment.read gDmaByteswap).length).map fun j =>
        order gDmaByteswap ((holding gDmaByteswap
          (segment.read gDmaByteswap :: segments.map (Segment.read gDmaByteswap))
          behind).get (2 + j))) = segment.read gDmaByteswap := by
      refine List.ext_getElem (by rw [List.length_map, List.length_range]) fun i inside inside' => ?_
      rw [List.getElem_map, List.getElem_range, get_data inside', order_order]
    have incr : (4 * (segment.read gDmaByteswap).length + 8) / 4 =
        (encode gDmaByteswap (segment.read gDmaByteswap)).length := by
      rw [length_encode]
      omega
    rw [← @holding_read gDmaByteswap, List.map_cons, streamLoop, get_magic, get_size]
    dsimp only
    rw [nw, data, rb_increment_rp, incr, holding_cons, RingBuffer.advance_prepend, holding_read]
    change streamLoop gDmaByteswap fuel ⟨segments.flatMap Segment.words, behind⟩ _ = _
    rw [ih (Nat.lt_of_succ_lt_succ enough), List.append_assoc, List.flatten_cons]

/-- A read pushes a segment: the padding of its alignment, and the words of the transfer. -/
theorem vf48_multi_read_eq_push (ring : Ring) (misaligned : ℕ) {transfer : List Word}
    (some : transfer ≠ []) (fits : 4 * (misaligned + transfer.length) + 8 ≤ rb_size) :
    ∃ segment : Segment, segment.read gDmaByteswap =
        List.replicate misaligned pad ++ transfer.map (order gDmaByteswap) ∧
      vf48_multi_read gDmaByteswap ring misaligned transfer = push ring (Option.some segment) := by
  let padding : Word := if gDmaByteswap then be2cpu 0xdeaddead#32 else 0xdeaddead#32
  have padded : order gDmaByteswap padding = pad := by
    cases gDmaByteswap with
    | false => rfl
    | true => exact be2cpu_be2cpu pad
  refine ⟨⟨List.replicate misaligned padding ++ transfer,
    List.append_ne_nil_of_right_ne_nil _ some, ?_⟩, ?_, ?_⟩
  · rw [List.length_append, List.length_replicate]
    exact fits
  · rw [Segment.read, List.map_append, List.map_replicate, padded]
  · have length : 4 * transfer.length + 4 * misaligned =
      4 * (List.replicate misaligned padding ++ transfer).length := by
      rw [List.length_append, List.length_replicate]
      omega
    rw [vf48_multi_read]
    rw [length]
    rfl

/-- Draining a buffer by event banks gives the words of the stream bank up to padding; no assertion
fails, and every new header has a byte count that is not negative. -/
def Agrees (gDmaByteswap : Bool) (ring : Ring) : Prop :=
  ∃ events stream empty, drainEvents gDmaByteswap (ring.pending.length + 1) ring = .ok events ∧
    vf48_multi_bank_stream gDmaByteswap ring = .ok (stream, empty) ∧
    (∀ size ∈ events.flatMap Event.sizes, 0 ≤ size) ∧
    (events.flatMap Event.bank).filter isData = stream.filter isData

/-- The event banks and the stream bank agree on exactly the segments that drain without loss. -/
theorem agrees_iff (gDmaByteswap : Bool) (segments : List Segment) (behind : ℕ → Word) :
    Agrees gDmaByteswap ⟨segments.flatMap Segment.words, behind⟩ ↔
      Drainable (segments.map (Segment.read gDmaByteswap)) (behind 0) := by
  have proper : Proper (segments.map (Segment.read gDmaByteswap)) := by
    intro words member
    obtain ⟨segment, _, rfl⟩ := List.mem_map.mp member
    exact ⟨segment.read_ne_nil, segment.read_fits⟩
  have settled := drainEvents_settles_of proper
    (Nat.lt_succ_self (holding gDmaByteswap
      (segments.map (Segment.read gDmaByteswap)) behind).pending.length)
    fun rest _ proper => rest_settles proper
  rw [holding_read] at settled
  have stream := @streamLoop_segments gDmaByteswap behind segments _
    (Nat.lt_succ_of_le (length_le_words segments)) []
  rw [List.nil_append] at stream
  constructor
  · rintro ⟨events, words, empty, drained, streamed, sizes, same⟩
    obtain ⟨rfl, _⟩ := Prod.mk.inj (Except.ok.inj (stream.symm.trans streamed))
    exact (settled.yields_iff.mp ⟨events, drained, sizes, same⟩).toDrainable
  · intro drains
    obtain ⟨events, drained, sizes, same⟩ :=
      settled.yields_iff.mpr ⟨drains, fun copying => nomatch copying⟩
    exact ⟨events, _, _, drained, stream, sizes, same⟩

/-- A segment with two events. -/
def twoEvents : List Word := [0x80000001#32, 0xE0000001#32, 0x80000002#32, 0x10000000#32, 0xE0000002#32]

def twoEventsRing : Ring :=
  push ⟨[], fun _ => 0⟩ (some ⟨twoEvents.map be2cpu, by decide, by decide⟩)

/-- The new segment header behind the first event takes the place of two words of the second. -/
theorem twoEvents_lose :
    (drainEvents true 8 twoEventsRing).map (List.map Event.bank) =
        .ok [[0x80000001#32, 0xE0000001#32], [0xE0000002#32]] ∧
      (vf48_multi_bank_stream true twoEventsRing).map Prod.fst = .ok twoEvents ∧
        ¬Agrees true twoEventsRing := by
  have drained : (drainEvents true 8 twoEventsRing).map (List.map Event.bank) =
      .ok [[0x80000001#32, 0xE0000001#32], [0xE0000002#32]] := rfl
  have streamed : (vf48_multi_bank_stream true twoEventsRing).map Prod.fst = .ok twoEvents := rfl
  refine ⟨drained, streamed, ?_⟩
  rintro ⟨events, stream, empty, ran, all, _, same⟩
  have size : twoEventsRing.pending.length + 1 = 8 := rfl
  rw [size] at ran
  rw [ran] at drained
  rw [all] at streamed
  have banks := Except.ok.inj drained
  obtain rfl : stream = twoEvents := Except.ok.inj streamed
  rw [List.flatMap_def, banks] at same
  exact absurd same (by decide)

end PtfConverter.VF48Multi
