import PtfConverter.Model.VF48Multi
import PtfConverter.Soundness.MultiSegments
import PtfConverter.ToMathlib.Transducer

/-! # Draining a VF48 buffer event by event

One turn of the loop over the segments handles the words up to the cut of the first segment, drops a
padding word behind them, and overwrites two more words where something is left. A new header with a
byte count that is not positive faults in the next turn. The rest of a drain is the rest of the call
that goes on, or the next call.
-/

namespace PtfConverter.VF48Multi

open MultiBuffer

variable {gDmaByteswap : Bool} {words : List Word} {segments : List (List Word)} {behind : ℕ → Word}

theorem be2cpu_eq_iff {w v : Word} : be2cpu w = v ↔ w = be2cpu v := by
  constructor
  · rintro rfl
    exact (be2cpu_be2cpu w).symm
  · rintro rfl
    exact be2cpu_be2cpu v

/-- Padding is padding in both byte orders. -/
theorem isPadding_order (w : Word) : isPadding (order gDmaByteswap w) = isPadding w := by
  cases gDmaByteswap with
  | false => rfl
  | true =>
    rw [Bool.eq_iff_iff, isPadding, isPadding, Bool.or_eq_true, Bool.or_eq_true, beq_iff_eq,
      beq_iff_eq, beq_iff_eq, beq_iff_eq, order, if_pos rfl, be2cpu_eq_iff, be2cpu_eq_iff]
    exact Or.comm

/-- The padding word that is skipped. -/
def skipped (left : List Word) : ℕ := if left.head?.any isPadding then 1 else 0

/-- What a call consumes of a segment, and the words behind. -/
theorem holding_append (taken left : List Word) :
    holding gDmaByteswap ((taken ++ left) :: segments) behind =
      .prepend (magic :: BitVec.ofNat 32 (4 * (taken ++ left).length) :: taken.map (order gDmaByteswap))
        (.prepend (left.map (order gDmaByteswap)) (holding gDmaByteswap segments behind)) := by
  rw [holding_cons, encode, List.map_append]
  simp only [RingBuffer.prepend, List.cons_append, List.append_assoc]

theorem isPadding_behind (taken : List Word) {left : List Word}
    (inside : left = [] → isPadding ((holding gDmaByteswap segments behind).get 0) = false) :
    isPadding ((holding gDmaByteswap ((taken ++ left) :: segments) behind).get (2 + taken.length)) =
      left.head?.any isPadding := by
  have position : 2 + taken.length =
      (magic :: BitVec.ofNat 32 (4 * (taken ++ left).length) :: taken.map
        (order gDmaByteswap)).length + 0 := by
    rw [List.length_cons, List.length_cons, List.length_map]
    omega
  rw [holding_append, position, RingBuffer.get_prepend_add]
  cases left with
  | nil => exact inside rfl
  | cons w after => exact isPadding_order w

/-- The words that a rewritten segment is made from. -/
def kept (left : List Word) : List Word := left.drop (skipped left)

theorem skipped_le (left : List Word) : skipped left ≤ left.length := by
  cases left with
  | nil => exact Nat.le_refl _
  | cons w after =>
    rw [skipped, List.length_cons]
    split_ifs <;> omega

/-- The end of a turn: where something is left, a new header; then the read pointer moves. -/
def endOfTurn (event : Event) (ring : Ring) (nbytes incr : ℕ) : Except Fault (Event × Ring) := do
  let (event, ring) :=
    if incr ≠ nbytes + 8 then
      let size : ℤ := nbytes - incr
      ({ event with sizes := event.sizes ++ [size] },
        (ring.set (incr / 4) magic).set (incr / 4 + 1) (BitVec.ofInt 32 size))
    else (event, ring)
  let ring ← rb_increment_rp ring incr
  return (event, ring)

theorem bankSegment_turn (some : words ≠ []) (fits : 4 * words.length + 8 ≤ rb_size) (event : Event) :
    bankSegment gDmaByteswap event (holding gDmaByteswap (words :: segments) behind) =
      endOfTurn ((cut format words).1.foldl (Event.word format) event)
        (holding gDmaByteswap (words :: segments) behind) (4 * words.length)
        (if isPadding ((holding gDmaByteswap (words :: segments) behind).get
          (2 + (cut format words).1.length)) then
          8 + 4 * (cut format words).1.length + 4 else 8 + 4 * (cut format words).1.length) := by
  rw [rb_size] at fits
  have positive : 0 < words.length := List.length_pos_iff.mpr some
  have size : (BitVec.ofNat 32 (4 * words.length)).toNat = 4 * words.length := by
    rw [BitVec.toNat_ofNat, Nat.mod_eq_of_lt (by omega)]
  have bytes : BitVec.ofNat 32 (4 * words.length) ≠ 0#32 := by
    intro zero
    rw [zero] at size
    have none : 0 = 4 * words.length := size
    omega
  have short : ¬rb_size ≤ (BitVec.ofNat 32 (4 * words.length)).toNat := by
    rw [size, rb_size]
    omega
  have nw : 4 * words.length / 4 = words.length := Nat.mul_div_cancel_left _ (by decide)
  rw [bankSegment]
  dsimp only
  rw [get_magic, get_size, if_neg (not_not.mpr rfl), if_neg bytes, if_neg short, size, nw,
    copyLoop_holding]
  rfl

/-- A segment: the words up to the cut are handled, and a new header is written over the words
behind it, if there are any. -/
theorem bankSegment_holding (some : words ≠ []) (fits : 4 * words.length + 8 ≤ rb_size)
    (inside : (cut format words).2 = [] →
      isPadding ((holding gDmaByteswap segments behind).get 0) = false)
    (event : Event) :
    bankSegment gDmaByteswap event (holding gDmaByteswap (words :: segments) behind) =
      if kept (cut format words).2 = [] then
        .ok ((cut format words).1.foldl (Event.word format) event, holding gDmaByteswap segments behind)
      else
        .ok ({ (cut format words).1.foldl (Event.word format) event with
            sizes := event.sizes ++ [4 * ((kept (cut format words).2).length : ℤ) - 8] },
          ((RingBuffer.prepend ((kept (cut format words).2).map (order gDmaByteswap))
            (holding gDmaByteswap segments behind)).set 0 magic).set 1
              (BitVec.ofInt 32 (4 * ((kept (cut format words).2).length : ℤ) - 8))) := by
  have padding := @isPadding_behind gDmaByteswap segments behind (cut format words).1
    (cut format words).2 inside
  rw [cut_append] at padding
  -- the words that the call consumes, with the padding word
  obtain ⟨consumed, split, count⟩ : ∃ consumed, words = consumed ++ kept (cut format words).2 ∧
      consumed.length = (cut format words).1.length + skipped (cut format words).2 := by
    refine ⟨(cut format words).1 ++ (cut format words).2.take (skipped (cut format words).2), ?_, ?_⟩
    · rw [List.append_assoc, kept, List.take_append_drop, cut_append]
    · rw [List.length_append, List.length_take, Nat.min_eq_left (skipped_le _)]
  have total : words.length = consumed.length + (kept (cut format words).2).length := by
    conv_lhs => rw [split, List.length_append]
  have incr : (if (cut format words).2.head?.any isPadding then 8 + 4 * (cut format words).1.length + 4
      else 8 + 4 * (cut format words).1.length) = 4 * (consumed.length + 2) := by
    rw [count, skipped]
    split_ifs <;> omega
  have front : 4 * (consumed.length + 2) / 4 =
      (magic :: BitVec.ofNat 32 (4 * words.length) :: consumed.map (order gDmaByteswap)).length := by
    rw [Nat.mul_div_cancel_left _ (by decide), List.length_cons, List.length_cons, List.length_map]
  have ring := @holding_append gDmaByteswap segments behind consumed (kept (cut format words).2)
  rw [← split] at ring
  rw [bankSegment_turn some fits, padding, incr, endOfTurn]
  by_cases rest : kept (cut format words).2 = []
  · have whole : ¬4 * (consumed.length + 2) ≠ 4 * words.length + 8 := by
      rw [total, rest, List.length_nil]
      omega
    rw [if_neg whole, if_pos rest]
    dsimp only
    rw [rb_increment_rp, front, ring, RingBuffer.advance_prepend, rest]
    rfl
  · have partly : 4 * (consumed.length + 2) ≠ 4 * words.length + 8 := by
      have more := List.length_pos_iff.mpr rest
      omega
    have header : ((4 * words.length : ℕ) : ℤ) - ((4 * (consumed.length + 2) : ℕ) : ℤ) =
        4 * ((kept (cut format words).2).length : ℤ) - 8 := by
      rw [total]
      omega
    rw [if_pos partly, if_neg rest, header]
    dsimp only
    rw [rb_increment_rp, front, ring, RingBuffer.set_prepend_length, RingBuffer.set_prepend_add,
      RingBuffer.advance_prepend, sizes_foldl]
    rfl

/-- Padding in the memory behind the last segment moves the read pointer past the end. -/
theorem bankSegment_pastEnd (some : words ≠ []) (fits : 4 * words.length + 8 ≤ rb_size)
    (whole : (cut format words).2 = []) (padding : isPadding (behind 0)) (event : Event) :
    bankSegment gDmaByteswap event (holding gDmaByteswap [words] behind) = .error .pastEnd := by
  have taken : (cut format words).1 = words := by
    conv_rhs => rw [← @cut_append format words, whole, List.append_nil]
  have behind_word : (holding gDmaByteswap [words] behind).get (2 + words.length) = behind 0 := get_next
  have written : 8 + 4 * words.length + 4 ≠ 4 * words.length + 8 := by omega
  rw [bankSegment_turn some fits, taken, behind_word, padding, if_pos rfl, endOfTurn, if_pos written]
  dsimp only
  rw [rb_increment_rp, RingBuffer.advance_of_lt]
  · rfl
  · rw [RingBuffer.length_set, RingBuffer.length_set, holding, List.flatMap_singleton, length_encode]
    omega

/-- A buffer whose header does not have a byte count. -/
theorem bankSegment_bytes {ring : Ring} (bytes : ring.get 1 = 0#32 ∨ rb_size ≤ (ring.get 1).toNat)
    (event : Event) :
    ∃ fault, bankSegment gDmaByteswap event ring = .error fault := by
  rw [bankSegment]
  dsimp only
  by_cases header : ring.get 0 ≠ magic
  · exact ⟨_, if_pos header⟩
  · rw [if_neg header]
    by_cases none : ring.get 1 = 0#32
    · exact ⟨_, if_pos none⟩
    · rw [if_neg none, if_pos (bytes.resolve_left none)]
      exact ⟨_, rfl⟩

variable {fuel fuel' : ℕ} {event : Event} {ring : Ring}

/-- The rest of a call, and the calls after it. -/
def finish (gDmaByteswap : Bool) (fuel fuel' : ℕ) (event : Event) (ring : Ring) :
    Except Fault (List Event) := do
  let (event, ring) ← eventLoop gDmaByteswap fuel event ring
  let events ← drainEvents gDmaByteswap fuel' ring
  return event :: events

/-- What follows a turn of the loop: the call has its trailer, or it goes on. -/
def goOn (gDmaByteswap : Bool) (fuel fuel' : ℕ) (event : Event) (ring : Ring) :
    Except Fault (List Event) :=
  if 0 < event.trailerEventNo then do
    let events ← drainEvents gDmaByteswap fuel' ring
    return event :: events
  else finish gDmaByteswap fuel fuel' event ring

theorem finish_succ (more : ring.pending ≠ []) :
    finish gDmaByteswap (fuel + 1) fuel' event ring =
      bankSegment gDmaByteswap event ring >>= fun next =>
        goOn gDmaByteswap fuel fuel' next.1 next.2 := by
  have full : ring.pending.isEmpty = false := List.isEmpty_eq_false_iff.mpr more
  rw [finish, eventLoop, full, if_neg Bool.false_ne_true]
  rcases bankSegment gDmaByteswap event ring with fault | ⟨event, ring⟩
  · rfl
  · rw [Except.ok_bind, Except.ok_bind, goOn]
    dsimp only
    by_cases trailer : 0 < event.trailerEventNo
    · rw [if_pos trailer, if_pos trailer]
      rfl
    · rw [if_neg trailer, if_neg trailer]
      rfl

theorem drainEvents_succ (more : ring.pending ≠ []) :
    drainEvents gDmaByteswap (fuel' + 1) ring =
      finish gDmaByteswap (ring.pending.length + 1) fuel' { copy := true } ring := by
  have full : ring.pending.isEmpty = false := List.isEmpty_eq_false_iff.mpr more
  rw [drainEvents, full]
  rfl

theorem goOn_of_trailer (trailer : 0 < event.trailerEventNo) :
    goOn gDmaByteswap fuel fuel' event ring =
      (drainEvents gDmaByteswap fuel' ring).map (event :: ·) := by
  rw [goOn, if_pos trailer]
  cases drainEvents gDmaByteswap fuel' ring <;> rfl

theorem finish_empty (empty : ring.pending = []) :
    finish gDmaByteswap (fuel + 1) (fuel' + 1) event ring = .ok [event] := by
  rw [finish, eventLoop, empty, List.isEmpty_nil, if_pos rfl, Except.ok_bind]
  dsimp only
  rw [drainEvents, empty]
  rfl

/-- A header without a byte count stops the drain in the turn that reads it. -/
theorem goOn_bytes (more : ring.pending ≠ [])
    (bytes : ring.get 1 = 0#32 ∨ rb_size ≤ (ring.get 1).toNat) :
    ∃ fault, goOn gDmaByteswap (fuel + 1) (fuel' + 1) event ring = .error fault := by
  rw [goOn]
  by_cases trailer : 0 < event.trailerEventNo
  · obtain ⟨fault, failed⟩ := @bankSegment_bytes gDmaByteswap ring bytes { copy := true }
    rw [if_pos trailer, drainEvents_succ more, finish_succ more, failed]
    exact ⟨fault, rfl⟩
  · obtain ⟨fault, failed⟩ := @bankSegment_bytes gDmaByteswap ring bytes event
    rw [if_neg trailer, finish_succ more, failed]
    exact ⟨fault, rfl⟩

/-- A turn faults as the code does, or takes at least a header out of the buffer. -/
theorem bankSegment_ends (gDmaByteswap : Bool) (event : Event) (ring : Ring) :
    (∃ fault, bankSegment gDmaByteswap event ring = .error fault ∧ fault ≠ .stuck) ∨
      ∃ event' next, bankSegment gDmaByteswap event ring = .ok (event', next) ∧
        next.pending.length + 2 ≤ ring.pending.length := by
  cases result : bankSegment gDmaByteswap event ring with
  | error fault =>
    refine .inl ⟨fault, rfl, ?_⟩
    rintro rfl
    rw [bankSegment] at result
    dsimp only at result
    split_ifs at result
    any_goals cases result
    all_goals
      rw [rb_increment_rp] at result
      split at result <;> cases result
  | ok after =>
    obtain ⟨event', next⟩ := after
    refine .inr ⟨event', next, rfl, ?_⟩
    rw [bankSegment] at result
    dsimp only at result
    split_ifs at result
    all_goals
      obtain ⟨moved, increment, same⟩ := Except.bind_eq_ok_iff.mp result
      obtain rfl := (Prod.mk.inj (Except.ok.inj same)).2
      rw [rb_increment_rp] at increment
      split at increment
      · cases increment
      · rename_i advanced
        obtain rfl := Except.ok.inj increment
        have lengths := RingBuffer.length_of_advance advanced
        simp only [RingBuffer.length_set] at lengths
        omega

theorem eventLoop_ends (enough : ring.pending.length < fuel) :
    (∃ fault, eventLoop gDmaByteswap fuel event ring = .error fault ∧ fault ≠ .stuck) ∨
      ∃ event' next, eventLoop gDmaByteswap fuel event ring = .ok (event', next) ∧
        (ring.pending ≠ [] → next.pending.length < ring.pending.length) := by
  induction fuel generalizing event ring with
  | zero => exact absurd enough (Nat.not_lt_zero _)
  | succ fuel ih =>
    rw [eventLoop]
    by_cases empty : ring.pending = []
    · rw [empty]
      exact .inr ⟨event, ring, rfl, fun more => absurd rfl more⟩
    · rw [if_neg (List.isEmpty_iff.not.mpr empty)]
      rcases bankSegment_ends gDmaByteswap event ring with
        ⟨fault, failed, other⟩ | ⟨event', next, ran, fewer⟩
      · rw [failed]
        exact .inl ⟨fault, rfl, other⟩
      · rw [ran, Except.ok_bind]
        dsimp only
        by_cases trailer : 0 < event'.trailerEventNo
        · rw [if_pos trailer]
          exact .inr ⟨event', next, rfl, fun _ => by omega⟩
        · rw [if_neg trailer]
          rcases @ih event' next (by omega) with failed | ⟨event'', last, ran, shrinks⟩
          · exact .inl failed
          · refine .inr ⟨event'', last, ran, fun _ => ?_⟩
            by_cases rest : next.pending = []
            · have none := congrArg List.length rest
              cases fuel with
              | zero => cases ran
              | succ fuel =>
                rw [eventLoop, rest] at ran
                obtain rfl := (Prod.mk.inj (Except.ok.inj ran)).2
                omega
            · have less := shrinks rest
              omega

/-- A drain has enough turns: it ends as the calls of the code do. -/
theorem drainEvents_ne_stuck (enough : ring.pending.length < fuel) :
    drainEvents gDmaByteswap fuel ring ≠ .error .stuck := by
  induction fuel generalizing ring with
  | zero => exact absurd enough (Nat.not_lt_zero _)
  | succ fuel ih =>
    rw [drainEvents]
    by_cases empty : ring.pending = []
    · rw [empty]
      exact fun stuck => nomatch stuck
    · rw [if_neg (List.isEmpty_iff.not.mpr empty), vf48_multi_bank_event]
      rcases @eventLoop_ends gDmaByteswap _ { copy := true } ring (Nat.lt_succ_self _) with
        ⟨fault, failed, other⟩ | ⟨event, next, ran, fewer⟩
      · rw [failed]
        exact fun stuck => other (Except.error.inj stuck)
      · have less := fewer empty
        have rest := @ih next (by omega)
        rw [ran, Except.ok_bind]
        intro stuck
        dsimp only at stuck
        cases later : drainEvents gDmaByteswap fuel next with
        | error fault =>
          rw [later] at stuck
          exact rest (later.trans (congrArg Except.error (Except.error.inj stuck)))
        | ok events =>
          rw [later] at stuck
          cases stuck

end PtfConverter.VF48Multi
