import PtfConverter.Model.VT48Multi
import PtfConverter.Soundness.MultiSegments
import PtfConverter.ToMathlib.Transducer

/-! # Where the VT48 read pointer stands

A bank for one event leaves the read pointer where its trailer ends. That is the header of the next
segment when the trailer is the last word of its segment; otherwise it is a data word, and the
assertion of the next call fails.
-/

namespace PtfConverter.VT48Multi

open MultiBuffer

/-- The buffer is these segments, from the read pointer on. -/
def Holds (ring : Ring) (segments : List Segment) : Prop :=
  ring.pending = segments.flatMap Segment.words

/-- The buffer is empty, or the read pointer is at the header of a segment. -/
def Aligned (ring : Ring) : Prop := ∃ segments, Holds ring segments

/-- The first word of a buffer with whole segments. -/
theorem Aligned.header {ring : Ring} (aligned : Aligned ring) :
    ring.pending = [] ∨ ring.get 0 = magic := by
  obtain ⟨segments, holds⟩ := aligned
  obtain ⟨pending, behind⟩ := ring
  obtain rfl : pending = segments.flatMap Segment.words := holds
  cases segments with
  | nil => exact .inl rfl
  | cons segment segments => exact .inr rfl

variable (gDmaByteswap : Bool)

/-- There is an event trailer among the data of a segment. -/
def hasTrailer (segment : Segment) : Bool := (segment.read gDmaByteswap).any format.isTrailer

/-- Only the last word of the segment is a trailer that ends an event. -/
def EndsAtTrailer (segment : Segment) : Prop :=
  ∀ w after, w :: after <:+ segment.read gDmaByteswap → stops format w after → after = []

/-- There is an event trailer among the data in the buffer. -/
def TrailerBuffered (ring : Ring) : Prop :=
  ∀ segments, Holds ring segments → ∃ segment ∈ segments, hasTrailer gDmaByteswap segment

/-- The first segment with an event trailer ends at it. -/
def FirstEndsAtTrailer (ring : Ring) : Prop :=
  ∀ segments, Holds ring segments →
    ∀ segment ∈ segments.find? (hasTrailer gDmaByteswap), EndsAtTrailer gDmaByteswap segment

variable {gDmaByteswap} {words : List Word} {segments : List (List Word)} {behind : ℕ → Word}

theorem trailerEventNo_foldl_of_none (none : words.any format.isTrailer = false) (event : Event) :
    (words.foldl (Event.word format) event).trailerEventNo = event.trailerEventNo := by
  induction words generalizing event with
  | nil => rfl
  | cons w words ih =>
    obtain ⟨first, later⟩ := Bool.or_eq_false_iff.mp none
    rw [List.foldl_cons, ih later, trailerEventNo_word, first, if_neg Bool.false_ne_true]

theorem trailerEventNo_foldl_nonneg {event : Event} (seen : 0 ≤ event.trailerEventNo) :
    0 ≤ (words.foldl (Event.word format) event).trailerEventNo := by
  induction words generalizing event with
  | nil => exact seen
  | cons w words ih =>
    refine ih ?_
    rw [trailerEventNo_word]
    split_ifs
    · exact Int.natCast_nonneg _
    · exact seen

theorem trailerEventNo_foldl_of_any (some : words.any format.isTrailer) (event : Event) :
    0 ≤ (words.foldl (Event.word format) event).trailerEventNo := by
  induction words generalizing event with
  | nil => cases some
  | cons w words ih =>
    rcases Bool.or_eq_true_iff.mp some with first | later
    · refine @trailerEventNo_foldl_nonneg words (event.word format w) ?_
      rw [trailerEventNo_word, if_pos first]
      exact Int.natCast_nonneg _
    · exact ih later _

/-- A segment that the loop goes through to its end. -/
theorem bankSegment_holding (fits : 4 * words.length + 8 ≤ rb_size)
    (whole : cut format words = (words, [])) (event : Event) :
    bankSegment gDmaByteswap event (holding gDmaByteswap (words :: segments) behind) =
      .ok (words.foldl (Event.word format) event, holding gDmaByteswap segments behind) := by
  have size : (BitVec.ofNat 32 (4 * words.length)).toInt = (4 * words.length : ℕ) := by
    rw [rb_size] at fits
    rw [BitVec.toInt_ofNat', Int.bmod_eq_of_le (by omega) (by omega)]
  have nw : ((4 * words.length : ℕ) : ℤ).tdiv 4 = (words.length : ℕ) := by
    rw [Int.tdiv_eq_ediv_of_nonneg (Int.natCast_nonneg _)]
    omega
  have incr : (8 + 4 * words.length) / 4 = (encode gDmaByteswap words).length := by
    rw [length_encode]
    omega
  rw [bankSegment]
  dsimp only
  rw [get_magic, get_size, size, nw, Int.toNat_natCast, copyLoop_holding, whole]
  dsimp only
  rw [rb_increment_rp, incr, holding_cons, RingBuffer.advance_prepend]
  rfl

/-- A segment without a trailer is taken whole. -/
theorem cut_of_no_trailer (none : words.any format.isTrailer = false) :
    cut format words = (words, []) := by
  refine cut_of_ends_last fun w after suffix ends => absurd none ?_
  have member : w ∈ words := suffix.subset List.mem_cons_self
  have trailer : format.isTrailer w := isTrailer_of_stops ends
  exact ne_false_of_eq_true (List.any_eq_true.mpr ⟨w, member, trailer⟩)

/-- The loop ends behind the first segment with a trailer. -/
theorem eventLoop_segments {segments : List Segment} {segment : Segment}
    (first : segments.find? (hasTrailer gDmaByteswap) = some segment)
    (ends : EndsAtTrailer gDmaByteswap segment) {event : Event}
    (unseen : event.trailerEventNo < 0) {fuel : ℕ} (enough : segments.length < fuel) :
    ∃ (event' : Event) (rest : List Segment),
      eventLoop gDmaByteswap fuel event ⟨segments.flatMap Segment.words, behind⟩ =
      .ok (event', ⟨rest.flatMap Segment.words, behind⟩) := by
  induction segments generalizing event fuel with
  | nil => cases first
  | cons head segments ih =>
    obtain ⟨fuel, rfl⟩ := Nat.exists_eq_succ_of_ne_zero (Nat.ne_zero_of_lt enough)
    rw [← @holding_read gDmaByteswap, List.map_cons, Nat.succ_eq_add_one, eventLoop]
    cases found : hasTrailer gDmaByteswap head with
    | true =>
      rw [List.find?_cons_of_pos found] at first
      obtain rfl := Option.some.inj first
      rw [bankSegment_holding head.read_fits (cut_of_ends_last ends), Except.ok_bind]
      dsimp only
      rw [if_pos (trailerEventNo_foldl_of_any found event), holding_read]
      exact ⟨_, segments, rfl⟩
    | false =>
      rw [List.find?_cons_of_neg (Bool.not_eq_true _ ▸ found)] at first
      have number := trailerEventNo_foldl_of_none found event
      rw [bankSegment_holding head.read_fits (cut_of_no_trailer found), Except.ok_bind]
      dsimp only
      rw [number, if_neg (Int.not_le.mpr unseen), holding_read]
      exact ih first (number.symm ▸ unseen) (Nat.lt_of_succ_lt_succ enough)

theorem vt48_multi_bank_aligned {ring : Ring} (aligned : Aligned ring)
    (buffered : TrailerBuffered gDmaByteswap ring) (ends : FirstEndsAtTrailer gDmaByteswap ring) :
    ∃ next, Call.bank.apply gDmaByteswap ring = .ok next ∧ Aligned next := by
  obtain ⟨segments, holds⟩ := aligned
  obtain ⟨pending, behind⟩ := ring
  have first : (segments.find? (hasTrailer gDmaByteswap)).isSome :=
    List.find?_isSome.mpr (buffered segments holds)
  obtain ⟨segment, found⟩ := Option.isSome_iff_exists.mp first
  have last := ends segments holds segment found
  obtain rfl : pending = segments.flatMap Segment.words := holds
  obtain ⟨event, rest, ran⟩ := @eventLoop_segments gDmaByteswap behind segments segment found last _
    (by decide : ({ copy := false } : Event).trailerEventNo < 0) _
      (Nat.lt_succ_of_le (length_le_words segments))
  refine ⟨⟨rest.flatMap Segment.words, behind⟩, ?_, rest, rfl⟩
  rw [Call.apply, vt48_multi_bank, if_neg (by decide), ran]
  rfl

theorem vt48_multi_read_aligned {ring : Ring} (aligned : Aligned ring) (csr : Word)
    (transfer : Option (Fin (nf csr) → Word)) : Aligned (vt48_multi_read ring csr transfer) := by
  obtain ⟨segments, holds⟩ := aligned
  rw [vt48_multi_read]
  split_ifs with none
  · exact ⟨segments, holds⟩
  · cases transfer with
    | none => exact ⟨segments, holds⟩
    | some words =>
      refine ⟨segments ++ [transferred csr words none], ?_⟩
      rw [Holds, List.flatMap_append, List.flatMap_singleton, ← holds]
      rfl

/-- The buffer after some calls, from an empty one. -/
def stateAfter (gDmaByteswap : Bool) (behind : ℕ → Word) (calls : List Call) : Except Fault Ring :=
  calls.foldlM (Call.apply gDmaByteswap) ⟨[], behind⟩

/-- What holds before each bank for one event. -/
def BeforeBanks (gDmaByteswap : Bool) (behind : ℕ → Word) (calls : List Call)
    (P : Ring → Prop) : Prop :=
  ∀ past ring, past ++ [.bank] <+: calls → stateAfter gDmaByteswap behind past = .ok ring → P ring

/-- When each bank finds a trailer, and the first segment with one ends at it, no assertion fails
and every call leaves the buffer empty or the read pointer at a header. -/
theorem aligned_of_ends {calls : List Call}
    (buffered : BeforeBanks gDmaByteswap behind calls (TrailerBuffered gDmaByteswap))
    (ends : BeforeBanks gDmaByteswap behind calls (FirstEndsAtTrailer gDmaByteswap)) :
    ∀ past, past <+: calls → ∃ ring, stateAfter gDmaByteswap behind past = .ok ring ∧ Aligned ring := by
  intro past
  induction past using List.reverseRecOn with
  | nil =>
    intro _
    exact ⟨_, rfl, [], rfl⟩
  | append_singleton past call ih =>
    intro reached
    obtain ⟨ring, ran, aligned⟩ := ih ((List.prefix_append past [call]).trans reached)
    have last : stateAfter gDmaByteswap behind (past ++ [call]) = call.apply gDmaByteswap ring := by
      rw [stateAfter, List.foldlM_append]
      change stateAfter gDmaByteswap behind past >>= _ = _
      rw [ran, Except.ok_bind, List.foldlM_cons]
      exact bind_pure _
    rw [last]
    cases call with
    | read csr transfer => exact ⟨_, rfl, vt48_multi_read_aligned aligned csr transfer⟩
    | bank =>
      have ready := buffered past ring reached ran
      exact vt48_multi_bank_aligned aligned ready (ends past ring reached ran)

theorem endsAtTrailer_iff (segment : Segment) :
    EndsAtTrailer gDmaByteswap segment ↔ (cut format (segment.read gDmaByteswap)).2 = [] := by
  constructor
  · intro ends
    rw [cut_of_ends_last ends]
  · intro whole w after suffix ends
    rcases stops_suffix suffix ends with ⟨_, _, left⟩ | behind
    · exact left.symm.trans whole
    · rw [whole] at behind
      exact absurd behind not_suffix_nil

/-- A transfer of the words that the module has. -/
def reading (words : List Word) : Call :=
  .read (BitVec.ofNat 32 words.length) (some fun i => words.getD i 0#32)

/-- Header and trailer of an event, as they are in memory. -/
def headerOf (n : ℕ) : Word := be2cpu (0x10000000#32 + BitVec.ofNat 32 n)

def trailerOf (n : ℕ) : Word := be2cpu (0x80000000#32 + BitVec.ofNat 32 n)

theorem BeforeBanks.nil (P : Ring → Prop) : BeforeBanks gDmaByteswap behind [] P := by
  intro past ring reached
  exact absurd (List.prefix_nil.mp reached)
    (List.append_ne_nil_of_right_ne_nil past (List.cons_ne_nil _ _))

/-- One more read. -/
theorem BeforeBanks.read {calls : List Call} {P : Ring → Prop}
    (before : BeforeBanks gDmaByteswap behind calls P) (words : List Word) :
    BeforeBanks gDmaByteswap behind (calls ++ [reading words]) P := by
  intro past ring reached ran
  rcases List.prefix_concat_iff.mp reached with same | earlier
  · exact Call.noConfusion (List.singleton_inj.mp (List.append_inj' same rfl).2)
  · exact before past ring earlier ran

/-- One more bank. -/
theorem BeforeBanks.bank {calls : List Call} {P : Ring → Prop}
    (before : BeforeBanks gDmaByteswap behind calls P) {ring : Ring}
    (state : stateAfter gDmaByteswap behind calls = .ok ring) (holds : P ring) :
    BeforeBanks gDmaByteswap behind (calls ++ [.bank]) P := by
  intro past other reached ran
  rcases List.prefix_concat_iff.mp reached with same | earlier
  · obtain ⟨rfl, _⟩ := List.append_inj' same rfl
    obtain rfl := Except.ok.inj (state.symm.trans ran)
    exact holds
  · exact before past other earlier ran

theorem forall_holds {ring : Ring} {segments : List Segment} (holds : Holds ring segments)
    {P : List Segment → Prop} (holdsOf : P segments) : ∀ others, Holds ring others → P others := by
  intro others same
  exact flatMap_words_injective (holds.symm.trans same) ▸ holdsOf

/-- What one event's bank needs, from the segments that are buffered. -/
theorem ready_of_find {ring : Ring} {segments : List Segment} {segment : Segment}
    (holds : Holds ring segments)
    (first : segments.find? (hasTrailer gDmaByteswap) = some segment)
    (ends : (cut format (segment.read gDmaByteswap)).2 = []) :
    TrailerBuffered gDmaByteswap ring ∧ FirstEndsAtTrailer gDmaByteswap ring := by
  refine ⟨forall_holds holds ⟨segment, List.mem_of_find?_eq_some first, List.find?_some first⟩,
    forall_holds holds ?_⟩
  intro found same
  obtain rfl := Option.some.inj (first.symm.trans same)
  exact (endsAtTrailer_iff _).mpr ends

/-- An event in two parts, and two whole ones, each of which ends its segment. -/
def firstHalf : Segment := ⟨[headerOf 1, 7, 8], by decide, by decide⟩

def secondHalf : Segment := ⟨[9, trailerOf 1], by decide, by decide⟩

def second : Segment := ⟨[headerOf 2, trailerOf 2], by decide, by decide⟩

def third : Segment := ⟨[headerOf 3, 5, trailerOf 3], by decide, by decide⟩

/-- The bank for the first event comes before the third one is read. -/
def threeEvents : List Call :=
  [reading firstHalf.data, reading secondHalf.data, reading second.data, .bank, reading third.data,
    .bank, .bank]

theorem beforeBanks_threeEvents {P : Ring → Prop}
    (ready : ∀ {ring segments segment}, Holds ring segments →
      segments.find? (hasTrailer true) = some segment → (cut format (segment.read true)).2 = [] →
      P ring) :
    BeforeBanks true (fun _ => 0) threeEvents P := by
  have whole : Holds ⟨[firstHalf, secondHalf, second].flatMap Segment.words,
    fun _ => 0⟩ [firstHalf, secondHalf, second] := rfl
  have two : Holds ⟨[second, third].flatMap Segment.words, fun _ => 0⟩ [second, third] := rfl
  have one : Holds ⟨[third].flatMap Segment.words, fun _ => 0⟩ [third] := rfl
  have start : BeforeBanks true (fun _ => 0) [] P := .nil P
  have first := ((start.read firstHalf.data).read secondHalf.data).read second.data
  have next := (first.bank rfl (ready whole (by rfl) (by decide))).read third.data
  exact (next.bank rfl (ready two (by rfl) (by decide))).bank rfl (ready one (by rfl) (by decide))

theorem aligned_of_ends_threeEvents :
    (∃ ring, stateAfter true (fun _ => 0) (threeEvents.take 4) = .ok ring ∧ Aligned ring) ∧
      ∃ ring, stateAfter true (fun _ => 0) threeEvents = .ok ring ∧ Aligned ring := by
  have aligned := aligned_of_ends
    (beforeBanks_threeEvents fun holds first ends => (ready_of_find holds first ends).1)
    (beforeBanks_threeEvents fun holds first ends => (ready_of_find holds first ends).2)
  exact ⟨aligned _ (List.take_prefix 4 threeEvents), aligned _ List.prefix_rfl⟩

/-- Two events in one segment. -/
def twoEvents : List Word := [headerOf 1, trailerOf 1, headerOf 2, trailerOf 2]

def twoEventsSegment : Segment := ⟨twoEvents, by decide, by decide⟩

/-- The bank for the first of two events leaves the read pointer at the header word of the second,
where the next bank fails. -/
theorem twoEvents_misaligned :
    BeforeBanks true (fun _ => 0) [reading twoEvents, .bank] (TrailerBuffered true) ∧
      ∃ ring, stateAfter true (fun _ => 0) [reading twoEvents, .bank] = .ok ring ∧
        ring.pending = [headerOf 2, trailerOf 2] ∧ ¬Aligned ring ∧
        Call.bank.apply true ring = .error .noHeader := by
  have pushed : stateAfter true (fun _ => 0) [reading twoEvents] =
    .ok ⟨twoEventsSegment.words, fun _ => 0⟩ := rfl
  have holds : Holds ⟨twoEventsSegment.words, fun _ => 0⟩ [twoEventsSegment] := rfl
  refine ⟨((BeforeBanks.nil _).read twoEvents).bank pushed
    (forall_holds holds ⟨_, List.mem_cons_self, by decide⟩),
    ⟨[headerOf 2, trailerOf 2], fun _ => 0⟩, rfl, rfl, fun aligned => ?_, rfl⟩
  rcases aligned.header with empty | header
  · cases empty
  · exact absurd header (by decide)

end PtfConverter.VT48Multi
