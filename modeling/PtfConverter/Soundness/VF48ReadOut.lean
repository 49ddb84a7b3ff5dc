import PtfConverter.Model.VF48ReadOut
import PtfConverter.Soundness.VF48EventOrder
import PtfConverter.ToMathlib.ReadUntil

/-! # What is read from the FIFO

Word by word, nothing is lost: calls that succeed have read an event each, from its header to its
trailer, and skipped words that are no headers; and they do succeed as long as the events and the
gaps are shorter than the countdown. In block transfers of numbers of words that make sense, the
array never takes a word behind its end, and has all blocks in order, each at a multiple of 16.
-/

namespace PtfConverter.VF48Vme

theorem skipToHeader_eq (timeout : ℕ) (kept : List Word) (fifo : Stream' Word) :
    (skipToHeader (timeout + 1) fifo).1 = (readUntil isHeader (timeout + 1) kept fifo).1 ∧
      (readUntil isHeader (timeout + 1) kept fifo).2.1.getLast? =
        some (skipToHeader (timeout + 1) fifo).2.1 ∧
      (skipToHeader (timeout + 1) fifo).2.2 = (readUntil isHeader (timeout + 1) kept fifo).2.2 := by
  induction timeout generalizing kept fifo with
  | zero => simp [skipToHeader, readUntil]
  | succ timeout ih =>
    rw [skipToHeader, readUntil]
    split
    · exact ih _ _
    · exact ⟨rfl, by simp, rfl⟩

theorem copyToTrailer_eq (timeout : ℕ) (pdest : List Word) (fifo : Stream' Word) :
    copyToTrailer timeout pdest fifo = readUntil isEnd timeout pdest fifo := by
  induction timeout generalizing pdest fifo with
  | zero => rfl
  | succ timeout ih => rw [copyToTrailer, readUntil, ih]

theorem skipToHeader_found {timeout : ℕ} {gap : List Word} {header : Word} {rest : Stream' Word}
    (others : ∀ w ∈ gap, !isHeader w) (found : isHeader header) (early : gap.length + 1 < timeout) :
    skipToHeader timeout ((gap ++ [header]) ++ₛ rest) = (timeout - (gap.length + 1), header, rest) := by
  obtain ⟨n, rfl⟩ : ∃ n, timeout = n + 1 := ⟨timeout - 1, by omega⟩
  obtain ⟨countdown, last, left⟩ := skipToHeader_eq n [] ((gap ++ [header]) ++ₛ rest)
  rw [readUntil_found others found early] at countdown last left
  rw [List.nil_append, List.getLast?_concat, Option.some.injEq] at last
  exact Prod.ext countdown (Prod.ext last.symm left)

theorem skipToHeader_found_of {timeout : ℕ} {fifo : Stream' Word}
    (running : (skipToHeader timeout fifo).1 ≠ 0) :
    ∃ gap, (∀ w ∈ gap, !isHeader w) ∧ isHeader (skipToHeader timeout fifo).2.1 ∧
      gap.length + 1 < timeout ∧
      fifo = (gap ++ [(skipToHeader timeout fifo).2.1]) ++ₛ (skipToHeader timeout fifo).2.2 := by
  cases timeout with
  | zero => exact absurd rfl running
  | succ n =>
    obtain ⟨countdown, last, left⟩ := skipToHeader_eq n [] fifo
    rw [countdown] at running
    obtain ⟨gap, header, others, found, early, read, parts⟩ := readUntil_found_of running
    rw [read, List.nil_append, List.getLast?_concat, Option.some.injEq] at last
    rw [← last, left]
    exact ⟨gap, others, found, early, parts⟩

/-- An event with the words in front of it, none of which is a header. -/
structure Piece where
  gap : List Word
  event : FifoEvent
  gap_noHeader : ∀ w ∈ gap, !isHeader w

def Piece.words (piece : Piece) : List Word := piece.gap ++ piece.event.words

/-- The countdowns are not over: the gap with the header, and the rest of the event, have
less than 25000 words. -/
def Piece.Short (piece : Piece) : Prop :=
  piece.gap.length + 1 < 25000 ∧ piece.event.body.length + 1 < 25000

theorem EventRead_eq {nframe : Word} (data : nframe ≠ 0) (fifo : Stream' Word) :
    EventRead nframe fifo =
      if (skipToHeader 25000 fifo).1 = 0 then (VF48_ERR_NODATA, [], (skipToHeader 25000 fifo).2.2)
      else if (copyToTrailer 25000 [(skipToHeader 25000 fifo).2.1]
        (skipToHeader 25000 fifo).2.2).1 = 0 then
        (VF48_ERROR, [], (copyToTrailer 25000 [(skipToHeader 25000 fifo).2.1]
          (skipToHeader 25000 fifo).2.2).2.2)
      else (VF48_SUCCESS,
        (copyToTrailer 25000 [(skipToHeader 25000 fifo).2.1] (skipToHeader 25000 fifo).2.2).2) := by
  rw [EventRead, if_pos data]

/-- A call that finds a short piece returns its event. -/
theorem EventRead_piece {nframe : Word} (data : nframe ≠ 0) (piece : Piece) (short : piece.Short)
    (rest : Stream' Word) :
    EventRead nframe (piece.words ++ₛ rest) = (VF48_SUCCESS, piece.event.words, rest) := by
  have parts : piece.words ++ₛ rest =
      (piece.gap ++ [piece.event.header]) ++ₛ
        ((piece.event.body ++ [piece.event.trailer]) ++ₛ rest) := by
    rw [← Stream'.append_append_stream, Piece.words, FifoEvent.words, List.append_assoc,
      List.singleton_append]
  have skipped : 25000 - (piece.gap.length + 1) ≠ 0 := Nat.sub_ne_zero_of_lt short.1
  have copied : 25000 - (piece.event.body.length + 1) ≠ 0 := Nat.sub_ne_zero_of_lt short.2
  rw [EventRead_eq data, parts,
    skipToHeader_found piece.gap_noHeader piece.event.header_isHeader short.1, if_neg skipped,
    copyToTrailer_eq, readUntil_found piece.event.body_noTrailer piece.event.trailer_isEnd short.2,
    if_neg copied, FifoEvent.words]
  rfl

/-- A call that returns a success has found a short piece, if there were data at all. -/
theorem EventRead_success {nframe : Word} (data : nframe ≠ 0) (fifo : Stream' Word)
    (success : (EventRead nframe fifo).1 = VF48_SUCCESS) :
    ∃ piece : Piece, piece.Short ∧ fifo = piece.words ++ₛ (EventRead nframe fifo).2.2 ∧
      (EventRead nframe fifo).2.1 = piece.event.words := by
  rw [EventRead_eq data] at success ⊢
  split at success
  · exact absurd success (show VF48_ERR_NODATA ≠ VF48_SUCCESS by decide)
  · rename_i skipped
    rw [if_neg skipped]
    split at success
    · exact absurd success (show VF48_ERROR ≠ VF48_SUCCESS by decide)
    · rename_i copied
      rw [if_neg copied]
      obtain ⟨gap, noHeader, header, early, parts⟩ := skipToHeader_found_of skipped
      rw [copyToTrailer_eq] at copied ⊢
      obtain ⟨body, trailer, noTrailer, ends, inTime, read, left⟩ := readUntil_found_of copied
      refine ⟨⟨gap, ⟨_, body, trailer, header, noTrailer, ends⟩, noHeader⟩, ⟨early, inTime⟩, ?_, ?_⟩
      · rw [Piece.words, FifoEvent.words, ← List.singleton_append, ← List.append_assoc,
          Stream'.append_append_stream, ← left]
        exact parts
      · exact read

theorem eventReads_cons (nframe : Word) (nframes : List Word) (fifo : Stream' Word) :
    eventReads (nframe :: nframes) fifo =
      (((EventRead nframe fifo).1, (EventRead nframe fifo).2.1) ::
        (eventReads nframes (EventRead nframe fifo).2.2).1,
        (eventReads nframes (EventRead nframe fifo).2.2).2) := rfl

/-- Short pieces in front of the FIFO are read, one by each call. -/
theorem eventReads_pieces (nframes : List Word) (data : ∀ nframe ∈ nframes, nframe ≠ 0)
    (pieces : List Piece) (count : pieces.length = nframes.length)
    (short : ∀ piece ∈ pieces, piece.Short) (rest : Stream' Word) :
    eventReads nframes (pieces.flatMap Piece.words ++ₛ rest) =
      (pieces.map fun piece => (VF48_SUCCESS, piece.event.words), rest) := by
  induction pieces generalizing nframes with
  | nil =>
    obtain rfl := List.length_eq_zero_iff.mp count.symm
    rfl
  | cons piece pieces ih =>
    cases nframes with
    | nil => exact absurd count (by simp)
    | cons nframe nframes =>
      obtain ⟨found, more⟩ := List.forall_mem_cons.mp data
      obtain ⟨here, later⟩ := List.forall_mem_cons.mp short
      rw [eventReads_cons, List.flatMap_cons, Stream'.append_append_stream,
        EventRead_piece found piece here, ih nframes more (by simpa using count) later,
        List.map_cons]

/-- Calls that succeed have read short pieces. -/
theorem eventReads_success (nframes : List Word) (data : ∀ nframe ∈ nframes, nframe ≠ 0)
    (fifo : Stream' Word)
    (success : ∀ result ∈ (eventReads nframes fifo).1, result.1 = VF48_SUCCESS) :
    ∃ pieces : List Piece, pieces.length = nframes.length ∧ (∀ piece ∈ pieces, piece.Short) ∧
      fifo = pieces.flatMap Piece.words ++ₛ (eventReads nframes fifo).2 ∧
      (eventReads nframes fifo).1 = pieces.map fun piece => (VF48_SUCCESS, piece.event.words) := by
  induction nframes generalizing fifo with
  | nil => exact ⟨[], rfl, by simp, rfl, rfl⟩
  | cons nframe nframes ih =>
    rw [eventReads_cons] at success ⊢
    obtain ⟨first, later⟩ := List.forall_mem_cons.mp success
    obtain ⟨found, more⟩ := List.forall_mem_cons.mp data
    obtain ⟨piece, short, parts, words⟩ := EventRead_success found fifo first
    obtain ⟨pieces, count, shorts, left, results⟩ := ih more _ later
    refine ⟨piece :: pieces, by simp [count], List.forall_mem_cons.mpr ⟨short, shorts⟩, ?_, ?_⟩
    · rw [List.flatMap_cons, Stream'.append_append_stream, ← left]
      exact parts
    · rw [List.map_cons, ← results, ← words, first]

/-- Calls that find data all succeed exactly when short pieces lie in front of the FIFO, one for
each call; they return the events in order and word for word, and leave what is behind. -/
theorem eventReads_iff (nframes : List Word) (data : ∀ nframe ∈ nframes, nframe ≠ 0)
    (fifo rest : Stream' Word) (results : List (Word × List Word)) :
    (eventReads nframes fifo = (results, rest) ∧ ∀ result ∈ results, result.1 = VF48_SUCCESS) ↔
      ∃ pieces : List Piece, pieces.length = nframes.length ∧ (∀ piece ∈ pieces, piece.Short) ∧
        fifo = pieces.flatMap Piece.words ++ₛ rest ∧
        results = pieces.map fun piece => (VF48_SUCCESS, piece.event.words) := by
  constructor
  · rintro ⟨reads, success⟩
    have found := eventReads_success nframes data fifo (by rw [reads]; exact success)
    rwa [reads] at found
  · rintro ⟨pieces, count, short, rfl, rfl⟩
    refine ⟨eventReads_pieces nframes data pieces count short rest, ?_⟩
    intro result mem
    obtain ⟨piece, -, rfl⟩ := List.mem_map.mp mem
    rfl

/-- A word that is no header, and two events. -/
def gapped : List Piece :=
  [⟨[0x40000000], Reader.numbered (Fin.last 3), List.forall_mem_singleton.mpr rfl⟩,
    ⟨[], Reader.numbered (Fin.last 2).castSucc, fun _ mem => absurd mem List.not_mem_nil⟩]

theorem eventReads_gapped :
    eventReads [7, 7] (gapped.flatMap Piece.words ++ₛ Stream'.const 0) =
      (gapped.map fun piece => (VF48_SUCCESS, piece.event.words), Stream'.const 0) := by
  have short : ∀ piece ∈ gapped, piece.Short := by simp [gapped, Piece.Short, Reader.numbered]
  exact ((eventReads_iff [7, 7] (by simp) _ _ _).mpr ⟨gapped, rfl, short, rfl, rfl⟩).1

/-- Blocks lie in an array: each begins at a multiple of 16, with at most three words in front of
it. -/
inductive Laid (address : ℕ) : List (List Word) → List Word → Prop where
  | nil : Laid address [] []
  | snoc {blocks : List (List Word)} {words : List Word} (fill : ℕ) (block : List Word)
      (laid : Laid address blocks words)
      (few : fill ≤ 3) (multiple : 16 ∣ address + 4 * (words.length + fill)) :
      Laid address (blocks ++ [block]) (words ++ List.replicate fill 0xdeadbeef ++ block)

namespace Sync

theorem align_fills (quarter n : ℕ) (pdest : List Word) (few : n ≤ 3)
    (exact : (quarter + pdest.length + n) % 4 = 0) :
    align (4 * quarter) 3 pdest = pdest ++ List.replicate n 0xdeadbeef := by
  suffices fills : ∀ n m (pdest : List Word), n ≤ m → n ≤ 3 → (quarter + pdest.length + n) % 4 = 0 →
      align (4 * quarter) m pdest =
        pdest ++ List.replicate n 0xdeadbeef from fills n 3 pdest few few exact
  intro n
  induction n with
  | zero =>
    intro m pdest _ _ exact
    have there : ¬(4 * quarter + 4 * pdest.length) % 16 ≠ 0 := by omega
    cases m with
    | zero => simp [align]
    | succ m => rw [align, if_neg there, List.replicate_zero, List.append_nil]
  | succ n ih =>
    intro m pdest room few exact
    obtain ⟨m, rfl⟩ : ∃ k, m = k + 1 := ⟨m - 1, by omega⟩
    have notYet : (4 * quarter + 4 * pdest.length) % 16 ≠ 0 := by omega
    rw [align, if_pos notYet, ih m _ (by omega) (by omega) (by simp; omega), List.append_assoc,
      List.replicate_succ, List.singleton_append]

/-- Three words are always enough to come to a multiple of 16. -/
theorem align_eq {address : ℕ} (aligned : 4 ∣ address) (pdest : List Word) :
    ∃ fill ≤ 3, align address 3 pdest = pdest ++ List.replicate fill 0xdeadbeef ∧
      16 ∣ address + 4 * (pdest.length + fill) := by
  obtain ⟨quarter, rfl⟩ := aligned
  refine ⟨(3 * (quarter + pdest.length)) % 4, by
    omega, align_fills quarter _ pdest (by omega) (by omega), by omega⟩

/-- The blocks of some transfers, by the numbers of words. -/
def transferred (collector : Collector) (counts : List ℕ) : List (List Word) :=
  counts.mapIdx fun k count => block collector count k

theorem transferred_concat (collector : Collector) (counts : List ℕ) (count : ℕ) :
    transferred collector (counts ++ [count]) =
      transferred collector counts ++ [block collector count counts.length] :=
  List.mapIdx_concat

variable (collector : Collector) (destination : Destination)

/-- There is room behind what is in the array. -/
def Roomy (sync : Sync) : Prop := sync.pdest = [] ∨ (sync.pdest.length : ℤ) + 7 ≤ destination.max_words

/-- All transfers are in the array. -/
structure Filled (sync : Sync) : Prop where
  laid : ∃ counts : List ℕ, counts.length = sync.blocks ∧
    Laid destination.address (transferred collector counts) sync.pdest
  room : Roomy destination sync

/-- What a pass leaves, where its behaviour is defined: all transfers are in the array, unless the
function ends with an error. -/
structure Leaves (result : Option SyncEnd × Sync) : Prop where
  filled : result.1 = none ∨ result.1 = some .success → Filled collector destination result.2
  room : result.1 ≠ some .undefined → Roomy destination result.2

variable {collector destination}

theorem Filled.initial : Filled collector destination .initial where
  laid := ⟨[], rfl, .nil⟩
  room := .inl rfl

/-- Only the array and the number of transfers matter. -/
theorem Filled.congr {sync other : Sync} (filled : Filled collector destination sync)
    (pdest : other.pdest = sync.pdest) (blocks : other.blocks = sync.blocks) :
    Filled collector destination other := by
  obtain ⟨laid, room⟩ := filled
  exact ⟨by rwa [pdest, blocks], by rwa [Roomy, pdest]⟩

theorem Filled.leaves {sync : Sync} (filled : Filled collector destination sync)
    (ended : Option SyncEnd) :
    Leaves collector destination (ended, sync) := ⟨fun _ => filled, fun _ => filled.room⟩

theorem Leaves.of_undefined (sync : Sync) : Leaves collector destination (some .undefined, sync) :=
  ⟨fun ended => by simp at ended, fun defined => absurd rfl defined⟩

theorem transfer_eq (count : ℤ) (sync : Sync) :
    transfer collector destination count sync =
      if destination.max_words < sync.pdest.length + count + 10 then (some .assertion, sync)
      else if 2 ^ 29 ≤ count then
        (some .undefined, { sync with pdest := align destination.address 3 sync.pdest })
      else if !collector.succeeds sync.blocks then
        (some .exit, { sync with
          pdest := align destination.address 3 sync.pdest, blocks := sync.blocks + 1 })
      else (none, { sync with
        pdest := align destination.address 3 sync.pdest ++ block collector count.toNat sync.blocks
        blocks := sync.blocks + 1 }) := rfl

theorem Filled.transfer {sync : Sync} (filled : Filled collector destination sync) (count : ℕ) :
    Leaves collector destination (transfer collector destination count sync) := by
  obtain ⟨fill, few, aligned, multiple⟩ := align_eq destination.aligned sync.pdest
  rw [transfer_eq]
  split
  · exact filled.leaves _
  · rename_i fits
    rw [aligned]
    split
    · exact .of_undefined _
    · split
      · refine ⟨fun ended => by simp at ended, fun _ => .inr ?_⟩
        simp only [List.length_append, List.length_replicate]
        omega
      · obtain ⟨counts, number, laid⟩ := filled.laid
        refine Filled.leaves ⟨⟨counts ++ [count], by simp [number], ?_⟩, .inr ?_⟩ none
        · rw [transferred_concat, number]
          exact .snoc fill _ laid few multiple
        · simp only [List.length_append, List.length_replicate, block, List.length_map,
            List.length_range, Int.toNat_natCast]
          omega

variable (collector)

theorem csrReads_keeps (reads : ℕ) (csr : Word) (sync : Sync) :
    (csrReads collector reads csr sync).2.pdest = sync.pdest ∧
      (csrReads collector reads csr sync).2.blocks = sync.blocks := by
  induction reads generalizing csr sync with
  | zero => exact ⟨rfl, rfl⟩
  | succ reads ih => exact ih _ _

theorem wait_succ (tries : ℕ) (nframe : Word) (sync : Sync) :
    wait collector (tries + 1) nframe sync =
      if (2000#32).slt ((csrReads collector 10 0 sync).2.nFrameRead collector).1 ∨
          (csrReads collector 10 0 sync).1 &&& VF48_CSR_FIFO_INCOMPLETE = 0 then
        (csrReads collector 10 0 sync).2.nFrameRead collector
      else wait collector tries ((csrReads collector 10 0 sync).2.nFrameRead collector).1
        ((csrReads collector 10 0 sync).2.nFrameRead collector).2 := rfl

theorem wait_keeps (tries : ℕ) (nframe : Word) (sync : Sync) :
    (wait collector tries nframe sync).2.pdest = sync.pdest ∧
      (wait collector tries nframe sync).2.blocks = sync.blocks := by
  induction tries generalizing nframe sync with
  | zero => exact ⟨rfl, rfl⟩
  | succ tries ih =>
    have reads := csrReads_keeps collector 10 0 sync
    rw [wait_succ]
    split
    · exact reads
    · obtain ⟨pdest, blocks⟩ := ih ((csrReads collector 10 0 sync).2.nFrameRead collector).1
        ((csrReads collector 10 0 sync).2.nFrameRead collector).2
      exact ⟨pdest.trans reads.1, blocks.trans reads.2⟩

theorem available_keeps (csr haveData : Word) (sync : Sync) :
    (available collector csr haveData sync).2.pdest = sync.pdest ∧
      (available collector csr haveData sync).2.blocks = sync.blocks := by
  rw [available]
  split
  · exact wait_keeps collector 100 haveData sync
  · exact ⟨rfl, rfl⟩

/-- The first frame count of a pass. -/
def first (sync : Sync) : Word × Sync := (sync.csrRead collector).2.nFrameRead collector

/-- The frame count that a pass goes by, behind the loop that waits. -/
def waited (sync : Sync) : Word × Sync :=
  available collector (sync.csrRead collector).1 (sync.first collector).1 (sync.first collector).2

theorem pass_eq (sync : Sync) :
    pass collector destination sync =
      if (sync.first collector).1 = 0 then (some .success, (sync.first collector).2)
      else if (sync.csrRead collector).1 &&& VF48_CSR_FIFO_EMPTY ≠ 0 then
        (none, (sync.first collector).2)
      else if wordCount (sync.waited collector).1 = 0 then
        (none, ((sync.waited collector).2.csrRead collector).2)
      else if (wordCount (sync.waited collector).1).msb ∨
          2 ^ 31 ≤ (sync.waited collector).2.pdest.length +
            (wordCount (sync.waited collector).1).toNat + 10 then
        (some .undefined, ((sync.waited collector).2.csrRead collector).2)
      else transfer collector destination (wordCount (sync.waited collector).1).toNat
        ((sync.waited collector).2.csrRead collector).2 := rfl

variable {collector}

theorem Filled.pass {sync : Sync} (filled : Filled collector destination sync) :
    Leaves collector destination (pass collector destination sync) := by
  obtain ⟨pdest, blocks⟩ :=
    available_keeps collector (sync.csrRead collector).1 (sync.first collector).1
    (sync.first collector).2
  have begun : Filled collector destination (sync.first collector).2 := filled.congr rfl rfl
  have ready : Filled collector destination ((sync.waited collector).2.csrRead collector).2 :=
    begun.congr pdest blocks
  rw [pass_eq]
  split
  · exact begun.leaves _
  · split
    · exact begun.leaves _
    · split
      · exact ready.leaves _
      · split
        · exact .of_undefined _
        · exact ready.transfer _

theorem passes_succ (n : ℕ) (sync : Sync) :
    passes collector destination (n + 1) sync =
      match pass collector destination sync with
      | (some ended, sync) => (some ended, sync)
      | (none, sync) => passes collector destination n sync := rfl

theorem Filled.passes {sync : Sync} (filled : Filled collector destination sync) (n : ℕ) :
    Leaves collector destination (passes collector destination n sync) := by
  induction n generalizing sync with
  | zero => exact filled.leaves none
  | succ n ih =>
    have once := filled.pass
    rw [passes_succ]
    split
    · rename_i ended after ran
      rwa [ran] at once
    · rename_i after ran
      rw [ran] at once
      exact ih (once.filled (.inl rfl))

end Sync

/-- Whatever the module answers, as long as no number of words is negative or overflows: nothing is
written behind the array, not even into its last seven words; and when the function is successful,
the array has the blocks of all transfers in order, each at a multiple of 16. -/
theorem EventReadSync_laid (collector : Collector) (destination : Destination) (passes : ℕ)
    (defined : (EventReadSync collector destination passes).1 ≠ some .undefined) :
    ((EventReadSync collector destination passes).2 = [] ∨
        ((EventReadSync collector destination passes).2.length : ℤ) + 7 ≤ destination.max_words) ∧
      ((EventReadSync collector destination passes).1 = some .success →
        ∃ counts : List ℕ, counts.length =
          (Sync.passes collector destination passes .initial).2.blocks ∧
          Laid destination.address (Sync.transferred collector counts)
            (EventReadSync collector destination passes).2) := by
  have start : Sync.Filled collector destination .initial := .initial
  have leaves := start.passes passes
  exact ⟨leaves.room defined, fun success => (leaves.filled (.inr success)).laid⟩

/-- A module that has 40 words, then 20, then none. -/
def emptying : Collector where
  csr := fun _ => 0
  nframe := fun access => [40, 20].getD access 0
  word := fun k i => BitVec.ofNat 32 (100 * k + i)
  succeeds := fun _ => true

/-- An array with room for the transfers, which are rounded up, and for what comes in front of
them. -/
def roomyArray : Destination := ⟨0x1004, by decide, 100⟩

theorem EventReadSync_laid_emptying :
    ∃ counts : List ℕ, counts.length = 2 ∧ (EventReadSync emptying roomyArray 3).1 = some .success ∧
      ((EventReadSync emptying roomyArray 3).2.length : ℤ) + 7 ≤ 100 ∧
      Laid 0x1004 (Sync.transferred emptying counts) (EventReadSync emptying roomyArray 3).2 := by
  have success : (EventReadSync emptying roomyArray 3).1 = some .success := by decide
  have blocks : (Sync.passes emptying roomyArray 3 .initial).2.blocks = 2 := by decide
  have some : (EventReadSync emptying roomyArray 3).2 ≠ [] := by decide
  obtain ⟨room, laid⟩ := EventReadSync_laid emptying roomyArray 3 (by rw [success]; decide)
  obtain ⟨counts, count, laid⟩ := laid success
  exact ⟨counts, count.trans blocks, success, room.resolve_left some, laid⟩

end PtfConverter.VF48Vme
