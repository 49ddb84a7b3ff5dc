import Mathlib.Data.List.TakeWhile
import PtfConverter.Model.VF48Read64

/-! # Events of a FIFO, in order

What a reader has not given back yet is the rest of its array and the FIFO behind it. A transfer moves
words from one to the other, and a call takes one event from the front. Between two calls this holds
as long as the array keeps its words, which nothing in the function provides for; and the end of the
words is taken for the end of the event when a trailer happens to lie behind them.
-/

namespace PtfConverter.VF48Vme

/-- An event in the FIFO, from its header to its trailer. -/
structure FifoEvent where
  header : Word
  body : List Word
  trailer : Word
  header_isHeader : isHeader header
  body_noTrailer : ∀ w ∈ body, !isEnd w
  trailer_isEnd : isEnd trailer

def FifoEvent.words (event : FifoEvent) : List Word := event.header :: (event.body ++ [event.trailer])

namespace Reader

/-- The words of the array that are still to be read. -/
def unread (reader : Reader) : List Word :=
  (List.range' reader.idx (reader.inbuf - reader.idx)).map reader.lData

/-- What the next calls have to give back. -/
def pending (reader : Reader) : List Word := reader.unread ++ reader.fifo

theorem unread_length (reader : Reader) : reader.unread.length = reader.inbuf - reader.idx := by
  rw [unread, List.length_map, List.length_range']

theorem unread_getElem (reader : Reader) (i : ℕ) (bound : i < reader.unread.length) :
    reader.unread[i] = reader.lData (reader.idx + i) := by
  simp [unread]

theorem unread_eq_nil (reader : Reader) (exhausted : reader.inbuf ≤ reader.idx) :
    reader.unread = [] := by
  rw [← List.length_eq_zero_iff, unread_length]
  omega

theorem pending_of_exhausted (reader : Reader) (exhausted : reader.inbuf ≤ reader.idx) :
    reader.pending = reader.fifo := by
  rw [pending, unread_eq_nil reader exhausted, List.nil_append]

theorem unread_eq_cons (reader : Reader) (more : reader.idx < reader.inbuf) :
    reader.unread = reader.lData reader.idx ::
      ({ reader with idx := reader.idx + 1 } : Reader).unread := by
  rw [unread, unread, show reader.inbuf - reader.idx = reader.inbuf - (reader.idx + 1) + 1 by omega,
    List.range'_succ, List.map_cons]

theorem unread_congr {reader other : Reader} (idx : other.idx = reader.idx)
    (inbuf : other.inbuf = reader.inbuf)
    (same : ∀ i < reader.inbuf, reader.idx ≤ i → other.lData i = reader.lData i) :
    other.unread = reader.unread := by
  rw [unread, unread, idx, inbuf]
  apply List.map_congr_left
  intro i mem
  rw [List.mem_range'_1] at mem
  exact same i (by omega) mem.1

variable (offered : ℕ → ℕ)

theorem transfer_unread (reader : Reader) :
    (reader.transfer offered).unread = reader.fifo.take (reader.nFrameRead offered) := by
  have fits : reader.nFrameRead offered ≤ reader.fifo.length := min_le_right _ _
  apply List.ext_getElem
  · rw [unread_length, List.length_take]
    change reader.nFrameRead offered - 0 = _
    omega
  · intro i here there
    have bound : i < reader.nFrameRead offered := by
      rw [List.length_take] at there
      omega
    rw [unread_getElem, List.getElem_take]
    simp [transfer, bound, List.getElem?_eq_getElem (bound.trans_le fits)]

/-- A transfer loses the words of the array only. -/
theorem transfer_pending (reader : Reader) : (reader.transfer offered).pending = reader.fifo := by
  rw [pending, transfer_unread]
  exact List.take_append_drop _ _

theorem transfer_inbuf (reader : Reader) (small : ∀ k, offered k ≤ VF48_IDXMAX) :
    (reader.transfer offered).inbuf ≤ VF48_IDXMAX :=
  (min_le_left _ _).trans (small _)

/-- Where a header is next, no word is skipped. -/
theorem scanHeader_here (words : ℕ) (reader : Reader) (header : isHeader (reader.lData reader.idx)) :
    scanHeader words reader = reader := by
  cases words with
  | zero => rfl
  | succ words => rw [scanHeader, if_pos header]

theorem scanHeader_exhausted (reader : Reader) (exhausted : reader.inbuf ≤ reader.idx) :
    scanHeader (reader.inbuf - reader.idx) reader = reader := by
  rw [Nat.sub_eq_zero_of_le exhausted, scanHeader]

/-- The header has been copied. -/
def headerTaken (reader : Reader) : Reader :=
  { reader with
    pdest := reader.pdest ++ [reader.lData reader.idx]
    lData := Function.update reader.lData reader.idx 0xFFFFFFFF
    idx := reader.idx + 1 }

theorem findHeader_exhausted (timeout : ℕ) (reader : Reader) (exhausted : reader.inbuf ≤ reader.idx) :
    findHeader offered (timeout + 1) reader = findHeader offered timeout (reader.transfer offered) := by
  rw [findHeader, scanHeader_exhausted reader exhausted, if_neg (by omega)]

theorem findHeader_here (timeout : ℕ) (reader : Reader) (more : reader.idx < reader.inbuf)
    (header : isHeader (reader.lData reader.idx)) :
    findHeader offered (timeout + 1) reader = (true, reader.headerTaken) := by
  rw [findHeader, scanHeader_here _ reader header, if_pos more]
  rfl

theorem headerTaken_unread (reader : Reader) (more : reader.idx < reader.inbuf) :
    reader.unread = reader.lData reader.idx :: reader.headerTaken.unread := by
  rw [unread_eq_cons reader more]
  congr 1
  symm
  apply unread_congr
  · rfl
  · rfl
  · intro i _ past
    exact Function.update_of_ne (Nat.ne_of_gt past) _ _

/-- With nothing pending no header is found. -/
theorem findHeader_nothing (timeout : ℕ) (reader : Reader) (nothing : reader.pending = []) :
    (findHeader offered timeout reader).1 = false := by
  induction timeout generalizing reader with
  | zero => rfl
  | succ timeout ih =>
    obtain ⟨noWords, noFifo⟩ := List.append_eq_nil_iff.mp nothing
    have exhausted : reader.inbuf ≤ reader.idx := by
      rw [← List.length_eq_zero_iff, unread_length] at noWords
      omega
    rw [findHeader_exhausted offered timeout reader exhausted]
    exact ih _ ((transfer_pending offered reader).trans noFifo)

/-- With a header in front, the header loop takes it, unless the retries end. -/
theorem findHeader_front (timeout : ℕ) (reader : Reader) {w : Word} {rest : List Word}
    (front : reader.pending = w :: rest) (header : isHeader w) (small : ∀ k, offered k ≤ VF48_IDXMAX)
    (fits : reader.inbuf ≤ VF48_IDXMAX) (found : (findHeader offered timeout reader).1 = true) :
    (findHeader offered timeout reader).2.pdest = reader.pdest ++ [w] ∧
      (findHeader offered timeout reader).2.pending = rest ∧
        (findHeader offered timeout reader).2.inbuf ≤ VF48_IDXMAX := by
  induction timeout generalizing reader with
  | zero => cases found
  | succ timeout ih =>
    by_cases more : reader.idx < reader.inbuf
    · rw [pending, headerTaken_unread reader more, List.cons_append] at front
      obtain ⟨first, others⟩ := List.cons.inj front
      rw [findHeader_here offered timeout reader more (by rwa [first])]
      exact ⟨by rw [← first]; rfl, others, fits⟩
    · have exhausted : reader.inbuf ≤ reader.idx := Nat.le_of_not_lt more
      rw [pending_of_exhausted reader exhausted] at front
      rw [findHeader_exhausted offered timeout reader exhausted] at found ⊢
      exact ih _ ((transfer_pending offered reader).trans front)
        (transfer_inbuf offered reader small) found

theorem copyWords_eq (words : ℕ) (reader : Reader) (all : words = reader.inbuf - reader.idx) :
    copyWords words reader = { reader with
      pdest := reader.pdest ++ reader.unread.takeWhile (!isEnd ·)
      idx := reader.idx + (reader.unread.takeWhile (!isEnd ·)).length } := by
  induction words generalizing reader with
  | zero =>
    rw [unread_eq_nil reader (by omega)]
    simp [copyWords]
  | succ words ih =>
    rw [copyWords, unread_eq_cons reader (by omega)]
    by_cases trailer : isEnd (reader.lData reader.idx)
    · simp [trailer]
    · rw [if_neg trailer, ih _ (by simp only; omega)]
      simp [trailer, Nat.add_assoc, Nat.add_comm 1]
      exact ⟨rfl, rfl⟩

theorem copied_eq (reader : Reader) :
    reader.copied = { reader with
      pdest := reader.pdest ++ reader.unread.takeWhile (!isEnd ·)
      idx := reader.idx + (reader.unread.takeWhile (!isEnd ·)).length } :=
  copyWords_eq _ reader rfl

/-- In no round of the trailer loop the words end in front of a trailer that does not belong to
them. -/
def NoStaleTrailer : ℕ → Reader → Prop
  | 0, _ => True
  | timeout + 1, reader =>
      (reader.copied.inbuf ≤ reader.copied.idx → !isEnd (reader.copied.lData reader.copied.idx)) ∧
        (!isEnd (reader.copied.lData reader.copied.idx) →
          NoStaleTrailer timeout (reader.copied.transfer offered))

instance NoStaleTrailer.decidable :
    (timeout : ℕ) → (reader : Reader) → Decidable (NoStaleTrailer offered timeout reader)
  | 0, _ => inferInstanceAs (Decidable True)
  | timeout + 1, reader =>
      have := NoStaleTrailer.decidable timeout (reader.copied.transfer offered)
      inferInstanceAs (Decidable (_ ∧ _))

/-- The words up to the trailer are in the array. -/
theorem copied_whole (reader : Reader) {body more : List Word} {trailer : Word}
    (front : reader.unread = body ++ trailer :: more) (noTrailer : ∀ w ∈ body, !isEnd w)
    (isTrailer : isEnd trailer) :
    reader.copied.pdest = reader.pdest ++ body ∧ reader.copied.unread = trailer :: more ∧
      reader.copied.lData reader.copied.idx = trailer := by
  have stop : reader.unread.takeWhile (!isEnd ·) = body := by
    rw [front, List.takeWhile_append_of_pos noTrailer, List.takeWhile_cons_of_neg (by simp [isTrailer]),
      List.append_nil]
  have length := congrArg List.length front
  rw [unread_length, List.length_append, List.length_cons] at length
  have rest : reader.copied.unread = trailer :: more := by
    have dropped : reader.copied.unread = reader.unread.drop body.length := by
      rw [copied_eq, stop]
      apply List.ext_getElem
      · simp only [unread_length, List.length_drop]
        omega
      · intro i here there
        rw [List.getElem_drop, unread_getElem, unread_getElem]
        simp only [Nat.add_assoc]
    rw [dropped, front, List.drop_left]
  refine ⟨?_, rest, ?_⟩
  · rw [copied_eq, stop]
  · have here : reader.copied.idx < reader.copied.inbuf := by
      rw [copied_eq, stop]
      change reader.idx + body.length < reader.inbuf
      omega
    rw [unread_eq_cons _ here] at rest
    exact (List.cons.inj rest).1

/-- There is no trailer in the array: all of its words are copied. -/
theorem copied_all (reader : Reader) (noTrailer : ∀ w ∈ reader.unread, !isEnd w) :
    reader.copied.pdest = reader.pdest ++ reader.unread ∧ reader.copied.inbuf ≤ reader.copied.idx := by
  have stop : reader.unread.takeWhile (!isEnd ·) = reader.unread :=
    List.takeWhile_eq_self_iff.mpr noTrailer
  rw [copied_eq, stop]
  refine ⟨rfl, ?_⟩
  change reader.inbuf ≤ reader.idx + reader.unread.length
  rw [unread_length]
  omega

theorem copied_inbuf (reader : Reader) : reader.copied.inbuf = reader.inbuf := by rw [copied_eq]

theorem copied_fifo (reader : Reader) : reader.copied.fifo = reader.fifo := by rw [copied_eq]

/-- The array has the trailer, or it ends in front of it. -/
theorem pending_split (reader : Reader) {body rest : List Word} {trailer : Word}
    (front : reader.pending = body ++ trailer :: rest) :
    (∃ more, reader.unread = body ++ trailer :: more ∧ rest = more ++ reader.fifo) ∨
      ∃ later, body = reader.unread ++ later ∧ reader.fifo = later ++ trailer :: rest := by
  rcases List.append_eq_append_iff.mp front with ⟨later, body_eq, fifo_eq⟩ | ⟨now, unread_eq, fifo_eq⟩
  · exact .inr ⟨later, body_eq, fifo_eq⟩
  · cases now with
    | nil => exact .inr ⟨[], by simpa using unread_eq.symm, fifo_eq.symm⟩
    | cons first more =>
      obtain ⟨rfl, rest_eq⟩ := List.cons.inj fifo_eq
      exact .inl ⟨more, unread_eq, rest_eq⟩

/-- The trailer loop takes the rest of the event, unless the retries end. -/
theorem copyEvent_front (timeout : ℕ) (reader : Reader) {body rest : List Word} {trailer : Word}
    (front : reader.pending = body ++ trailer :: rest) (noTrailer : ∀ w ∈ body, !isEnd w)
    (isTrailer : isEnd trailer) (small : ∀ k, offered k ≤ VF48_IDXMAX)
    (fits : reader.inbuf ≤ VF48_IDXMAX) (calm : NoStaleTrailer offered timeout reader)
    (complete : (copyEvent offered timeout reader).1 = true) :
    (copyEvent offered timeout reader).2.pdest = reader.pdest ++ (body ++ [trailer]) ∧
      (copyEvent offered timeout reader).2.pending = rest ∧
        (copyEvent offered timeout reader).2.inbuf ≤ VF48_IDXMAX ∧
          0 < (copyEvent offered timeout reader).2.idx := by
  induction timeout generalizing reader body with
  | zero => cases complete
  | succ timeout ih =>
    rw [copyEvent] at complete ⊢
    rcases pending_split reader front with ⟨more, array, behind⟩ | ⟨later, body_eq, fifo_eq⟩
    · obtain ⟨pdest, unread, last⟩ := copied_whole reader array noTrailer isTrailer
      have found : isEnd (reader.copied.lData reader.copied.idx) = true := by rwa [last]
      have inside : reader.copied.idx < reader.copied.inbuf := by
        by_contra exhausted
        rw [unread_eq_nil _ (Nat.le_of_not_lt exhausted)] at unread
        cases unread
      rw [if_pos found]
      rw [unread_eq_cons _ inside] at unread
      refine ⟨?_, ?_, ?_, Nat.succ_pos _⟩
      · change reader.copied.pdest ++ [reader.copied.lData reader.copied.idx] = _
        rw [pdest, last, List.append_assoc]
      · rw [behind, ← (List.cons.inj unread).2, ← copied_fifo reader]
        rfl
      · exact (copied_inbuf reader).trans_le fits
    · -- The array ends inside of the body, or in front of the trailer.
      subst body_eq
      obtain ⟨pdest, exhausted⟩ :=
        copied_all reader fun w mem => noTrailer w (List.mem_append_left _ mem)
      have goOn := calm.1 exhausted
      have stale : ¬isEnd (reader.copied.lData reader.copied.idx) = true := by simpa using goOn
      rw [if_neg stale] at complete ⊢
      have start : (reader.copied.transfer offered).pending = later ++ trailer :: rest := by
        rw [transfer_pending, copied_fifo, fifo_eq]
      have step := ih (reader.copied.transfer offered) start
        (fun w mem => noTrailer w (List.mem_append_right _ mem))
        (transfer_inbuf offered _ small) (calm.2 goOn) complete
      refine ⟨?_, step.2⟩
      rw [step.1]
      change reader.copied.pdest ++ (later ++ [trailer]) = _
      rw [pdest, List.append_assoc, List.append_assoc]

/-- Between two calls: what is pending, and that a transfer at the next one can lose nothing. -/
structure Between (stream : List Word) (reader : Reader) : Prop where
  pending : reader.pending = stream
  fits : reader.inbuf ≤ VF48_IDXMAX
  start : reader.idx = 0 → reader.inbuf = 0

/-- The memory has what the array had when the function returned, as far as it is unread. -/
def Survives (memory : ℕ → Word) (reader : Reader) : Prop :=
  ∀ i < reader.inbuf, reader.idx ≤ i → memory i = reader.lData i

instance (memory : ℕ → Word) (reader : Reader) : Decidable (Survives memory reader) :=
  inferInstanceAs (Decidable (∀ i < _, _))

/-- A call finds its unread words again, and no trailer behind the words of a transfer. -/
def Undisturbed (memory : ℕ → Word) (reader : Reader) : Prop :=
  Survives memory reader ∧
    NoStaleTrailer offered 64 (findHeader offered 16 (entered offered memory reader)).2

instance (memory : ℕ → Word) (reader : Reader) : Decidable (Undisturbed offered memory reader) :=
  inferInstanceAs (Decidable (_ ∧ _))

theorem Between.initial (fifo : List Word) : Between fifo (Reader.initial fifo) where
  pending := rfl
  fits := Nat.zero_le _
  start _ := rfl

theorem entered_eq (memory : ℕ → Word) (reader : Reader) (fits : reader.inbuf ≤ VF48_IDXMAX) :
    entered offered memory reader =
      if reader.idx = 0 then ({ reader with lData := memory, pdest := [] } : Reader).transfer offered
      else { reader with lData := memory, pdest := [] } := by
  rw [entered, if_neg (Nat.not_lt.mpr fits)]

theorem Between.entered {stream : List Word} {reader : Reader} (between : Between stream reader)
    (memory : ℕ → Word) (small : ∀ k, offered k ≤ VF48_IDXMAX) (survives : Survives memory reader) :
    (entered offered memory reader).pending = stream ∧ (entered offered memory reader).pdest = [] ∧
      (entered offered memory reader).inbuf ≤ VF48_IDXMAX := by
  have restored : ({ reader with lData := memory, pdest := [] } : Reader).pending = stream := by
    rw [← between.pending, Reader.pending, Reader.pending]
    congr 1
    exact unread_congr rfl rfl survives
  rw [entered_eq offered memory reader between.fits]
  split
  · rename_i start
    refine ⟨?_, rfl, transfer_inbuf offered _ small⟩
    rw [transfer_pending, ← restored, pending_of_exhausted]
    change reader.inbuf ≤ reader.idx
    rw [between.start start]
    exact Nat.zero_le _
  · exact ⟨restored, rfl, between.fits⟩

theorem EventRead64_eq (memory : ℕ → Word) (reader : Reader) :
    EventRead64 offered memory reader =
      if !(findHeader offered 16 (entered offered memory reader)).1 then
        (none, { (findHeader offered 16 (entered offered memory reader)).2 with idx := 0 })
      else if (copyEvent offered 64 (findHeader offered 16 (entered offered memory reader)).2).1 then
        (some (copyEvent offered 64 (findHeader offered 16 (entered offered memory reader)).2).2.pdest,
          (copyEvent offered 64 (findHeader offered 16 (entered offered memory reader)).2).2)
      else
        (none, { (copyEvent offered 64 (findHeader offered 16 (entered offered memory reader)).2).2 with idx := 0 }) :=
  rfl

/-- A call that succeeds has found a header and a trailer. -/
theorem EventRead64_success {memory : ℕ → Word} {reader : Reader}
    (success : (EventRead64 offered memory reader).1 ≠ none) :
    (findHeader offered 16 (entered offered memory reader)).1 = true ∧
      (copyEvent offered 64 (findHeader offered 16 (entered offered memory reader)).2).1 = true ∧
        EventRead64 offered memory reader =
          (some (copyEvent offered 64
            (findHeader offered 16 (entered offered memory reader)).2).2.pdest,
            (copyEvent offered 64 (findHeader offered 16 (entered offered memory reader)).2).2) := by
  rw [EventRead64_eq] at success ⊢
  split at success
  · exact absurd rfl success
  · rename_i found
    split at success
    · rename_i complete
      exact ⟨by simpa using found, complete, by rw [if_neg found, if_pos complete]⟩
    · exact absurd rfl success

/-- A call gives back the event in front. -/
theorem EventRead64_event {memory : ℕ → Word} {reader : Reader} {event : FifoEvent}
    {stream : List Word} (between : Between (event.words ++ stream) reader)
    (small : ∀ k, offered k ≤ VF48_IDXMAX) (undisturbed : Undisturbed offered memory reader)
    (success : (EventRead64 offered memory reader).1 ≠ none) :
    (EventRead64 offered memory reader).1 = some event.words ∧
      Between stream (EventRead64 offered memory reader).2 := by
  obtain ⟨survives, calm⟩ := undisturbed
  obtain ⟨found, complete, result⟩ := EventRead64_success offered success
  obtain ⟨front, pdest, fits⟩ := between.entered offered memory small survives
  have words : event.words ++ stream = event.header :: (event.body ++ event.trailer :: stream) := by
    simp [FifoEvent.words]
  rw [words] at front
  obtain ⟨header, behind, headerFits⟩ :=
    findHeader_front offered 16 _ front event.header_isHeader small fits found
  obtain ⟨copy, rest, copyFits, moved⟩ :=
    copyEvent_front offered 64 _ behind event.body_noTrailer event.trailer_isEnd
    small headerFits calm complete
  rw [result]
  refine ⟨?_, rest, copyFits, fun start => absurd start (Nat.ne_of_gt moved)⟩
  rw [copy, header, pdest]
  rfl

/-- With nothing pending a call fails. -/
theorem EventRead64_nothing {memory : ℕ → Word} {reader : Reader} (between : Between [] reader)
    (small : ∀ k, offered k ≤ VF48_IDXMAX) (survives : Survives memory reader) :
    (EventRead64 offered memory reader).1 = none := by
  have nothing := (between.entered offered memory small survives).1
  rw [EventRead64_eq, findHeader_nothing offered 16 _ nothing]
  rfl

/-- The words of a FIFO that holds some events. -/
def fifoOf (events : List FifoEvent) : List Word := events.flatMap FifoEvent.words

theorem Between.step {events : List FifoEvent} {memory : ℕ → ℕ → Word} {k : ℕ}
    (between : Between (fifoOf (events.drop k)) (afterCalls offered memory (fifoOf events) k))
    (small : ∀ k, offered k ≤ VF48_IDXMAX)
    (undisturbed : Undisturbed offered (memory k) (afterCalls offered memory (fifoOf events) k))
    (success : returned offered memory (fifoOf events) k ≠ none) :
    (events[k]?.map fun event => some event.words) = some (returned offered memory (fifoOf events) k) ∧
      Between (fifoOf (events.drop (k + 1))) (afterCalls offered memory (fifoOf events) (k + 1)) := by
  cases next : events[k]? with
  | none =>
    rw [List.drop_eq_nil_of_le (List.getElem?_eq_none_iff.mp next)] at between
    exact absurd (EventRead64_nothing offered between small undisturbed.1) success
  | some event =>
    obtain ⟨bound, here⟩ := List.getElem?_eq_some_iff.mp next
    rw [List.drop_eq_getElem_cons bound, here, fifoOf, List.flatMap_cons] at between
    have call := EventRead64_event offered between small undisturbed success
    exact ⟨congrArg some call.1.symm, call.2⟩

/-- Calls that succeed, and find their unread words again and no trailer behind the words of a
transfer, give the events of the FIFO in order. -/
theorem returned_in_order (offered : ℕ → ℕ) (memory : ℕ → ℕ → Word) (events : List FifoEvent)
    (calls : ℕ) (small : ∀ k, offered k ≤ VF48_IDXMAX)
    (success : ∀ k < calls, returned offered memory (fifoOf events) k ≠ none)
    (undisturbed : ∀ k < calls,
      Undisturbed offered (memory k) (afterCalls offered memory (fifoOf events) k)) :
    (List.range calls).map (returned offered memory (fifoOf events)) =
        (events.take calls).map (fun event => some event.words) ∧
      (afterCalls offered memory (fifoOf events) calls).pending = fifoOf (events.drop calls) := by
  suffices run : (List.range calls).map (returned offered memory (fifoOf events)) =
        (events.take calls).map (fun event => some event.words) ∧
      Between (fifoOf (events.drop calls)) (afterCalls offered memory (fifoOf events) calls) from
    ⟨run.1, run.2.pending⟩
  induction calls with
  | zero => exact ⟨rfl, .initial _⟩
  | succ calls ih =>
    obtain ⟨earlier, between⟩ :=
      ih (fun k bound => success k (by omega)) fun k bound => undisturbed k (by omega)
    obtain ⟨next, after⟩ :=
      between.step offered small (undisturbed calls (by omega)) (success calls (by omega))
    refine ⟨?_, after⟩
    rw [List.range_succ, List.map_append, earlier, List.take_add_one, List.map_append]
    congr 1
    rw [Option.map_eq_some_iff] at next
    obtain ⟨event, here, equal⟩ := next
    simp [here, equal]

/-- A short event with a number. -/
def numbered (n : Fin 4) : FifoEvent where
  header := 0x80000000 + BitVec.ofNat 32 n
  body := [0x40000000 + BitVec.ofNat 32 n]
  trailer := 0xE0000000 + BitVec.ofNat 32 n
  header_isHeader := by revert n; decide
  body_noTrailer w mem := by
    rw [List.mem_singleton.mp mem]
    clear mem
    revert n; decide
  trailer_isEnd := by revert n; decide

/-- Two events, the second of which begins with the last word of a transfer; the memory still has
it. -/
theorem returned_in_order_split :
    (List.range 2).map (returned (fun _ => 4) (fun _ i => if i = 3 then 0x80000002 else 0)
        (fifoOf [numbered 1, numbered 2])) =
      ([numbered 1, numbered 2].take 2).map fun event => some event.words := by
  have success : ∀ k < 2, returned (fun _ => 4) (fun _ i => if i = 3 then 0x80000002 else 0)
      (fifoOf [numbered 1, numbered 2]) k ≠ none := by decide +kernel
  have undisturbed : ∀ k < 2, Undisturbed (fun _ => 4) (fun i => if i = 3 then 0x80000002 else 0)
      (afterCalls (fun _ => 4) (fun _ i => if i = 3 then
        0x80000002 else 0) (fifoOf [numbered 1, numbered 2]) k) := by
    decide +kernel
  have small : ∀ k : ℕ, (fun _ => 4) k ≤ VF48_IDXMAX := fun _ => Nat.le_of_ble_eq_true rfl
  exact (returned_in_order _ _ [numbered 1, numbered 2] 2 small success undisturbed).1

/-- A transfer brings two events, and the second of them is not in the memory any more; and a
trailer that lies in the memory behind a header ends its event. -/
theorem events_lost :
    (List.range 2).map (returned (fun _ => 6) (fun _ _ => 0)
        (fifoOf [numbered 1, numbered 2, numbered 3])) =
        [some (numbered 1).words, some (numbered 3).words] ∧
      returned (fun _ => 1) (fun _ _ => 0xE0000000) (fifoOf [numbered 1]) 0 =
        some [0x80000001, 0xE0000000] := by
  decide +kernel

end Reader

end PtfConverter.VF48Vme
