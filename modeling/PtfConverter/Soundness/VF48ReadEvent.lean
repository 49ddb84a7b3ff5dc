import PtfConverter.Soundness.VF48MultiThread

/-! # What a read of one event makes sure of

`vf48_read_event` knows the end of a module's data only by the last word of seven that is no filler,
and the begin by the first word of ten that is none. As long as no transfer ends in more fillers,
this is enough: for a module that was read, the event counters match exactly when its bank is one
from the header of that event to the trailer, and reads that stop by themselves have read all
modules up to a trailer.
-/

namespace PtfConverter.VF48Multi

open MultiBuffer

variable {gDmaByteswap : Bool}

section Marked

variable {α : Type*} {kind : α → Bool} {front other rest others : List α} {x y : α}

/-- Two places in a list, the first with no entry of a kind in front of it and the second of that
kind. -/
theorem exists_between (same : front ++ x :: rest = other ++ y :: others)
    (none : ∀ a ∈ front, kind a = false) (found : kind y = true) (ne : x ≠ y) :
    ∃ between, other = front ++ x :: between := by
  obtain ⟨more, back, tail⟩ | ⟨more, ahead, tail⟩ := List.append_eq_append_iff.mp same
  · cases more with
    | nil => exact absurd (List.cons.inj tail).1 ne
    | cons a between =>
      obtain ⟨rfl, -⟩ := List.cons.inj tail
      exact ⟨between, back⟩
  · cases more with
    | nil => exact absurd (List.cons.inj tail).1.symm ne
    | cons a between =>
      obtain ⟨rfl, -⟩ := List.cons.inj tail
      have here := none y (ahead ▸ List.mem_append_right _ List.mem_cons_self)
      rw [found] at here
      cases here

/-- The last entry that is not of a kind. -/
theorem last_unique (same : front ++ x :: rest = other ++ y :: others) (all : ∀ a ∈ rest, kind a = true)
    (all' : ∀ a ∈ others, kind a = true) (not : kind x = false) (not' : kind y = false) : x = y := by
  obtain ⟨more, -, tail⟩ | ⟨more, -, tail⟩ := List.append_eq_append_iff.mp same
  · cases more with
    | nil => exact (List.cons.inj tail).1
    | cons a between =>
      have here := all y ((List.cons.inj tail).2 ▸ List.mem_append_right _ List.mem_cons_self)
      rw [not'] at here
      cases here
  · cases more with
    | nil => exact (List.cons.inj tail).1.symm
    | cons a between =>
      have here := all' x ((List.cons.inj tail).2 ▸ List.mem_append_right _ List.mem_cons_self)
      rw [not] at here
      cases here

end Marked

theorem not_isFiller_of_isTrailer {w : Word} (trailer : format.isTrailer w) : isFiller w = false := by
  have tag : w &&& 0xF0000000#32 = 0xE0000000#32 := eq_of_beq trailer
  rw [isFiller, tag, Bool.or_eq_false_iff, Bool.or_eq_false_iff]
  refine ⟨⟨by decide, ?_⟩, ?_⟩
  all_goals
    rw [beq_eq_false_iff_ne]
    rintro rfl
    exact absurd tag (by decide)

theorem isHeader_ne_isTrailer {w w' : Word} (header : format.isHeader w)
    (trailer : format.isTrailer w') : w ≠ w' := by
  rintro rfl
  have first : w &&& 0xF0000000#32 = 0x80000000#32 := eq_of_beq header
  have last : w &&& 0xF0000000#32 = 0xE0000000#32 := eq_of_beq trailer
  rw [first] at last
  exact absurd last (by decide)

theorem not_isLeading_of_isTrailer {w : Word} (trailer : format.isTrailer w) : isLeading w = false := by
  have tag : w &&& 0xF0000000#32 = 0xE0000000#32 := eq_of_beq trailer
  rw [isLeading, tag]
  rfl

theorem not_isLeading_of_isHeader {w : Word} (header : format.isHeader w) : isLeading w = false := by
  have tag : w &&& 0xF0000000#32 = 0x80000000#32 := eq_of_beq header
  rw [isLeading, tag]
  rfl

variable (gDmaByteswap) in
/-- The last seven words of a transfer are not all fillers. -/
def Transfer.Ends (transfer : Transfer) : Prop :=
  ∃ w ∈ (transfer.words.map (order gDmaByteswap)).reverse.take 7, isFiller w = false

/-- Up to fillers, some words end with this one. -/
def EndsWith (words : List Word) (w : Word) : Prop :=
  isFiller w = false ∧ ∃ front fillers, words = front ++ w :: fillers ∧ ∀ f ∈ fillers, isFiller f = true

theorem EndsWith.prepend {words : List Word} {w : Word} (ends : EndsWith words w) (first : List Word) :
    EndsWith (first ++ words) w := by
  obtain ⟨not, front, fillers, rfl, all⟩ := ends
  exact ⟨not, first ++ front, fillers, (List.append_assoc ..).symm, all⟩

/-- The word that is kept is the last of the transfer that is no filler. -/
theorem Transfer.Ends.lastWord {transfer : Transfer} (ends : transfer.Ends gDmaByteswap) :
    ∃ w, transfer.lastWord gDmaByteswap = some w ∧ EndsWith (transfer.read gDmaByteswap) w := by
  obtain ⟨v, mem, not⟩ := ends
  have found : (((transfer.words.map (order gDmaByteswap)).reverse.take 7).find? fun w =>
      !isFiller w).isSome :=
    List.find?_isSome.mpr ⟨v, mem, by rw [not]; rfl⟩
  obtain ⟨w, first⟩ := Option.isSome_iff_exists.mp found
  obtain ⟨kept, fillers, others, split, all⟩ := List.find?_eq_some_iff_append.mp first
  refine ⟨w, ?_, by simpa using kept, ?_⟩
  · rw [Transfer.lastWord, Transfer.backwards, List.append_assoc, List.take_append, List.map_append,
      List.find?_append, List.map_take, List.map_reverse, first]
    rfl
  · obtain ⟨early, whole⟩ : ∃ early, (transfer.words.map (order gDmaByteswap)).reverse =
      fillers ++ w :: early := by
      refine ⟨others ++ (transfer.words.map (order gDmaByteswap)).reverse.drop 7, ?_⟩
      rw [← List.cons_append, ← List.append_assoc, ← split, List.take_append_drop]
    have forward := congrArg List.reverse whole
    rw [List.reverse_reverse, List.reverse_append, List.reverse_cons, List.append_assoc,
      List.singleton_append] at forward
    refine ⟨List.replicate transfer.padding pad ++ early.reverse, fillers.reverse, ?_, fun f mem => ?_⟩
    · rw [Transfer.read, forward, List.append_assoc]
    · simpa using all f (List.mem_reverse.mp mem)

/-- The words of an event, from a header to a trailer with its number. -/
def Framed (number : ℕ) (bank : List Word) : Prop :=
  ∃ leading header middle trailer fillers, bank = leading ++ header :: (middle ++ trailer :: fillers) ∧
    leading.length < 10 ∧ (∀ w ∈ leading, isLeading w = true) ∧
    format.isHeader header ∧ (header &&& 0xFFFFFF#32).toNat = number ∧
    format.isTrailer trailer ∧ (trailer &&& 0xFFFFFF#32).toNat = number ∧
      ∀ f ∈ fillers, isFiller f = true

theorem firstWord_eq (p32 : List Word) (behind : ℕ → Word) :
    firstWord p32 behind = ((p32 ++ (List.range 10).map behind).take 10).find? fun w =>
      !isLeading w := by
  have same : (List.range 10).map (fun j => p32.getD j (behind (j - p32.length))) =
      (p32 ++ (List.range 10).map behind).take 10 := by
    refine List.ext_getElem (by simp) fun j inside inside' => ?_
    rw [List.length_map, List.length_range] at inside
    rw [List.getElem_map, List.getElem_range, List.getElem_take]
    by_cases own : j < p32.length
    · rw [List.getElem_append_left own, List.getD_eq_getElem _ _ own]
    · rw [List.getElem_append_right (Nat.le_of_not_lt own),
        List.getD_eq_default _ _ (Nat.le_of_not_lt own), List.getElem_map, List.getElem_range]
  rw [firstWord, same]

theorem firstWord_of_leading {leading rest : List Word} {header : Word} (short : leading.length < 10)
    (all : ∀ w ∈ leading, isLeading w = true) (not : isLeading header = false) (behind : ℕ → Word) :
    firstWord (leading ++ header :: rest) behind = some header := by
  obtain ⟨more, room⟩ : ∃ more, 10 - leading.length = more + 1 := ⟨9 - leading.length, by omega⟩
  have front : (leading ++ header :: rest ++ (List.range 10).map behind).take 10 =
      leading ++ header :: (rest ++ (List.range 10).map behind).take more := by
    rw [List.append_assoc, List.take_append, List.take_of_length_le short.le, room,
      List.cons_append, List.take_succ_cons]
  rw [firstWord_eq, front, List.find?_eq_some_iff_append]
  refine ⟨by rw [not]; rfl, leading, _, rfl, fun w mem => ?_⟩
  rw [all w mem]
  rfl

/-- The first word lies in front of a trailer in the bank. -/
theorem leading_of_firstWord {front fillers : List Word} {header trailer : Word}
    {behind : ℕ → Word} (found : firstWord (front ++ trailer :: fillers) behind = some header)
    (headed : format.isHeader header) (ended : format.isTrailer trailer) :
    ∃ leading middle, front = leading ++ header :: middle ∧ leading.length < 10 ∧
      ∀ w ∈ leading, isLeading w = true := by
  rw [firstWord_eq, List.find?_eq_some_iff_append] at found
  obtain ⟨-, leading, rest, split, all⟩ := found
  have short : (leading ++ header :: rest).length ≤ 10 := split ▸ List.length_take_le 10 _
  rw [List.length_append, List.length_cons] at short
  have whole := List.take_append_drop 10 (front ++ trailer :: fillers ++ (List.range 10).map behind)
  rw [split, List.append_assoc leading, List.cons_append, List.append_assoc front,
    List.cons_append] at whole
  obtain ⟨middle, ahead⟩ := @exists_between _ (fun w => !isLeading w) _ _ _ _ _ _ whole
    (fun w mem => by simpa using all w mem) (by rw [not_isLeading_of_isTrailer ended]; rfl)
    (isHeader_ne_isTrailer headed ended)
  exact ⟨leading, middle, ahead, by omega, fun w mem => by simpa using all w mem⟩

theorem eventNo_eq_iff (numbered : Bool) (w : Word) (number : ℕ) :
    eventNo numbered w = number ↔ numbered = true ∧ (w &&& 0xFFFFFF#32).toNat = number := by
  cases numbered with
  | false => exact ⟨fun same => by
      rw [eventNo, if_neg Bool.false_ne_true] at same; omega, fun ⟨no, _⟩ => by cases no⟩
  | true =>
    rw [eventNo, if_pos rfl, Int.natCast_inj]
    exact ⟨fun same => ⟨rfl, same⟩, fun ⟨_, same⟩ => same⟩

variable {behind : ModuleNo → ℕ → Word} {expectedEventNo : Word} {self : VF48MultiBuffer}

/-- The event counters of a bank that ends with the module's last word match exactly when it is
framed. -/
theorem checkBank_matches_iff {i : ModuleNo} {p32 : List Word} (first : self.vf48_first_word i = 0)
    (ends : EndsWith p32 (self.vf48_last_word i)) :
    (VF48MultiBuffer.checkBank behind expectedEventNo self (i, p32)).2 = false ↔
      Framed (expectedEventNo &&& 0xFFFFFF#32).toNat p32 := by
  obtain ⟨not, front, fillers, bank, all⟩ := ends
  generalize number : (expectedEventNo &&& 0xFFFFFF#32).toNat = n
  rw [VF48MultiBuffer.checkBank]
  dsimp only
  rw [number, Bool.or_eq_false_iff, bne_eq_false_iff_eq, bne_eq_false_iff_eq, eventNo_eq_iff,
    eventNo_eq_iff, first]
  constructor
  · rintro ⟨⟨headed, no⟩, ended, no'⟩
    cases found : firstWord p32 (behind i) with
    | none =>
      rw [found] at headed
      exact absurd headed (by decide)
    | some header =>
      rw [found, Option.getD_some] at headed no
      rw [bank] at found
      obtain ⟨leading, middle, rfl, short, all'⟩ := leading_of_firstWord found headed ended
      refine ⟨leading, header, middle, _, fillers, ?_, short, all', headed, no, ended, no', all⟩
      rw [bank, List.append_assoc, List.cons_append]
  · rintro ⟨leading, header, middle, trailer, fillers', frame, short, all', headed, no, ended, no',
      rest⟩
    have found : firstWord p32 (behind i) = some header := by
      rw [frame]
      exact firstWord_of_leading short all' (not_isLeading_of_isHeader headed) _
    have last : self.vf48_last_word i = trailer := by
      rw [bank, ← List.cons_append, ← List.append_assoc] at frame
      exact last_unique frame all rest not (not_isFiller_of_isTrailer ended)
    rw [found, Option.getD_some, last]
    exact ⟨⟨headed, no⟩, ended, no'⟩

theorem checkBank_congr {other : VF48MultiBuffer} {bank : Bank}
    (first : other.vf48_first_word bank.1 = self.vf48_first_word bank.1)
    (last : other.vf48_last_word bank.1 = self.vf48_last_word bank.1) :
    (VF48MultiBuffer.checkBank behind expectedEventNo other bank).2 =
      (VF48MultiBuffer.checkBank behind expectedEventNo self bank).2 := by
  rw [VF48MultiBuffer.checkBank, VF48MultiBuffer.checkBank]
  dsimp only
  rw [first, last]

/-- The modules whose event counters mismatch are those whose bank is found so. -/
theorem mem_checkBanks_iff {banks : List Bank} (distinct : (banks.map Prod.fst).Nodup) (i : ModuleNo) :
    i ∈ (VF48MultiBuffer.checkBanks behind expectedEventNo banks self).1 ↔
      ∃ bank ∈ banks, bank.1 = i ∧
        (VF48MultiBuffer.checkBank behind expectedEventNo self bank).2 = true := by
  induction banks generalizing self with
  | nil => exact ⟨fun none => absurd none List.not_mem_nil,
      fun ⟨_, empty, _⟩ => absurd empty List.not_mem_nil⟩
  | cons bank rest ih =>
    rw [List.map_cons, List.nodup_cons] at distinct
    have later : (∃ other ∈ rest, other.1 = i ∧
          (VF48MultiBuffer.checkBank behind expectedEventNo
            (VF48MultiBuffer.checkBank behind expectedEventNo self bank).1 other).2) ↔
        ∃ other ∈ rest, other.1 = i ∧
          (VF48MultiBuffer.checkBank behind expectedEventNo self other).2 := by
      refine exists_congr fun other => and_congr_right fun mem => and_congr_right fun _ => ?_
      have ne : other.1 ≠ bank.1 := fun same => distinct.1 (same ▸ List.mem_map_of_mem mem)
      have same := @checkBank_congr behind expectedEventNo self
        (VF48MultiBuffer.checkBank behind expectedEventNo self bank).1
        other (Function.update_of_ne ne _ _) rfl
      rw [same]
    rw [VF48MultiBuffer.checkBanks]
    dsimp only
    rw [List.exists_mem_cons_iff, ← later, ← ih distinct.2]
    cases (VF48MultiBuffer.checkBank behind expectedEventNo self bank).2 with
    | false => exact ⟨.inr, fun or => or.resolve_left fun ⟨_, no⟩ => Bool.false_ne_true no⟩
    | true =>
      rw [if_pos rfl, List.mem_cons]
      exact or_congr ⟨fun same => ⟨same.symm, rfl⟩, fun ⟨same, _⟩ => same.symm⟩ Iff.rfl

open VF48MultiBuffer (commit readLoop)

theorem commits_eq (reads : List (ModuleNo × Transfer)) (self : VF48MultiBuffer) :
    (reads.foldl (commit gDmaByteswap) self).vf48_addr = self.vf48_addr ∧
      (reads.foldl (commit gDmaByteswap) self).vf48_first_word = self.vf48_first_word ∧
      ∀ i, (reads.foldl (commit gDmaByteswap) self).vf48_last_word i =
        (reads.ofIndex i).foldl (fun w transfer => (transfer.lastWord gDmaByteswap).getD w)
          (self.vf48_last_word i) := by
  induction reads generalizing self with
  | nil => exact ⟨rfl, rfl, fun _ => rfl⟩
  | cons read reads ih =>
    obtain ⟨j, transfer⟩ := read
    obtain ⟨addr, first, last⟩ := ih (commit gDmaByteswap self (j, transfer))
    refine ⟨addr, first, fun i => (last i).trans ?_⟩
    change (reads.ofIndex i).foldl _ (Function.update self.vf48_last_word j _ i) = _
    obtain rfl | ne := eq_or_ne j i
    · rw [Function.update_self, List.ofIndex_cons_self, List.foldl_cons]
    · rw [Function.update_of_ne ne.symm, List.ofIndex_cons_ne ne]

theorem commits_holds {waiting : ModuleNo → List Transfer}
    (holds : ∀ i, Holds gDmaByteswap (self.rb i) (waiting i)) (reads : List (ModuleNo × Transfer))
    (i : ModuleNo) :
    Holds gDmaByteswap ((reads.foldl (commit gDmaByteswap) self).rb i)
      (waiting i ++ reads.ofIndex i) := by
  induction reads generalizing self waiting with
  | nil =>
    rw [List.ofIndex_nil, List.append_nil]
    exact holds i
  | cons read reads ih =>
    obtain ⟨j, transfer⟩ := read
    have next (k : ModuleNo) : Holds gDmaByteswap ((commit gDmaByteswap self (j, transfer)).rb k)
        (Function.update waiting j (waiting j ++ [transfer]) k) := by
      change Holds gDmaByteswap (Function.update self.rb j _ k) _
      obtain rfl | ne := eq_or_ne k j
      · rw [Function.update_self, Function.update_self]
        exact (holds k).push transfer
      · rw [Function.update_of_ne ne, Function.update_of_ne ne]
        exact holds k
    have later := ih next
    obtain rfl | ne := eq_or_ne j i
    · rw [Function.update_self, List.append_assoc] at later
      rwa [List.ofIndex_cons_self]
    · rw [Function.update_of_ne ne.symm] at later
      rwa [List.ofIndex_cons_ne ne]

/-- The reads of a module end with its last transfer. -/
theorem endsWith_reads {transfers : List Transfer}
    (ends : ∀ transfer ∈ transfers, transfer.Ends gDmaByteswap) (some : transfers ≠ []) (w : Word) :
    EndsWith (transfers.flatMap (Transfer.read gDmaByteswap))
      (transfers.foldl (fun w transfer => (transfer.lastWord gDmaByteswap).getD w) w) := by
  obtain ⟨front, last, rfl⟩ := (List.eq_nil_or_concat' transfers).resolve_left some
  obtain ⟨v, kept, tail⟩ := (ends last (List.mem_append_right _ List.mem_cons_self)).lastWord
  rw [List.flatMap_append, List.flatMap_singleton, List.foldl_append, List.foldl_cons,
    List.foldl_nil, kept, Option.getD_some]
  exact tail.prepend _

/-- What the reads for an event have done. -/
structure LoopDone (gDmaByteswap : Bool) (answers : ℕ → ModuleNo → Answer) (limit : ℕ)
    (buffer : VF48MultiBuffer) (ended : Bool) (reads : List (ModuleNo × Transfer))
    (final : VF48MultiBuffer) : Prop where
  commits : final = reads.foldl (commit gDmaByteswap) buffer
  ended : ended = true → ∀ i ∈ final.modules, format.isTrailer (final.vf48_last_word i)
  asked : ∀ read ∈ reads, ∃ loop < limit, (answers loop read.1).transfer = .ok (some read.2)

theorem readLoop_done {answers : ℕ → ModuleNo → Answer} {turns loop : ℕ} {ended : Bool}
    {reads : List (ModuleNo × Transfer)} {next : VF48MultiBuffer}
    (ran : readLoop gDmaByteswap answers turns loop self = .ok (ended, reads, next)) :
    LoopDone gDmaByteswap answers (loop + turns) self ended reads next := by
  induction turns generalizing self loop reads with
  | zero =>
    cases ran
    exact ⟨rfl, fun no => absurd no Bool.false_ne_true, fun _ none => absurd none List.not_mem_nil⟩
  | succ turns ih =>
    obtain ⟨⟨rd, first, middle⟩, read, later⟩ := Except.bind_eq_ok_iff.mp ran
    have done := Readout.vf48_multi_read_done read
    dsimp only at later
    split at later
    · rename_i stops
      cases later
      exact ⟨done.next, fun _ => List.all_eq_true.mp stops.2,
        fun read mem => ⟨loop, by omega, done.asked read mem⟩⟩
    · obtain ⟨⟨ended', rest, final⟩, loops, done'⟩ := Except.bind_eq_ok_iff.mp later
      cases done'
      have tail := ih loops
      refine ⟨?_, tail.ended, fun read mem => ?_⟩
      · rw [tail.commits, done.next, List.foldl_append]
      · rcases List.mem_append.mp mem with mem | mem
        · exact ⟨loop, by omega, done.asked read mem⟩
        · obtain ⟨turn, early, asked⟩ := tail.asked read mem
          exact ⟨turn, by omega, asked⟩

theorem banksOf_nodup (waiting : ModuleNo → List Transfer) (buffer : VF48MultiBuffer) :
    ((Readout.banksOf gDmaByteswap waiting buffer.modules).map Prod.fst).Nodup := by
  have modules : (Readout.banksOf gDmaByteswap waiting buffer.modules).map Prod.fst =
      buffer.modules := by
    rw [Readout.banksOf, List.map_map]
    exact List.map_id' buffer.modules
  rw [modules]
  exact Readout.modules_nodup buffer

/-- The banks of an event have what waited and what was read. For a module that was read, the event
counters match exactly when its bank is framed; and when the reads end before the limit, every
module was read up to a trailer. -/
theorem vf48_read_event_framed {answers : ℕ → ModuleNo → Answer}
    {waiting : ModuleNo → List Transfer} (holds : ∀ i, Holds gDmaByteswap (self.rb i) (waiting i))
    (ends : ∀ loop < 20, ∀ i transfer, (answers loop i).transfer = .ok (some transfer) →
      transfer.Ends gDmaByteswap)
    {event : VF48MultiBuffer.EventRead}
    (ran : self.vf48_read_event gDmaByteswap answers behind expectedEventNo = .ok event) :
    event.banks = Readout.banksOf gDmaByteswap
      (fun i => waiting i ++ event.reads.ofIndex i) self.modules ∧
      ∀ bank ∈ event.banks,
        (event.reads.ofIndex bank.1 ≠ [] →
          (bank.1 ∉ event.mismatches ↔ Framed (expectedEventNo &&& 0xFFFFFF#32).toNat bank.2)) ∧
        (event.ended = true →
          event.reads.ofIndex bank.1 ≠ [] ∧ ∃ trailer, format.isTrailer trailer ∧
            EndsWith bank.2 trailer) := by
  obtain ⟨⟨ended, reads, read⟩, loops, later⟩ := Except.bind_eq_ok_iff.mp ran
  obtain ⟨⟨banks, taken⟩, streamed, done⟩ := Except.bind_eq_ok_iff.mp later
  cases done
  have loop := readLoop_done loops
  obtain ⟨addr, firsts, lasts⟩ := @commits_eq gDmaByteswap reads self.forget
  rw [← loop.commits] at addr firsts lasts
  have held (i : ModuleNo) : Holds gDmaByteswap (read.rb i) (waiting i ++ reads.ofIndex i) := by
    rw [loop.commits]
    exact @commits_holds gDmaByteswap self.forget waiting holds reads i
  obtain ⟨rb, -, stream, -, -⟩ := Readout.vf48_multi_bank_stream_moves held []
  obtain ⟨rfl, rfl⟩ := Prod.mk.inj (Except.ok.inj (streamed.symm.trans stream))
  have modules : read.modules = self.modules := by
    rw [VF48MultiBuffer.modules, addr]
    rfl
  refine ⟨by rw [modules], fun bank mem => ?_⟩
  obtain ⟨i, there, rfl⟩ := List.mem_map.mp mem
  have present : (self.vf48_addr i != 0) = true := by
    rw [modules] at there
    exact (List.mem_filter.mp there).2
  have forgotten : self.forget.vf48_first_word i = 0 ∧ self.forget.vf48_last_word i = 0 :=
    ⟨if_pos present, if_pos present⟩
  have tail (some : reads.ofIndex i ≠ []) :
      EndsWith ((waiting i ++ reads.ofIndex i).flatMap (Transfer.read gDmaByteswap))
        (read.vf48_last_word i) := by
    rw [lasts, List.flatMap_append]
    refine (endsWith_reads (fun transfer mem => ?_) some _).prepend _
    obtain ⟨turn, early, asked⟩ := loop.asked (i, transfer) (List.mem_of_mem_ofIndex mem)
    exact ends turn (by omega) i transfer asked
  dsimp only
  refine ⟨fun some => ?_, fun stopped => ?_⟩
  · have check := @checkBank_matches_iff behind expectedEventNo { read with rb := rb } i _
      ((congrFun firsts i).trans forgotten.1) (tail some)
    rw [← check, mem_checkBanks_iff (banksOf_nodup _ read) i, ← Bool.not_eq_true]
    refine not_congr ⟨?_, fun mismatch => ⟨_, mem, rfl, mismatch⟩⟩
    rintro ⟨other, mem', rfl, mismatch⟩
    obtain ⟨j, -, rfl⟩ := List.mem_map.mp mem'
    exact mismatch
  · have trailer := loop.ended stopped i there
    have some : reads.ofIndex i ≠ [] := by
      intro none
      rw [lasts, none, List.foldl_nil, forgotten.2] at trailer
      exact absurd trailer (by decide)
    exact ⟨some, _, trailer, tail some⟩

/-- A module without data. -/
def noWords : Answer := { threeWords with csr := VF48_CSR_START_ACQ ||| VF48_CSR_FIFO_EMPTY }

/-- Only the first read finds data. -/
def firstOnly (loop : ℕ) (_ : ModuleNo) : Answer := if loop = 0 then threeWords else noWords

theorem threeWords_ends (transfer : Transfer) (asked : threeWords.transfer = .ok (some transfer)) :
    transfer.Ends false := by
  have words : (threeWords.transfer.map (Option.map Transfer.words)).toOption =
      some (some [0x80000007#32, 0x10000000#32, 0xE0000007#32, 0xdeadbeef#32]) := by decide +kernel
  rw [asked] at words
  have words : transfer.words = _ := Option.some.inj (Option.some.inj words)
  rw [Transfer.Ends, words]
  exact ⟨0xE0000007#32, by decide, rfl⟩

theorem noWords_transfer : noWords.transfer = .ok none := by rfl

theorem firstOnly_ends (loop : ℕ) (i : ModuleNo) (transfer : Transfer)
    (asked : (firstOnly loop i).transfer = .ok (some transfer)) : transfer.Ends false := by
  rw [firstOnly] at asked
  by_cases first : loop = 0
  · rw [if_pos first] at asked
    exact threeWords_ends transfer asked
  · rw [if_neg first, noWords_transfer] at asked
    cases asked

theorem vf48_read_event_framed_threeWords :
    ∃ event, oneModule.vf48_read_event false firstOnly (fun _ _ => 0) 7 = .ok event ∧
      ∀ bank ∈ event.banks, Framed 7 bank.2 := by
  have view : (oneModule.vf48_read_event false firstOnly (fun _ _ => 0) 7).toOption.map
      (fun event => (event.ended, event.mismatches)) = some (true, []) := by decide +kernel
  have empty (i : ModuleNo) : Holds false (oneModule.rb i) [] := .of_empty rfl
  rcases ran : oneModule.vf48_read_event false firstOnly (fun _ _ => 0) 7 with fault | event
  · rw [ran] at view
    cases view
  · rw [ran] at view
    obtain ⟨ended, matched⟩ := Prod.mk.inj (Option.some.inj view)
    obtain ⟨-, framed⟩ := vf48_read_event_framed empty (fun loop _ => firstOnly_ends loop) ran
    refine ⟨event, rfl, fun bank mem => ?_⟩
    have check := ((framed bank mem).1 ((framed bank mem).2 ended).1).mp
    rw [matched] at check
    exact check List.not_mem_nil

end PtfConverter.VF48Multi
