import PtfConverter.Model.VF48MultiRead
import PtfConverter.Soundness.VF48MultiAgreement
import PtfConverter.ToMathlib.MachineFamily

/-! # The reader thread and the banks

However the moves of `vf48_multi_read` and of `vf48_multi_bank_stream` are mixed, a ring buffer holds
whole transfers. The banks of a module have its transfers in order and each once, every bank some of
them as a whole, and no assertion about the ring buffers' contents fails.
-/

namespace PtfConverter.VF48Multi

open MultiBuffer

variable {gDmaByteswap : Bool}

variable (gDmaByteswap) in
/-- The words of a transfer as they go into a bank. -/
def Transfer.read (transfer : Transfer) : List Word :=
  List.replicate transfer.padding pad ++ transfer.words.map (order gDmaByteswap)

theorem Transfer.read_ne_nil (transfer : Transfer) : transfer.read gDmaByteswap ≠ [] :=
  List.append_ne_nil_of_right_ne_nil _ (mt List.map_eq_nil_iff.mp transfer.positive)

theorem Transfer.read_fits (transfer : Transfer) :
    4 * (transfer.read gDmaByteswap).length + 8 ≤ rb_size := by
  have fits : 4 * transfer.words.length + 4 * transfer.padding + 8 ≤ 96100 := transfer.fits
  have size : rb_size = 4194304 := rfl
  rw [read, List.length_append, List.length_replicate, List.length_map]
  omega

variable (gDmaByteswap) in
/-- A ring buffer whose read pointer is at the first of some transfers. -/
def Holds (ring : Ring) (waiting : List Transfer) : Prop :=
  ∃ behind, ring = holding gDmaByteswap (waiting.map (Transfer.read gDmaByteswap)) behind

theorem Holds.of_empty {ring : Ring} (empty : ring.pending = []) : Holds gDmaByteswap ring [] := by
  obtain ⟨_, behind⟩ := ring
  obtain rfl : _ = [] := empty
  exact ⟨behind, rfl⟩

variable {ring : Ring} {waiting : List Transfer}

theorem push_holding (segments : List (List Word)) (behind : ℕ → Word) (words : List Word) :
    (holding gDmaByteswap segments behind).push (encode gDmaByteswap words) =
      holding gDmaByteswap (segments ++ [words]) fun k =>
        behind (k + (encode gDmaByteswap words).length) := by
  rw [holding, holding, RingBuffer.push, List.flatMap_append, List.flatMap_singleton]

theorem Holds.push (holds : Holds gDmaByteswap ring waiting) (transfer : Transfer) :
    Holds gDmaByteswap (VF48Multi.vf48_multi_read gDmaByteswap ring transfer.padding transfer.words)
      (waiting ++ [transfer]) := by
  obtain ⟨behind, rfl⟩ := holds
  have fits : 4 * (transfer.padding + transfer.words.length) + 8 ≤ rb_size := by
    have read := @Transfer.read_fits gDmaByteswap transfer
    rwa [Transfer.read, List.length_append, List.length_replicate, List.length_map] at read
  obtain ⟨segment, data, pushed⟩ := @vf48_multi_read_eq_push gDmaByteswap
    (holding gDmaByteswap (waiting.map (Transfer.read gDmaByteswap)) behind) transfer.padding _
      transfer.positive fits
  rw [pushed, push, ← @Segment.encode_read gDmaByteswap, data, ← Transfer.read, push_holding, Holds,
    List.map_append, List.map_singleton]
  exact ⟨_, rfl⟩

theorem Holds.isEmpty_iff (holds : Holds gDmaByteswap ring waiting) :
    ring.pending.isEmpty ↔ waiting = [] := by
  obtain ⟨behind, rfl⟩ := holds
  rw [List.isEmpty_iff]
  cases waiting with
  | nil => exact ⟨fun _ => rfl, fun _ => rfl⟩
  | cons transfer waiting =>
    exact ⟨fun empty => absurd empty (holding_ne_nil _ _),
    fun empty => absurd empty (List.cons_ne_nil _ _)⟩

/-- The next transfer is taken as a whole. -/
theorem Holds.take {transfer : Transfer} (holds : Holds gDmaByteswap ring (transfer :: waiting))
    (p32 : List Word) :
    ∃ next, takeSegment gDmaByteswap ring p32 = .ok (p32 ++ transfer.read gDmaByteswap, next) ∧
      Holds gDmaByteswap next waiting := by
  obtain ⟨behind, rfl⟩ := holds
  refine ⟨holding gDmaByteswap (waiting.map (Transfer.read gDmaByteswap)) behind, ?_, behind, rfl⟩
  have fits := @Transfer.read_fits gDmaByteswap transfer
  rw [rb_size] at fits
  have nw : (BitVec.ofNat 32 (4 * (transfer.read gDmaByteswap).length)).toNat / 4 =
      (transfer.read gDmaByteswap).length := by
    rw [BitVec.toNat_ofNat, Nat.mod_eq_of_lt (by omega), Nat.mul_div_cancel_left _ (by decide)]
  have incr : (4 * (transfer.read gDmaByteswap).length + 8) / 4 =
      (encode gDmaByteswap (transfer.read gDmaByteswap)).length := by
    rw [length_encode]
    omega
  rw [List.map_cons, takeSegment, get_magic, get_size, if_neg (not_not_intro rfl)]
  dsimp only
  have data : ((List.range (transfer.read gDmaByteswap).length).map fun j => order gDmaByteswap
      ((holding gDmaByteswap
        (transfer.read gDmaByteswap :: waiting.map (Transfer.read gDmaByteswap)) behind).get
        (2 + j))) =
      transfer.read gDmaByteswap := by
    refine List.ext_getElem (by rw [List.length_map, List.length_range]) fun i _ inside => ?_
    rw [List.getElem_map, List.getElem_range, get_data inside, order_order]
  rw [nw, data, rb_increment_rp, incr, holding_cons, RingBuffer.advance_prepend]
  rfl

def Seen.committed? : Seen → Option (ModuleNo × Transfer)
  | .committed unit transfer => some (unit, transfer)
  | .closed .. => none

def Seen.closed? : Seen → Option Bank
  | .committed .. => none
  | .closed unit p32 => some (unit, p32)

/-- The words so far of a module's bank, if that is not closed. -/
def Readout.opened (self : Readout) (unit : ModuleNo) : List Word :=
  match self.banking with
  | none => []
  | some banking => if banking.unit = unit then banking.p32 else []

variable (gDmaByteswap) in
/-- The transfers of a module are in its closed banks, in the open one, or in the ring buffer. -/
def Accounted (log : List Seen) (self : Readout) (unit : ModuleNo) : Prop :=
  ∃ (taken : List (List Transfer)) (current waiting : List Transfer),
    (log.filterMap Seen.committed?).ofIndex unit = taken.flatten ++ current ++ waiting ∧
    (log.filterMap Seen.closed?).ofIndex unit = taken.map (List.flatMap (Transfer.read gDmaByteswap)) ∧
    self.opened unit = current.flatMap (Transfer.read gDmaByteswap) ∧
      Holds gDmaByteswap (self.buffer.rb unit) waiting

variable (gDmaByteswap) in
/-- When a bank of a module is closed, the banks have all that was committed for it. -/
def Settled (log : List Seen) (unit : ModuleNo) : Prop :=
  ∀ before p32, before ++ [.closed unit p32] <+: log →
    ((before.filterMap Seen.committed?).ofIndex unit).flatMap (Transfer.read gDmaByteswap) =
      ((before.filterMap Seen.closed?).ofIndex unit ++ [p32]).flatten

variable (gDmaByteswap) in
/-- The account of a module's words. -/
structure Account (log : List Seen) (readout : Readout) (unit : ModuleNo) : Prop where
  accounted : Accounted gDmaByteswap log readout unit
  settled : Settled gDmaByteswap log unit

namespace Readout

variable {log : List Seen} {self : Readout}

theorem opened_nextBank (self : Readout) (modules : List ModuleNo) (unit : ModuleNo) :
    ({ self with banking := nextBank modules } : Readout).opened unit = [] := by
  cases modules with
  | nil => rfl
  | cons i rest =>
    change (if i = unit then [] else []) = _
    exact ite_self []

/-- A move that leaves a module alone. -/
theorem accounted_frame {unit : ModuleNo} (accounted : Accounted gDmaByteswap log self unit)
    {next : Readout} {seen : List Seen}
    (committed : (seen.filterMap Seen.committed?).ofIndex unit = [])
    (closed : (seen.filterMap Seen.closed?).ofIndex unit = [])
    (ring : next.buffer.rb unit = self.buffer.rb unit)
    (opened : next.opened unit = self.opened unit) :
    Accounted gDmaByteswap (log ++ seen) next unit := by
  obtain ⟨taken, current, waiting, reads, banks, bank, holds⟩ := accounted
  refine ⟨taken, current, waiting, ?_, ?_, opened.trans bank, ring ▸ holds⟩
  · rw [List.filterMap_append, List.ofIndex_append, committed, List.append_nil, reads]
  · rw [List.filterMap_append, List.ofIndex_append, closed, List.append_nil, banks]

theorem accounted_silent {unit : ModuleNo} (accounted : Accounted gDmaByteswap log self unit)
    {next : Readout} (ring : next.buffer.rb unit = self.buffer.rb unit)
    (opened : next.opened unit = self.opened unit) :
    Accounted gDmaByteswap (log ++ []) next unit := accounted_frame accounted rfl rfl ring opened

theorem accounted_commit (accounted : ∀ unit, Accounted gDmaByteswap log self unit)
    (read : ModuleNo × Transfer) (rest : List (ModuleNo × Transfer)) (unit : ModuleNo) :
    Accounted gDmaByteswap (log ++ [.committed read.1 read.2])
      { self with buffer := self.buffer.commit gDmaByteswap read, writing := rest } unit := by
  obtain ⟨i, transfer⟩ := read
  obtain rfl | ne := eq_or_ne i unit
  · obtain ⟨taken, current, waiting, reads, banks, bank, holds⟩ := accounted i
    refine ⟨taken, current, waiting ++ [transfer], ?_, ?_, bank, ?_⟩
    · have own : (([.committed i transfer] : List Seen).filterMap Seen.committed?).ofIndex i =
        [transfer] :=
        List.ofIndex_cons_self i transfer []
      rw [List.filterMap_append, List.ofIndex_append, reads, own, List.append_assoc _ waiting]
    · rw [List.filterMap_append, List.ofIndex_append, banks]
      exact List.append_nil _
    · change Holds gDmaByteswap (Function.update self.buffer.rb i _ i) _
      rw [Function.update_self]
      exact holds.push transfer
  · exact accounted_frame (accounted unit) (List.ofIndex_cons_ne ne transfer []) rfl
      (Function.update_of_ne ne.symm _ _) rfl

theorem accounted_close (accounted : ∀ unit, Accounted gDmaByteswap log self unit) {banking : Banking}
    (banks : self.banking = some banking) (unit : ModuleNo) :
    Accounted gDmaByteswap (log ++ [.closed banking.unit banking.p32]) { self with
      banking := nextBank banking.rest } unit := by
  obtain ⟨i, p32, rest⟩ := banking
  have opened : self.opened unit = if i = unit then p32 else [] := by rw [opened, banks]
  obtain rfl | ne := eq_or_ne i unit
  · obtain ⟨taken, current, waiting, reads, closed, bank, holds⟩ := accounted i
    refine ⟨taken ++ [current], [], waiting, ?_, ?_, opened_nextBank self rest i, holds⟩
    · rw [List.filterMap_append, List.ofIndex_append, reads, List.flatten_concat, List.append_nil]
      exact List.append_nil _
    · rw [if_pos rfl] at opened
      rw [List.filterMap_append, List.ofIndex_append, closed, List.map_append, List.map_singleton,
        ← bank, opened]
      congr 1
      exact List.ofIndex_cons_self i p32 []
  · rw [if_neg ne] at opened
    exact accounted_frame (accounted unit) rfl (List.ofIndex_cons_ne ne p32 []) rfl
      ((opened_nextBank self rest unit).trans opened.symm)

/-- A turn of the loop over the segments takes the next transfer. -/
theorem take_accounted (accounted : ∀ unit, Accounted gDmaByteswap log self unit) {banking : Banking}
    (banks : self.banking = some banking) (more : ¬(self.buffer.rb banking.unit).pending.isEmpty) :
    ∃ next, step gDmaByteswap self .take = .ok (next, []) ∧
      ∀ unit, Accounted gDmaByteswap (log ++ []) next unit := by
  obtain ⟨i, p32, rest⟩ := banking
  obtain ⟨taken, current, waiting, reads, closed, bank, holds⟩ := accounted i
  obtain ⟨transfer, waiting, rfl⟩ := List.exists_cons_of_ne_nil (mt holds.isEmpty_iff.mpr more)
  obtain ⟨ring, took, left⟩ := holds.take p32
  refine ⟨{ self with
    buffer := { self.buffer with rb := Function.update self.buffer.rb i ring }
    banking := some ⟨i, p32 ++ transfer.read gDmaByteswap, rest⟩ }, ?_, fun unit => ?_⟩
  · rw [step, banks]
    dsimp only
    rw [if_neg more, took]
    rfl
  · obtain rfl | ne := eq_or_ne i unit
    · refine ⟨taken, current ++ [transfer], waiting, ?_, ?_, ?_, ?_⟩
      · rw [List.append_nil, reads, ← List.append_assoc, List.append_assoc _ [transfer],
          List.singleton_append]
      · rw [List.append_nil, closed]
      · rw [opened, banks] at bank
        rw [opened, List.flatMap_append, List.flatMap_singleton, ← bank]
        dsimp only
        rw [if_pos rfl, if_pos rfl]
      · change Holds gDmaByteswap (Function.update self.buffer.rb i ring i) _
        rwa [Function.update_self]
    · refine accounted_silent (accounted unit) (Function.update_of_ne ne.symm _ _) ?_
      rw [opened, opened, banks]
      dsimp only
      rw [if_neg ne, if_neg ne]

theorem transfer_outside {answer : Answer} {fault : ReadFault}
    (failed : answer.transfer = .error fault) (f : Fault) :
    fault ≠ .bank f := by
  rw [Answer.transfer] at failed
  dsimp only at failed
  split_ifs at failed
  all_goals
    cases failed
    exact fun bank => by cases bank

theorem transfers_outside {answers : ModuleNo → Answer} {modules : List ModuleNo}
    {fault : ReadFault} (failed : VF48MultiBuffer.transfers answers modules = .error fault)
    (f : Fault) : fault ≠ .bank f := by
  induction modules with
  | nil => cases failed
  | cons i rest ih =>
    rw [VF48MultiBuffer.transfers] at failed
    rcases first : (answers i).transfer with here | transfer
    · rw [first] at failed
      cases failed
      exact transfer_outside first f
    · rw [first, Except.ok_bind] at failed
      rcases later : VF48MultiBuffer.transfers answers rest with there | reads
      · rw [later] at failed
        cases failed
        exact ih later
      · rw [later] at failed
        cases failed

theorem settled_commit {unit : ModuleNo} (settled : Settled gDmaByteswap log unit)
    (read : ModuleNo × Transfer) :
    Settled gDmaByteswap (log ++ [.committed read.1 read.2]) unit := by
  intro before p32 front
  obtain last | front := List.prefix_concat_iff.mp front
  · cases (List.append_inj' last rfl).2
  · exact settled before p32 front

theorem settled_close (account : ∀ unit, Account gDmaByteswap log self unit) {banking : Banking}
    (banks : self.banking = some banking) (empty : (self.buffer.rb banking.unit).pending.isEmpty)
    (unit : ModuleNo) :
    Settled gDmaByteswap (log ++ [.closed banking.unit banking.p32]) unit := by
  intro before p32 front
  obtain last | front := List.prefix_concat_iff.mp front
  · obtain ⟨rfl, same⟩ := List.append_inj' last rfl
    obtain ⟨rfl, rfl⟩ := Seen.closed.inj (List.singleton_inj.mp same)
    obtain ⟨taken, current, waiting, reads, closed, bank, holds⟩ := (account banking.unit).accounted
    obtain rfl := holds.isEmpty_iff.mp empty
    rw [opened, banks] at bank
    dsimp only at bank
    rw [if_pos rfl] at bank
    rw [reads, closed, List.append_nil, List.flatMap_append, ← bank, List.flatten_concat,
      List.flatMap_def, List.map_flatten, List.flatten_flatten, List.map_map]
    rfl
  · exact (account unit).settled before p32 front

/-- Every move keeps the account, or ends with a fault that the ring buffers' contents have no part
in. -/
theorem step_account (account : ∀ unit, Account gDmaByteswap log self unit) (move : Move) :
    (∃ next seen, step gDmaByteswap self move = .ok (next, seen) ∧
      ∀ unit, Account gDmaByteswap (log ++ seen) next unit) ∨
      ∃ fault, step gDmaByteswap self move = .error fault ∧ ∀ f, fault ≠ .bank f := by
  have accounted (unit : ModuleNo) := (account unit).accounted
  have silent {next : Readout} (ring : next.buffer.rb = self.buffer.rb)
      (opened : ∀ unit, next.opened unit = self.opened unit)
      (unit : ModuleNo) : Account gDmaByteswap (log ++ []) next unit :=
    ⟨accounted_silent (accounted unit) (congrFun ring unit) (opened unit), by
      rw [List.append_nil]
      exact (account unit).settled⟩
  cases move with
  | read answers =>
    rw [step]
    split_ifs
    · rcases ran : VF48MultiBuffer.transfers answers self.buffer.modules with fault | reads
      · exact .inr ⟨fault, rfl, transfers_outside ran⟩
      · rw [Except.ok_bind]
        split_ifs
        · exact .inl ⟨_, [], rfl, silent rfl fun _ => rfl⟩
        · cases gDmaByteswap with
          | false => exact .inl ⟨self, [], rfl, silent rfl fun _ => rfl⟩
          | true => exact .inr ⟨.exit, rfl, fun _ bank => by cases bank⟩
    · exact .inl ⟨self, [], rfl, silent rfl fun _ => rfl⟩
  | commit =>
    cases writing : self.writing with
    | nil => exact .inl ⟨self, [], by rw [step, writing], silent rfl fun _ => rfl⟩
    | cons read rest =>
      exact .inl ⟨_, _, by rw [step, writing], fun unit =>
        ⟨accounted_commit accounted read rest unit, settled_commit (account unit).settled read⟩⟩
  | bank =>
    cases banks : self.banking with
    | some banking => exact .inl ⟨self, [], by rw [step, banks], silent rfl fun _ => rfl⟩
    | none =>
      refine .inl ⟨{ self with banking := nextBank self.buffer.modules }, [], ?_,
        silent rfl fun unit => ?_⟩
      · rw [step, banks]
      · rw [opened_nextBank, opened, banks]
  | take =>
    cases banks : self.banking with
    | none => exact .inl ⟨self, [], by rw [step, banks], silent rfl fun _ => rfl⟩
    | some banking =>
      by_cases empty : (self.buffer.rb banking.unit).pending.isEmpty
      · refine .inl ⟨_, _, ?_,
          fun unit => ⟨accounted_close accounted banks unit,
          settled_close account banks empty unit⟩⟩
        rw [step, banks]
        exact if_pos empty
      · obtain ⟨next, took, kept⟩ := take_accounted accounted banks empty
        refine .inl ⟨next, [], took, fun unit => ⟨kept unit, ?_⟩⟩
        rw [List.append_nil]
        exact (account unit).settled

end Readout

/-- However the reader thread and the calls for banks take turns, all transfers of a module are in
its banks or still in the ring buffer, in order and each once; and a bank is closed only when the
banks have all of them. No assertion about the contents of the ring buffers fails. -/
theorem Readout.run_account {buffer : VF48MultiBuffer}
    (empty : ∀ unit, (buffer.rb unit).pending = []) (moves : List Move) :
    (∃ final log, Transducer.run (step gDmaByteswap) ⟨buffer, [], none⟩ moves = .ok (final, log) ∧
      ∀ unit, Account gDmaByteswap log final unit) ∨
    ∃ fault, Transducer.run (step gDmaByteswap) ⟨buffer, [], none⟩ moves = .error fault ∧
      ∀ f, fault ≠ .bank f := by
  have start (unit : ModuleNo) : Account gDmaByteswap [] ⟨buffer, [], none⟩ unit :=
    ⟨⟨[], [], [], rfl, rfl, rfl, .of_empty (empty unit)⟩, fun before p32 front => by
      have lengths := front.length_le
      rw [List.length_append] at lengths
      exact absurd lengths (by simp)⟩
  exact Transducer.run_outcome (fun log self => ∀ unit, Account gDmaByteswap log self unit) _
    (fun move account => step_account account move) [] start moves

/-- One module, with nothing read. -/
def oneModule : VF48MultiBuffer where
  vf48_addr i := if i.val = 3 then 0xa30000 else 0
  rb _ := ⟨[], fun _ => 0⟩
  vf48_first_word _ := 0
  vf48_last_word _ := 0

/-- A module with an event of three words, and a word of nothing. -/
def threeWords : Answer where
  csr := VF48_CSR_START_ACQ
  nframe := 3
  room := true
  ptr := 4
  front := 0
  data k := [0x80000007, 0x10000000, 0xE0000007, 0xdeadbeef].getD k 0
  success := true

/-- The second read moves its write pointer while a bank is open. -/
def twoReads : List Move :=
  [.read fun _ => threeWords, .commit, .bank, .take, .read fun _ => threeWords, .commit, .take, .take]

theorem Readout.run_account_twoReads :
    ∃ final log, Transducer.run (step false) ⟨oneModule, [], none⟩ twoReads = .ok (final, log) ∧
      ∀ unit, Account false log final unit := by
  refine (run_account (fun _ => rfl) twoReads).resolve_right ?_
  rintro ⟨fault, failed, -⟩
  have returns : (Transducer.run (step false) ⟨oneModule, [], none⟩ twoReads).isOk := by decide +kernel
  rw [failed] at returns
  cases returns

theorem streamLoop_succ (fuel : ℕ) (ring : Ring) (p32 : List Word) :
    streamLoop gDmaByteswap (fuel + 1) ring p32 =
      if ring.pending.isEmpty then .ok (p32, ring)
      else (do
        let (p32, ring) ← takeSegment gDmaByteswap ring p32
        streamLoop gDmaByteswap fuel ring p32) := by
  rw [streamLoop, takeSegment]
  split_ifs
  · rfl
  · rfl
  · dsimp only
    rw [bind_assoc]
    rfl

theorem Holds.length_le (holds : Holds gDmaByteswap ring waiting) :
    waiting.length ≤ ring.pending.length := by
  obtain ⟨behind, rfl⟩ := holds
  change _ ≤ ((waiting.map (Transfer.read gDmaByteswap)).flatMap (encode gDmaByteswap)).length
  induction waiting with
  | nil => exact Nat.le_refl _
  | cons transfer waiting ih =>
    rw [List.map_cons, List.flatMap_cons, List.length_append, length_encode, List.length_cons]
    omega

namespace Readout

/-- The loop over the segments gives what the frontend's turns give, and leaves nothing. -/
theorem streamLoop_moves {buffer : VF48MultiBuffer} {unit : ModuleNo}
    (holds : Holds gDmaByteswap (buffer.rb unit) waiting) {fuel : ℕ}
    (enough : waiting.length < fuel) (p32 : List Word) (writing : List (ModuleNo × Transfer))
    (rest : List ModuleNo) :
    ∃ next, streamLoop gDmaByteswap fuel (buffer.rb unit) p32 =
        .ok (p32 ++ waiting.flatMap (Transfer.read gDmaByteswap), next) ∧
      Holds gDmaByteswap next [] ∧
      Transducer.run (step gDmaByteswap) ⟨buffer, writing, some ⟨unit, p32, rest⟩⟩
        (List.replicate (waiting.length + 1) .take) =
        .ok (⟨{ buffer with rb := Function.update buffer.rb unit next }, writing, nextBank rest⟩,
          [.closed unit (p32 ++ waiting.flatMap (Transfer.read gDmaByteswap))]) := by
  obtain ⟨fuel, rfl⟩ := Nat.exists_eq_succ_of_ne_zero (Nat.ne_zero_of_lt enough)
  induction waiting generalizing buffer fuel p32 with
  | nil =>
    have empty := holds.isEmpty_iff.mpr rfl
    refine ⟨buffer.rb unit, ?_, holds, ?_⟩
    · rw [streamLoop_succ, if_pos empty, List.flatMap_nil, List.append_nil]
    · rw [List.length_nil, List.replicate_one, Transducer.run_singleton, step]
      dsimp only
      rw [if_pos empty, Function.update_eq_self, List.flatMap_nil, List.append_nil]
  | cons transfer waiting ih =>
    have more := mt holds.isEmpty_iff.mp (List.cons_ne_nil _ _)
    obtain ⟨ring, took, left⟩ := holds.take p32
    have here : Holds gDmaByteswap
        (({ buffer with rb := Function.update buffer.rb unit ring } : VF48MultiBuffer).rb unit)
        waiting := by
      change Holds gDmaByteswap (Function.update buffer.rb unit ring unit) waiting
      rwa [Function.update_self]
    rw [List.length_cons] at enough
    obtain ⟨fuel, rfl⟩ :=
      Nat.exists_eq_succ_of_ne_zero (Nat.ne_zero_of_lt (Nat.lt_of_succ_lt_succ enough))
    obtain ⟨next, loop, empty, moves⟩ := ih here (p32 ++ transfer.read gDmaByteswap) fuel (by omega)
    refine ⟨next, ?_, empty, ?_⟩
    · change streamLoop gDmaByteswap _ (Function.update buffer.rb unit ring unit) _ = _ at loop
      rw [Function.update_self] at loop
      rw [streamLoop_succ, if_neg more, took, Except.ok_bind]
      dsimp only
      rw [loop, List.flatMap_cons, List.append_assoc]
    · have stepped : step gDmaByteswap ⟨buffer, writing, some ⟨unit, p32, rest⟩⟩ .take =
          .ok (⟨{ buffer with rb := Function.update buffer.rb unit ring }, writing,
            some ⟨unit, p32 ++ transfer.read gDmaByteswap, rest⟩⟩, []) := by
        rw [step]
        dsimp only
        rw [if_neg more, took]
        rfl
      rw [List.length_cons, List.replicate_succ, Transducer.run_cons_silent stepped, moves,
        List.flatMap_cons, List.append_assoc]
      dsimp only
      rw [Function.update_idem]

variable (gDmaByteswap) in
/-- The banks with all transfers that wait for some modules. -/
def banksOf (waiting : ModuleNo → List Transfer) (modules : List ModuleNo) : List Bank :=
  modules.map fun i => (i, (waiting i).flatMap (Transfer.read gDmaByteswap))

theorem banks_moves {waiting : ModuleNo → List Transfer} {modules : List ModuleNo}
    (distinct : modules.Nodup) {buffer : VF48MultiBuffer}
    (holds : ∀ i, Holds gDmaByteswap (buffer.rb i) (waiting i))
    (writing : List (ModuleNo × Transfer)) :
    ∃ rb takes, VF48MultiBuffer.banks gDmaByteswap modules buffer =
        .ok (banksOf gDmaByteswap waiting modules, { buffer with rb := rb }) ∧
      (∀ i, Holds gDmaByteswap (rb i) (if i ∈ modules then [] else waiting i)) ∧
      Transducer.run (step gDmaByteswap) ⟨buffer, writing, nextBank modules⟩
        (List.replicate takes .take) =
        .ok (⟨{ buffer with rb := rb }, writing, none⟩,
          (banksOf gDmaByteswap waiting modules).map fun bank => .closed bank.1 bank.2) := by
  induction modules generalizing buffer waiting with
  | nil => exact ⟨buffer.rb, 0, rfl, holds, rfl⟩
  | cons i rest ih =>
    obtain ⟨fresh, distinct⟩ := List.nodup_cons.mp distinct
    obtain ⟨ring, loop, empty, takes⟩ :=
      streamLoop_moves (holds i) (Nat.lt_succ_of_le (holds i).length_le) [] writing rest
    have left (j : ModuleNo) :
        Holds gDmaByteswap (Function.update buffer.rb i ring j)
            (Function.update waiting i [] j) := by
      obtain rfl | ne := eq_or_ne j i
      · rwa [Function.update_self, Function.update_self]
      · rw [Function.update_of_ne ne, Function.update_of_ne ne]
        exact holds j
    obtain ⟨rb, more, banks, holds, moves⟩ := @ih (Function.update waiting i []) distinct
      { buffer with rb := Function.update buffer.rb i ring } left
    have same : banksOf gDmaByteswap (Function.update waiting i []) rest =
        banksOf gDmaByteswap waiting rest := by
      refine List.map_congr_left fun j mem => ?_
      rw [Function.update_of_ne (fun eq : j = i => fresh (eq ▸ mem))]
    rw [same] at banks moves
    refine ⟨rb, (waiting i).length + 1 + more, ?_, fun j => ?_, ?_⟩
    · rw [VF48MultiBuffer.banks, bankStream, loop]
      change (VF48MultiBuffer.banks gDmaByteswap rest { buffer with
        rb := Function.update buffer.rb i ring } >>=
        fun found => .ok ((i, [] ++ _) :: found.1, found.2)) = _
      rw [banks]
      rfl
    · have held := holds j
      obtain rfl | ne := eq_or_ne j i
      · rw [if_pos List.mem_cons_self]
        rwa [if_neg fresh, Function.update_self] at held
      · rw [Function.update_of_ne ne] at held
        simpa only [List.mem_cons, ne, false_or] using held
    · rw [List.replicate_add, Transducer.run_append]
      change (Transducer.run (step gDmaByteswap) ⟨buffer, writing, some ⟨i, [], rest⟩⟩ _ >>=
        fun middle =>
        Transducer.run (step gDmaByteswap) middle.1 (List.replicate more .take) >>= fun final =>
          .ok (final.1, middle.2 ++ final.2)) = _
      rw [takes, Except.ok_bind]
      dsimp only
      rw [moves]
      rfl

theorem modules_nodup (buffer : VF48MultiBuffer) : buffer.modules.Nodup :=
  (List.nodup_finRange _).filter _

/-- A call for banks that no reader interrupts takes the moves of the frontend one after the other. -/
theorem vf48_multi_bank_stream_moves {waiting : ModuleNo → List Transfer} {buffer : VF48MultiBuffer}
    (holds : ∀ i, Holds gDmaByteswap (buffer.rb i) (waiting i)) (writing : List (ModuleNo × Transfer)) :
    ∃ rb takes, buffer.vf48_multi_bank_stream gDmaByteswap =
        .ok (banksOf gDmaByteswap waiting buffer.modules, { buffer with rb := rb }) ∧
      (∀ i, Holds gDmaByteswap (rb i) (if i ∈ buffer.modules then [] else waiting i)) ∧
      Transducer.run (step gDmaByteswap) ⟨buffer, writing, none⟩ (.bank :: List.replicate takes .take) =
        .ok (⟨{ buffer with rb := rb }, writing, none⟩,
          (banksOf gDmaByteswap waiting buffer.modules).map fun bank => .closed bank.1 bank.2) := by
  obtain ⟨rb, takes, banks, holds, moves⟩ := banks_moves (modules_nodup buffer) holds writing
  exact ⟨rb, takes, banks, holds, (Transducer.run_cons_silent rfl _).trans moves⟩

/-- A read has made its transfers known, all of them or none; it says so by the number of bytes. -/
structure ReadDone (gDmaByteswap : Bool) (answers : ModuleNo → Answer) (buffer : VF48MultiBuffer)
    (rd : ℤ) (reads : List (ModuleNo × Transfer)) (next : VF48MultiBuffer) : Prop where
  next : next = reads.foldl (VF48MultiBuffer.commit gDmaByteswap) buffer
  rd : rd ≤ 0 ↔ reads = []
  began : step gDmaByteswap ⟨buffer, [], none⟩ (.read answers) = .ok (⟨buffer, reads, none⟩, [])
  asked : ∀ read ∈ reads, (answers read.1).transfer = .ok (some read.2)

theorem bytes_nonpos_iff (reads : List (ModuleNo × Transfer)) :
    (reads.map fun read => (read.2.nb : ℤ)).sum ≤ 0 ↔ reads = [] := by
  have bytes (reads : List (ModuleNo × Transfer)) :
      0 ≤ (reads.map fun read => (read.2.nb : ℤ)).sum := by
    induction reads with
    | nil => exact le_rfl
    | cons read reads ih =>
      rw [List.map_cons, List.sum_cons]
      exact Int.add_nonneg (Int.natCast_nonneg _) ih
  cases reads with
  | nil => exact ⟨fun _ => rfl, fun _ => le_rfl⟩
  | cons read reads =>
    have words : 0 < read.2.words.length := List.length_pos_of_ne_nil read.2.positive
    have rest := bytes reads
    rw [List.map_cons, List.sum_cons, Transfer.nb]
    exact ⟨fun none => by omega, fun none => absurd none (List.cons_ne_nil _ _)⟩

theorem commits_moves (reads : List (ModuleNo × Transfer)) (buffer : VF48MultiBuffer)
    (banking : Option Banking) :
    Transducer.run (step gDmaByteswap) ⟨buffer, reads, banking⟩ (List.replicate reads.length .commit) =
      .ok (⟨reads.foldl (VF48MultiBuffer.commit gDmaByteswap) buffer, [], banking⟩,
        reads.map fun read => .committed read.1 read.2) := by
  induction reads generalizing buffer with
  | nil => rfl
  | cons read reads ih =>
    rw [List.length_cons, List.replicate_succ, Transducer.run, step]
    dsimp only
    rw [Except.ok_bind]
    dsimp only
    rw [ih]
    rfl

theorem transfers_asked {answers : ModuleNo → Answer} {modules : List ModuleNo}
    {reads : List (ModuleNo × Transfer)}
    (asked : VF48MultiBuffer.transfers answers modules = .ok reads) :
    ∀ read ∈ reads, (answers read.1).transfer = .ok (some read.2) := by
  induction modules generalizing reads with
  | nil =>
    cases asked
    exact fun _ none => absurd none List.not_mem_nil
  | cons i rest ih =>
    obtain ⟨first, here, later⟩ := Except.bind_eq_ok_iff.mp asked
    obtain ⟨others, there, done⟩ := Except.bind_eq_ok_iff.mp later
    cases done
    intro read mem
    rcases List.mem_append.mp mem with mem | mem
    · cases first with
      | none => exact absurd mem List.not_mem_nil
      | some transfer =>
        obtain rfl := List.mem_singleton.mp mem
        exact here
    · exact ih there read mem

theorem vf48_multi_read_done {buffer next : VF48MultiBuffer} {answers : ModuleNo → Answer}
    {rd : ℤ} {reads : List (ModuleNo × Transfer)}
    (ran : buffer.vf48_multi_read gDmaByteswap answers = .ok (rd, reads, next)) :
    ReadDone gDmaByteswap answers buffer rd reads next := by
  obtain ⟨asked, listed, later⟩ := Except.bind_eq_ok_iff.mp ran
  split at later
  · rename_i success
    cases later
    refine ⟨rfl, bytes_nonpos_iff reads, ?_, transfers_asked listed⟩
    rw [step, if_pos List.isEmpty_nil, listed, Except.ok_bind, if_pos success]
    rfl
  · rename_i failed
    obtain ⟨rd, negative, done⟩ := Except.bind_eq_ok_iff.mp later
    cases done
    cases gDmaByteswap with
    | true => cases negative
    | false =>
      cases negative
      refine ⟨rfl, by simp, ?_, fun _ none => absurd none List.not_mem_nil⟩
      rw [step, if_pos List.isEmpty_nil, listed, Except.ok_bind, if_neg failed]
      rfl

/-- A read that the frontend does not interrupt takes the moves of the thread one after the other. -/
theorem vf48_multi_read_moves {buffer next : VF48MultiBuffer} {answers : ModuleNo → Answer}
    {rd : ℤ} {reads : List (ModuleNo × Transfer)}
    (ran : buffer.vf48_multi_read gDmaByteswap answers = .ok (rd, reads, next)) :
    Transducer.run (step gDmaByteswap) ⟨buffer, [], none⟩
      (.read answers :: List.replicate reads.length .commit) =
      .ok (⟨next, [], none⟩, reads.map fun read => .committed read.1 read.2) := by
  have done := vf48_multi_read_done ran
  rw [Transducer.run_cons_silent done.began, commits_moves, done.next]

end Readout

end PtfConverter.VF48Multi
