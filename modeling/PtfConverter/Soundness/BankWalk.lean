import PtfConverter.Soundness.MidasAccess

/-! # The walk from bank to bank

Both traversals step from a candidate offset to the bank that starts there, if one does, and from
a bank to the next candidate. A step succeeds exactly where the words it reads can be reached, and
then does what the peeked words say. These are the step lemmas of `FindBank` and `SetBankList` for
both bank formats; everything about whole traversals follows from them.
-/

namespace PtfConverter.Midas

open Memory

def headerSize (b32 : Bool) : ℕ := if b32 then 12 else 8

/-- The type field of a bank. -/
def typeAt (memory : Memory) (b32 : Bool) (bank : ℕ) : BitVec 32 :=
  if b32 then memory.peek32 (bank + 4) else (memory.peek16 (bank + 4)).setWidth 32

/-- The size field of a bank. -/
def sizeAt (memory : Memory) (b32 : Bool) (bank : ℕ) : BitVec 32 :=
  if b32 then memory.peek32 (bank + 8) else (memory.peek16 (bank + 6)).setWidth 32

def nameAt (memory : Memory) (bank : ℕ) : List Byte := memory.peekBytes bank 4

/-- Where the banks end, by the size in the bank header of the event. -/
def endOf (memory : Memory) : ℕ := (memory.peek32 0).toNat + 8

/-- The candidate behind a bank. -/
def after (memory : Memory) (b32 : Bool) (bank : ℕ) : ℕ :=
  bank + headerSize b32 + (align8 (sizeAt memory b32 bank)).toNat

/-- The bank that starts at a candidate, by the type words alone. -/
def aligned (memory : Memory) (b32 : Bool) (candidate : ℕ) : Option ℕ :=
  if b32 then
    if memory.peek32 (candidate + 4) > TID_MAX then
      if memory.peek32 (candidate + 8) ≤ TID_MAX then some (candidate + 4) else none
    else some candidate
  else some candidate

/-- The bank that starts at a candidate, unless the banks have ended. -/
def landing (memory : Memory) (b32 : Bool) (candidate : ℕ) : Option ℕ :=
  (aligned memory b32 candidate).filter fun bank => bank < endOf memory

/-- Everything that the step from a candidate reads can be reached. -/
structure CandidateReaches (memory : Memory) (b32 : Bool) (candidate : ℕ) : Prop where
  type : b32 → memory.Reaches (candidate + 8)
  shifted : b32 → memory.peek32 (candidate + 4) > TID_MAX → memory.Reaches (candidate + 12)
  bank : ∀ bank ∈ landing memory b32 candidate, memory.Reaches (bank + headerSize b32)

/-- The candidate an iteration starts from. -/
def nextOf (memory : Memory) (b32 : Bool) (previous : Option ℕ) : Except Fault ℕ :=
  if b32 then nextBank32 memory previous else nextBank memory previous

theorem after_gt (memory : Memory) (b32 : Bool) (bank : ℕ) : bank + 8 ≤ after memory b32 bank := by
  unfold after headerSize
  split <;> omega

theorem le_of_landing {memory : Memory} {b32 : Bool} {candidate bank : ℕ}
    (landed : landing memory b32 candidate = some bank) : candidate ≤ bank ∧ bank < endOf memory := by
  obtain ⟨found, inside⟩ := Option.filter_eq_some_iff.mp landed
  refine ⟨?_, by simpa using inside⟩
  unfold aligned at found
  split_ifs at found <;> cases found <;> omega

theorem endOf_lt (memory : Memory) : endOf memory < 2 ^ 32 + 8 := by
  have small := (memory.peek32 0).isLt
  unfold endOf
  omega

theorem nextOf_some {memory : Memory} {b32 : Bool} {bank : ℕ}
    (reach : memory.Reaches (bank + headerSize b32)) :
    nextOf memory b32 (some bank) = .ok (after memory b32 bank) := by
  unfold headerSize at reach
  unfold nextOf after headerSize sizeAt
  split_ifs at reach ⊢
  · rw [nextBank32, uint32_of_reaches (reach.mono (by omega))]
    rfl
  · rw [nextBank, uint16_of_reaches (reach.mono (by omega))]
    rfl

private theorem skipStrayWord_of_reaches {memory : Memory} {candidate : ℕ}
    (type : memory.Reaches (candidate + 8))
    (shifted : memory.peek32 (candidate + 4) > TID_MAX → memory.Reaches (candidate + 12)) :
    ∃ found, skipStrayWord memory candidate = .ok found ∧
      found.map Subtype.val = aligned memory true candidate := by
  rw [skipStrayWord, uint32_of_reaches type, Except.ok_bind, aligned, if_pos rfl]
  split_ifs with unknown known
  · rw [uint32_of_reaches (shifted unknown), Except.ok_bind, if_pos known]
    exact ⟨_, rfl, rfl⟩
  · rw [uint32_of_reaches (shifted unknown), Except.ok_bind, if_neg known]
    exact ⟨_, rfl, rfl⟩
  · exact ⟨_, rfl, rfl⟩

/-- One iteration lands where the peeked words say. -/
theorem IterateBank32_of_reaches {memory : Memory} {previous : Option ℕ} {candidate : ℕ}
    (next : nextOf memory true previous = .ok candidate) (first : memory.Reaches 8)
    (reach : CandidateReaches memory true candidate) :
    ∃ found, IterateBank32 memory previous = .ok found ∧
      found.map (·.pbk.offset) = landing memory true candidate ∧
        ∀ bank ∈ found, bank.pdata = bank.pbk.offset + 12 := by
  obtain ⟨found, skipped, same⟩ := skipStrayWord_of_reaches (reach.type rfl) (reach.shifted rfl)
  unfold IterateBank32
  split
  · next fault failed => cases next.symm.trans failed
  · next candidate' found' =>
    cases next.symm.trans found'
    rw [skipped, Except.ok_bind]
    cases found with
    | none =>
      rw [landing, ← same]
      exact ⟨none, rfl, rfl, fun bank member => by cases member⟩
    | some bank =>
      have size : memory.uint32 0 = .ok (memory.peek32 0) := uint32_of_reaches (first.mono (by omega))
      have landed : landing memory true candidate =
          if bank.val < (memory.peek32 0).toNat + 8 then some bank.val else none := by
        rw [landing, ← same, Option.map_some, Option.filter_some, endOf]
        simp only [decide_eq_true_eq]
      simp only [size, Except.ok_bind]
      split_ifs with inside
      · rw [if_pos inside] at landed
        have header : memory.Reaches (bank.val + 12) := reach.bank bank.val landed
        rw [uint32_of_reaches (header.mono (by omega)), landed]
        exact ⟨_, rfl, rfl, fun found member => by cases member; rfl⟩
      · rw [if_neg inside] at landed
        rw [landed]
        exact ⟨none, rfl, rfl, fun bank member => by cases member⟩

/-- An iteration faults where its step reads out of reach. -/
theorem IterateBank32_of_not_reaches {memory : Memory} {previous : Option ℕ} {candidate : ℕ}
    (next : nextOf memory true previous = .ok candidate) (first : memory.Reaches 8)
    (out : ¬ CandidateReaches memory true candidate) :
    ∃ fault, IterateBank32 memory previous = .error fault := by
  unfold IterateBank32
  split
  · exact ⟨_, rfl⟩
  · next candidate' found' =>
    cases next.symm.trans found'
    by_cases type : memory.Reaches (candidate + 8)
    · by_cases shifted : memory.peek32 (candidate + 4) > TID_MAX → memory.Reaches (candidate + 12)
      · obtain ⟨found, skipped, same⟩ := skipStrayWord_of_reaches type shifted
        rw [skipped, Except.ok_bind]
        cases found with
        | none =>
          refine absurd ⟨fun _ => type, fun _ => shifted, fun bank landed => ?_⟩ out
          rw [landing, ← same] at landed
          cases landed
        | some bank =>
          have size : memory.uint32 0 = .ok (memory.peek32 0) :=
            uint32_of_reaches (first.mono (by omega))
          simp only [size, Except.ok_bind]
          split_ifs with inside
          · by_cases header : memory.Reaches (bank.val + 12)
            · refine absurd ⟨fun _ => type, fun _ => shifted, fun bank' landed => ?_⟩ out
              rw [landing, ← same] at landed
              cases (Option.filter_eq_some_iff.mp landed).1
              exact header
            · obtain ⟨fault, failed⟩ :=
                uint32_of_not_reaches (show ¬ memory.Reaches (bank.val + 8 + 4) from header)
              rw [failed]
              exact ⟨fault, rfl⟩
          · refine absurd ⟨fun _ => type, fun _ => shifted, fun bank' landed => ?_⟩ out
            rw [landing, ← same] at landed
            obtain ⟨same', below⟩ := Option.filter_eq_some_iff.mp landed
            cases same'
            exact absurd (of_decide_eq_true below) inside
      · obtain ⟨unknown, short⟩ := Classical.not_imp.mp shifted
        obtain ⟨fault, failed⟩ :=
          uint32_of_not_reaches (show ¬ memory.Reaches (candidate + 4 + 4 + 4) from short)
        rw [skipStrayWord, uint32_of_reaches type, Except.ok_bind, if_pos unknown, failed]
        exact ⟨fault, rfl⟩
    · obtain ⟨fault, failed⟩ :=
        uint32_of_not_reaches (show ¬ memory.Reaches (candidate + 4 + 4) from type)
      rw [skipStrayWord, failed]
      exact ⟨fault, rfl⟩

/-- The same for 16-bit banks. -/
theorem IterateBank_of_reaches {memory : Memory} {previous : Option ℕ} {candidate : ℕ}
    (next : nextOf memory false previous = .ok candidate) (first : memory.Reaches 8)
    (reach : CandidateReaches memory false candidate) :
    ∃ found, IterateBank memory previous = .ok found ∧
      found.map (·.pbk.offset) = landing memory false candidate := by
  have landed : landing memory false candidate =
      if candidate < (memory.peek32 0).toNat + 8 then some candidate else none := by
    rw [landing, aligned, if_neg Bool.false_ne_true, Option.filter_some, endOf]
    simp only [decide_eq_true_eq]
  unfold IterateBank
  split
  · next fault failed => cases next.symm.trans failed
  · next candidate' found' =>
    cases next.symm.trans found'
    have size : memory.uint32 0 = .ok (memory.peek32 0) := uint32_of_reaches (first.mono (by omega))
    simp only [size, Except.ok_bind]
    split_ifs with inside
    · rw [if_pos inside] at landed
      have header : memory.Reaches (candidate + 8) := reach.bank candidate landed
      rw [uint16_of_reaches (header.mono (by omega)), landed]
      exact ⟨_, rfl, rfl⟩
    · rw [if_neg inside] at landed
      rw [landed]
      exact ⟨none, rfl, rfl⟩

/-- One iteration in either format. -/
theorem iterate_of_reaches {memory : Memory} {b32 : Bool} {previous : Option ℕ} {candidate : ℕ}
    (next : nextOf memory b32 previous = .ok candidate) (first : memory.Reaches 8)
    (reach : CandidateReaches memory b32 candidate) : ∃ found, iterate memory b32 previous = .ok found ∧
      found.map (·.offset) = landing memory b32 candidate := by
  cases b32 with
  | true =>
    obtain ⟨found, iterated, landed, _⟩ := IterateBank32_of_reaches next first reach
    refine ⟨found.map (·.pbk), ?_, ?_⟩
    · rw [iterate, if_pos rfl, iterated]
      rfl
    · rw [← landed, Option.map_map]
      rfl
  | false =>
    obtain ⟨found, iterated, landed⟩ := IterateBank_of_reaches next first reach
    refine ⟨found.map (·.pbk), ?_, ?_⟩
    · rw [iterate, if_neg Bool.false_ne_true, iterated]
      rfl
    · rw [← landed, Option.map_map]
      rfl

private theorem matchName_of_reaches {memory : Memory} {offset : ℕ} {chars : List Byte}
    (reach : memory.Reaches (offset + chars.length)) :
    matchName memory offset chars = .ok (decide (memory.peekBytes offset chars.length = chars)) := by
  induction chars generalizing offset with
  | nil => rfl
  | cons char rest ih =>
    rw [List.length_cons] at reach
    rw [matchName, readByte_of_reaches (reach.mono (by omega)), Except.ok_bind, List.length_cons,
      peekBytes_succ]
    split_ifs with same
    · rw [ih (reach.mono (by omega))]
      simp only [same, List.cons.injEq, true_and]
    · simp only [List.cons.injEq, Ne.symm same, false_and, decide_false]
      rfl

private theorem matchName_name {memory : Memory} {bank : ℕ} (name : Name)
    (reach : memory.Reaches (bank + 4)) :
    matchName memory bank name.toList = .ok (decide (nameAt memory bank = name.toList)) := by
  have chars : name.toList.length = 4 := name.length_toList
  rw [matchName_of_reaches (by rwa [chars]), chars]
  rfl

/-- What `FindBank` reports at a bank that it looks at. -/
def report (memory : Memory) (b32 : Bool) (bank : ℕ) : Except Fault (Option Found) := do
  let found ← foundBank (typeAt memory b32 bank) (sizeAt memory b32 bank) (bank + headerSize b32)
  return some found

theorem findBankLoop_of_reaches {memory : Memory} {name : Name} {bank : ℕ} (first : memory.Reaches 8)
    (reach : memory.Reaches (bank + 8)) : findBankLoop memory name bank =
      if nameAt memory bank = name.toList then report memory false bank
      else if after memory false bank < endOf memory then
        findBankLoop memory name (after memory false bank)
      else .ok none := by
  rw [findBankLoop, matchName_name name (reach.mono (by omega)), Except.ok_bind]
  have type : memory.uint16 (bank + 4) = .ok (memory.peek16 (bank + 4)) :=
    uint16_of_reaches (reach.mono (by omega))
  have length : memory.uint16 (bank + 6) = .ok (memory.peek16 (bank + 6)) :=
    uint16_of_reaches (reach.mono (by omega))
  have size : memory.uint32 0 = .ok (memory.peek32 0) := uint32_of_reaches (first.mono (by omega))
  by_cases same : nameAt memory bank = name.toList
  · rw [if_pos same, if_pos (decide_eq_true same), type, Except.ok_bind, length, Except.ok_bind]
    rfl
  · rw [if_neg same, if_neg (mt of_decide_eq_true same), length, Except.ok_bind, size, Except.ok_bind]
    rfl

/-- A 16-bit bank that cannot be reached whole makes `FindBank` fault, whatever the name. -/
theorem findBankLoop_of_not_reaches {memory : Memory} {name : Name} {bank : ℕ}
    (out : ¬ memory.Reaches (bank + 8)) : ∃ fault, findBankLoop memory name bank = .error fault := by
  obtain ⟨fault, failed⟩ := uint16_of_not_reaches (show ¬ memory.Reaches (bank + 6 + 2) from out)
  rw [findBankLoop]
  rcases matchName memory bank name.toList with fault' | _ | _
  · exact ⟨fault', rfl⟩
  · rw [Except.ok_bind, if_neg Bool.false_ne_true, failed]
    exact ⟨fault, rfl⟩
  · rw [Except.ok_bind, if_pos rfl]
    rcases memory.uint16 (bank + 4) with fault' | type
    · exact ⟨fault', rfl⟩
    · rw [Except.ok_bind, failed]
      exact ⟨fault, rfl⟩

theorem findBank32Loop_of_reaches {memory : Memory} {name : Name} {previous : Option ℕ} {candidate : ℕ}
    (next : nextOf memory true previous = .ok candidate) (first : memory.Reaches 8)
    (reach : CandidateReaches memory true candidate) : findBank32Loop memory name previous =
      match landing memory true candidate with
      | none => .ok none
      | some bank =>
          if nameAt memory bank = name.toList then report memory true bank
          else findBank32Loop memory name (some bank) := by
  obtain ⟨found, iterated, landed, data⟩ := IterateBank32_of_reaches next first reach
  rw [findBank32Loop, iterated, Except.ok_bind, ← landed]
  cases found with
  | none => rfl
  | some bank =>
    have header : memory.Reaches (bank.pbk.offset + 12) := reach.bank _ landed.symm
    have type : memory.uint32 (bank.pbk.offset + 4) = .ok (memory.peek32 (bank.pbk.offset + 4)) :=
      uint32_of_reaches (header.mono (by omega))
    have length : memory.uint32 (bank.pbk.offset + 8) = .ok (memory.peek32 (bank.pbk.offset + 8)) :=
      uint32_of_reaches (header.mono (by omega))
    simp only [Option.map_some]
    rw [matchName_name name (header.mono (by omega)), Except.ok_bind]
    by_cases same : nameAt memory bank.pbk.offset = name.toList
    · rw [if_pos same, if_pos (decide_eq_true same), type, Except.ok_bind, length, Except.ok_bind,
        data bank rfl]
      rfl
    · rw [if_neg same, if_neg (mt of_decide_eq_true same)]

theorem findBank32Loop_of_not_reaches {memory : Memory} {name : Name} {previous : Option ℕ}
    {candidate : ℕ} (next : nextOf memory true previous = .ok candidate)
    (first : memory.Reaches 8) (out : ¬ CandidateReaches memory true candidate) :
    ∃ fault, findBank32Loop memory name previous = .error fault := by
  obtain ⟨fault, failed⟩ := IterateBank32_of_not_reaches next first out
  rw [findBank32Loop, failed]
  exact ⟨fault, rfl⟩

theorem IsBank32_of_reaches {memory : Memory} (first : memory.Reaches 8) :
    IsBank32 memory = .ok (memory.peek32 4 &&& (1#32 <<< 4) != 0#32) := by
  rw [IsBank32, uint32_of_reaches first]
  rfl

/-- The candidates of a traversal, in order; the last one is where it ends. -/
def candidates (memory : Memory) (b32 : Bool) (candidate : ℕ) : List ℕ :=
  candidate :: match _landed : landing memory b32 candidate with
    | none => []
    | some bank => candidates memory b32 (after memory b32 bank)
termination_by 2 ^ 33 - candidate
decreasing_by
  have order := le_of_landing _landed
  have bound := endOf_lt memory
  have ahead := after_gt memory b32 bank
  omega

/-- The banks of a traversal. -/
def visited (memory : Memory) (b32 : Bool) (candidate : ℕ) : List ℕ :=
  (candidates memory b32 candidate).filterMap (landing memory b32)

theorem candidates_none {memory : Memory} {b32 : Bool} {candidate : ℕ}
    (none : landing memory b32 candidate = none) : candidates memory b32 candidate = [candidate] := by
  rw [candidates]
  split
  · rfl
  · next bank landed => cases none.symm.trans landed

theorem candidates_some {memory : Memory} {b32 : Bool} {candidate bank : ℕ}
    (landed : landing memory b32 candidate = some bank) :
    candidates memory b32 candidate = candidate :: candidates memory b32 (after memory b32 bank) := by
  rw [candidates]
  split
  · next none => cases none.symm.trans landed
  · next bank' landed' => cases landed.symm.trans landed'; rfl

theorem visited_none {memory : Memory} {b32 : Bool} {candidate : ℕ}
    (none : landing memory b32 candidate = none) :
    visited memory b32 candidate = [] := by
  rw [visited, candidates_none none, List.filterMap_cons_none none, List.filterMap_nil]

theorem visited_some {memory : Memory} {b32 : Bool} {candidate bank : ℕ}
    (landed : landing memory b32 candidate = some bank) :
    visited memory b32 candidate = bank :: visited memory b32 (after memory b32 bank) := by
  rw [visited, candidates_some landed, List.filterMap_cons_some landed]
  rfl

/-- A bank list under construction: whole names, and room for the next one only in steps of four. -/
structure Listed (list : List (Option Byte)) (names : List (List Byte)) : Prop where
  prefixed : list.take (names.length * 4) = (names.flatten).map some
  room : names.length * 4 ≤ list.length
  whole : 4 ∣ list.length

private theorem grown_length {list : List (Option Byte)} {names : List (List Byte)}
    (listed : Listed list names) :
    names.length * 4 + 4 ≤
      (if names.length * 4 ≥ list.length then
      list ++ List.replicate 400 none else list).length := by
  have room := listed.room
  obtain ⟨quarter, whole⟩ := listed.whole
  split_ifs
  · rw [List.length_append, List.length_replicate]
    omega
  · omega

private theorem listed_grown {list : List (Option Byte)} {names : List (List Byte)}
    (listed : Listed list names) :
    Listed (if names.length * 4 ≥ list.length then
      list ++ List.replicate 400 none else list) names := by
  obtain ⟨prefixed, room, whole⟩ := listed
  split_ifs
  · refine ⟨?_, ?_, ?_⟩
    · rw [List.take_append_of_le_length room, prefixed]
    · rw [List.length_append]
      omega
    · rw [List.length_append, List.length_replicate]
      omega
  · exact ⟨prefixed, room, whole⟩

private theorem appendName_listed {list : List (Option Byte)} {names : List (List Byte)}
    {name : List Byte} (listed : Listed list names) (room : names.length * 4 + 4 ≤ list.length)
    (chars : name.length = 4) :
    ∃ next, appendName list (names.length * 4) name = .ok next ∧ Listed next (names ++ [name]) := by
  refine ⟨_, by rw [appendName, if_pos (by omega)], ?_⟩
  have length : (list.take (names.length * 4) ++ name.map some ++ list.drop
      (names.length * 4 + name.length)).length =
      list.length := by
    simp only [List.length_append, List.length_take, List.length_map, List.length_drop, chars]
    omega
  refine ⟨?_, ?_, by rw [length]; exact listed.whole⟩
  · have size : (list.take (names.length * 4) ++ name.map some).length =
      (names ++ [name]).length * 4 := by
      simp only [List.length_append, List.length_take, List.length_map, chars, List.length_singleton]
      omega
    rw [← size, List.take_left, listed.prefixed, List.flatten_append, List.map_append,
      List.flatten_singleton]
  · rw [length, List.length_append, List.length_singleton]
    omega

/-- The loop of `SetBankList` lists the banks of its traversal. -/
theorem setBankListLoop_of_reaches {memory : Memory} {b32 : Bool} (first : memory.Reaches 8)
    (format : IsBank32 memory = .ok b32) {candidate : ℕ} {previous : Option ℕ}
    (next : nextOf memory b32 previous = .ok candidate)
    (reach : ∀ c ∈ candidates memory b32 candidate, CandidateReaches memory b32 c)
    {list : List (Option Byte)} {names : List (List Byte)} (listed : Listed list names) :
    ∃ final, setBankListLoop memory list names.length previous =
        .ok (names.length + (visited memory b32 candidate).length, final) ∧
      Listed final (names ++ (visited memory b32 candidate).map (nameAt memory)) ∧
      (names.length + (visited memory b32 candidate).length) * 4 < final.length := by
  have grown := listed_grown listed
  have room := grown_length listed
  obtain ⟨found, iterated, landed⟩ := iterate_of_reaches next first
    (reach candidate (by rw [candidates]; exact List.mem_cons_self))
  rw [setBankListLoop]
  simp only [format, Except.ok_bind, iterated]
  cases found with
  | none =>
    rw [visited_none landed.symm, List.map_nil, List.append_nil]
    exact ⟨_, rfl, grown, by rw [List.length_nil]; omega⟩
  | some bank =>
    rw [Option.map_some] at landed
    rw [candidates_some landed.symm, List.forall_mem_cons] at reach
    have header : memory.Reaches (bank.offset + headerSize b32) := reach.1.bank _ landed.symm
    have name : memory.readBytes bank.offset 4 = .ok (nameAt memory bank.offset) := by
      refine readBytes_of_reaches (header.mono ?_)
      unfold headerSize
      split <;> omega
    have chars : (nameAt memory bank.offset).length = 4 := peekBytes_length memory bank.offset 4
    obtain ⟨extended, appended, more⟩ := appendName_listed grown room chars
    obtain ⟨final, ran, lists, below⟩ :=
      setBankListLoop_of_reaches first format (nextOf_some header) reach.2 more
    rw [visited_some landed.symm, List.length_cons, List.map_cons, ← List.singleton_append,
      ← List.append_assoc]
    rw [List.length_append, List.length_singleton] at ran below
    refine ⟨final, ?_, lists, by omega⟩
    simp only [name, Except.ok_bind]
    rw [appended, Except.ok_bind]
    rw [ran, Nat.add_assoc, Nat.add_comm 1]
termination_by 2 ^ 33 - candidate
decreasing_by
  have order : candidate ≤ bank.offset ∧ bank.offset < endOf memory := le_of_landing landed.symm
  have bound := endOf_lt memory
  have ahead := after_gt memory b32 bank.offset
  omega

/-- `SetBankList` makes the list of the names of its traversal, and a zero byte behind them. -/
theorem SetBankList_of_reaches {event : TMidasEvent} {b32 : Bool} (first : event.fData.Reaches 8)
    (format : IsBank32 event.fData = .ok b32)
    (reach : ∀ c ∈ candidates event.fData b32 8, CandidateReaches event.fData b32 c)
    (id : event.fEventHeader.fEventId ≠ 0) (unlisted : event.fBankList = none) :
    ∃ rest, SetBankList event = .ok
      ({ event with
          fBanksN := (visited event.fData b32 8).length
          fBankList := some (((visited event.fData b32 8).flatMap (nameAt event.fData)).map some ++
            some 0 :: rest) },
        (visited event.fData b32 8).length) := by
  have start : nextOf event.fData b32 none = .ok 8 := by cases b32 <;> rfl
  have empty : Listed [] [] := ⟨rfl, le_rfl, dvd_zero 4⟩
  obtain ⟨list, ran, lists, room⟩ := setBankListLoop_of_reaches first format start reach empty
  rw [List.length_nil, Nat.zero_add] at ran room
  have prefixed := lists.prefixed
  rw [List.nil_append, List.length_map] at prefixed
  refine ⟨list.drop ((visited event.fData b32 8).length * 4 + 1), ?_⟩
  rw [SetBankList, if_neg id, if_neg (by rw [unlisted]; exact Bool.false_ne_true), ran, Except.ok_bind]
  simp only [appendName, List.length_singleton, if_pos (Nat.succ_le_of_lt room), Except.ok_bind,
    prefixed, List.append_assoc, List.flatMap_def]
  rfl

end PtfConverter.Midas
