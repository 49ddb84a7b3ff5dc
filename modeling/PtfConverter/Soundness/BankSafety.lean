import PtfConverter.Soundness.ByteOrder
import PtfConverter.ToMathlib.Search

/-! # When the bank traversals stay inside the data

On arbitrary bytes a traversal reads where the bank sizes send it. `BanksInside` bounds every place
that a search for some name looks at, and says that the first bank of each name has a type that
`TID_SIZE` covers. Since fewer banks fit than there are names, a search for a name that no bank has
looks everywhere, so these conditions are also necessary.
-/

namespace PtfConverter.Midas

open Memory

/-- The name of a bank, as four characters. -/
def nameOf (memory : Memory) (bank : ℕ) : Name :=
  ⟨(nameAt memory bank).toArray, peekBytes_length memory bank 4⟩

theorem nameOf_eq_iff {memory : Memory} {bank : ℕ} {name : Name} :
    nameOf memory bank = name ↔ nameAt memory bank = name.toList := by
  rw [← Vector.toList_inj]
  rfl

/-- `TID_SIZE` has an entry for the type of a bank. -/
def Sized (memory : Memory) (b32 : Bool) (bank : ℕ) : Prop :=
  (typeAt memory b32 bank &&& 0xff#32).toNat < TID_SIZE.length

instance (memory : Memory) (b32 : Bool) (bank : ℕ) : Decidable (Sized memory b32 bank) :=
  inferInstanceAs (Decidable (_ < _))

theorem report_ok_iff {memory : Memory} {b32 : Bool} {bank : ℕ} :
    (∃ found, report memory b32 bank = .ok found) ↔ Sized memory b32 bank := by
  rw [report, foundBank, tidSize, Sized]
  cases entry : TID_SIZE[(typeAt memory b32 bank &&& 0xff#32).toNat]? with
  | none =>
    have past := List.getElem?_eq_none_iff.mp entry
    refine ⟨?_, fun inside => by omega⟩
    rintro ⟨found, absurd⟩
    cases absurd
  | some size =>
    obtain ⟨inside, _⟩ := List.getElem?_eq_some_iff.mp entry
    refine ⟨fun _ => inside, fun _ => ?_⟩
    rw [Except.ok_bind]
    split_ifs
    · exact ⟨_, rfl⟩
    · exact ⟨_, rfl⟩

private theorem not_ok {α : Type} {run : Except Fault α} (failed : ∃ fault, run = .error fault) :
    ¬ ∃ found, run = .ok found := by
  obtain ⟨fault, failed⟩ := failed
  rintro ⟨found, same⟩
  cases failed.symm.trans same

private theorem findBankLoop_ok_iff {memory : Memory} (first : memory.Reaches 8) (name : Name)
    (bank : ℕ) :
    (∃ found, findBankLoop memory name bank = .ok found) ↔
      Search.Ends (fun bank => memory.Reaches (bank + 8)) some (nameOf memory) (Sized memory false) name
        (bank :: visited memory false (after memory false bank)) := by
  by_cases reach : memory.Reaches (bank + 8)
  · rw [findBankLoop_of_reaches first reach, Search.Ends]
    simp only [reach, true_and]
    by_cases same : nameOf memory bank = name
    · rw [if_pos (nameOf_eq_iff.mp same), if_pos same, report_ok_iff]
    · rw [if_neg (mt nameOf_eq_iff.mpr same), if_neg same]
      have landed : landing memory false (after memory false bank) =
          if after memory false bank < endOf memory then some (after memory false bank) else none := by
        rw [landing, aligned, if_neg Bool.false_ne_true, Option.filter_some]
        simp only [decide_eq_true_eq]
      by_cases inside : after memory false bank < endOf memory
      · rw [if_pos inside] at landed
        rw [if_pos inside, visited_some landed]
        exact findBankLoop_ok_iff first name (after memory false bank)
      · rw [if_neg inside] at landed
        rw [if_neg inside, visited_none landed]
        exact ⟨fun _ => trivial, fun _ => ⟨_, rfl⟩⟩
  · exact ⟨fun found => absurd found (not_ok (findBankLoop_of_not_reaches reach)),
      fun ends => absurd ends.1 reach⟩
termination_by 2 ^ 33 - bank
decreasing_by
  have ahead := after_gt memory false bank
  have bound := endOf_lt memory
  omega

private theorem findBank32Loop_ok_iff {memory : Memory} (first : memory.Reaches 8) (name : Name)
    {previous : Option ℕ} {candidate : ℕ} (next : nextOf memory true previous = .ok candidate) :
    (∃ found, findBank32Loop memory name previous = .ok found) ↔
      Search.Ends (CandidateReaches memory true) (landing memory true) (nameOf memory)
        (Sized memory true) name
        (candidates memory true candidate) := by
  by_cases reach : CandidateReaches memory true candidate
  · rw [findBank32Loop_of_reaches next first reach]
    cases landed : landing memory true candidate with
    | none =>
      rw [candidates_none landed, Search.Ends, landed]
      exact ⟨fun _ => ⟨reach, trivial⟩, fun _ => ⟨_, rfl⟩⟩
    | some bank =>
      rw [candidates_some landed, Search.Ends, landed]
      simp only [reach, true_and]
      by_cases same : nameOf memory bank = name
      · rw [if_pos (nameOf_eq_iff.mp same), if_pos same, report_ok_iff]
      · rw [if_neg (mt nameOf_eq_iff.mpr same), if_neg same]
        exact findBank32Loop_ok_iff first name (nextOf_some (reach.bank bank landed))
  · have failed := not_ok (show ∃ fault, findBank32Loop memory name previous = .error fault from
      findBank32Loop_of_not_reaches next first reach)
    refine ⟨fun found => absurd found failed, fun ends => ?_⟩
    rw [candidates] at ends
    exact absurd ends.1 reach
termination_by 2 ^ 33 - candidate
decreasing_by
  have order := le_of_landing landed
  have ahead := after_gt memory true bank
  have bound := endOf_lt memory
  omega

private theorem candidates_length (memory : Memory) (b32 : Bool) (candidate : ℕ) :
    8 * (candidates memory b32 candidate).length ≤ 15 + (2 ^ 32 + 8 - candidate) := by
  cases landed : landing memory b32 candidate with
  | none =>
    rw [candidates_none landed, List.length_singleton]
    omega
  | some bank =>
    have order := le_of_landing landed
    have ahead := after_gt memory b32 bank
    have bound := endOf_lt memory
    have rest := candidates_length memory b32 (after memory b32 bank)
    rw [candidates_some landed, List.length_cons]
    omega
termination_by 2 ^ 33 - candidate
decreasing_by omega

private theorem visited_length (memory : Memory) (b32 : Bool) (candidate : ℕ) :
    (visited memory b32 candidate).length < 2 ^ 30 := by
  have few := candidates_length memory b32 candidate
  have fewer := List.length_filterMap_le (landing memory b32) (candidates memory b32 candidate)
  rw [visited]
  omega

private theorem exists_unused (memory : Memory) {banks : List ℕ} (few : banks.length < 2 ^ 32) :
    ∃ name, ∀ bank ∈ banks, nameOf memory bank ≠ name := by
  obtain ⟨n, small, unused⟩ := Search.exists_lt_notMem
    (show (banks.map fun bank => Bytes.value (nameAt memory bank)).length < 2 ^ 32 by
      rwa [List.length_map])
  refine ⟨⟨(Bytes.encode 4 n).toArray, Bytes.encode_length 4 n⟩, fun bank member same => unused ?_⟩
  have chars : nameAt memory bank = Bytes.encode 4 n := nameOf_eq_iff.mp same
  refine List.mem_map.mpr ⟨bank, member, ?_⟩
  rw [chars, Bytes.value_encode_of_lt small]

/-- The banks that a search for a name can look at: the first 16-bit bank always. -/
def searched (memory : Memory) : List ℕ :=
  if formatOf (memory.peek32 4) then
    visited memory true 8 else 8 :: visited memory false (after memory false 8)

/-- Everything that the traversals of native data look at lies inside the data. -/
structure BanksInside (data : List Byte) : Prop where
  /-- Every bank has its whole header. -/
  headers : ∀ bank ∈ searched (strict data),
    bank + headerSize (formatOf ((strict data).peek32 4)) ≤ data.length
  /-- So has every type word that a 32-bit traversal probes, behind the last bank as well. -/
  probes : formatOf ((strict data).peek32 4) → ∀ candidate ∈ candidates (strict data) true 8,
    candidate + 8 ≤ data.length ∧
      ((strict data).peek32 (candidate + 4) > TID_MAX → candidate + 12 ≤ data.length)
  /-- The first bank of each name has a type with a size. -/
  types : ∀ name, ∀ bank ∈ (searched (strict data)).find? fun bank => nameOf (strict data) bank = name,
    Sized (strict data) (formatOf ((strict data).peek32 4)) bank

private theorem candidateReaches_iff {data : List Byte} {b32 : Bool} {candidate : ℕ} :
    CandidateReaches (strict data) b32 candidate ↔
      (b32 → candidate + 8 ≤ data.length ∧
        ((strict data).peek32 (candidate + 4) > TID_MAX → candidate + 12 ≤ data.length)) ∧
      ∀ bank ∈ landing (strict data) b32 candidate, bank + headerSize b32 ≤ data.length := by
  constructor
  · rintro ⟨type, shifted, bank⟩
    exact ⟨fun format =>
      ⟨reaches_strict.mp (type format), fun unknown => reaches_strict.mp (shifted format unknown)⟩,
      fun found landed => reaches_strict.mp (bank found landed)⟩
  · rintro ⟨probes, headers⟩
    exact ⟨fun format => reaches_strict.mpr (probes format).1,
      fun format unknown => reaches_strict.mpr ((probes format).2 unknown),
      fun bank landed => reaches_strict.mpr (headers bank landed)⟩

/-- `FindBank` gets through for every name exactly when the traversal stays inside. -/
theorem FindBank_ok_iff {data : List Byte} (long : 8 ≤ data.length) :
    (∀ name, ∃ found, FindBank (strict data) name = .ok found) ↔ BanksInside data := by
  have first : (strict data).Reaches 8 := reaches_strict.mpr long
  have format : IsBank32 (strict data) = .ok (formatOf ((strict data).peek32 4)) :=
    IsBank32_of_reaches first
  have few : (searched (strict data)).length < 2 ^ 32 := by
    rw [searched]
    split_ifs
    · exact (visited_length ..).trans (by decide)
    · have rest := visited_length (strict data) false (after (strict data) false 8)
      rw [List.length_cons]
      omega
  have fresh := exists_unused (strict data) few
  simp only [FindBank, format, Except.ok_bind]
  cases b32 : formatOf ((strict data).peek32 4) with
  | true =>
    have banks : searched (strict data) = visited (strict data) true 8 := by rw [searched, if_pos b32]
    rw [banks] at fresh
    simp only [if_true, findBank32Loop_ok_iff first _ (rfl : nextOf (strict data) true none = .ok 8)]
    rw [Search.forall_ends_iff fresh]
    constructor
    · rintro ⟨reach, fine⟩
      refine ⟨?_, fun _ candidate member =>
        (candidateReaches_iff.mp (reach candidate member)).1 rfl, ?_⟩
      · rw [banks, b32]
        intro bank visits
        obtain ⟨candidate, member, landed⟩ := List.mem_filterMap.mp visits
        exact (candidateReaches_iff.mp (reach candidate member)).2 bank landed
      · rw [banks, b32]
        exact fine
    · rintro ⟨headers, probes, types⟩
      rw [banks, b32] at headers types
      refine ⟨fun candidate member =>
        candidateReaches_iff.mpr ⟨fun _ => probes b32 candidate member, ?_⟩, types⟩
      exact fun bank landed => headers bank (List.mem_filterMap.mpr ⟨candidate, member, landed⟩)
  | false =>
    have banks : searched (strict data) =
        8 :: visited (strict data) false (after (strict data) false 8) := by
      rw [searched, if_neg (by rw [b32]; exact Bool.false_ne_true)]
    rw [banks] at fresh
    rw [← @List.filterMap_some _ (8 :: _)] at fresh
    simp only [Bool.false_eq_true, if_false, findBankLoop_ok_iff first]
    rw [Search.forall_ends_iff fresh]
    simp only [Search.first, List.filterMap_some, reaches_strict]
    constructor
    · rintro ⟨reach, fine⟩
      refine ⟨?_, fun absurd => ?_, ?_⟩
      · rw [banks, b32]
        exact reach
      · rw [b32] at absurd
        cases absurd
      · rw [banks, b32]
        exact fine
    · rintro ⟨headers, _, types⟩
      rw [banks, b32] at headers types
      exact ⟨headers, types⟩

/-- `SwapBytes(false)`, then `SetBankList`, then `FindBank` of any name: no access outside the data,
no index outside `TID_SIZE`, no assertion. -/
def ParsesSafely (header : EventHeader) (data : List Byte) : Prop :=
  ∃ memory code, SwapBytes (strict data) header.fDataSize false = .ok (memory, code) ∧
    ∃ event count, SetBankList (.fresh header memory) = .ok (event, count) ∧
      ∀ name, ∃ found, FindBank event.fData name = .ok found

theorem SetBankList_fData {event listed : TMidasEvent} {count : ℕ}
    (ran : SetBankList event = .ok (listed, count)) :
    listed.fData = event.fData := by
  rw [SetBankList] at ran
  split_ifs at ran
  · cases ran
    rfl
  · cases ran
    rfl
  · obtain ⟨⟨fBanksN, fBankList⟩, _, ran⟩ := Except.bind_eq_ok_iff.mp ran
    obtain ⟨ended, _, ran⟩ := Except.bind_eq_ok_iff.mp ran
    cases ran
    rfl

/-- Where the searches stay inside, so does the listing of the banks. -/
private theorem SetBankList_of_inside {data : List Byte} (long : 8 ≤ data.length)
    (inside : BanksInside data) (header : EventHeader) :
    ∃ event count, SetBankList (.fresh header (strict data)) = .ok (event, count) := by
  obtain ⟨headers, probes, _⟩ := inside
  have first : (strict data).Reaches 8 := reaches_strict.mpr long
  have format : IsBank32 (strict data) = .ok (formatOf ((strict data).peek32 4)) :=
    IsBank32_of_reaches first
  have reach : ∀ candidate ∈ candidates (strict data) (formatOf ((strict data).peek32 4)) 8,
      CandidateReaches (strict data) (formatOf ((strict data).peek32 4)) candidate := by
    intro candidate member
    refine candidateReaches_iff.mpr
      ⟨fun b32 => probes b32 candidate (b32 ▸ member), fun bank landed => headers bank ?_⟩
    have visits : bank ∈ visited (strict data) (formatOf ((strict data).peek32 4)) 8 :=
      List.mem_filterMap.mpr ⟨candidate, member, landed⟩
    rw [searched]
    split_ifs with b32
    · rwa [b32] at visits
    · rw [Bool.not_eq_true] at b32
      rw [b32] at visits
      -- a search looks at the first bank even where a listing finds none
      cases landed : landing (strict data) false 8 with
      | none =>
        rw [visited_none landed] at visits
        cases visits
      | some start =>
        have here : start = 8 := by
          rw [landing, aligned, if_neg Bool.false_ne_true] at landed
          cases (Option.filter_eq_some_iff.mp landed).1
          rfl
        rwa [visited_some landed, here] at visits
  by_cases none : header.fEventId = 0
  · rw [SetBankList, if_pos (by exact none)]
    exact ⟨_, _, rfl⟩
  · obtain ⟨rest, listed⟩ :=
      @SetBankList_of_reaches (.fresh header (strict data)) _ first format reach none rfl
    exact ⟨_, _, listed⟩

private theorem long_of_toNative {data native : List Byte} (found : toNative data = some native) :
    8 ≤ native.length := by
  rw [toNative_length found]
  by_contra short
  rw [toNative, if_neg short] at found
  cases found

private theorem inside_of_parsesSafely {header : EventHeader} {data : List Byte}
    (good : header.IsGoodSize) (size : header.fDataSize.toNat = data.length)
    (safe : ParsesSafely header data) :
    ∃ native, toNative data = some native ∧ BanksInside native := by
  obtain ⟨memory, code, ran, event, count, listed, found⟩ := safe
  have field : header.fDataSize = BitVec.ofNat 32 data.length := by
    rw [← size, BitVec.ofNat_toNat, BitVec.setWidth_eq]
  have computes := SwapBytes_computes (size ▸ good.2 : data.length ≤ maxEventSize)
  rw [← field, ran] at computes
  cases native : toNative data with
  | none =>
    rw [native] at computes
    obtain ⟨fault, absurd⟩ := computes
    cases absurd
  | some bytes =>
    rw [native] at computes
    cases computes
    rw [SetBankList_fData listed] at found
    exact ⟨bytes, rfl, (FindBank_ok_iff (long_of_toNative native)).mp found⟩

/-- The traversals of an event stay inside its data, on arbitrary bytes, exactly when its banks do. -/
theorem parsesSafely_iff (header : EventHeader) (data : List Byte) (good : header.IsGoodSize)
    (size : header.fDataSize.toNat = data.length) :
    ParsesSafely header data ↔ ∃ native, toNative data = some native ∧ BanksInside native := by
  refine ⟨inside_of_parsesSafely good size, ?_⟩
  rintro ⟨native, found, inside⟩
  have field : header.fDataSize = BitVec.ofNat 32 data.length := by
    rw [← size, BitVec.ofNat_toNat, BitVec.setWidth_eq]
  have long := long_of_toNative found
  obtain ⟨code, swaps⟩ := swaps_of_toNative (size ▸ good.2 : data.length ≤ maxEventSize) found
  obtain ⟨event, count, listed⟩ := SetBankList_of_inside long inside header
  refine ⟨strict native, code, by rw [field]; exact swaps, event, count, listed, ?_⟩
  rw [SetBankList_fData listed]
  exact (FindBank_ok_iff long).mpr inside

/-- The traversals of a native 16-bit event with one bank stay inside it. -/
theorem parsesSafely_wordBank : ParsesSafely ⟨1, 0, 0, 0, 24⟩ (wordBank.encode .native) := by
  have banks : searched (strict (wordBank.encode .native)) = [8] := by
    rw [searched, if_neg (by decide), visited_none (by decide)]
  refine (parsesSafely_iff ⟨1, 0, 0, 0, 24⟩ (wordBank.encode .native) (by decide) (by decide)).mpr
    ⟨_, toNative_of_low_flags (by decide) (by decide), ?_, by decide, ?_⟩
  · rw [banks]
    decide
  · rw [banks]
    intro name bank found
    cases List.mem_singleton.mp (List.mem_of_find?_eq_some found)
    decide

/-- A 32-bit event with a bank of two words. -/
def longBank : BankEvent where
  b32 := true
  flags := 0x11
  entries := [⟨[], twoWords #v[0x41, 0x44, 0x43, 0x32] (by decide)⟩]
  announced := announced_wide
  sizes := by decide
  strays := by decide
  good := by decide

/-- Behind the last bank of a 32-bit event the traversals look for a type word past the data. -/
theorem longBank_not_parsesSafely : ¬ ∀ (header : EventHeader) (data : List Byte), header.IsGoodSize →
    header.fDataSize.toNat = data.length → ParsesSafely header data := by
  intro safe
  obtain ⟨native, found, inside⟩ := inside_of_parsesSafely (by decide) (by decide)
    (safe ⟨1, 0, 0, 0, 28⟩ (longBank.encode .native) (by decide) (by decide))
  have same : toNative (longBank.encode .native) = some (longBank.encode .native) :=
    toNative_of_low_flags (by decide) (by decide)
  cases same.symm.trans found
  have landed : landing (strict (longBank.encode .native)) true 8 = some 8 := by decide
  have behind : after (strict (longBank.encode .native)) true 8 = 28 := by decide
  have probed : 28 ∈ candidates (strict (longBank.encode .native)) true 8 := by
    rw [candidates_some landed, behind, candidates]
    exact List.mem_cons_of_mem _ List.mem_cons_self
  have past := (inside.probes (by decide) 28 probed).1
  have length : (longBank.encode .native).length = 28 := by decide
  omega

end PtfConverter.Midas
