import PtfConverter.Soundness.EventSkim
import PtfConverter.Soundness.GenericBank
import PtfConverter.Soundness.ScanProgram
import PtfConverter.Soundness.ScanRows
import PtfConverter.Soundness.V1730RoundTrip

/-! # What the rows depend on

Of a bank, the converter reads a number of bytes that depends on its name only. So the rows depend
on the contents of these banks: not on the format of the event, its byte order, the place of a bank
in the event or the padding, and not on what lies behind the event in memory.
-/

namespace PtfConverter.ScanTree

open Midas (Bank BankEvent Call Crash Entry Name RawEvent System TMidasEvent TMidasFile
  TRootanaEventLoop bytesAt)

/-- The bytes of a bank that are read. -/
def bytesRead : BankName → ℕ
  | .EOM | .BONM => 0
  | .PH00 | .PH01 | .PH03 | .PH04 => 64
  | .PA00 => 24
  | .ENVT => 12
  | .CYC0 => 96
  | .MAG0 => 616

/-- Two events with the same numbers wherever the converter reads. -/
structure Alike (event other : MidasEvent) : Prop where
  timeStamp : event.timeStamp = other.timeStamp
  v730 : event.v730 = other.v730
  bank : ∀ name, Option.Rel (ReadAlike (bytesRead name)) (event.bank name) (other.bank name)

theorem handlePhidget_congr {layout : List (PhidgetField × ℕ)}
    (reads : ∀ entry ∈ layout, 8 * entry.2 + 8 ≤ 64) {bank other : TGenericData}
    (alike : ReadAlike 64 bank other) (phidget : Phidget) (points : Points) :
    handlePhidget layout phidget points bank = handlePhidget layout phidget points other := by
  have same : ∀ entry ∈ layout, (entry.1, bank.getData64 entry.2) =
    (entry.1, other.getData64 entry.2) := fun entry member =>
    congrArg (Prod.mk entry.1) (alike.words entry.2 (reads entry member))
  rw [handlePhidget, handlePhidget, List.map_congr_left same]

theorem handlePA00_congr {bank other : TGenericData} (alike : ReadAlike 24 bank other)
    (points : Points) :
    handlePA00 points bank = handlePA00 points other := by
  have reads : ∀ entry ∈ accLayout, 8 * entry.2 + 8 ≤ 24 := by decide
  have same : ∀ entry ∈ accLayout, (entry.1, bank.getData64 entry.2) =
      (entry.1, other.getData64 entry.2) :=
    fun entry member => congrArg (Prod.mk entry.1) (alike.words entry.2 (reads entry member))
  rw [handlePA00, handlePA00, List.map_congr_left same]

theorem readENVT_congr {bank other : TGenericData} (alike : ReadAlike 12 bank other)
    (old : Environment) :
    readENVT old bank = readENVT old other := by
  have zero := alike.singles 0 (by decide)
  have one := alike.singles 1 (by decide)
  have two := alike.singles 2 (by decide)
  have three : List.range 3 = [0, 1, 2] := rfl
  simp only [readENVT, three, List.map_cons, List.map_nil, zero, one, two]

theorem readCYC0_congr {bank other : TGenericData} (alike : ReadAlike 96 bank other) :
    readCYC0 bank = readCYC0 other := by
  have same (i : ℕ) (read : i < 12) : bank.getData64 i = other.getData64 i := alike.words i (by omega)
  simp (disch := decide) only [readCYC0, same]

theorem readMAG0_congr {bank other : TGenericData} (alike : ReadAlike 616 bank other) :
    readMAG0 bank = readMAG0 other := by
  have same (i : ℕ) (read : i < 77) : bank.getData64 i = other.getData64 i := alike.words i (by omega)
  have words (supply : Supply) : magnetWord supply < 37 := by cases supply <;> decide
  have current (supply : Supply) : bank.getData64 (magnetWord supply) =
      other.getData64 (magnetWord supply) :=
    same _ (by have := words supply; omega)
  have voltage (supply : Supply) : bank.getData64 (magnetWord supply + 40) =
      other.getData64 (magnetWord supply + 40) :=
    same _ (by have := words supply; omega)
  simp only [readMAG0, same 0 (by decide), current, voltage]

namespace Alike

variable {event other : MidasEvent}

theorem isSome (alike : Alike event other) (name : BankName) :
    (event.bank name).isSome = (other.bank name).isSome := by
  have same := ReadAlike.map_eq (alike.bank name) fun {bank other} _ => (rfl : () = ())
  have isSome := congrArg Option.isSome same
  rwa [Option.isSome_map, Option.isSome_map] at isSome

/-- A handler that reads no more than that does the same to both. -/
theorem handled {β : Type} (alike : Alike event other) (name : BankName) {handle : TGenericData → β}
    (congr : ∀ {bank other}, ReadAlike (bytesRead name) bank other → handle bank = handle other) :
    (event.bank name).map handle = (other.bank name).map handle :=
      ReadAlike.map_eq (alike.bank name) congr

theorem firstHandled (alike : Alike event other) (points : Points)
    {list : List (BankName × (Points → TGenericData → Except Fault Points))}
    (congr : ∀ entry ∈ list, ∀ {bank other}, ReadAlike (bytesRead entry.1) bank other →
      entry.2 points bank = entry.2 points other) :
    Decodes.firstHandled event points list = Decodes.firstHandled other points list := by
  induction list with
  | nil => rfl
  | cons entry rest ih =>
    obtain ⟨name, handle⟩ := entry
    obtain ⟨here, later⟩ := List.forall_mem_cons.mp congr
    have cons (decoded : MidasEvent) : Decodes.firstHandled decoded points ((name, handle) :: rest) =
        ((decoded.bank name).map (handle points)).orElse fun _ =>
          Decodes.firstHandled decoded points rest := by
      rw [Decodes.firstHandled]
      cases decoded.bank name <;> rfl
    rw [cons, cons, alike.handled name here, ih later]

theorem handlers_congr (points : Points) : ∀ entry ∈ handlers, ∀ {bank other : TGenericData},
    ReadAlike (bytesRead entry.1) bank other → entry.2 points bank = entry.2 points other := by
  have full : ∀ entry ∈ phidgetLayout, 8 * entry.2 + 8 ≤ 64 := by decide
  have partly : ∀ entry ∈ phidget1Layout, 8 * entry.2 + 8 ≤ 64 := by decide
  simp only [handlers, List.forall_mem_cons]
  exact ⟨fun alike => handlePhidget_congr full alike .phidg0 points,
    fun alike => handlePhidget_congr partly alike .phidg1 points,
    fun alike => handlePhidget_congr full alike .phidg3 points, fun alike =>
      handlePhidget_congr full alike .phidg4 points,
    fun alike => handlePA00_congr alike points, List.forall_mem_nil _⟩

theorem read (alike : Alike event other) (scalars : Scalars) :
    scalars.read event = scalars.read other := by
  have envt := alike.handled .ENVT fun same => readENVT_congr same scalars.environment
  have cyc0 := alike.handled .CYC0 readCYC0_congr
  have mag0 := alike.handled .MAG0 readMAG0_congr
  rw [Scalars.read, Scalars.read, envt, cyc0, mag0]

/-- The converter does the same on both events. -/
theorem processMidasEvent (alike : Alike event other) (scan : ScanToTreeConverter) :
    processMidasEvent scan event = processMidasEvent scan other := by
  have banks : handleBanks scan.points event = handleBanks scan.points other := by
    rw [Decodes.handleBanks_eq, Decodes.handleBanks_eq, alike.v730, alike.timeStamp,
      alike.firstHandled scan.points (handlers_congr scan.points)]
  simp only [ScanTree.processMidasEvent, alike.isSome, alike.timeStamp, banks, alike.read]

theorem call {made another : Call MidasEvent} (alike : Call.Alike Alike made another)
    (self : TreeConverter) :
    self.call made = self.call another := by
  cases alike with
  | BeginRun => rfl
  | ProcessMidasEvent same =>
    rw [TreeConverter.call, TreeConverter.call, Decodes.filled, Decodes.filled,
    same.processMidasEvent]
  | EndRun => rfl

end Alike

/-- The words of a bank. -/
def wordsOf (bank : Bank) : List V1730.Word :=
  (List.range bank.count).map fun i => BitVec.ofNat 32 (Bytes.value ((bank.data.drop (4 * i)).take 4))

/-- An event for the converter: its banks are as long as they are read, and those of the digitizer
hold words that can be decoded. -/
structure ScanEvent where
  timeStamp : BitVec 32
  banks : BankEvent
  nonempty : banks.entries ≠ []
  long : ∀ (name : BankName), ∀ bank ∈ banks.firstBank name.chars, bytesRead name ≤ bank.data.length
  words : ∀ name, name = V730 ∨ name = V1730 → ∀ bank ∈ banks.firstBank name,
    Midas.unitOf bank.type = 4 ∧ ∃ decoded, V1730.TV1730RawData.decode (wordsOf bank) = .ok decoded

/-- What the event says. -/
def ScanEvent.contents (event : ScanEvent) : MidasEvent where
  timeStamp := event.timeStamp
  v730 := (event.banks.firstBank V730).bind fun bank =>
    (V1730.TV1730RawData.decode (wordsOf bank)).toOption
  bank name := (event.banks.firstBank name.chars).map fun bank => .ofBytes fun k => bank.data.getD k 0

theorem getData32_words {memory : Midas.Memory} {behind : ℕ → Byte} {pdata : ℕ}
    (readable : memory.beyond = some behind) {bank : Bank} (unit : Midas.unitOf bank.type = 4)
    (there : memory.peekBytes pdata bank.data.length = bank.data) :
    ((List.range (bank.count : ℤ).toNat).map (getData32 memory pdata)) = wordsOf bank := by
  rw [Int.toNat_natCast, wordsOf]
  refine List.map_congr_left fun i member => ?_
  have inside := List.mem_range.mp member
  rw [Bank.count, unit, if_neg (by decide)] at inside
  rw [getData32, Midas.bytesAt_of_peekBytes readable there (by omega)]

namespace ScanEvent

variable (event : ScanEvent) {behind : ℕ → Byte} {read : TMidasEvent}

theorem uncached_generic (memory : read.fData = ⟨event.banks.encode .native, some behind⟩)
    (name : BankName) :
    ∃ object, Midas.uncached bankClasses read .TGenericData name.chars = .ok object ∧
      Option.Rel (ReadAlike (bytesRead name)) (object.map fun bank => bank.decoded.generic)
        (event.contents.bank name) := by
  have contents : event.contents.bank name =
      (event.banks.firstBank name.chars).map fun bank => .ofBytes fun k => bank.data.getD k 0 := rfl
  rw [contents]
  obtain ⟨absent, ran⟩ | ⟨bank, pdata, first, ran, there⟩ :=
    Midas.FindBank_firstBank event.nonempty behind name.chars
  · refine ⟨none, by rw [Midas.uncached, memory, ran]; rfl, ?_⟩
    rw [absent]
    exact .none
  · refine ⟨some _, by rw [Midas.uncached, memory, ran]; rfl, ?_⟩
    have long := event.long name bank first
    rw [first]
    apply Option.Rel.some
    dsimp only
    rw [getData64_eq, memory]
    exact readAlike_ofBytes fun k read => Midas.byte_of_peekBytes rfl there (read.trans_le long)

theorem uncached_digitizer (memory : read.fData = ⟨event.banks.encode .native, some behind⟩)
    {name : Name} (digitizer : name = V730 ∨ name = V1730) :
    ∃ object, Midas.uncached bankClasses read .TV1730RawData name = .ok object ∧
      (object.bind fun bank => bank.decoded.v1730) =
        (event.banks.firstBank name).bind fun bank =>
          (V1730.TV1730RawData.decode (wordsOf bank)).toOption := by
  obtain ⟨absent, ran⟩ | ⟨bank, pdata, first, ran, there⟩ :=
    Midas.FindBank_firstBank event.nonempty behind name
  · refine ⟨none, by rw [Midas.uncached, memory, ran]; rfl, ?_⟩
    rw [absent]
    rfl
  · obtain ⟨unit, decoded, decode⟩ := event.words name digitizer bank first
    have words := getData32_words rfl unit there
    have made : bankClasses.make .TV1730RawData read name ⟨bank.count, bank.type, pdata⟩ =
        .ok ⟨.TV1730RawData, bank.count, bank.type, name, pdata,
          ⟨⟨getData64 read.fData pdata⟩, some decoded⟩⟩ := by
      rw [Midas.BankClasses.make, memory]
      dsimp only [bankClasses]
      rw [words, decode]
      rfl
    have fetched : Midas.uncached bankClasses read .TV1730RawData name =
        (bankClasses.make .TV1730RawData read name ⟨bank.count, bank.type, pdata⟩ >>= fun object =>
          .ok (some object)) := by
      rw [Midas.uncached, memory, ran]
      rfl
    refine ⟨_, by rw [fetched, made]; rfl, ?_⟩
    rw [first, Option.bind_some, Option.bind_some, decode]
    rfl

/-- The program decodes an event to something like its contents. -/
theorem decodes (behind : ℕ → Byte) {raw : RawEvent} (native : raw.native = event.banks.encode .native)
    (time : raw.header.fTimeStamp = event.timeStamp) :
    ∃ decoded, Decodes (Midas.inMemory behind raw.event) decoded ∧ Alike decoded event.contents := by
  have memory : (Midas.inMemory behind raw.event).fData =
      ⟨event.banks.encode .native, some behind⟩ := by
    rw [← native]
    rfl
  choose object fetched alike using event.uncached_generic memory
  obtain ⟨last, reached, -⟩ := event.uncached_digitizer memory (.inr rfl)
  exact ⟨⟨event.timeStamp, event.contents.v730, fun name => (object name).map fun bank =>
    bank.decoded.generic⟩,
    ⟨time, fun name => ⟨object name, fetched name, rfl⟩,
      event.uncached_digitizer memory (.inl rfl), last, reached⟩,
    rfl, rfl, alike⟩

end ScanEvent

/-- An event in a file, in either byte order, and what it says. -/
def Holds (raw : RawEvent) (event : ScanEvent) : Prop :=
  raw.native = event.banks.encode .native ∧ raw.header.fTimeStamp = event.timeStamp

end PtfConverter.ScanTree
