import PtfConverter.Model.MpmtProgram
import PtfConverter.Soundness.BRBSamples
import PtfConverter.Soundness.EventSkim
import PtfConverter.Soundness.GenericBank
import PtfConverter.Soundness.MpmtIsolation

/-! # From the bytes of a file to the rows of midas2root_mpmt

The reads of a BRB bank stay inside the bank, and three temperatures take twelve bytes, six
take forty-eight. So the rows depend on the contents of the banks only. With a begin of run in
front of the first BRB bank no event ends the program, and the rows show the BRB banks of the
file one after the other.
-/

namespace PtfConverter.MpmtTree

open Midas (Ask Asks Bank BankEvent Call Name RawEvent System TMidasEvent TMidasFile
  TRootanaEventLoop bytesAt uncached)
open ScanTree (TGenericData ReadAlike)
open ScanToTreeConverter (ProcessMidasEvent processMidasEvent)

/-- The class that a name is asked for. -/
def classOf (name : Name) : BankClass := if name = BRB0 then .TBRBRawData else .TGenericData

/-- What the program can decode of an event. -/
structure Decodes (event : TMidasEvent) (decoded : MidasEvent) : Prop where
  timeStamp : event.fEventHeader.fTimeStamp = decoded.timeStamp
  brb0 : ∃ object, uncached bankClasses event .TBRBRawData BRB0 = .ok object ∧
    (object.bind fun bank => bank.decoded.brb) = decoded.brb0
  brt0 : ∃ object, uncached bankClasses event .TGenericData BRT0 = .ok object ∧
    (object.map fun bank => bank.decoded.generic) = decoded.brt0
  tmp0 : ∃ object, uncached bankClasses event .TGenericData TMP0 = .ok object ∧
    (object.map fun bank => bank.decoded.generic) = decoded.tmp0

namespace Decodes

variable {event : TMidasEvent} {decoded : MidasEvent} {first : ℕ}

theorem askBRB0 (decodes : Decodes event decoded) :
    Asks bankClasses classOf event first askBRB0 (.ok decoded.brb0) := by
  obtain ⟨object, fetched, same⟩ := decodes.brb0
  rw [← same]
  have asked : Asks bankClasses classOf event first
      (Ask.getEventData bankClasses .TBRBRawData BRB0 : Code _) _ :=
    Asks.getEventData fetched
  exact asked.next (by rw [Option.bind_map]; exact Asks.pure _)

theorem askGeneric {name : Name} (plain : classOf name = .TGenericData) {bank : Option TGenericData}
    (fetched : ∃ object, uncached bankClasses event .TGenericData name = .ok object ∧
      (object.map fun bank => bank.decoded.generic) = bank) :
    Asks bankClasses classOf event first (askGeneric name) (.ok bank) := by
  obtain ⟨object, fetched, rfl⟩ := fetched
  rw [← plain] at fetched
  rw [MpmtTree.askGeneric, ← plain]
  have asked : Asks bankClasses classOf event first
      (Ask.getEventData bankClasses (classOf name) name : Code _) _ :=
    Asks.getEventData fetched
  exact asked.next (by rw [Option.map_map]; exact Asks.pure _)

end Decodes

/-- The reads of a bank are inside it: the words behind it make no difference. -/
theorem getMeasurements_congr {bklen : ℤ} (counted : 0 ≤ bklen) {fData other : ℕ → BitVec 16}
    (same : ∀ i : ℕ, (i : ℤ) < bklen → fData i = other i) :
    BRB.Bank.getMeasurements ⟨bklen, fData⟩ = BRB.Bank.getMeasurements ⟨bklen, other⟩ := by
  have word : BRB.Bank.word ⟨bklen, fData⟩ = BRB.Bank.word ⟨bklen, other⟩ := by
    funext i
    rw [BRB.Bank.word, BRB.Bank.word]
    split_ifs with inside
    · exact congrArg Except.ok (same i inside)
    · rfl
  have sample : BRB.Bank.takeSample ⟨bklen, fData⟩ = BRB.Bank.takeSample ⟨bklen, other⟩ := by
    funext istart samples i
    rw [BRB.Bank.takeSample, BRB.Bank.takeSample, word]
  have packet : BRB.Bank.takePacket ⟨bklen, fData⟩ = BRB.Bank.takePacket ⟨bklen, other⟩ := by
    funext samples counter
    rw [BRB.Bank.takePacket, BRB.Bank.takePacket, word, sample]
  have adc : BRB.Bank.takeAdc ⟨bklen, fData⟩ = BRB.Bank.takeAdc ⟨bklen, other⟩ := by
    funext fMeasurements adc
    rw [BRB.Bank.takeAdc, BRB.Bank.takeAdc, packet]
  have decoded : BRB.Bank.decode ⟨bklen, fData⟩ = BRB.Bank.decode ⟨bklen, other⟩ := by
    rw [BRB.Bank.decode, BRB.Bank.decode, adc]
    rfl
  have here : BRB.Bank.decode ⟨bklen, fData⟩ = _ := BRB.Bank.decode_ok counted
  rw [decoded] at here
  exact Except.ok.inj (here.symm.trans (BRB.Bank.decode_ok counted))

/-- Two events with the same measurements, and the same numbers wherever temperatures are read. -/
structure Alike (event other : MidasEvent) : Prop where
  timeStamp : event.timeStamp = other.timeStamp
  brb0 : event.brb0.map BRB.Bank.getMeasurements = other.brb0.map BRB.Bank.getMeasurements
  brt0 : Option.Rel (ReadAlike 12) event.brt0 other.brt0
  tmp0 : Option.Rel (ReadAlike 48) event.tmp0 other.tmp0

theorem readBRT0_congr (scan : ScanToTreeConverter) {bank other : TGenericData}
    (alike : ReadAlike 12 bank other) :
    scan.readBRT0 bank = scan.readBRT0 other := by
  have zero := alike.singles 0 (by decide)
  have one := alike.singles 1 (by decide)
  have two := alike.singles 2 (by decide)
  have three : List.range 3 = [0, 1, 2] := rfl
  simp only [ScanToTreeConverter.readBRT0, three, List.map_cons, List.map_nil, zero, one, two]

theorem readTMP0_congr (scan : ScanToTreeConverter) {bank other : TGenericData}
    (alike : ReadAlike 48 bank other) :
    scan.readTMP0 bank = scan.readTMP0 other := by
  rw [ScanToTreeConverter.readTMP0, ScanToTreeConverter.readTMP0]
  refine congrArg (fun temperatures => { scan with temperatures := temperatures }) (funext fun i => ?_)
  split_ifs with sensor
  · exact alike.words _ (by omega)
  · rfl

/-- The converter does the same on both events. -/
theorem Alike.processMidasEvent {event other : MidasEvent} (alike : Alike event other)
    (scan : ScanToTreeConverter) :
    processMidasEvent scan event = processMidasEvent scan other := by
  have brt0 := ReadAlike.map_eq alike.brt0 (readBRT0_congr scan)
  rw [ScanToTreeConverter.processMidasEvent, ScanToTreeConverter.processMidasEvent]
  have measured := alike.brb0
  cases here : event.brb0 with
  | none =>
    rw [here] at measured
    have there : other.brb0 = none := Option.map_eq_none_iff.mp measured.symm
    rw [there]
    dsimp only
    rw [brt0, ReadAlike.map_eq alike.tmp0 (readTMP0_congr _)]
  | some bank =>
    rw [here] at measured
    obtain ⟨found, there, same⟩ := Option.map_eq_some_iff.mp measured.symm
    rw [there]
    dsimp only
    rw [ScanToTreeConverter.handleBRB0, ScanToTreeConverter.handleBRB0, same, alike.timeStamp]

theorem Alike.call {made other : Call MidasEvent} (alike : Call.Alike Alike made other)
    (scan : ScanToTreeConverter) :
    scan.call made = scan.call other := by
  cases alike with
  | BeginRun => rfl
  | ProcessMidasEvent same => exact same.processMidasEvent scan
  | EndRun => rfl

/-- The words of a bank. -/
def wordOf (bank : Bank) (i : ℕ) : BitVec 16 :=
  BitVec.ofNat 16 (Bytes.value ((bank.data.drop (2 * i)).take 2))

/-- An event for the converter: a BRB0 bank holds 16-bit words, and the banks with
temperatures are long enough. -/
structure MpmtEvent where
  timeStamp : BitVec 32
  banks : BankEvent
  nonempty : banks.entries ≠ []
  words : ∀ bank ∈ banks.firstBank BRB0, Midas.unitOf bank.type = 2
  mainboard : ∀ bank ∈ banks.firstBank BRT0, 12 ≤ bank.data.length
  phidgets : ∀ bank ∈ banks.firstBank TMP0, 48 ≤ bank.data.length

namespace MpmtEvent

/-- What the event says. -/
def contents (event : MpmtEvent) : MidasEvent where
  timeStamp := event.timeStamp
  brb0 := (event.banks.firstBank BRB0).map fun bank => ⟨bank.count, wordOf bank⟩
  brt0 := (event.banks.firstBank BRT0).map fun bank => .ofBytes fun k => bank.data.getD k 0
  tmp0 := (event.banks.firstBank TMP0).map fun bank => .ofBytes fun k => bank.data.getD k 0

variable (event : MpmtEvent) {behind : ℕ → Byte} {read : TMidasEvent}

theorem uncached_generic (memory : read.fData = ⟨event.banks.encode .native, some behind⟩)
    (name : Name) {length : ℕ}
    (long : ∀ bank ∈ event.banks.firstBank name, length ≤ bank.data.length) :
    ∃ object, uncached bankClasses read .TGenericData name = .ok object ∧
      Option.Rel (ReadAlike length) (object.map fun bank => bank.decoded.generic)
        ((event.banks.firstBank name).map fun bank => .ofBytes fun k => bank.data.getD k 0) := by
  obtain ⟨absent, ran⟩ | ⟨bank, pdata, first, ran, there⟩ :=
    Midas.FindBank_firstBank event.nonempty behind name
  · refine ⟨none, by rw [uncached, memory, ran]; rfl, ?_⟩
    rw [absent]
    exact .none
  · refine ⟨some _, by rw [uncached, memory, ran]; rfl, ?_⟩
    have enough := long bank first
    rw [first]
    apply Option.Rel.some
    dsimp only
    rw [ScanTree.getData64_eq, memory]
    exact ScanTree.readAlike_ofBytes fun k read =>
      Midas.byte_of_peekBytes rfl there (read.trans_le enough)

theorem uncached_brb0 (memory : read.fData = ⟨event.banks.encode .native, some behind⟩) :
    ∃ object, uncached bankClasses read .TBRBRawData BRB0 = .ok object ∧
      (object.bind fun bank => bank.decoded.brb).map BRB.Bank.getMeasurements =
        event.contents.brb0.map BRB.Bank.getMeasurements := by
  rw [contents]
  obtain ⟨absent, ran⟩ | ⟨bank, pdata, first, ran, there⟩ :=
    Midas.FindBank_firstBank event.nonempty behind BRB0
  · refine ⟨none, by rw [uncached, memory, ran]; rfl, ?_⟩
    rw [absent]
    rfl
  · refine ⟨some _, by rw [uncached, memory, ran]; rfl, ?_⟩
    have unit := event.words bank first
    rw [first]
    refine congrArg some (getMeasurements_congr (Int.natCast_nonneg _) fun i inside => ?_)
    rw [Bank.count, unit, if_neg (by decide)] at inside
    rw [memory, getData16, Midas.bytesAt_of_peekBytes rfl there (by omega)]
    rfl

/-- The program decodes an event to something like its contents. -/
theorem decodes (behind : ℕ → Byte) {raw : RawEvent} (native : raw.native = event.banks.encode .native)
    (time : raw.header.fTimeStamp = event.timeStamp) :
    ∃ decoded, Decodes (Midas.inMemory behind raw.event) decoded ∧ Alike decoded event.contents := by
  have memory : (Midas.inMemory behind raw.event).fData =
      ⟨event.banks.encode .native, some behind⟩ := by
    rw [← native]
    rfl
  obtain ⟨brb0, asked, measured⟩ := event.uncached_brb0 memory
  obtain ⟨brt0, fetched, mainboard⟩ := event.uncached_generic memory BRT0 event.mainboard
  obtain ⟨tmp0, found, phidgets⟩ := event.uncached_generic memory TMP0 event.phidgets
  exact ⟨⟨event.timeStamp, _, _, _⟩,
    ⟨time, ⟨brb0, asked, rfl⟩, ⟨brt0, fetched, rfl⟩, ⟨tmp0, found, rfl⟩⟩,
    rfl, measured, mainboard, phidgets⟩

end MpmtEvent

/-- A row of one point with the time stamp of an event, and the samples of each channel that its
BRB0 bank has and that is saved. -/
structure Shows (fNChan : ℤ) (event : MidasEvent) (row : Row) : Prop where
  one : row.num_points = 1
  stamped : row.evt_timestamp = [Double.ofUInt32 event.timeStamp]
  waves : ∀ bank ∈ event.brb0, ∀ measurement ∈ bank.getMeasurements, ∀ wave : Wave, wave.val < 20 →
    wave.val = measurement.getChannel → (wave.val : ℤ) < fNChan →
      row.V1730_wave wave = some [fun cell => Double.ofUInt32 (measurement.getSample cell.val)]

/-- An event in a file, in either byte order, and what it says. -/
def Holds (raw : RawEvent) (event : MpmtEvent) : Prop :=
  raw.native = event.banks.encode .native ∧ raw.header.fTimeStamp = event.timeStamp

end PtfConverter.MpmtTree
