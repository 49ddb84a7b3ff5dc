import PtfConverter.Soundness.TDC1190Consistency
import PtfConverter.ToMathlib.BitFields

/-! # Decoding a well-formed V1190 bank

A bank is written from its events, each with the blocks of its chips. The trailer and the error of a
chip reach back to the last trailer of a chip, so that they reach its own measurements and no
others; every event is behind complete events, and keeps the variables of the loop in their form.
-/

namespace PtfConverter.TDC1190

/-- A word with a given tag. -/
abbrev Tagged (tag : Word) := { word : Word // tagOf word = tag }

/-- What one chip writes for an event. -/
structure TDCBlock where
  header : Tagged tdcHeaderTag
  measurements : List (Tagged measurementTag)
  error : Option (Tagged tdcErrorTag)
  trailer : Tagged tdcTrailerTag

namespace TDCBlock

def encode (block : TDCBlock) : List Word :=
  block.header.val ::
    (block.measurements.map Subtype.val ++ (block.error.map Subtype.val).toList ++
    [block.trailer.val])

/-- The measurements of a block, as a decoded bank has them. -/
def decoded (block : TDCBlock) (index : ℤ) : List TDCMeasurement :=
  block.measurements.map fun word => {
    tdc_header_word := block.header.val
    tdc_measurement_word := word.val
    tdc_trailer_word := block.trailer.val
    tdc_error_error := (block.error.map Subtype.val).getD 0
    event_index := index }

end TDCBlock

/-- The words of an event. -/
def wordsOf (header : Tagged globalHeaderTag) (blocks : List TDCBlock)
    (extended : Option (Tagged extendedTriggerTag)) (trailer : Tagged globalTrailerTag) :
    List Word :=
  header.val :: (blocks.flatMap TDCBlock.encode ++ (extended.map Subtype.val).toList ++ [trailer.val])

/-- An event, whose trailer counts the words of the event. -/
structure Event where
  header : Tagged globalHeaderTag
  blocks : List TDCBlock
  extended : Option (Tagged extendedTriggerTag)
  trailer : Tagged globalTrailerTag
  counted : (wordCountOf trailer.val).toNat = (wordsOf header blocks extended trailer).length

namespace Event

def encode (event : Event) : List Word := wordsOf event.header event.blocks event.extended event.trailer

def decoded (event : Event) (index : ℤ) : List TDCMeasurement := event.blocks.flatMap (·.decoded index)

def eventCounter (event : Event) : BitVec 22 := event.header.val.extractLsb' 5 22

def geoAddress (event : Event) : BitVec 5 := event.header.val.extractLsb' 0 5

def triggerLost (event : Event) : Bool := event.trailer.val.getLsbD 26

def bufferOverflow (event : Event) : Bool := event.trailer.val.getLsbD 25

def tdcError (event : Event) : Bool := event.trailer.val.getLsbD 24

end Event

/-- The words of the events of a bank. -/
def encode (events : List Event) : List Word := events.flatMap Event.encode

namespace Scan

variable {scan : Scan} {word : Word}

theorem next_globalHeader (tag : tagOf word = globalHeaderTag) : scan.next word =
    { scan with
      i := scan.i + 1
      fGlobalHeader := scan.fGlobalHeader ++ [word]
      numberEventsInBank := scan.numberEventsInBank + 1 } := by
  rw [next, interpret, tag]
  rfl

theorem next_tdcHeader (tag : tagOf word = tdcHeaderTag) :
    scan.next word = { scan with i := scan.i + 1, current_tdc_header := word } := by
  rw [next, interpret, tag]
  rfl

theorem next_measurement (tag : tagOf word = measurementTag) : scan.next word =
    { scan with
      i := scan.i + 1
      fMeasurements := scan.fMeasurements ++
        [.new scan.current_tdc_header word (scan.numberEventsInBank - 1)] } := by
  rw [next, interpret, tag]
  rfl

theorem next_tdcTrailer (tag : tagOf word = tdcTrailerTag) : scan.next word =
    { scan with
      i := scan.i + 1
      fMeasurements := scan.setRecent (.SetTrailer word)
      index_for_trailer := scan.fMeasurements.length } := by
  rw [next, interpret, tag]
  rfl

theorem next_tdcError (tag : tagOf word = tdcErrorTag) : scan.next word =
    { scan with
      i := scan.i + 1
      fMeasurements := scan.setRecent (.SetErrors word)
      index_for_error := scan.fMeasurements.length } := by
  rw [next, interpret, tag]
  rfl

theorem next_extendedTrigger (tag : tagOf word = extendedTriggerTag) : scan.next word =
    { scan with
      i := scan.i + 1
      fExtendedTriggerTimeTag := scan.fExtendedTriggerTimeTag ++ [word &&& 0x07ffffff#32] } := by
  rw [next, interpret, tag]
  rfl

theorem next_globalTrailer (tag : tagOf word = globalTrailerTag) : scan.next word =
    { scan with
      i := scan.i + 1
      found_trailer_word := scan.i
      fWordCountTotal := scan.fWordCountTotal + wordCountOf word
      fStatus := scan.fStatus ++ [statusOf word] } := by
  rw [next, interpret, tag]
  rfl

/-- What the error of a chip, if it has one, does to a measurement. -/
def setError (error : Option (Tagged tdcErrorTag)) (measurement : TDCMeasurement) : TDCMeasurement :=
  error.elim measurement fun word => measurement.SetErrors word.val

/-- The measurements up to the last trailer of a chip, and those since then, in the event of some
index. -/
structure Held (scan : Scan) (past recent : List TDCMeasurement) (index : ℤ) : Prop where
  fMeasurements : scan.fMeasurements = past ++ recent
  index_for_trailer : scan.index_for_trailer = past.length
  number : scan.numberEventsInBank - 1 = index

namespace Held

variable {past recent : List TDCMeasurement} {index : ℤ}

theorem setRecent (held : Held scan past recent index) (change : TDCMeasurement → TDCMeasurement) :
    scan.setRecent change = past ++ recent.map change := by
  rw [Scan.setRecent, held.fMeasurements, held.index_for_trailer, List.take_left, List.drop_left]

theorem header (held : Held scan past recent index) (tag : tagOf word = tdcHeaderTag) :
    Held (scan.next word) past recent index ∧ (scan.next word).current_tdc_header = word := by
  rw [next_tdcHeader tag]
  exact ⟨⟨held.fMeasurements, held.index_for_trailer, held.number⟩, rfl⟩

theorem measurement (held : Held scan past recent index) (tag : tagOf word = measurementTag) :
    Held (scan.next word) past (recent ++ [.new scan.current_tdc_header word index]) index ∧
      (scan.next word).current_tdc_header = scan.current_tdc_header := by
  rw [next_measurement tag]
  refine ⟨⟨?_, held.index_for_trailer, held.number⟩, rfl⟩
  simp only [held.fMeasurements, held.number, List.append_assoc]

theorem measurements (held : Held scan past recent index) (words : List (Tagged measurementTag)) :
    Held ((words.map Subtype.val).foldl next scan) past
      (recent ++ words.map fun word => .new scan.current_tdc_header word.val index) index := by
  induction words generalizing scan recent with
  | nil =>
    rw [List.map_nil, List.map_nil, List.append_nil]
    exact held
  | cons word words ih =>
    obtain ⟨here, same⟩ := held.measurement word.property
    have later := ih here
    rw [same, List.append_assoc] at later
    exact later

theorem error (held : Held scan past recent index) (error : Option (Tagged tdcErrorTag)) :
    Held ((error.map Subtype.val).toList.foldl next scan) past (recent.map (setError error)) index := by
  cases error with
  | none =>
    have same : setError none = id := rfl
    rw [same, List.map_id]
    exact held
  | some word =>
    change Held (scan.next word.val) _ _ _
    rw [next_tdcError word.property]
    exact ⟨held.setRecent _, held.index_for_trailer, held.number⟩

theorem trailer (held : Held scan past recent index) (tag : tagOf word = tdcTrailerTag) :
    Held (scan.next word) (past ++ recent.map (.SetTrailer word)) [] index := by
  rw [next_tdcTrailer tag]
  refine ⟨?_, ?_, held.number⟩
  · rw [List.append_nil]
    exact held.setRecent _
  · simp only [held.fMeasurements, List.length_append, List.length_map]

theorem extended (held : Held scan past recent index) (extended : Option (Tagged extendedTriggerTag)) :
    Held ((extended.map Subtype.val).toList.foldl next scan) past recent index := by
  cases extended with
  | none => exact held
  | some word =>
    change Held (scan.next word.val) _ _ _
    rw [next_extendedTrigger word.property]
    exact ⟨held.fMeasurements, held.index_for_trailer, held.number⟩

/-- The measurements of a block get its header, its error and its trailer, and the index of the
event. -/
theorem block (held : Held scan past [] index) (block : TDCBlock) :
    Held (block.encode.foldl next scan) (past ++ block.decoded index) [] index := by
  obtain ⟨opened, current⟩ := held.header block.header.property
  have closed := ((opened.measurements block.measurements).error block.error).trailer
    block.trailer.property
  have decoded : (([] ++ block.measurements.map fun word : Tagged measurementTag =>
      TDCMeasurement.new block.header.val word.val index).map (setError block.error)).map
        (TDCMeasurement.SetTrailer block.trailer.val) = block.decoded index := by
    rw [TDCBlock.decoded, List.nil_append, List.map_map, List.map_map]
    cases block.error <;> rfl
  rw [current, decoded] at closed
  rw [TDCBlock.encode, List.foldl_cons, List.foldl_append, List.foldl_append]
  exact closed

theorem blocks (held : Held scan past [] index) (blocks : List TDCBlock) :
    Held ((blocks.flatMap TDCBlock.encode).foldl next scan)
      (past ++ blocks.flatMap (·.decoded index)) [] index := by
  induction blocks generalizing scan past with
  | nil =>
    rw [List.flatMap_nil, List.flatMap_nil, List.append_nil]
    exact held
  | cons block blocks ih =>
    rw [List.flatMap_cons, List.foldl_append, List.flatMap_cons, ← List.append_assoc]
    exact ih (held.block block)

/-- An event of the next index. -/
theorem event {number : ℕ} (held : Held scan past [] (number - 1)) (event : Event) :
    Held (event.encode.foldl next scan) (past ++ event.decoded number) [] number := by
  have opened : Held (scan.next event.header.val) past [] number := by
    rw [next_globalHeader event.header.property]
    refine ⟨held.fMeasurements, held.index_for_trailer, ?_⟩
    have before := held.number
    change ((scan.numberEventsInBank + 1 : ℕ) : ℤ) - 1 = number
    omega
  have inside := (opened.blocks event.blocks).extended event.extended
  rw [Event.encode, wordsOf, List.foldl_cons, List.foldl_append, List.foldl_append, List.foldl_cons,
    List.foldl_nil, next_globalTrailer event.trailer.property]
  exact ⟨inside.fMeasurements, inside.index_for_trailer, inside.number⟩

/-- The events of a bank, in turn. -/
theorem events {number : ℕ} (held : Held scan past [] (number - 1)) (events : List Event) :
    Held ((encode events).foldl next scan)
      (past ++ (events.zipIdx number).flatMap fun event => event.1.decoded event.2) []
        (number + events.length - 1) := by
  induction events generalizing scan past number with
  | nil =>
    rw [List.zipIdx_nil, List.flatMap_nil, List.append_nil, List.length_nil, Nat.cast_zero, add_zero]
    exact held
  | cons event rest ih =>
    have here : Held (event.encode.foldl next scan) (past ++ event.decoded number) []
        ((number + 1 : ℕ) - 1) := by
      rw [Nat.cast_succ, add_sub_cancel_right]
      exact held.event event
    have later := ih here
    rw [encode, List.flatMap_cons, List.foldl_append, List.zipIdx_cons, List.flatMap_cons,
      ← List.append_assoc, List.length_cons, Nat.cast_succ, add_comm (rest.length : ℤ), ← add_assoc,
      ← Nat.cast_succ]
    exact later

end Held

end Scan

theorem isGlobalHeader_of_tag {word tag : Word} (tagged : tagOf word = tag) :
    isGlobalHeader word = (tag == globalHeaderTag) := by
  rw [isGlobalHeader, tagged]

theorem isGlobalTrailer_of_tag {word tag : Word} (tagged : tagOf word = tag) :
    isGlobalTrailer word = (tag == globalTrailerTag) := by
  rw [isGlobalTrailer, tagged]

/-- The words between the header and the trailer of an event. -/
theorem Event.inner (event : Event) {word : Word}
    (member : word ∈ event.blocks.flatMap TDCBlock.encode ++ (event.extended.map Subtype.val).toList) :
    isGlobalHeader word = false ∧ isGlobalTrailer word = false := by
  have inner {tag : Word} (tagged : tagOf word = tag) (other : (tag == globalHeaderTag) = false)
      (another : (tag == globalTrailerTag) = false) : isGlobalHeader word = false ∧
        isGlobalTrailer word = false :=
    ⟨(isGlobalHeader_of_tag tagged).trans other, (isGlobalTrailer_of_tag tagged).trans another⟩
  obtain member | member := List.mem_append.mp member
  · obtain ⟨block, _, member⟩ := List.mem_flatMap.mp member
    rw [TDCBlock.encode, List.mem_cons, List.mem_append, List.mem_append, List.mem_singleton] at member
    obtain rfl | (member | member) | rfl := member
    · exact inner block.header.property rfl rfl
    · obtain ⟨measurement, _, rfl⟩ := List.mem_map.mp member
      exact inner measurement.property rfl rfl
    · rw [Option.mem_toList, Option.map_eq_some_iff] at member
      obtain ⟨error, _, rfl⟩ := member
      exact inner error.property rfl rfl
    · exact inner block.trailer.property rfl rfl
  · rw [Option.mem_toList, Option.map_eq_some_iff] at member
    obtain ⟨extended, _, rfl⟩ := member
    exact inner extended.property rfl rfl

theorem Event.filter_header (event : Event) :
    event.encode.filter isGlobalHeader = [event.header.val] := by
  have header : isGlobalHeader event.header.val = true := isGlobalHeader_of_tag event.header.property
  have trailer : isGlobalHeader event.trailer.val = false :=
    isGlobalHeader_of_tag event.trailer.property
  have none := List.filter_eq_nil_iff.mpr fun word member => Bool.eq_false_iff.mp (event.inner member).1
  rw [encode, wordsOf, List.filter_cons_of_pos header, List.filter_append, none, List.filter_cons,
    trailer]
  rfl

theorem Event.filter_trailer (event : Event) :
    event.encode.filter isGlobalTrailer = [event.trailer.val] := by
  have header : isGlobalTrailer event.header.val = false := isGlobalTrailer_of_tag event.header.property
  have trailer : isGlobalTrailer event.trailer.val = true :=
    isGlobalTrailer_of_tag event.trailer.property
  have none := List.filter_eq_nil_iff.mpr fun word member => Bool.eq_false_iff.mp (event.inner member).2
  rw [encode, wordsOf, List.filter_cons, header, List.filter_append, none, List.filter_cons, trailer]
  rfl

theorem filter_headers (events : List Event) :
    (encode events).filter isGlobalHeader = events.map (·.header.val) := by
  rw [encode, List.filter_flatMap, List.map_eq_flatMap]
  exact List.flatMap_congr fun event _ => event.filter_header

theorem filter_trailers (events : List Event) :
    (encode events).filter isGlobalTrailer = events.map (·.trailer.val) := by
  rw [encode, List.filter_flatMap, List.map_eq_flatMap]
  exact List.flatMap_congr fun event _ => event.filter_trailer

theorem Event.wordCountOf_trailer (event : Event) :
    wordCountOf event.trailer.val = BitVec.ofNat 32 event.encode.length := by
  rw [encode, ← event.counted, BitVec.ofNat_toNat, BitVec.setWidth_eq]

theorem wordCountTotal_encode (events : List Event) :
    wordCountTotal (encode events) = BitVec.ofNat 32 (encode events).length := by
  rw [wordCountTotal, filter_trailers]
  induction events with
  | nil => rfl
  | cons event events ih =>
    have words : encode (event :: events) = event.encode ++ encode events := List.flatMap_cons
    rw [List.map_cons, List.map_cons, List.sum_cons, ih, event.wordCountOf_trailer, words,
      List.length_append, BitVec.ofNat_add]

/-- A bank of events is framed. -/
theorem framed_encode (first : Event) (rest : List Event)
    (short : (encode (first :: rest)).length < 2 ^ 31) :
    Framed (encode (first :: rest)) := by
  refine ⟨⟨first.header.val, rfl, isGlobalHeader_of_tag first.header.property⟩, ?_, ?_⟩
  · have split := List.dropLast_concat_getLast (List.cons_ne_nil first rest)
    generalize (first :: rest).dropLast = front, (first :: rest).getLast _ = last at split
    refine ⟨last.trailer.val, ?_, isGlobalTrailer_of_tag last.trailer.property⟩
    rw [← split, encode, List.flatMap_append, List.flatMap_singleton, Event.encode, wordsOf,
      ← List.cons_append, ← List.append_assoc, List.getLast?_concat]
  · have small : 2 * (BitVec.ofNat 32 (encode (first :: rest)).length).toNat < 2 ^ 32 := by
      rw [BitVec.toNat_ofNat]
      omega
    rw [wordCountTotal_encode, BitVec.toInt_eq_toNat_of_lt small, BitVec.toNat_ofNat,
      Nat.mod_eq_of_lt (by omega)]

theorem Event.eventCounter_eq (event : Event) :
    (event.header.val &&& 0x07ffffe0#32) >>> 5 = event.eventCounter.setWidth 32 := by
  apply BitVec.eq_of_toNat_eq
  rw [BitVec.toNat_ushiftRight, BitVec.toNat_and_field _ 0x07ffffe0 5 22 rfl (by decide),
    BitVec.toNat_setWidth, eventCounter, BitVec.extractLsb'_toNat, Nat.shiftRight_eq_div_pow,
    Nat.shiftRight_eq_div_pow]
  omega

theorem Event.geoAddress_eq (event : Event) :
    event.header.val &&& 0x1f#32 = event.geoAddress.setWidth 32 := by
  apply BitVec.eq_of_toNat_eq
  rw [BitVec.toNat_and_low _ 0x1f 5 rfl (by decide), BitVec.toNat_setWidth, geoAddress,
    BitVec.extractLsb'_toNat, Nat.shiftRight_zero]
  omega

/-- A flag of the status is a bit of the trailer. -/
theorem statusOf_bit (word : Word) (flag : Fin 3) :
    (statusOf word &&& BitVec.twoPow 32 flag != 0#32) = word.getLsbD (24 + flag) := by
  have bit : (statusOf word).getLsbD flag = word.getLsbD (24 + flag) := by
    rw [statusOf, BitVec.getLsbD_ushiftRight, BitVec.getLsbD_and]
    have mask : (0x07000000#32).getLsbD (24 + flag) = true := by
      revert flag
      decide
    rw [mask, Bool.and_true]
  rw [BitVec.and_twoPow, bit]
  cases word.getLsbD (24 + flag) with
  | false => rfl
  | true =>
    clear bit
    revert flag
    decide

/-- A bank of events decodes to them: it is accepted, its measurements come in order and have the
header, the trailer and the error of their own block and the index of their own event, and the
accessors of an event read its own header and trailer. -/
theorem decode_encode (first : Event) (rest : List Event) (behind : Word)
    (short : (encode (first :: rest)).length < 2 ^ 31) :
    let data := TV1190Data.decode ⟨encode (first :: rest), behind⟩
    data.IsBankCorrupted = false ∧ data.GetEventsInBank = (first :: rest).length ∧
      data.fMeasurements = (first :: rest).zipIdx.flatMap (fun event => event.1.decoded event.2) ∧
      ∀ i event, (first :: rest)[i]? = some event →
        data.GetEventCounter i = some (event.eventCounter.setWidth 32) ∧
        data.GetGeoAddress i = some (event.geoAddress.setWidth 32) ∧
        data.IsTriggerLost i = some event.triggerLost ∧
          data.HasBufferOverflow i = some event.bufferOverflow ∧
        data.HasTDCError i = some event.tdcError := by
  have headers := TV1190Data.decode_fGlobalHeader ⟨encode (first :: rest), behind⟩
  have statuses := TV1190Data.decode_fStatus ⟨encode (first :: rest), behind⟩
  rw [filter_headers] at headers
  rw [filter_trailers] at statuses
  refine ⟨(accepted_iff _).mpr (framed_encode first rest short), ?_, ?_, fun i event place => ?_⟩
  · rw [TV1190Data.GetEventsInBank, headers, List.length_map]
  · have start : Scan.Held .initial [] [] ((0 : ℕ) - 1) := ⟨rfl, rfl, rfl⟩
    have held := (start.events (first :: rest)).fMeasurements
    rwa [List.nil_append, List.append_nil] at held
  · have counter := event.eventCounter_eq
    have geo := event.geoAddress_eq
    have lost := statusOf_bit event.trailer.val 2
    have overflow := statusOf_bit event.trailer.val 1
    have failed := statusOf_bit event.trailer.val 0
    simp only [TV1190Data.GetEventCounter, TV1190Data.GetGeoAddress, TV1190Data.IsTriggerLost,
      TV1190Data.HasBufferOverflow, TV1190Data.HasTDCError, headers, statuses, List.getElem?_map,
      place, Option.map_some, counter, geo]
    exact ⟨trivial, trivial, congrArg some lost, congrArg some overflow, congrArg some failed⟩

/-- An event of six words, whose measurement has an error and whose trigger was lost. -/
def lostTrigger : Event where
  header := ⟨0x40000020#32, rfl⟩
  blocks := [⟨⟨0x08001000#32, rfl⟩, [⟨0x00080123#32, rfl⟩], some ⟨0x20000001#32, rfl⟩,
    ⟨0x18001004#32, rfl⟩⟩]
  extended := none
  trailer := ⟨0x840000c0#32, rfl⟩
  counted := rfl

theorem decode_encode_lostTrigger :
    (TV1190Data.decode ⟨encode [lostTrigger, lostTrigger], 0⟩).IsBankCorrupted = false ∧
      (TV1190Data.decode ⟨encode [lostTrigger, lostTrigger], 0⟩).IsTriggerLost 1 = some true := by
  obtain ⟨accepted, _, _, fields⟩ := decode_encode lostTrigger [lostTrigger] 0 (by decide)
  exact ⟨accepted, (fields 1 lostTrigger rfl).2.2.1⟩

end PtfConverter.TDC1190
