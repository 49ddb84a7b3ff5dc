import PtfConverter.Soundness.ByteOrder

/-! # Written events are read back

However `read()` cuts the bytes of a file, `readpipe` returns what was asked for, or all that is
left. So a `Read` on the bytes of a stored event returns the event, a `Read` on a part of them
returns false, and by induction a file yields the events that it holds whole and then false.
-/

namespace PtfConverter.Midas

open Memory

theorem EventHeader.bytes_length (header : EventHeader) : header.bytes.length = 16 := by
  simp only [bytes, List.length_append, Bytes.encode_length]

private theorem take_encode {width n : ℕ} (rest : List Byte) :
    (Bytes.encode width n ++ rest).take width = Bytes.encode width n :=
      List.take_left' (Bytes.encode_length ..)

private theorem drop_encode {bytes rest : List Byte} {offset width n : ℕ}
    (before : bytes.drop offset = Bytes.encode width n ++ rest) :
    bytes.drop (offset + width) = rest := by
  rw [← List.drop_drop, before, List.drop_left' (Bytes.encode_length ..)]

private theorem ofNat_value_encode (width : ℕ) (value : BitVec (8 * width)) :
    BitVec.ofNat (8 * width) (Bytes.value (Bytes.encode width value.toNat)) = value := by
  have small : value.toNat < 256 ^ width := by
    have bound := value.isLt
    rwa [Nat.pow_mul] at bound
  rw [Bytes.value_encode_of_lt small, BitVec.ofNat_toNat, BitVec.setWidth_eq]

/-- A header is read back from its bytes. -/
theorem EventHeader.ofBytes_bytes (header : EventHeader) : ofBytes header.bytes = header := by
  have afterId : header.bytes.drop 2 = _ := List.drop_left' (Bytes.encode_length ..)
  have afterMask : header.bytes.drop 4 = _ := drop_encode afterId
  have afterSerial : header.bytes.drop 8 = _ := drop_encode afterMask
  have afterTime : header.bytes.drop 12 = _ := drop_encode afterSerial
  have last (n : ℕ) : (Bytes.encode 4 n).take 4 = Bytes.encode 4 n :=
    List.take_of_length_le (by rw [Bytes.encode_length])
  simp only [ofBytes, afterId, afterMask, afterSerial, afterTime, take_encode, last]
  rw [bytes, take_encode, ofNat_value_encode 2, ofNat_value_encode 2, ofNat_value_encode 4,
    ofNat_value_encode 4, ofNat_value_encode 4]

/-- Short reads do not show: `readpipe` fills the buffer, or takes all that is left. -/
theorem readpipe_of_positive {system : System}
    (positive : ∀ call, ∃ offered, system.read call = .ok offered ∧ 0 < offered) (fd : Input)
    (length count : ℕ) (buf : List Byte) :
    ∃ next, readpipe system fd length count buf =
        ⟨(count + min length fd.unread.length : ℕ), buf ++ fd.unread.take length, next⟩ ∧
      next.unread = fd.unread.drop length := by
  by_cases more : 0 < length
  · obtain ⟨offered, read, some⟩ := positive fd.calls
    rw [readpipe, if_pos more, read]
    simp only
    by_cases got : 0 < min offered (min length fd.unread.length)
    · generalize size : min offered (min length fd.unread.length) = rd at got ⊢
      obtain ⟨next, ran, left⟩ := readpipe_of_positive positive
        { fd with unread := fd.unread.drop rd, calls := fd.calls + 1 } (length - rd) (count + rd)
        (buf ++ fd.unread.take rd)
      refine ⟨next, ?_, ?_⟩
      · have split : fd.unread.take length =
          fd.unread.take rd ++ (fd.unread.drop rd).take (length - rd) := by
          rw [← List.take_add]
          congr 1
          omega
        rw [if_pos got, ran, split, List.append_assoc, List.length_drop]
        congr 2
        omega
      · rw [left, List.drop_drop]
        congr 1
        omega
    · have none : fd.unread = [] := List.length_eq_zero_iff.mp (by omega)
      rw [if_neg got, none, List.length_nil, Nat.min_zero, List.take_nil, List.append_nil,
        List.drop_nil]
      exact ⟨_, rfl, List.drop_nil.symm⟩
  · have zero : length = 0 := by omega
    subst zero
    rw [readpipe, if_neg (lt_irrefl 0)]
    rw [Nat.zero_min, List.take_zero, List.append_nil]
    exact ⟨fd, rfl, rfl⟩
termination_by length
decreasing_by omega

/-- An event that can be read: its header tells the size of its data, and `SwapBytes` makes
the native data of them. -/
structure RawEvent where
  header : EventHeader
  data : List Byte
  native : List Byte
  size : header.fDataSize.toNat = data.length
  good : header.IsGoodSize
  swapped : toNative data = some native

namespace RawEvent

/-- The event as it is read. -/
def event (raw : RawEvent) : TMidasEvent := .fresh raw.header (strict raw.native)

/-- The event as it lies in a file. -/
def bytes (raw : RawEvent) : List Byte := raw.header.bytes ++ raw.data

/-- The event as it is written after it was read. -/
def written (raw : RawEvent) : List Byte := raw.header.bytes ++ raw.native

theorem bytes_length (raw : RawEvent) : raw.bytes.length = 16 + raw.data.length := by
  rw [bytes, List.length_append, EventHeader.bytes_length]

theorem data_length_le (raw : RawEvent) : raw.data.length ≤ maxEventSize := by
  rw [← raw.size]
  exact raw.good.2

theorem swaps (raw : RawEvent) : Swaps raw.data raw.native :=
  swaps_of_toNative raw.data_length_le raw.swapped

theorem size_toInt (raw : RawEvent) : raw.header.fDataSize.toInt = raw.data.length := by
  have size := raw.size
  have bound := raw.data_length_le
  rw [maxEventSize] at bound
  rw [BitVec.toInt_eq_toNat_of_lt (by omega), size]

theorem native_size (raw : RawEvent) : raw.header.fDataSize.toNat = raw.native.length := by
  rw [raw.size, toNative_length raw.swapped]

end RawEvent

/-- An event that a file can hold: its header tells the size of its data, and `SwapBytes` leaves
the data alone, since they are native banks or a text. -/
structure StoredEvent where
  header : EventHeader
  data : List Byte
  size : header.fDataSize.toNat = data.length
  good : header.IsGoodSize
  alone : (∃ banks : BankEvent, banks.flags < 0x10000 ∧ data = banks.encode .native) ∨
    8 ≤ data.length ∧ ∀ first ∈ data.head?, 0x20 ≤ first.toNat

namespace StoredEvent

/-- The event as an object. -/
def event (stored : StoredEvent) : TMidasEvent := .fresh stored.header (strict stored.data)

/-- The event as it lies in a file. -/
def bytes (stored : StoredEvent) : List Byte := stored.header.bytes ++ stored.data

theorem bytes_length (stored : StoredEvent) : stored.bytes.length = 16 + stored.data.length := by
  rw [bytes, List.length_append, EventHeader.bytes_length]

theorem data_length_le (stored : StoredEvent) : stored.data.length ≤ maxEventSize := by
  rw [← stored.size]
  exact stored.good.2

theorem unswapped (stored : StoredEvent) : toNative stored.data = some stored.data := by
  obtain ⟨banks, low, encoded⟩ | ⟨long, text⟩ := stored.alone
  · rw [encoded]
    exact toNative_native banks low
  · exact toNative_of_text long stored.data_length_le text

/-- The event as one that is read. -/
def raw (stored : StoredEvent) : RawEvent :=
  ⟨stored.header, stored.data, stored.data, stored.size, stored.good, stored.unswapped⟩

end StoredEvent

namespace TMidasFile

/-- Every call of `read()` yields some bytes while there are any. -/
def Progresses (system : System) : Prop :=
  ∀ call, ∃ offered, system.read call = .ok offered ∧ 0 < offered

/-- At the end of the file `Read` returns false. -/
theorem Read_of_end {system : System} (positive : Progresses system) {file : TMidasFile}
    (ended : file.fFile.unread = []) : ∃ event next, Read system file = .ok (false, event, next) := by
  obtain ⟨next, ran, _⟩ := readpipe_of_positive positive file.fFile 16 0 []
  rw [ended, List.length_nil] at ran
  unfold Read
  simp only [ran]
  exact ⟨_, _, rfl⟩

/-- Behind a whole header, `Read` returns the event exactly when its data are whole. -/
private theorem Read_of_header {system : System} (positive : Progresses system) {file : TMidasFile}
    (native : file.fDoByteSwap = false) (raw : RawEvent) {more : List Byte}
    (layout : file.fFile.unread = raw.header.bytes ++ more) :
    (more.length < raw.data.length → ∃ event next, Read system file = .ok (false, event, next)) ∧
    (∀ rest, more = raw.data ++ rest →
      ∃ next, Read system file = .ok (true, raw.event, next) ∧ next.fFile.unread = rest ∧
        next.fDoByteSwap = false) := by
  have width := raw.header.bytes_length
  obtain ⟨head, headRan, headLeft⟩ := readpipe_of_positive positive file.fFile 16 0 []
  obtain ⟨body, bodyRan, bodyLeft⟩ := readpipe_of_positive positive head raw.header.fDataSize.toNat 0 []
  have whole : 0 + min 16 (raw.header.bytes ++ more).length = 16 := by
    rw [List.length_append, width]
    omega
  rw [layout, whole, List.take_left' width, List.nil_append] at headRan
  rw [layout, List.drop_left' width] at headLeft
  rw [headLeft, raw.size, Nat.zero_add, List.nil_append] at bodyRan
  rw [headLeft, raw.size] at bodyLeft
  have header : EventHeader.ofBytes
      (raw.header.bytes ++ List.replicate (16 - raw.header.bytes.length) 0) =
      raw.header := by
    rw [width, Nat.sub_self, List.replicate_zero, List.append_nil, EventHeader.ofBytes_bytes]
  have some : ((16 : ℕ) : ℤ) ≠ 0 := by decide
  have sixteen : ¬ ((16 : ℕ) : ℤ) ≠ 16 := by decide
  unfold Read
  simp only [headRan, header, native, if_neg some, if_neg sixteen, Bool.false_eq_true, raw.good,
    not_true_eq_false, if_false, raw.size, bodyRan, raw.size_toInt]
  constructor
  · intro short
    have less : ((min raw.data.length more.length : ℕ) : ℤ) ≠ raw.data.length := by
      rw [Ne, Nat.cast_inj]
      omega
    rw [if_pos less]
    exact ⟨_, _, rfl⟩
  · rintro rest rfl
    have all : ¬ ((min raw.data.length (raw.data ++ rest).length : ℕ) : ℤ) ≠ raw.data.length := by
      rw [not_not, Nat.cast_inj, List.length_append]
      omega
    have field : raw.header.fDataSize = BitVec.ofNat 32 raw.data.length := by
      rw [← raw.size, BitVec.ofNat_toNat, BitVec.setWidth_eq]
    obtain ⟨code, swaps⟩ := raw.swaps
    rw [if_neg all, List.take_left, Nat.sub_self, List.range_zero, List.map_nil, List.append_nil,
      field, swaps, Except.ok_bind]
    rw [List.drop_left] at bodyLeft
    exact ⟨_, rfl, bodyLeft, rfl⟩

/-- `Read` returns the event that is next in the file, and goes on behind it. -/
theorem Read_of_raw {system : System} (positive : Progresses system) {file : TMidasFile}
    (native : file.fDoByteSwap = false) (raw : RawEvent) {rest : List Byte}
    (layout : file.fFile.unread = raw.bytes ++ rest) :
    ∃ next, Read system file = .ok (true, raw.event, next) ∧ next.fFile.unread = rest ∧
      next.fDoByteSwap = false := by
  rw [RawEvent.bytes, List.append_assoc] at layout
  exact (Read_of_header positive native raw layout).2 rest rfl

theorem Read_of_stored {system : System} (positive : Progresses system) {file : TMidasFile}
    (native : file.fDoByteSwap = false) (stored : StoredEvent) {rest : List Byte}
    (layout : file.fFile.unread = stored.bytes ++ rest) :
    ∃ next, Read system file = .ok (true, stored.event, next) ∧ next.fFile.unread = rest ∧
      next.fDoByteSwap = false := Read_of_raw positive native stored.raw layout

/-- `Read` returns false on a part of an event. -/
theorem Read_of_rawPart {system : System} (positive : Progresses system) {file : TMidasFile}
    (native : file.fDoByteSwap = false) (raw : RawEvent) {cut : ℕ} (part : cut < raw.bytes.length)
    (layout : file.fFile.unread = raw.bytes.take cut) :
    ∃ event next, Read system file = .ok (false, event, next) := by
  have length := raw.bytes_length
  have width := raw.header.bytes_length
  rw [RawEvent.bytes, List.take_append, width] at layout
  by_cases whole : 16 ≤ cut
  · rw [List.take_of_length_le (by rw [width]; exact whole)] at layout
    refine (Read_of_header positive native raw layout).1 ?_
    rw [List.length_take]
    omega
  · have none : cut - 16 = 0 := by omega
    rw [none, List.take_zero, List.append_nil] at layout
    have left : file.fFile.unread.length = cut := by
      rw [layout, List.length_take, width]
      omega
    obtain ⟨head, ran, _⟩ := readpipe_of_positive positive file.fFile 16 0 []
    have count : 0 + min 16 file.fFile.unread.length = cut := by omega
    rw [count] at ran
    have short : (cut : ℤ) ≠ 16 := by omega
    unfold Read
    simp only [ran, if_pos short]
    split_ifs
    · exact ⟨_, _, rfl⟩
    · exact ⟨_, _, rfl⟩

theorem Read_of_part {system : System} (positive : Progresses system) {file : TMidasFile}
    (native : file.fDoByteSwap = false) (stored : StoredEvent) {cut : ℕ}
    (part : cut < stored.bytes.length) (layout : file.fFile.unread = stored.bytes.take cut) :
    ∃ event next, Read system file = .ok (false, event, next) :=
      Read_of_rawPart positive native stored.raw part layout

/-- The events that a prefix of a file holds whole. -/
def contained : ℕ → List StoredEvent → List StoredEvent
  | _, [] => []
  | cut, stored :: rest =>
      if stored.bytes.length ≤ cut then stored :: contained (cut - stored.bytes.length) rest else []

/-- Repeated calls of `Read` return these events, and then false. -/
def Returns (system : System) (file : TMidasFile) : List TMidasEvent → Prop
  | [] => ∃ event next, Read system file = .ok (false, event, next)
  | event :: events => ∃ next, Read system file = .ok (true, event, next) ∧ Returns system next events

/-- Repeated calls of `Write`, all of which return true. -/
def Writes (system : System) (file : TMidasFile) : List TMidasEvent → TMidasFile → Prop
  | [], final => final = file
  | event :: events, final =>
      ∃ next, Write system file event = .ok (true, next) ∧ Writes system next events final

/-- A prefix of a file yields the events that it holds whole. -/
theorem returns_of_prefix {system : System} (positive : Progresses system) {file : TMidasFile}
    (native : file.fDoByteSwap = false) {events : List StoredEvent} {cut : ℕ}
    (layout : file.fFile.unread = (events.flatMap StoredEvent.bytes).take cut) :
    Returns system file ((contained cut events).map StoredEvent.event) := by
  induction events generalizing file cut with
  | nil =>
    rw [List.flatMap_nil, List.take_nil] at layout
    exact Read_of_end positive layout
  | cons stored events ih =>
    rw [List.flatMap_cons, List.take_append] at layout
    rw [contained]
    split_ifs with whole
    · rw [List.take_of_length_le whole] at layout
      obtain ⟨next, read, left, still⟩ := Read_of_stored positive native stored layout
      exact ⟨next, read, ih still left⟩
    · have none : cut - stored.bytes.length = 0 := by omega
      rw [none, List.take_zero, List.append_nil] at layout
      exact Read_of_part positive native stored (Nat.not_le.mp whole) layout

theorem contained_all (events : List StoredEvent) :
    contained (events.flatMap StoredEvent.bytes).length events = events := by
  induction events with
  | nil => rfl
  | cons stored events ih =>
    rw [contained, List.flatMap_cons, List.length_append, if_pos (Nat.le_add_right ..),
      Nat.add_sub_cancel_left, ih]

/-- What was read is written in native byte order. -/
theorem Write_of_raw {system : System} (accepts : ∀ call length, system.write call length = .ok length)
    (file : TMidasFile) (raw : RawEvent) : ∃ next, Write system file raw.event = .ok (true, next) ∧
      next.fOutFile.bytes = file.fOutFile.bytes ++ raw.written := by
  have taken (out : Output) (bytes : List Byte) :
      write system out bytes =
        ((bytes.length : ℤ), Output.mk (out.bytes ++ bytes) (out.calls + 1)) := by
    rw [write, accepts]
    simp only [min_self, List.take_length]
  have data : (strict raw.native).readBytes 0 raw.native.length = .ok raw.native := by
    have layout : (strict raw.native).data = [] ++ (raw.native ++ []) := by
      rw [List.append_nil, List.nil_append]; rfl
    have bytes := peekBytes_segment layout
    rw [List.length_nil] at bytes
    rw [readBytes_of_reaches (reaches_strict.mpr (Nat.zero_add _).le), bytes]
  have width := raw.header.bytes_length
  have sixteen : ¬ ((16 : ℕ) : ℤ) ≠ 16 := by decide
  have some : ((raw.native.length : ℤ) != 0) = true := by
    have positive := raw.good.1
    rw [raw.native_size] at positive
    rw [bne_iff_ne]
    omega
  rw [Write, RawEvent.event, TMidasEvent.fresh]
  simp only [taken, width, if_neg sixteen, raw.native_size, data, Except.ok_bind, some]
  exact ⟨_, rfl, List.append_assoc ..⟩

theorem Write_of_stored {system : System}
    (accepts : ∀ call length, system.write call length = .ok length) (file : TMidasFile)
    (stored : StoredEvent) : ∃ next, Write system file stored.event = .ok (true, next) ∧
      next.fOutFile.bytes = file.fOutFile.bytes ++ stored.bytes := Write_of_raw accepts file stored.raw

/-- Written events are appended to the file. -/
theorem writes_of_accepts {system : System}
    (accepts : ∀ call length, system.write call length = .ok length) (file : TMidasFile)
    (events : List StoredEvent) :
    ∃ final, Writes system file (events.map StoredEvent.event) final ∧
      final.fOutFile.bytes = file.fOutFile.bytes ++ events.flatMap StoredEvent.bytes := by
  induction events generalizing file with
  | nil => exact ⟨file, rfl, by rw [List.flatMap_nil, List.append_nil]⟩
  | cons stored events ih =>
    obtain ⟨next, written, bytes⟩ := Write_of_stored accepts file stored
    obtain ⟨final, writes, all⟩ := ih next
    exact ⟨final, ⟨next, written, writes⟩, by rw [all, bytes, List.append_assoc, List.flatMap_cons]⟩

/-- A file that `Write` made yields its events, and a prefix of it those it holds whole. -/
theorem returns_of_writes (system : System) (positive : Progresses system)
    (accepts : ∀ call length, system.write call length = .ok length) (events : List StoredEvent) :
    ∃ final, Writes system (opened []) (events.map StoredEvent.event) final ∧
      Returns system (opened final.fOutFile.bytes) (events.map StoredEvent.event) ∧
      ∀ cut, Returns system (opened (final.fOutFile.bytes.take cut))
        ((contained cut events).map StoredEvent.event) := by
  obtain ⟨final, writes, bytes⟩ := writes_of_accepts accepts (opened []) events
  change final.fOutFile.bytes = [] ++ _ at bytes
  rw [List.nil_append] at bytes
  have part (cut : ℕ) : Returns system (opened (final.fOutFile.bytes.take cut)) _ :=
    returns_of_prefix positive rfl (congrArg (List.take cut) bytes)
  refine ⟨final, writes, ?_, part⟩
  have whole := part final.fOutFile.bytes.length
  rwa [List.take_length, bytes, contained_all, ← bytes] at whole

/-- A bank event and a text. -/
def twoEvents : List StoredEvent :=
  [⟨⟨1, 0, 7, 0, 24⟩, wordBank.encode .native, by decide, by decide, .inl ⟨wordBank, by decide, rfl⟩⟩,
    ⟨⟨0x8000, 0, 8, 0, 8⟩, [0x3c, 0x3f, 0x78, 0x6d, 0x6c, 0x3e, 0x0a, 0x00], by decide, by decide,
      .inr ⟨by decide, by decide⟩⟩]

theorem returns_twoEvents : ∃ (system : System) (final : TMidasFile),
    Writes system (opened []) (twoEvents.map StoredEvent.event) final ∧
      Returns system (opened final.fOutFile.bytes) (twoEvents.map StoredEvent.event) ∧
      ∀ cut, Returns system (opened (final.fOutFile.bytes.take cut))
        ((contained cut twoEvents).map StoredEvent.event) :=
  ⟨⟨fun call => .ok (call % 3 + 1), fun _ length => .ok length, fun _ => "", fun _ => 0⟩,
    returns_of_writes _ (fun _ => ⟨_, rfl, Nat.succ_pos _⟩) (fun _ _ => rfl) twoEvents⟩

end TMidasFile

end PtfConverter.Midas
