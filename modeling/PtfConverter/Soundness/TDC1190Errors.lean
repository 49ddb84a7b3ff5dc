import PtfConverter.Soundness.TDC1190RoundTrip

/-! # The errors of a V1190 chip

A chip may write errors anywhere among the measurements of its block. An error word is set in all
measurements since the last trailer of a chip, also in those that have an error already, so that the
last error of the block stays where the first one behind each measurement was meant.
-/

namespace PtfConverter.TDC1190

/-- A word between the header and the trailer of a chip. -/
inductive Item where
  | measurement (word : Tagged measurementTag)
  | error (word : Tagged tdcErrorTag)

namespace Item

def word : Item → Word
  | measurement word => word.val
  | error word => word.val

def error? : Item → Option Word
  | measurement _ => none
  | error word => some word.val

/-- The error words among some words of a block. -/
def errors (items : List Item) : List Word := items.filterMap error?

/-- The measurements among some words of a block, each with the words behind it. -/
def followed : List Item → List (Tagged measurementTag × List Item)
  | [] => []
  | measurement word :: rest => (word, rest) :: followed rest
  | error _ :: rest => followed rest

/-- All errors behind the first measurement are the same word. -/
def SameErrors (items : List Item) : Prop :=
  ∀ first ∈ (followed items).head?, ∀ e ∈ errors first.2, ∀ other ∈ errors first.2, e = other

theorem errors_concat_error (items : List Item) (word : Tagged tdcErrorTag) :
    errors (items ++ [error word]) = errors items ++ [word.val] := List.filterMap_append

theorem errors_concat_measurement (items : List Item) (word : Tagged measurementTag) :
    errors (items ++ [measurement word]) = errors items := by
  rw [errors, List.filterMap_append]
  exact List.append_nil _

theorem errors_append (items more : List Item) :
    errors (items ++ more) = errors items ++ errors more :=
  List.filterMap_append

theorem followed_append (items more : List Item) :
    followed (items ++ more) =
      ((followed items).map fun here => (here.1, here.2 ++ more)) ++ followed more := by
  induction items with
  | nil => rfl
  | cons item rest ih =>
    cases item with
    | measurement word => exact congrArg ((word, rest ++ more) :: ·) ih
    | error _ => exact ih

/-- In front of the first measurement are errors only. -/
theorem exists_of_head {items : List Item} {word : Tagged measurementTag} {rest : List Item}
    (head : (followed items).head? = some (word, rest)) :
    ∃ front, followed front = [] ∧ items = front ++ measurement word :: rest := by
  induction items with
  | nil => cases head
  | cons item items ih =>
    cases item with
    | measurement first =>
      cases head
      exact ⟨[], rfl, rfl⟩
    | error first =>
      obtain ⟨front, none, rfl⟩ := ih head
      exact ⟨error first :: front, none, rfl⟩

/-- The words behind a measurement end the words behind the first one. -/
theorem suffix_of_followed {items : List Item} {first : Tagged measurementTag × List Item}
    (head : (followed items).head? = some first) {here : Tagged measurementTag × List Item}
    (member : here ∈ followed items) :
    here.2 <:+ first.2 := by
  have suffix {items : List Item} (member : here ∈ followed items) : here.2 <:+ items := by
    induction items with
    | nil => cases member
    | cons item rest ih =>
      refine List.IsSuffix.trans ?_ (List.suffix_cons item rest)
      cases item with
      | measurement word =>
        obtain rfl | later := List.mem_cons.mp member
        · exact List.suffix_rfl
        · exact ih later
      | error word => exact ih member
  induction items with
  | nil => cases member
  | cons item rest ih =>
    cases item with
    | measurement word =>
      cases head
      obtain rfl | later := List.mem_cons.mp member
      · exact List.suffix_rfl
      · exact suffix later
    | error word => exact ih head member

end Item

/-- A block of a chip with errors at any places. -/
structure ErrorBlock where
  header : Tagged tdcHeaderTag
  items : List Item
  trailer : Tagged tdcTrailerTag

def ErrorBlock.encode (block : ErrorBlock) : List Word :=
  block.header.val :: (block.items.map Item.word ++ [block.trailer.val])

def isMeasurement (word : Word) : Bool := tagOf word == measurementTag

/-- The loop of the constructor behind some words. -/
def scanOf (words : List Word) : Scan := words.foldl Scan.next .initial

/-- A measurement of a bank, by its place among all measurements, as far as the loop has come. -/
def measurementAt (words : List Word) (place : ℕ) : Option TDCMeasurement :=
  (scanOf words).fMeasurements[place]?

/-- Each measurement of a block in a bank has the first error behind it in the block, if there is
one, and keeps it at later errors. -/
structure KeepsFirstError (before : List Word) (block : ErrorBlock) (after : List Word)
    (behind : Word) : Prop where
  first : ∀ i here, (Item.followed block.items)[i]? = some here →
    ((TV1190Data.decode
        ⟨before ++ block.encode ++ after, behind⟩).fMeasurements[before.countP isMeasurement +
        i]?).map
        (fun measurement => (measurement.tdc_measurement_word, measurement.tdc_error_error)) =
      some (here.1.val, (Item.errors here.2).head?.getD 0)
  kept : ∀ front e rest, block.items = front ++ .error e :: rest → ∀ i measurement,
    measurementAt (before ++ block.header.val :: front.map Item.word)
      (before.countP isMeasurement + i) = some measurement →
    measurement.HasTDCErrorWord →
    measurementAt (before ++ block.header.val :: (front ++ [.error e]).map Item.word)
      (before.countP isMeasurement + i) =
      some measurement

namespace Scan

variable {scan : Scan} {word : Word}

theorem setRecent_length (scan : Scan) (change : TDCMeasurement → TDCMeasurement) :
    (scan.setRecent change).length = scan.fMeasurements.length := by
  rw [setRecent, List.length_append, List.length_map, ← List.length_append, List.take_append_drop]

theorem setRecent_id (scan : Scan) : scan.setRecent id = scan.fMeasurements := by
  rw [setRecent, List.map_id, List.take_append_drop]

/-- Other words than measurements, trailers and errors of a chip leave the measurements alone. -/
theorem next_plain (measured : tagOf word ≠ measurementTag) (closed : tagOf word ≠ tdcTrailerTag)
    (error : tagOf word ≠ tdcErrorTag) : (scan.next word).fMeasurements = scan.fMeasurements ∧
      (scan.next word).index_for_trailer = scan.index_for_trailer := by
  by_cases header : tagOf word = globalHeaderTag
  · rw [next_globalHeader header]
    exact ⟨rfl, rfl⟩
  by_cases opened : tagOf word = tdcHeaderTag
  · rw [next_tdcHeader opened]
    exact ⟨rfl, rfl⟩
  rw [next, interpret, if_neg header, if_neg opened, if_neg measured, if_neg closed, if_neg error]
  split_ifs <;> exact ⟨rfl, rfl⟩

/-- What a word does to the measurements: it adds one, or it changes those since the
last trailer of a chip. -/
theorem next_fMeasurements (scan : Scan) (word : Word) :
    (isMeasurement word ∧
        (∃ measurement, (scan.next word).fMeasurements = scan.fMeasurements ++ [measurement]) ∧
        (scan.next word).index_for_trailer = scan.index_for_trailer) ∨
      (¬ isMeasurement word ∧ (∃ change, (scan.next word).fMeasurements = scan.setRecent change) ∧
        ((scan.next word).index_for_trailer = scan.index_for_trailer ∨
          (scan.next word).index_for_trailer = scan.fMeasurements.length)) := by
  by_cases measured : tagOf word = measurementTag
  · rw [next_measurement measured]
    exact .inl ⟨beq_iff_eq.mpr measured, ⟨_, rfl⟩, rfl⟩
  refine .inr ⟨fun tag => measured (eq_of_beq tag), ?_⟩
  by_cases closed : tagOf word = tdcTrailerTag
  · rw [next_tdcTrailer closed]
    exact ⟨⟨_, rfl⟩, .inr rfl⟩
  by_cases error : tagOf word = tdcErrorTag
  · rw [next_tdcError error]
    exact ⟨⟨_, rfl⟩, .inl rfl⟩
  obtain ⟨same, index⟩ := @next_plain scan word measured closed error
  exact ⟨⟨id, same.trans (setRecent_id scan).symm⟩, .inl index⟩

theorem foldl_length (words : List Word) (scan : Scan) :
    (words.foldl next scan).fMeasurements.length =
      scan.fMeasurements.length + words.countP isMeasurement := by
  induction words generalizing scan with
  | nil => rfl
  | cons word words ih =>
    rw [List.foldl_cons, ih]
    obtain ⟨measured, ⟨_, same⟩, _⟩ | ⟨other, ⟨_, same⟩, _⟩ := scan.next_fMeasurements word
    · rw [same, List.length_append, List.length_singleton, List.countP_cons_of_pos measured]
      omega
    · rw [same, setRecent_length, List.countP_cons_of_neg other]

/-- Measurements in front of the last trailer of a chip. -/
structure Fixed (past : List TDCMeasurement) (scan : Scan) : Prop where
  front : past <+: scan.fMeasurements
  closed : past.length ≤ scan.index_for_trailer

variable {past : List TDCMeasurement}

theorem Fixed.next (fixed : Fixed past scan) (word : Word) : Fixed past (scan.next word) := by
  obtain ⟨front, closed⟩ := fixed
  obtain ⟨_, ⟨measurement, same⟩, index⟩ | ⟨_, ⟨change, same⟩, index⟩ := scan.next_fMeasurements word
  · exact ⟨same ▸ front.trans (List.prefix_append _ _), index ▸ closed⟩
  · refine ⟨?_, ?_⟩
    · rw [same, setRecent]
      exact ((List.prefix_take_iff.mpr ⟨front, closed⟩)).trans (List.prefix_append _ _)
    · obtain index | index := index
      · exact index ▸ closed
      · exact index ▸ front.length_le

theorem Fixed.foldl (fixed : Fixed past scan) (words : List Word) :
    Fixed past (words.foldl Scan.next scan) := by
  induction words generalizing scan with
  | nil => exact fixed
  | cons word words ih => exact ih (fixed.next word)

/-- A measurement behind some errors. -/
def settle (errors : List Word) (measurement : TDCMeasurement) : TDCMeasurement :=
  errors.foldl (fun measurement error => measurement.SetErrors error) measurement

theorem settle_eq (errors : List Word) (measurement : TDCMeasurement) :
    settle errors measurement =
      { measurement with tdc_error_error := errors.getLast?.getD measurement.tdc_error_error } := by
  induction errors using List.reverseRecOn with
  | nil => rfl
  | append_singleton errors error ih =>
    rw [settle, List.foldl_concat, ← settle, ih, List.getLast?_concat]
    rfl

/-- One more error changes nothing just where it is the last one so far. -/
theorem settle_concat_iff {errors : List Word} (nonempty : errors ≠ []) (error : Word)
    (measurement : TDCMeasurement) :
    settle (errors ++ [error]) measurement = settle errors measurement ↔
      error = errors.getLast nonempty := by
  rw [settle_eq, settle_eq, List.getLast?_concat, List.getLast?_eq_some_getLast nonempty]
  constructor
  · intro same
    exact congrArg TDCMeasurement.tdc_error_error same
  · rintro rfl
    rfl

namespace Held

variable {recent : List TDCMeasurement} {index : ℤ}

/-- The words of a block so far: every measurement since the last trailer of a chip has
the errors behind it. -/
theorem items (held : Held scan past recent index) (items : List Item) :
    Held ((items.map Item.word).foldl Scan.next scan) past
      (recent.map (settle (Item.errors items)) ++ (Item.followed items).map fun here =>
        settle (Item.errors here.2) (.new scan.current_tdc_header here.1.val index)) index := by
  induction items generalizing scan recent with
  | nil =>
    have same : settle (Item.errors []) = id := rfl
    rw [same, List.map_id, Item.followed, List.map_nil, List.map_nil, List.append_nil]
    exact held
  | cons item items ih =>
    cases item with
    | measurement word =>
      obtain ⟨here, current⟩ := held.measurement word.property
      have later := ih here
      rw [current, List.map_append, List.append_assoc] at later
      exact later
    | error word =>
      have here : Held (scan.next word.val) past (recent.map (.SetErrors word.val)) index := by
        rw [next_tdcError word.property]
        exact ⟨held.setRecent _, held.index_for_trailer, held.number⟩
      have current : (scan.next word.val).current_tdc_header = scan.current_tdc_header := by
        rw [next_tdcError word.property]
      have later := ih here
      rw [current, List.map_map] at later
      exact later

end Held

end Scan

theorem scanOf_append (words more : List Word) :
    scanOf (words ++ more) = more.foldl Scan.next (scanOf words) :=
  List.foldl_append

theorem scanOf_length (words : List Word) :
    (scanOf words).fMeasurements.length = words.countP isMeasurement :=
  (Scan.foldl_length words .initial).trans (Nat.zero_add _)

theorem scanOf_index_le (words : List Word) :
    (scanOf words).index_for_trailer ≤ (scanOf words).fMeasurements.length := by
  induction words using List.reverseRecOn with
  | nil => exact le_rfl
  | append_singleton words word ih =>
    rw [scanOf_append, List.foldl_cons, List.foldl_nil]
    obtain ⟨_, ⟨_, same⟩, index⟩ | ⟨_, ⟨_, same⟩, index⟩ := (scanOf words).next_fMeasurements word
    · rw [same, index, List.length_append]
      omega
    · rw [same, Scan.setRecent_length]
      omega

/-- Any words leave some measurements in front of the last trailer of a chip, and some behind it. -/
theorem scanOf_held (words : List Word) : ∃ past pending index,
    (scanOf words).Held past pending index ∧
      past.length + pending.length = words.countP isMeasurement := by
  have inside := scanOf_index_le words
  refine ⟨(scanOf words).fMeasurements.take (scanOf words).index_for_trailer,
    (scanOf words).fMeasurements.drop (scanOf words).index_for_trailer, _, ⟨?_, ?_, rfl⟩, ?_⟩
  · rw [List.take_append_drop]
  · rw [List.length_take, Nat.min_eq_left inside]
  · rw [← List.length_append, List.take_append_drop, scanOf_length]

/-- The header of a chip and some words behind it. -/
theorem block_held (before : List Word) (header : Tagged tdcHeaderTag) :
    ∃ (past pending : List TDCMeasurement) (index : ℤ),
    past.length + pending.length = before.countP isMeasurement ∧ ∀ items : List Item,
      (scanOf (before ++ header.val :: items.map Item.word)).Held past
        (pending.map (Scan.settle (Item.errors items)) ++ (Item.followed items).map fun here =>
          Scan.settle (Item.errors here.2) (.new header.val here.1.val index)) index := by
  obtain ⟨past, pending, index, held, count⟩ := scanOf_held before
  obtain ⟨opened, current⟩ := held.header header.property
  refine ⟨past, pending, index, count, fun items => ?_⟩
  have filled := opened.items items
  rw [current] at filled
  rw [scanOf_append]
  exact filled

/-- The measurements of a block as far as the loop has come have the last error so far. -/
def Settles (before : List Word) (header : Tagged tdcHeaderTag) (index : ℤ) : Prop :=
  ∀ items i, measurementAt (before ++ header.val :: items.map Item.word)
    (before.countP isMeasurement + i) =
    (Item.followed items)[i]?.map fun here =>
      Scan.settle (Item.errors here.2) (.new header.val here.1.val index)

theorem exists_settles (before : List Word) (header : Tagged tdcHeaderTag) :
    ∃ index, Settles before header index := by
  obtain ⟨past, pending, index, count, held⟩ := block_held before header
  refine ⟨index, fun items i => ?_⟩
  rw [measurementAt, (held items).fMeasurements, ← count, Nat.add_assoc,
    List.getElem?_append_right (Nat.le_add_right _ _), Nat.add_sub_cancel_left,
    List.getElem?_append_right (by rw [List.length_map]; exact Nat.le_add_right _ _),
    List.length_map, Nat.add_sub_cancel_left, List.getElem?_map]

/-- The first measurement of a block, behind the words that follow it. -/
theorem Settles.first {before : List Word} {header : Tagged tdcHeaderTag} {index : ℤ}
    (settles : Settles before header index) {front : List Item} (none : Item.followed front = [])
    (word : Tagged measurementTag) (past : List Item) :
    measurementAt (before ++ header.val :: (front ++ .measurement word :: past).map Item.word)
      (before.countP isMeasurement + 0) =
        some (Scan.settle (Item.errors past) (.new header.val word.val index)) := by
  rw [settles, Item.followed_append, none]
  rfl

/-- A measurement of a block in a bank has the last error behind it in the block. -/
theorem decode_block (before : List Word) (block : ErrorBlock) (after : List Word) (behind : Word)
    {i : ℕ} {here : Tagged measurementTag × List Item}
    (place : (Item.followed block.items)[i]? = some here) :
    ((TV1190Data.decode
        ⟨before ++ block.encode ++ after, behind⟩).fMeasurements[before.countP isMeasurement +
        i]?).map
        (fun measurement => (measurement.tdc_measurement_word, measurement.tdc_error_error)) =
      some (here.1.val, (Item.errors here.2).getLast?.getD 0) := by
  obtain ⟨past, pending, index, count, held⟩ := block_held before block.header
  have closed := (held block.items).trailer block.trailer.property
  have fixed : Scan.Fixed _ _ :=
    ⟨closed.fMeasurements ▸ List.prefix_append _ _, closed.index_for_trailer.ge⟩
  have words : before ++ block.encode ++ after =
      (before ++ block.header.val :: block.items.map Item.word) ++ block.trailer.val :: after := by
    rw [ErrorBlock.encode, List.append_assoc, List.append_assoc, List.cons_append,
      List.append_assoc, List.cons_append]
    rfl
  have front := (fixed.foldl after).front
  rw [← List.foldl_cons (f := Scan.next), ← scanOf_append, ← words] at front
  have settled : (past ++ (pending.map (Scan.settle (Item.errors block.items)) ++
      (Item.followed block.items).map fun here =>
        Scan.settle (Item.errors here.2) (.new block.header.val here.1.val index)).map
          (.SetTrailer block.trailer.val))[before.countP isMeasurement + i]? =
      some ((Scan.settle (Item.errors here.2) (.new block.header.val here.1.val index)).SetTrailer
        block.trailer.val) := by
    rw [← count, Nat.add_assoc, List.getElem?_append_right (Nat.le_add_right _ _),
      Nat.add_sub_cancel_left, List.map_append,
      List.getElem?_append_right (by rw [List.length_map, List.length_map]; exact Nat.le_add_right _ _),
      List.length_map, List.length_map, Nat.add_sub_cancel_left, List.getElem?_map,
      List.getElem?_map, place]
    rfl
  obtain ⟨small, value⟩ := List.getElem?_eq_some_iff.mp settled
  have decoded := (List.prefix_iff_getElem?.mp front _ small).trans (congrArg some value)
  rw [show (TV1190Data.decode ⟨before ++ block.encode ++ after, behind⟩).fMeasurements[_]? = _ from decoded,
    Scan.settle_eq]
  rfl

/-- An error word is not the zero that stands for no error. -/
theorem Item.errors_ne_zero {items : List Item} {e : Word} (member : e ∈ errors items) : e ≠ 0 := by
  obtain ⟨item, _, error⟩ := List.mem_filterMap.mp member
  cases item with
  | measurement word => cases error
  | error word =>
    cases error
    intro zero
    have tag := word.property
    rw [zero] at tag
    revert tag
    decide

theorem settle_marked (items : List Item) (header word : Word) (index : ℤ) :
    (Scan.settle (Item.errors items) (.new header word index)).HasTDCErrorWord ↔
      Item.errors items ≠ [] := by
  rw [Scan.settle_eq, TDCMeasurement.HasTDCErrorWord, bne_iff_ne]
  cases last : (Item.errors items).getLast? with
  | none =>
    rw [List.getLast?_eq_none_iff.mp last]
    exact iff_of_false (fun nonzero => nonzero rfl) fun nonempty => nonempty rfl
  | some e =>
    have member := List.mem_of_getLast? last
    exact iff_of_true (Item.errors_ne_zero member) (List.ne_nil_of_mem member)

/-- The errors behind a measurement of a block are among those behind the first one. -/
theorem Item.SameErrors.same {items : List Item} (same : SameErrors items)
    {here : Tagged measurementTag × List Item} (member : here ∈ followed items) {e other : Word}
    (one : e ∈ errors here.2) (another : other ∈ errors here.2) :
    e = other := by
  obtain ⟨first, head⟩ : ∃ first, (followed items).head? = some first := by
    rw [← Option.isSome_iff_exists, List.isSome_head?]
    exact List.ne_nil_of_mem member
  have within : errors here.2 ⊆ errors first.2 :=
    List.filterMap_subset _ (suffix_of_followed head member).subset
  exact same first head e (within one) other (within another)

/-- Words that are all the same stay so with one of these behind them. -/
theorem allSame_concat {words : List Word} {word : Word}
    (same : ∀ e ∈ words, ∀ other ∈ words, e = other) (known : words ≠ [] → word ∈ words) :
    ∀ e ∈ words ++ [word], ∀ other ∈ words ++ [word], e = other := by
  intro e here other there
  obtain rfl | nonempty := eq_or_ne words []
  · rw [List.nil_append] at here there
    rw [List.mem_singleton.mp here, List.mem_singleton.mp there]
  · have within {other : Word} (member : other ∈ words ++ [word]) : other ∈ words := by
      obtain early | late := List.mem_append.mp member
      · exact early
      · rw [List.mem_singleton.mp late]
        exact known nonempty
    exact same e (within here) other (within there)

section KeepsFirstError

variable {before after : List Word} {block : ErrorBlock} {behind : Word} {index : ℤ}

/-- An error behind the first measurement and other errors is one of these. -/
theorem KeepsFirstError.error_mem (keeps : KeepsFirstError before block after behind)
    (settles : Settles before block.header index) {front past tail : List Item}
    {word : Tagged measurementTag} {e : Tagged tdcErrorTag} (none : Item.followed front = [])
    (items : block.items = (front ++ .measurement word :: past) ++ .error e :: tail)
    (nonempty : Item.errors past ≠ []) : e.val ∈ Item.errors past := by
  have kept := keeps.kept _ e tail items 0 _ (settles.first none word past)
    ((settle_marked ..).mpr nonempty)
  rw [List.append_assoc, List.cons_append, settles.first none, Item.errors_concat_error] at kept
  have same := (Scan.settle_concat_iff nonempty e.val _).mp (Option.some.inj kept)
  rw [same]
  exact List.getLast_mem nonempty

/-- As far as the loop has come, the errors behind the first measurement are the same word. -/
theorem KeepsFirstError.same (keeps : KeepsFirstError before block after behind)
    (settles : Settles before block.header index) {front rest past : List Item}
    {word : Tagged measurementTag} (none : Item.followed front = [])
    (items : block.items = front ++ .measurement word :: rest) (within : past <+: rest) :
    ∀ e ∈ Item.errors past, ∀ other ∈ Item.errors past, e = other := by
  induction past using List.reverseRecOn with
  | nil => exact fun e member => by cases member
  | append_singleton past item ih =>
    have earlier := ih ((List.prefix_append past [item]).trans within)
    cases item with
    | measurement other =>
      rw [Item.errors_concat_measurement]
      exact earlier
    | error e =>
      obtain ⟨tail, rfl⟩ := within
      have cut : block.items = (front ++ .measurement word :: past) ++ .error e :: tail := by
        rw [items]
        simp only [List.append_assoc, List.cons_append, List.nil_append]
      rw [Item.errors_concat_error]
      exact allSame_concat earlier (keeps.error_mem settles none cut)

/-- Where the errors are the same word, the last one behind a measurement is the first one. -/
theorem Item.SameErrors.getLast? {items : List Item} (same : SameErrors items)
    {here : Tagged measurementTag × List Item} (member : here ∈ followed items) :
    (errors here.2).getLast? = (errors here.2).head? := by
  cases shape : errors here.2 with
  | nil => rfl
  | cons first more =>
    have last : (first :: more).getLast (List.cons_ne_nil _ _) = first := by
      apply same.same member
      · rw [shape]
        exact List.getLast_mem _
      · rw [shape]
        exact List.mem_cons_self
    rw [List.getLast?_eq_some_getLast (List.cons_ne_nil _ _), last]
    rfl

/-- Where the errors are the same word, one more leaves a measurement as it is. -/
theorem Item.SameErrors.kept (same : SameErrors block.items)
    (settles : Settles before block.header index) {front rest : List Item}
    {e : Tagged tdcErrorTag} (items : block.items = front ++ .error e :: rest) {i : ℕ}
    {measurement : TDCMeasurement}
    (found : measurementAt (before ++ block.header.val :: front.map Item.word)
      (before.countP isMeasurement + i) = some measurement)
    (marked : measurement.HasTDCErrorWord) :
    measurementAt (before ++ block.header.val :: (front ++ [error e]).map Item.word)
      (before.countP isMeasurement + i) =
      some measurement := by
  rw [settles] at found ⊢
  obtain ⟨here, place, rfl⟩ := Option.map_eq_some_iff.mp found
  have nonempty := (settle_marked ..).mp marked
  have behind : (followed (front ++ [error e]))[i]? = some (here.1, here.2 ++ [error e]) := by
    rw [followed_append, followed, followed, List.append_nil, List.getElem?_map, place]
    rfl
  have member : (here.1, here.2 ++ .error e :: rest) ∈ followed block.items := by
    rw [items, followed_append]
    exact List.mem_append_left _ (List.mem_map.mpr ⟨here, List.mem_of_getElem? place, rfl⟩)
  have last : e.val = (errors here.2).getLast nonempty := by
    apply same.same member
    · rw [errors_append]
      exact List.mem_append_right _ List.mem_cons_self
    · rw [errors_append]
      exact List.mem_append_left _ (List.getLast_mem nonempty)
  rw [behind, Option.map_some, errors_concat_error]
  exact congrArg some ((Scan.settle_concat_iff nonempty e.val _).mpr last)

end KeepsFirstError

/-- A block keeps the first error of each measurement exactly when all errors behind its first
measurement are the same word. -/
theorem keepsFirstError_iff (before : List Word) (block : ErrorBlock) (after : List Word)
    (behind : Word) :
    KeepsFirstError before block after behind ↔ Item.SameErrors block.items := by
  obtain ⟨index, settles⟩ := exists_settles before block.header
  constructor
  · rintro keeps ⟨word, rest⟩ head
    obtain ⟨front, none, items⟩ := Item.exists_of_head head
    exact keeps.same settles none items List.prefix_rfl
  · intro same
    refine ⟨fun i here place => ?_, fun front e rest items i measurement found marked => ?_⟩
    · rw [decode_block before block after behind place, same.getLast? (List.mem_of_getElem? place)]
    · exact same.kept settles items found marked

/-- Two measurements, each with an error of its own behind it: the first one gets the second error. -/
theorem twoErrors_replaced :
    ¬ KeepsFirstError [0x40000000#32]
      ⟨⟨0x08000000#32, rfl⟩, [.measurement ⟨0x00000001#32, rfl⟩, .error ⟨0x20000001#32, rfl⟩,
        .measurement ⟨0x00000002#32, rfl⟩, .error ⟨0x20000002#32, rfl⟩],
        ⟨0x18000006#32, rfl⟩⟩ [0x80000100#32] 0 := by
  intro keeps
  have first := keeps.first 0 _ rfl
  revert first
  decide

end PtfConverter.TDC1190
