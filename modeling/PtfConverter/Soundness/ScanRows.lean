import PtfConverter.Soundness.ScanRefinement

/-! # What a row of the scan tree holds

For a process that starts with its counters at zero, each row is filled by a BONM event and
holds the accepted V730 events since the row before, up to the cap on points. The phidget and
accelerometer counters have no such cap: every write stays inside its array, and every row is
as counted, exactly for the event sequences that never contribute more than `num_phidg_max`
readings of one kind to a scan point.
-/

namespace PtfConverter.ScanTree

open V1730

/-- The run of a new converter, in terms of the gate alone. -/
theorem start_run_cases (memory : Memory) (accept : Bool) (events : List MidasEvent) :
    (WithinCapacity accept events ∧ ∃ final rows,
      Transducer.run processMidasEvent (start memory accept) events = .ok (final, rows) ∧
      Open (baseAfter memory.points (Gate.emitted MidasEvent.mark accept events)) final
        (gate.after ⟨accept, []⟩ events) ∧
      rows.map Row.point = pointRows memory.points (Gate.emitted MidasEvent.mark accept events)) ∨
    (¬ WithinCapacity accept events ∧ ∃ array, array.Uncapped ∧
      Transducer.run processMidasEvent (start memory accept) events =
        .error ⟨array, num_phidg_max⟩) := by
  rcases run_cases (open_start memory accept) fits_nil events with
    ⟨all, succeeded⟩ | ⟨⟨past, cut, overflow⟩, fault⟩
  · exact Or.inl ⟨all, succeeded⟩
  · exact Or.inr ⟨fun within => overflow (within past cut), fault⟩

/-- No write of the run misses its array. -/
def WritesInBounds (memory : Memory) (accept : Bool) (events : List MidasEvent) : Prop :=
  ∀ fault, Transducer.run processMidasEvent (start memory accept) events ≠ .error fault

/-- Every write is inside its array exactly when no scan point takes more than `num_phidg_max`
readings of one phidget or of the accelerometer. -/
theorem writesInBounds_iff (memory : Memory) (accept : Bool) (events : List MidasEvent) :
    WritesInBounds memory accept events ↔ WithinCapacity accept events := by
  rcases start_run_cases memory accept events with
    ⟨within, final, rows, ran, _⟩ | ⟨overflow, array, _, ran⟩
  · exact iff_of_true (fun fault failed => by cases ran.symm.trans failed) within
  · exact iff_of_false (fun safe => safe _ ran) overflow

/-- The waveform and time stamp arrays are never missed, on any input. -/
theorem fault_uncapped (memory : Memory) (accept : Bool) (events : List MidasEvent) (fault : Fault)
    (failed : Transducer.run processMidasEvent (start memory accept) events = .error fault) :
    fault.array.Uncapped ∧ fault.index = num_phidg_max := by
  rcases start_run_cases memory accept events with ⟨_, final, rows, ran, _⟩ | ⟨_, array, uncapped, ran⟩
  · cases ran.symm.trans failed
  · cases ran.symm.trans failed
    exact ⟨uncapped, rfl⟩

/-- A BONM bank fills a row unless the event also has an EOM bank. -/
def fills (event : MidasEvent) : Bool := (event.bank .BONM).isSome && !(event.bank .EOM).isSome

/-- The events of the open scan point that have a V730 bank. -/
def counted (accept : Bool) (past : List MidasEvent) : List MidasEvent :=
  (Gate.pendingAfter MidasEvent.mark accept past).filter (·.v730.isSome)

/-- A row holds the time stamps and the channel 1 samples of a list of V730 events. -/
structure PointRow.Holds (row : PointRow) (events : List MidasEvent) : Prop where
  num_points : row.num_points = min nPoints_max events.length
  evt_timestamp : ∀ i, i < row.num_points →
    row.evt_timestamp[i]? = events[i]?.map (Double.ofUInt32 ·.timeStamp)
  wave1 : ∀ i event bank measurement, i < row.num_points → events[i]? = some event →
    event.v730 = some bank → bank.measurement? 1 = some measurement →
    ∃ cells, (row.V1730_wave 1)[i]? = some cells ∧ ∀ ib : Fin num_v1730_max,
      ib.val < measurement.getNSamples → cells ib = Double.ofUInt32 (measurement.getSample ib)

/-- The events a converter takes notice of: the markers, and whatever arrives while it accepts. -/
def heard : Bool → List MidasEvent → List MidasEvent
  | _, [] => []
  | accept, event :: rest =>
      (if accept || (event.bank .EOM).isSome || (event.bank .BONM).isSome then [event] else []) ++
        heard (Gate.acceptStep MidasEvent.mark accept event) rest

/-- A run fills one row at each filling event and at no other, with the counted events of its scan
point, and what arrives while the flag is down changes no row. -/
structure FilledAsCounted (memory : Memory) (accept : Bool) (events : List MidasEvent) : Prop where
  filled : ∀ past event, past ++ [event] <+: events → ∃ scan rows next filled,
    Transducer.run processMidasEvent (start memory accept) past = .ok (scan, rows) ∧
    processMidasEvent scan event = .ok (next, filled) ∧
    if fills event then ∃ row, filled = [row] ∧ row.point.Holds (counted accept past) else filled = []
  unheard : (Transducer.run processMidasEvent (start memory accept) events).map Prod.snd =
    (Transducer.run processMidasEvent (start memory accept) (heard accept events)).map Prod.snd

private theorem item?_of_v730 {event : MidasEvent} {bank : TV1730RawData}
    (present : event.v730 = some bank) :
    event.item? = some (.wave bank) := by
  simp only [MidasEvent.item?, present, Option.map_some, Option.some_or]

/-- The V730 bank comes first in handler order, so an event with one contributes it. -/
theorem wave?_eq_v730 (event : MidasEvent) : event.wave? = event.v730 := by
  cases present : event.v730 with
  | some bank => rw [MidasEvent.wave?, item?_of_v730 present]
  | none =>
    rw [MidasEvent.wave?, MidasEvent.item?, present]
    cases event.bank .PH00 <;> cases event.bank .PH01 <;> cases event.bank .PH03 <;>
      cases event.bank .PH04 <;> cases event.bank .PA00 <;> rfl

/-- A filtered map at an index is the map of the filtered list at that index. -/
private theorem filterMap_getElem? {α β : Type*} (f : α → Option β) (xs : List α) (i : ℕ) :
    (xs.filterMap f)[i]? = (xs.filter fun x => (f x).isSome)[i]?.bind f := by
  induction xs generalizing i with
  | nil => rfl
  | cons x rest ih =>
    cases present : f x with
    | none => simp [present, ih]
    | some y => cases i <;> simp [present, ih]

theorem stored_length (items : List MidasEvent) :
    (stored items).length = min nPoints_max (items.filter (·.v730.isSome)).length := by
  have same : (items.filterMap fun event => event.wave?.map (event.timeStamp, ·)).length =
      (items.filter (·.v730.isSome)).length := by
    induction items with
    | nil => rfl
    | cons event rest ih =>
      simp only [wave?_eq_v730] at ih ⊢
      cases present : event.v730 <;> simp [present, ih]
  rw [stored, List.length_take, same]

private theorem stored_getElem? (items : List MidasEvent) {i : ℕ} (inside : i < (stored items).length) :
    (stored items)[i]? = (items.filter (·.v730.isSome))[i]?.bind fun event =>
      event.v730.map (event.timeStamp, ·) := by
  have cap : i < nPoints_max := by
    rw [stored_length] at inside
    omega
  simp only [stored, List.getElem?_take_of_lt cap, filterMap_getElem?, wave?_eq_v730, Option.isSome_map]

/-- The row of a scan point holds its V730 events, whatever the arrays held before. -/
theorem after_row_holds (base : Points) (items : List MidasEvent) :
    (base.after items).row.Holds (items.filter (·.v730.isSome)) := by
  have capped : (stored items).length ≤ nPoints_max := List.length_take_le ..
  refine ⟨stored_length items, fun i inside => ?_,
    fun i event bank measurement inside here v730 decoded => ?_⟩
  · change ((base.evt_timestamp.paint _).snapshot (stored items).length)[i]? = _
    rw [Column.snapshot_paint_map _ _ capped, List.getElem?_map, stored_getElem? items inside]
    cases here : (items.filter (·.v730.isSome))[i]? with
    | none => rfl
    | some event =>
      have present := List.of_mem_filter (List.mem_of_getElem? here)
      obtain ⟨bank, v730⟩ := Option.isSome_iff_exists.mp present
      simp [v730]
  · have stored_i := stored_getElem? items inside
    rw [here, Option.bind_some, v730, Option.map_some] at stored_i
    have painted : windowAt 1 items i =
      (List.range (min measurement.getNSamples num_v1730_max)).map fun ib =>
        Double.ofUInt32 (measurement.getSample ib) := by
      have second : bank.measurement? (1 : Fin 3).val = some measurement := decoded
      rw [windowAt, stored_i, Option.map_some, Option.getD_some, window]
      simp only [second]
      rfl
    refine ⟨_, Column.snapshot_getElem? _ capped inside, fun ib short => ?_⟩
    have room : ib.val < (windowAt 1 items i).length := by
      rw [painted, List.length_map, List.length_range]
      omega
    change (base.V1730_wave 1 _).paint (windowAt 1 items i) ib = _
    rw [Column.paint_apply_of_lt _ room]
    simp only [painted, List.getElem_map, List.getElem_range]

/-- The state of a converter without its count of refused events, which no row shows. -/
private def forget (scan : ScanToTreeConverter) : ScanToTreeConverter := { scan with nbadTDCbanks := 0 }

private theorem processMidasEvent_forget {scan other : ScanToTreeConverter}
    (same : forget scan = forget other) (event : MidasEvent) :
    (processMidasEvent scan event).map (Prod.map forget id) =
      (processMidasEvent other event).map (Prod.map forget id) := by
  obtain ⟨accept, points, scalars, timestamp, good, bad⟩ := scan
  obtain ⟨accept', points', scalars', timestamp', good', bad'⟩ := other
  simp only [forget, ScanToTreeConverter.mk.injEq, and_true] at same
  obtain ⟨rfl, rfl, rfl, rfl, rfl⟩ := same
  simp only [processMidasEvent]
  split_ifs
  · rfl
  · rfl
  · rcases handleBanks points event with _ | ⟨_ | _⟩ <;> rfl
  · rfl

/-- An event that is not heard leaves the state, up to the count of refused events. -/
private theorem processMidasEvent_unheard {scan : ScanToTreeConverter} {event : MidasEvent}
    (closed : ¬ (scan.gbl_accept_banks || (event.bank .EOM).isSome || (event.bank .BONM).isSome)) :
    processMidasEvent scan event = .ok ({ scan with nbadTDCbanks := scan.nbadTDCbanks + 1 }, []) := by
  simp only [Bool.or_eq_true, not_or] at closed
  obtain ⟨⟨accept, eom⟩, bonm⟩ := closed
  rw [processMidasEvent, if_neg eom, if_neg bonm, if_neg (by simpa [single_point] using accept)]

theorem processMidasEvent_accept {scan next : ScanToTreeConverter} {event : MidasEvent}
    {rows : List Row} (stepped : processMidasEvent scan event = .ok (next, rows)) :
    next.gbl_accept_banks = Gate.acceptStep MidasEvent.mark scan.gbl_accept_banks event := by
  unfold processMidasEvent at stepped
  unfold Gate.acceptStep MidasEvent.mark
  split_ifs at stepped with eom bonm open_
  · cases stepped
    simp only [eom, ↓reduceIte]
  · cases stepped
    simp only [eom, bonm, Bool.false_eq_true, ↓reduceIte]
  · rcases handled : handleBanks scan.points event with _ | ⟨_ | points⟩ <;> rw [handled] at stepped <;>
      cases stepped <;> simp only [eom, bonm, Bool.false_eq_true, ↓reduceIte] <;> split_ifs <;> rfl
  · cases stepped
    simp only [eom, bonm, Bool.false_eq_true, ↓reduceIte]
    split_ifs <;> rfl

/-- A run that hears only what it takes notice of fills the same rows. -/
private theorem run_heard {scan other : ScanToTreeConverter} (same : forget scan = forget other)
    (events : List MidasEvent) :
    (Transducer.run processMidasEvent scan events).map (Prod.map forget id) =
      (Transducer.run processMidasEvent other (heard scan.gbl_accept_banks events)).map
        (Prod.map forget id) := by
  induction events generalizing scan other with
  | nil => exact congrArg (fun state => Except.ok (state, [])) same
  | cons event rest ih =>
    rw [heard]
    split_ifs with noticed
    · refine Transducer.run_cons_congr forget (processMidasEvent_forget same event)
        fun {next next' out} here there kept => ?_
      rw [← processMidasEvent_accept here]
      exact ih kept
    · have stepped := processMidasEvent_unheard noticed
      rw [List.nil_append, Transducer.run_cons_silent stepped, ← processMidasEvent_accept stepped]
      exact ih same

private theorem run_heard_rows (memory : Memory) (accept : Bool) (events : List MidasEvent) :
    (Transducer.run processMidasEvent (start memory accept) events).map Prod.snd =
      (Transducer.run processMidasEvent (start memory accept) (heard accept events)).map Prod.snd := by
  have rows (result : Except Fault (ScanToTreeConverter × List Row)) :
      (result.map (Prod.map forget id)).map Prod.snd = result.map Prod.snd := by cases result <;> rfl
  rw [← rows, run_heard (rfl : forget (start memory accept) = forget (start memory accept)), rows]
  rfl

theorem mark_of_fills {event : MidasEvent} (filling : fills event) : event.mark = .closes := by
  simp only [fills, Bool.and_eq_true, Bool.not_eq_true'] at filling
  simp only [MidasEvent.mark, filling, Bool.false_eq_true, ↓reduceIte]

theorem mark_of_not_fills {event : MidasEvent} (silent : ¬ fills event) : event.mark ≠ .closes := by
  simp only [fills, Bool.and_eq_true, Bool.not_eq_true', not_and] at silent
  unfold MidasEvent.mark
  split_ifs with eom bonm <;> simp_all

/-- Rows are as counted exactly when no scan point overflows an uncapped array. -/
theorem filledAsCounted_iff (memory : Memory) (accept : Bool) (events : List MidasEvent) :
    FilledAsCounted memory accept events ↔ WithinCapacity accept events := by
  constructor
  · intro counts
    rcases start_run_cases memory accept events with ⟨within, _⟩ | ⟨_, array, _, ran⟩
    · exact within
    · rcases List.eq_nil_or_concat events with rfl | ⟨past, event, rfl⟩
      · cases ran
      · rw [List.concat_eq_append] at ran counts
        obtain ⟨scan, rows, next, filled, before, stepped, _⟩ :=
          counts.filled past event (List.prefix_refl _)
        have whole := Transducer.run_append_ok_iff.mpr ⟨scan, rows, filled ++ [], before,
          Transducer.run_cons_ok_iff.mpr ⟨next, filled, [], stepped, Transducer.run_nil next, rfl⟩, rfl⟩
        cases ran.symm.trans whole
  · refine fun within => ⟨fun past event cut => ?_, run_heard_rows memory accept events⟩
    rcases start_run_cases memory accept past with ⟨_, scan, rows, ran, opened, _⟩ | ⟨overflow, _⟩
    · have fits : Fits (gate.after ⟨accept, []⟩ past).pending :=
        within past ((List.prefix_append ..).trans cut)
      rcases processMidasEvent_cases opened fits event with
        ⟨_, next, filled, stepped, _, shown⟩ | ⟨overflow, _⟩
      · refine ⟨scan, rows, next, filled, ran, stepped, ?_⟩
        split_ifs with filling
        · have emits : (gate.step (gate.after ⟨accept, []⟩ past) event).2 =
              [Gate.pendingAfter MidasEvent.mark accept past] := by
            rw [Gate.machine_step, Gate.step, mark_of_fills filling]
            rfl
          rw [emits, pointRows, pointRows, List.map_eq_singleton_iff] at shown
          obtain ⟨row, rfl, shown⟩ := shown
          exact ⟨row, rfl, shown ▸ after_row_holds _ _⟩
        · have emits : (gate.step (gate.after ⟨accept, []⟩ past) event).2 = [] := by
            have silent := mark_of_not_fills filling
            rw [Gate.machine_step, Gate.step]
            cases marked : event.mark <;> first | rfl | exact absurd marked silent
          rw [emits, pointRows, List.map_eq_nil_iff] at shown
          exact shown
      · refine absurd (within _ cut) ?_
        rwa [Gate.pendingAfter, Mealy.after_append]
    · exact absurd (fun early before =>
        within early (before.trans ((List.prefix_append ..).trans cut))) overflow

/-- An event with the given generic banks, whose data words are all zero. -/
def bankEvent (names : List BankName) : MidasEvent where
  timeStamp := 0
  v730 := none
  bank name := if name ∈ names then some ⟨fun _ => 0⟩ else none

/-- A process whose memory is all zero. -/
def zeroMemory : Memory where
  evt_timestamp _ := 0
  V1730_wave _ _ _ := 0
  phidg _ _ _ := 0
  acc _ _ := 0
  scalars := ⟨⟨0, 0, 0, 0, 0, 0, 0, 0, 0, 0, 0, 0⟩, ⟨0, fun _ => 0, fun _ => 0⟩, ⟨0, 0, 0, fun _ => 0⟩⟩
  timestamp := 0

/-- One scan point with one PH00 reading more than its arrays hold. -/
def overflowEvents : List MidasEvent :=
  bankEvent [.EOM] :: List.replicate (num_phidg_max + 1) (bankEvent [.PH00])

theorem overflowEvents_overflow : ¬ WithinCapacity false overflowEvents := by
  intro within
  have items : ∀ event ∈ List.replicate (num_phidg_max + 1) (bankEvent [.PH00]),
      event.mark = .item := by
    intro event member
    rw [List.eq_of_mem_replicate member]
    rfl
  have pending : Gate.pendingAfter MidasEvent.mark false overflowEvents =
      List.replicate (num_phidg_max + 1) (bankEvent [.PH00]) := by
    rw [Gate.pendingAfter, overflowEvents, Mealy.after_cons]
    exact congrArg Gate.pending (Gate.after_items [] items)
  have fits := (within overflowEvents (List.prefix_refl _)).phidg .phidg0
  rw [pending,
    List.filterMap_replicate_of_some (show (bankEvent [.PH00]).phidg? .phidg0 = some _ from rfl),
    List.length_replicate] at fits
  omega

/-- The write of the last reading misses `acc_x0`. -/
theorem overflowEvents_writes : ¬ WritesInBounds zeroMemory false overflowEvents := by
  rcases start_run_cases zeroMemory false overflowEvents with ⟨within, _⟩ | ⟨_, array, _, ran⟩
  · exact absurd within overflowEvents_overflow
  · exact fun safe => safe _ ran

/-- The row that the next BONM bank should fill is not defined. -/
theorem overflowEvents_rows :
    ¬ FilledAsCounted zeroMemory false (overflowEvents ++ [bankEvent [.BONM]]) := by
  intro counts
  obtain ⟨scan, rows, _, _, ran, _⟩ :=
    counts.filled overflowEvents (bankEvent [.BONM]) (List.prefix_refl _)
  rcases start_run_cases zeroMemory false overflowEvents with ⟨within, _⟩ | ⟨_, array, _, fault⟩
  · exact absurd within overflowEvents_overflow
  · cases fault.symm.trans ran

end PtfConverter.ScanTree
