import PtfConverter.Soundness.ScanRows
import Mathlib.Tactic.FinCases

/-! # Which rows depend on earlier scan points

Filling a row resets the counters and leaves the arrays. A row is independent of everything before
its scan point when each of its points overwrites all the waveform samples that the row shows, that
is when each stored bank decodes the three stored channels with at least `num_v1730_max` samples.
Any other point exposes cells that an earlier scan point wrote, and two earlier scan points that
differ there give two different rows.
-/

namespace PtfConverter.ScanTree

open V1730

/-- A row of the scan point shows a sample that the scan point did not write. -/
def Exposed (items : List MidasEvent) (wave : Fin 3) (i : Fin nPoints_max)
    (cell : Fin num_v1730_max) : Prop :=
  i.val < (stored items).length ∧ (windowAt wave items i).length ≤ cell.val

/-- A bank overwrites every stored sample of the three waveforms. -/
def Covers (bank : TV1730RawData) : Prop :=
  ∀ wave : Fin 3, ∃ measurement, bank.measurement? wave = some measurement ∧
    num_v1730_max ≤ measurement.getNSamples

/-- Every stored point of a scan point overwrites all the samples of its row. -/
def Covered (items : List MidasEvent) : Prop := ∀ point ∈ stored items, Covers point.2

theorem covers_iff (bank : TV1730RawData) :
    Covers bank ↔ ∀ wave, (window wave bank).length = num_v1730_max := by
  refine forall_congr' fun wave => ?_
  unfold window
  cases bank.measurement? wave with
  | none =>
    refine iff_of_false ?_ (by simp [num_v1730_max])
    rintro ⟨_, absent, _⟩
    cases absent
  | some measurement =>
    simp only [Option.some.injEq, exists_eq_left', List.length_map, List.length_range]
    omega

theorem window_length_le (wave : Fin 3) (bank : TV1730RawData) :
    (window wave bank).length ≤ num_v1730_max := by
  unfold window
  cases bank.measurement? wave with
  | none => exact Nat.zero_le _
  | some measurement =>
    rw [List.length_map, List.length_range]
    exact Nat.min_le_right ..

theorem stored_length_le (items : List MidasEvent) : (stored items).length ≤ nPoints_max :=
  List.length_take_le ..

private theorem windowAt_of_lt (wave : Fin 3) {items : List MidasEvent} {i : ℕ}
    (inside : i < (stored items).length) : windowAt wave items i = window wave (stored items)[i].2 := by
  rw [windowAt, List.getElem?_eq_getElem inside]
  rfl

/-- A scan point is covered exactly when its row shows nothing else. -/
theorem covered_iff (items : List MidasEvent) :
    Covered items ↔ ∀ wave i cell, ¬ Exposed items wave i cell := by
  constructor
  · rintro covered wave i cell ⟨inside, beyond⟩
    have full := (covers_iff _).mp (covered _ (List.getElem_mem inside)) wave
    rw [windowAt_of_lt wave inside, full] at beyond
    exact absurd cell.isLt (by omega)
  · intro hidden point member
    refine (covers_iff _).mpr fun wave => ?_
    obtain ⟨i, inside, rfl⟩ := List.getElem_of_mem member
    by_contra short
    have room := lt_of_le_of_ne (window_length_le wave (stored items)[i].2) short
    refine hidden wave ⟨i, lt_of_lt_of_le inside (stored_length_le items)⟩ ⟨_, room⟩ ⟨inside, ?_⟩
    rw [windowAt_of_lt wave inside]

/-- Old contents that agree on the columns no handler writes. -/
def Points.AgreeUnwritten (base other : Points) : Prop :=
  ∀ phidget field, (layoutOf phidget).lookup field = none →
    (base.phidg phidget).columns field = (other.phidg phidget).columns field

theorem Points.AgreeUnwritten.symm {base other : Points} (agree : base.AgreeUnwritten other) :
    other.AgreeUnwritten base := fun phidget field unwritten => (agree phidget field unwritten).symm

theorem Points.AgreeUnwritten.trans {base other third : Points} (first : base.AgreeUnwritten other)
    (second : other.AgreeUnwritten third) : base.AgreeUnwritten third :=
  fun phidget field unwritten => (first phidget field unwritten).trans (second phidget field unwritten)

theorem baseAfter_agreeUnwritten (base : Points) (emitted : List (List MidasEvent)) :
    (baseAfter base emitted).AgreeUnwritten base := by
  induction emitted generalizing base with
  | nil => exact fun _ _ _ => rfl
  | cons items rest ih =>
    intro phidget field unwritten
    refine (ih _ phidget field unwritten).trans ?_
    change (((layoutOf phidget).lookup field).map _).getD _ = _
    rw [unwritten]
    rfl

theorem baseAfter_agree (base : Points) (first second : List (List MidasEvent)) :
    (baseAfter base first).AgreeUnwritten (baseAfter base second) :=
  (baseAfter_agreeUnwritten base first).trans (baseAfter_agreeUnwritten base second).symm

private theorem accLayout_lookup (axis : Axis) : ∃ word, accLayout.lookup axis = some word := by
  cases axis <;> exact ⟨_, rfl⟩

/-- Over old contents that agree on the unwritten columns, the rows of a scan point that fits are the
same exactly when the exposed samples are. -/
theorem after_row_eq_iff {base other : Points} (agree : base.AgreeUnwritten other)
    {items : List MidasEvent} (fits : Fits items) :
    (base.after items).row = (other.after items).row ↔
      ∀ wave i cell, Exposed items wave i cell →
        base.V1730_wave wave i cell = other.V1730_wave wave i cell := by
  have capped := stored_length_le items
  constructor
  · rintro same wave i cell ⟨inside, beyond⟩
    have rows := congrArg (fun row : PointRow => (row.V1730_wave wave)[i.val]?) same
    change (Column.snapshot _ (stored items).length)[i.val]? =
      (Column.snapshot _ (stored items).length)[i.val]? at rows
    rw [Column.snapshot_getElem? _ capped inside, Column.snapshot_getElem? _ capped inside,
      Option.some.injEq] at rows
    have cells := congrFun rows cell
    change Column.paint _ (windowAt wave items i) cell =
      Column.paint _ (windowAt wave items i) cell at cells
    rwa [Column.paint_apply_of_le _ beyond, Column.paint_apply_of_le _ beyond] at cells
  · intro exposed
    unfold Points.row
    congr 1
    · exact (Column.snapshot_paint_map _ _ capped).trans (Column.snapshot_paint_map _ _ capped).symm
    · funext wave
      refine Column.snapshot_congr capped fun i inside => ?_
      funext cell
      change Column.paint _ (windowAt wave items i) cell = Column.paint _ (windowAt wave items i) cell
      rcases Nat.lt_or_ge cell.val (windowAt wave items i).length with written | beyond
      · rw [Column.paint_apply_of_lt _ written, Column.paint_apply_of_lt _ written]
      · rw [Column.paint_apply_of_le _ beyond, Column.paint_apply_of_le _ beyond]
        exact exposed wave i cell ⟨inside, beyond⟩
    · funext phidget field
      change Column.snapshot (((((layoutOf phidget).lookup field).map _).getD _)) _ =
        Column.snapshot (((((layoutOf phidget).lookup field).map _).getD _)) _
      cases written : (layoutOf phidget).lookup field with
      | none => exact congrArg (Column.snapshot · _) (agree phidget field written)
      | some word =>
        exact (Column.snapshot_paint_map _ _ (fits.phidg phidget)).trans
          (Column.snapshot_paint_map _ _ (fits.phidg phidget)).symm
    · funext axis
      obtain ⟨word, written⟩ := accLayout_lookup axis
      change Column.snapshot ((((accLayout.lookup axis).map _).getD _)) _ =
        Column.snapshot ((((accLayout.lookup axis).map _).getD _)) _
      rw [written]
      exact (Column.snapshot_paint_map _ _ fits.acc).trans (Column.snapshot_paint_map _ _ fits.acc).symm

/-- What an event that fills a row does at the gate. -/
theorem gate_step_of_fills (held : Gate MidasEvent) {event : MidasEvent} (filling : fills event) :
    gate.step held event = (⟨false, []⟩, [held.pending]) := by
  rw [Gate.machine_step, Gate.step, mark_of_fills filling]

/-- A run that ends in a filled row leaves no items, over what its scan points left behind. -/
theorem open_of_filled {memory : Memory} {accept : Bool} {past : List MidasEvent} {last : MidasEvent}
    {scan : ScanToTreeConverter} {rows : List Row} (filling : fills last)
    (ran : Transducer.run processMidasEvent (start memory accept) (past ++ [last]) = .ok (scan, rows)) :
    Open (baseAfter memory.points (Gate.emitted MidasEvent.mark accept (past ++ [last]))) scan
      ⟨false, []⟩ := by
  rcases start_run_cases memory accept (past ++ [last]) with
    ⟨_, final, outs, ran', opened, _⟩ | ⟨_, _, _, ran'⟩
  · cases ran.symm.trans ran'
    rw [Mealy.after_append, Mealy.after_cons, gate_step_of_fills _ filling] at opened
    exact opened
  · cases ran.symm.trans ran'

/-- The next scan point from a state without items: its row over the old contents, or a fault. -/
theorem next_row_cases {base : Points} {scan : ScanToTreeConverter}
    (opened : Open base scan ⟨false, []⟩) {since : List MidasEvent}
    (silent : ∀ event ∈ since, ¬ fills event) {event : MidasEvent} (filling : fills event) :
    (WithinCapacity false since ∧ ∃ next row,
      Transducer.run processMidasEvent scan (since ++ [event]) = .ok (next, [row]) ∧
      row.point = (base.after (Gate.pendingAfter MidasEvent.mark false since)).row) ∨
    (¬ WithinCapacity false since ∧ ∃ fault,
      Transducer.run processMidasEvent scan (since ++ [event]) = .error fault) := by
  have ends : gate.after ⟨false, []⟩ (since ++ [event]) = ⟨false, []⟩ := by
    rw [Mealy.after_append, Mealy.after_cons, gate_step_of_fills _ filling]
    rfl
  rcases run_cases opened fits_nil (since ++ [event]) with
    ⟨all, next, rows, ran, _, shown⟩ | ⟨⟨past, cut, overflow⟩, array, _, ran⟩
  · refine Or.inl ⟨fun past cut => all past (cut.trans (List.prefix_append ..)), next, ?_⟩
    have quiet : gate.outputs ⟨false, []⟩ since = [] :=
      (Gate.emitted_eq_nil_iff false since).mpr fun event member =>
        mark_of_not_fills (silent event member)
    rw [Mealy.outputs_append, quiet, List.nil_append, Mealy.outputs_cons,
      gate_step_of_fills _ filling] at shown
    obtain ⟨row, rfl, shown⟩ := List.map_eq_singleton_iff.mp shown
    exact ⟨row, ran, (List.cons.inj shown).1⟩
  · refine Or.inr ⟨fun within => overflow ?_, _, ran⟩
    rcases List.prefix_concat_iff.mp cut with rfl | before
    · rw [ends]
      exact fits_nil
    · exact within past before

/-- The row of the events `since` the last filled row is defined and the same after every two
histories, from any two processes over one memory, that end in a filled row with the same flag. -/
def Isolated (since : List MidasEvent) : Prop :=
  ∀ memory accept₁ accept₂ past₁ past₂ last₁ last₂ scan₁ scan₂ rows₁ rows₂, fills last₁ → fills last₂ →
    Transducer.run processMidasEvent (start memory accept₁) (past₁ ++ [last₁]) = .ok (scan₁, rows₁) →
    Transducer.run processMidasEvent (start memory accept₂) (past₂ ++ [last₂]) = .ok (scan₂, rows₂) →
    scan₁.gbl_accept_banks = scan₂.gbl_accept_banks → ∀ event, fills event →
    ∃ next₁ next₂ row₁ row₂,
      Transducer.run processMidasEvent scan₁ (since ++ [event]) = .ok (next₁, [row₁]) ∧
      Transducer.run processMidasEvent scan₂ (since ++ [event]) = .ok (next₂, [row₂]) ∧
      row₁.point = row₂.point

private theorem isolated_of_covered {since : List MidasEvent}
    (silent : ∀ event ∈ since, ¬ fills event) (within : WithinCapacity false since)
    (covered : Covered (Gate.pendingAfter MidasEvent.mark false since)) :
    Isolated since := by
  intro memory accept₁ accept₂ past₁ past₂ last₁ last₂ scan₁ scan₂ rows₁ rows₂ fills₁ fills₂ ran₁
    ran₂ _ event filling
  rcases next_row_cases (open_of_filled fills₁ ran₁) silent filling with
    ⟨_, next₁, row₁, next, shown₁⟩ | ⟨overflow, _⟩
  · rcases next_row_cases (open_of_filled fills₂ ran₂) silent filling with
      ⟨_, next₂, row₂, other, shown₂⟩ | ⟨overflow, _⟩
    · refine ⟨next₁, next₂, row₁, row₂, next, other, ?_⟩
      rw [shown₁, shown₂]
      exact (after_row_eq_iff (baseAfter_agree _ _ _) (within since (List.prefix_refl _))).mpr
        fun wave i cell exposed =>
        absurd exposed ((covered_iff _).mp covered wave i cell)
    · exact absurd within overflow
  · exact absurd within overflow

/-- A V1730 event whose three stored channels have 250 samples of one value. -/
def fullEvent (value : Word) : MidasEvent where
  timeStamp := 0
  v730 := some
    { fGlobalHeader := []
      fMeasurements := (List.range 3).map fun ch => ⟨ch, List.replicate 250 value⟩
      ascending := (by decide : [0, 1, 2].Pairwise (· < ·)) }
  bank _ := none

/-- One scan point of `count` such events. -/
def fullHistory (value : Word) (count : ℕ) : List MidasEvent :=
  bankEvent [.EOM] :: List.replicate count (fullEvent value)

private theorem window_fullEvent (value : Word) (wave : Fin 3) :
    ((fullEvent value).v730.map (window wave)).getD [] =
      List.replicate num_v1730_max (Double.ofUInt32 value) := by
  have found : ((List.range 3).map fun ch =>
      (⟨ch, List.replicate 250 value⟩ : RawChannelMeasurement)).find?
      (fun measurement => measurement.fChan == wave.val) =
        some ⟨wave.val, List.replicate 250 value⟩ := by
    fin_cases wave <;> rfl
  simp only [fullEvent, Option.map_some, Option.getD_some, window, TV1730RawData.measurement?, found]
  refine List.eq_replicate_iff.mpr ⟨?_, fun sample member => ?_⟩
  · rw [List.length_map, List.length_range, RawChannelMeasurement.getNSamples, List.length_replicate]
    rfl
  · obtain ⟨ib, short, rfl⟩ := List.mem_map.mp member
    have offset : waveOffset wave ≤ 180 := by fin_cases wave <;> decide
    have inside : ib + waveOffset wave < 250 := by
      have small := List.mem_range.mp short
      rw [num_v1730_max] at small
      omega
    simp only [RawChannelMeasurement.getSample, List.getElem?_replicate, inside, ↓reduceIte,
      Option.getD_some]

theorem covered_fullEvent (value : Word) : Covered [fullEvent value] := by
  intro point member
  obtain ⟨bank, v730⟩ : ∃ bank, (fullEvent value).v730 = some bank := ⟨_, rfl⟩
  have only : stored [fullEvent value] = [(0, bank)] := by
    cases v730
    rfl
  obtain rfl := List.mem_singleton.mp (only ▸ member)
  refine (covers_iff bank).mpr fun wave => ?_
  have samples := window_fullEvent value wave
  rw [v730, Option.map_some, Option.getD_some] at samples
  rw [samples, List.length_replicate]

/-- Digitizer events alone never reach the uncapped arrays. -/
theorem withinCapacity_of_digitizer (accept : Bool) {events : List MidasEvent}
    (digitizer : ∀ event ∈ events, (∀ phidget, event.phidg? phidget = none) ∧ event.acc? = none) :
    WithinCapacity accept events := by
  intro past cut
  have held (event : MidasEvent) (member : event ∈ Gate.pendingAfter MidasEvent.mark accept past) :
      event ∈ events := by
    rcases Gate.mem_after_pending member with none | seen
    · cases none
    · exact cut.subset seen.1
  refine ⟨fun phidget => ?_, ?_⟩
  · rw [List.filterMap_eq_nil_iff.mpr fun event member =>
      (digitizer event (held event member)).1 phidget]
    exact Nat.zero_le _
  · rw [List.filterMap_eq_nil_iff.mpr fun event member => (digitizer event (held event member)).2]
    exact Nat.zero_le _

private theorem fullHistory_digitizer (value : Word) (count : ℕ) :
    ∀ event ∈ fullHistory value count ++ [bankEvent [.BONM]],
      (∀ phidget, event.phidg? phidget = none) ∧ event.acc? = none := by
  intro event member
  simp only [fullHistory, List.cons_append, List.mem_cons, List.mem_append, List.mem_replicate,
    List.not_mem_nil, or_false] at member
  rcases member with rfl | ⟨_, rfl⟩ | rfl <;> exact ⟨fun _ => rfl, rfl⟩

private theorem emitted_fullHistory (value : Word) (count : ℕ) :
    Gate.emitted MidasEvent.mark false (fullHistory value count ++ [bankEvent [.BONM]]) =
      [List.replicate count (fullEvent value)] := by
  have items : ∀ event ∈ List.replicate count (fullEvent value), event.mark = .item := by
    intro event member
    rw [List.eq_of_mem_replicate member]
    rfl
  have silent : gate.outputs ⟨true, []⟩ (List.replicate count (fullEvent value)) = [] :=
    (Gate.emitted_eq_nil_iff true _).mpr fun event member => by rw [items event member]; decide
  have opens : gate.step ⟨false, []⟩ (bankEvent [.EOM]) = (⟨true, []⟩, []) := rfl
  have collected : gate.after ⟨true, []⟩ (List.replicate count (fullEvent value)) =
      ⟨true, List.replicate count (fullEvent value)⟩ := Gate.after_items [] items
  rw [Gate.emitted, fullHistory, List.cons_append, Mealy.outputs_cons, opens, Mealy.outputs_append,
    silent, collected]
  rfl

/-- The old contents after such a history. -/
private def staleBase (value : Word) (count : ℕ) : Points :=
  baseAfter zeroMemory.points
    (Gate.emitted MidasEvent.mark false (fullHistory value count ++ [bankEvent [.BONM]]))

/-- After such a history, the cells of its points hold its value. -/
private theorem stale_cell (value : Word) {count : ℕ} (wave : Fin 3) (i : Fin nPoints_max)
    (inside : i.val < count) (cell : Fin num_v1730_max) :
    (staleBase value count).V1730_wave wave i cell = Double.ofUInt32 value := by
  obtain ⟨bank, v730⟩ : ∃ bank, (fullEvent value).v730 = some bank := ⟨_, rfl⟩
  have point : (stored (List.replicate count (fullEvent value)))[i.val]? = some (0, bank) := by
    have contributes : (fullEvent value).wave?.map ((fullEvent value).timeStamp, ·) =
        some (0, bank) := by
      rw [wave?_eq_v730, v730]
      rfl
    rw [stored, List.getElem?_take_of_lt i.isLt,
      List.filterMap_replicate_of_some
        (f := fun event : MidasEvent => event.wave?.map (event.timeStamp, ·)) contributes,
      List.getElem?_replicate, if_pos inside]
  have samples := window_fullEvent value wave
  rw [v730, Option.map_some, Option.getD_some] at samples
  rw [staleBase, emitted_fullHistory]
  change (zeroMemory.points.V1730_wave wave i).paint (windowAt wave _ i.val) cell = _
  rw [windowAt, point, Option.map_some, Option.getD_some, samples,
    Column.paint_apply_of_lt _ (by rw [List.length_replicate]; exact cell.isLt), List.getElem_replicate]

/-- The run over such a history, from memory that is all zero. -/
private theorem run_fullHistory (value : Word) (count : ℕ) : ∃ scan rows,
    Transducer.run processMidasEvent (start zeroMemory false)
      (fullHistory value count ++ [bankEvent [.BONM]]) =
      .ok (scan, rows) := by
  rcases start_run_cases zeroMemory false (fullHistory value count ++ [bankEvent [.BONM]]) with
    ⟨_, scan, rows, ran, _⟩ | ⟨overflow, _⟩
  · exact ⟨scan, rows, ran⟩
  · exact absurd (withinCapacity_of_digitizer false (fullHistory_digitizer value count)) overflow

/-- An isolated row is the same over what the histories of 0 and of 1 left behind. -/
private theorem same_row_of_isolated {since : List MidasEvent} (silent : ∀ event ∈ since, ¬ fills event)
    (isolated : Isolated since) (count : ℕ) : WithinCapacity false since ∧
      ((staleBase 0 count).after (Gate.pendingAfter MidasEvent.mark false since)).row =
        ((staleBase 1 count).after (Gate.pendingAfter MidasEvent.mark false since)).row := by
  have bonm : fills (bankEvent [.BONM]) := rfl
  obtain ⟨scan₁, rows₁, ran₁⟩ := run_fullHistory 0 count
  obtain ⟨scan₂, rows₂, ran₂⟩ := run_fullHistory 1 count
  have opened₁ := open_of_filled bonm ran₁
  have opened₂ := open_of_filled bonm ran₂
  obtain ⟨next₁, next₂, row₁, row₂, last₁, last₂, same⟩ :=
    isolated zeroMemory false false _ _ _ _ scan₁ scan₂
    rows₁ rows₂ bonm bonm ran₁ ran₂ (opened₁.accept.trans opened₂.accept.symm) _ bonm
  rcases next_row_cases opened₁ silent bonm with ⟨within, _, _, last₁', shown₁⟩ | ⟨_, _, fault⟩
  · rcases next_row_cases opened₂ silent bonm with ⟨_, _, _, last₂', shown₂⟩ | ⟨overflow, _⟩
    · cases last₁.symm.trans last₁'
      cases last₂.symm.trans last₂'
      exact ⟨within, shown₁.symm.trans (same.trans shown₂)⟩
    · exact absurd within overflow
  · cases last₁.symm.trans fault

private theorem covered_of_isolated {since : List MidasEvent} (silent : ∀ event ∈ since, ¬ fills event)
    (isolated : Isolated since) :
    WithinCapacity false since ∧ Covered (Gate.pendingAfter MidasEvent.mark false since) := by
  have within := (same_row_of_isolated silent isolated 0).1
  refine ⟨within, (covered_iff _).mpr fun wave i cell exposed => ?_⟩
  have stale := (after_row_eq_iff (baseAfter_agree _ _ _) (within since (List.prefix_refl _))).mp
    (same_row_of_isolated silent isolated (i.val + 1)).2 wave i cell exposed
  have values := (stale_cell 0 wave i (Nat.lt_succ_self _) cell).symm.trans
    (stale.trans (stale_cell 1 wave i (Nat.lt_succ_self _) cell))
  exact absurd values (by decide)

/-- A row is independent of the history exactly when its scan point is within capacity and each of
its stored points overwrites every sample. -/
theorem isolated_iff {since : List MidasEvent} (silent : ∀ event ∈ since, ¬ fills event) :
    Isolated since ↔ WithinCapacity false since ∧
      Covered (Gate.pendingAfter MidasEvent.mark false since) :=
  ⟨covered_of_isolated silent, fun ⟨within, covered⟩ => isolated_of_covered silent within covered⟩

/-- The rows of one point with all three channels in full are independent of the history. -/
theorem fullEvent_isolated : Isolated [bankEvent [.EOM], fullEvent 0] := by
  have silent : ∀ event ∈ [bankEvent [.EOM], fullEvent 0], ¬ fills event :=
    List.forall_mem_cons.mpr ⟨by decide, List.forall_mem_singleton.mpr (by decide)⟩
  have digitizer : ∀ event ∈ [bankEvent [.EOM], fullEvent 0],
      (∀ phidget, event.phidg? phidget = none) ∧ event.acc? = none :=
    List.forall_mem_cons.mpr ⟨⟨fun _ => rfl, rfl⟩, List.forall_mem_singleton.mpr ⟨fun _ => rfl, rfl⟩⟩
  exact (isolated_iff silent).mpr ⟨withinCapacity_of_digitizer false digitizer, covered_fullEvent 0⟩

/-- A V1730 event that decodes channel 0 only, with four samples. -/
def partialEvent : MidasEvent where
  timeStamp := 0
  v730 := some ⟨[], [⟨0, List.replicate 4 7⟩], by decide⟩
  bank _ := none

/-- The row of such a point shows samples of an earlier scan point. -/
theorem partialEvent_not_isolated : ¬ Isolated [bankEvent [.EOM], partialEvent] := by
  have silent : ∀ event ∈ [bankEvent [.EOM], partialEvent], ¬ fills event :=
    List.forall_mem_cons.mpr ⟨by decide, List.forall_mem_singleton.mpr (by decide)⟩
  intro isolated
  obtain ⟨_, covered⟩ := covered_of_isolated silent isolated
  have point : stored (Gate.pendingAfter MidasEvent.mark false [bankEvent [.EOM], partialEvent]) =
      [(0, ⟨[], [⟨0, List.replicate 4 7⟩], by decide⟩)] := rfl
  rw [Covered, point] at covered
  obtain ⟨_, absent, _⟩ := covered _ (List.mem_singleton_self _) 1
  cases absent

end PtfConverter.ScanTree
