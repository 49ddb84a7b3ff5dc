import PtfConverter.Model.ScanConverter
import PtfConverter.ToMathlib.Gate

/-! # A scan point as the list of its events

The purpose of the converter, without counters or arrays: the gantry's marker banks open and
close a gate, and a scan point is the list of events that contributed to it. `Points.after` is
the closed form of the arrays once those events were handled over old contents, and each handler
extends it by its own event for as long as the counters stay within the arrays.
-/

namespace PtfConverter.ScanTree

open V1730

/-- What an accepted event contributes: the first bank, in handler order, that it has. -/
inductive Item where
  | wave (bank : TV1730RawData)
  | phidg (phidget : Phidget) (bank : TGenericData)
  | acc (bank : TGenericData)

def MidasEvent.item? (event : MidasEvent) : Option Item :=
  (event.v730.map .wave).or <| ((event.bank .PH00).map (.phidg .phidg0)).or <|
    ((event.bank .PH01).map (.phidg .phidg1)).or <| ((event.bank .PH03).map (.phidg .phidg3)).or <|
    ((event.bank .PH04).map (.phidg .phidg4)).or <| (event.bank .PA00).map .acc

/-- A marker bank opens or closes the gate before any other bank is looked at. -/
def MidasEvent.mark (event : MidasEvent) : GateMark :=
  if (event.bank .EOM).isSome then .opens
  else if (event.bank .BONM).isSome then .closes
  else if event.item?.isSome then .item
  else .other

/-- The digitizer bank an event contributes. -/
def MidasEvent.wave? (event : MidasEvent) : Option TV1730RawData :=
  match event.item? with
  | some (.wave bank) => some bank
  | _ => none

/-- The bank an event contributes to one phidget. -/
def MidasEvent.phidg? (phidget : Phidget) (event : MidasEvent) : Option TGenericData :=
  match event.item? with
  | some (.phidg source bank) => if source = phidget then some bank else none
  | _ => none

/-- The bank an event contributes to the accelerometer. -/
def MidasEvent.acc? (event : MidasEvent) : Option TGenericData :=
  match event.item? with
  | some (.acc bank) => some bank
  | _ => none

/-- The digitizer points a scan point stores: the first `nPoints_max` of its waveforms. -/
def stored (items : List MidasEvent) : List (BitVec 32 × TV1730RawData) :=
  (items.filterMap fun event => event.wave?.map (event.timeStamp, ·)).take nPoints_max

/-- The samples of a bank that are stored for one of the three waveforms. -/
def window (wave : Fin 3) (bank : TV1730RawData) : List Double :=
  match bank.measurement? wave with
  | some measurement => (List.range (min measurement.getNSamples num_v1730_max)).map fun ib =>
      Double.ofUInt32 (measurement.getSample (ib + waveOffset wave))
  | none => []

/-- The samples that the `i`-th stored point holds for one waveform. -/
def windowAt (wave : Fin 3) (items : List MidasEvent) (i : ℕ) : List Double :=
  ((stored items)[i]?.map fun point => window wave point.2).getD []

def layoutOf : Phidget → List (PhidgetField × ℕ)
  | .phidg1 => phidget1Layout
  | _ => phidgetLayout

/-- The arrays after a scan point's events, over the contents they had before. -/
def Points.after (base : Points) (items : List MidasEvent) : Points where
  num_points := (stored items).length
  num_points_dig0 := 0
  num_points_dig1 := 0
  evt_timestamp := base.evt_timestamp.paint ((stored items).map fun point => Double.ofUInt32 point.1)
  V1730_wave wave i := (base.V1730_wave wave i).paint (windowAt wave items i)
  phidg phidget :=
    { num_points := (items.filterMap (MidasEvent.phidg? phidget)).length
      columns := fun field => (((layoutOf phidget).lookup field).map fun word =>
        ((base.phidg phidget).columns field).paint
          ((items.filterMap (MidasEvent.phidg? phidget)).map (·.getData64 word))).getD
        ((base.phidg phidget).columns field) }
  acc :=
    { num_points := (items.filterMap MidasEvent.acc?).length
      columns := fun axis => ((accLayout.lookup axis).map fun word =>
        (base.acc.columns axis).paint ((items.filterMap MidasEvent.acc?).map (·.getData64 word))).getD
        (base.acc.columns axis) }

/-- The uncapped counters are within their arrays. -/
structure Fits (items : List MidasEvent) : Prop where
  phidg : ∀ phidget, (items.filterMap (MidasEvent.phidg? phidget)).length ≤ num_phidg_max
  acc : (items.filterMap MidasEvent.acc?).length ≤ num_phidg_max

private theorem storeWave_ok (points : Points) (measurement : RawChannelMeasurement) (wave : Fin 3)
    (row : Fin nPoints_max) (current : points.num_points - 1 = row.val) :
    storeWave points measurement wave = .ok { points with
      V1730_wave := Function.update points.V1730_wave wave (Function.update (points.V1730_wave wave) row
        ((points.V1730_wave wave row).paint
          ((List.range (min measurement.getNSamples num_v1730_max)).map fun ib =>
            Double.ofUInt32 (measurement.getSample (ib + waveOffset wave))))) } := by
  rw [storeWave, current, Column.foldlM_store₂_range _ _ row _ (Nat.min_le_right ..), Except.ok_bind]
  rfl

/-- The samples of the first measurement of a waveform's channel. -/
private def windowOf (wave : Fin 3) (measurements : List RawChannelMeasurement) : List Double :=
  match measurements.find? fun measurement => measurement.fChan == wave.val with
  | some measurement => (List.range (min measurement.getNSamples num_v1730_max)).map fun ib =>
      Double.ofUInt32 (measurement.getSample (ib + waveOffset wave))
  | none => []

private theorem windowOf_eq_nil {wave : Fin 3} {measurements : List RawChannelMeasurement}
    (absent : ∀ measurement ∈ measurements, measurement.fChan ≠ wave.val) :
    windowOf wave measurements = [] := by
  have none : measurements.find? (fun measurement => measurement.fChan == wave.val) = none :=
    List.find?_eq_none.mpr fun measurement member => by simpa using absent measurement member
  rw [windowOf, none]

private theorem windowOf_cons_of_ne {wave : Fin 3} {measurement : RawChannelMeasurement}
    {rest : List RawChannelMeasurement} (other : measurement.fChan ≠ wave.val) :
    windowOf wave (measurement :: rest) = windowOf wave rest := by
  rw [windowOf, windowOf, List.find?_cons_of_neg (by simpa using other)]

/-- The measurement loop paints the window of each waveform into the current point. -/
private theorem foldlM_storeMeasurement (points : Points) (row : Fin nPoints_max)
    (current : points.num_points - 1 = row.val) {measurements : List RawChannelMeasurement}
    (ascending : (measurements.map RawChannelMeasurement.fChan).Pairwise (· < ·)) :
    measurements.foldlM storeMeasurement points = .ok { points with
      V1730_wave := fun wave => Function.update (points.V1730_wave wave) row
        ((points.V1730_wave wave row).paint (windowOf wave measurements)) } := by
  induction measurements generalizing points with
  | nil =>
    simp only [List.foldlM_nil, windowOf, List.find?_nil, Column.paint_nil, Function.update_eq_self]
    rfl
  | cons measurement rest ih =>
    obtain ⟨later, ascendingRest⟩ := List.pairwise_cons.mp ascending
    rw [List.foldlM_cons, storeMeasurement]
    split
    · next isWave =>
      have noMore : windowOf ⟨measurement.getChannel, isWave⟩ rest = [] :=
        windowOf_eq_nil fun other member => (later other.fChan (List.mem_map_of_mem member)).ne'
      rw [storeWave_ok points measurement _ row current, Except.ok_bind]
      refine (ih _ (by exact current) ascendingRest).trans ?_
      congr 2
      funext wave
      by_cases same : wave = ⟨measurement.getChannel, isWave⟩
      · subst wave
        have here : windowOf ⟨measurement.getChannel, isWave⟩ (measurement :: rest) =
            (List.range (min measurement.getNSamples num_v1730_max)).map fun ib =>
              Double.ofUInt32 (measurement.getSample
                (ib + waveOffset ⟨measurement.getChannel, isWave⟩)) := by
          rw [windowOf, List.find?_cons_of_pos (by simp [RawChannelMeasurement.getChannel])]
        simp only [here, noMore, Column.paint_nil, Function.update_self, Function.update_idem]
      · have other : measurement.fChan ≠ wave.val := fun equal => same (Fin.ext equal.symm)
        simp only [windowOf_cons_of_ne other, Function.update_of_ne same]
    · next notWave =>
      rw [Except.ok_bind, ih points current ascendingRest]
      congr 2
      funext wave
      have other : measurement.fChan ≠ wave.val := by
        intro equal
        have small : measurement.fChan < 3 := by omega
        exact notWave small
      rw [windowOf_cons_of_ne other]

private theorem stored_append (items more : List MidasEvent) :
    stored (items ++ more) = (stored items ++
      more.filterMap fun event => event.wave?.map (event.timeStamp, ·)).take nPoints_max := by
  simp only [stored, List.filterMap_append, List.take_append, List.length_take, List.take_take,
    Nat.min_self]
  congr 2
  omega

private theorem stored_append_of_full {items : List MidasEvent} (more : List MidasEvent)
    (full : nPoints_max ≤ (stored items).length) : stored (items ++ more) = stored items := by
  have atMost : (stored items).length ≤ nPoints_max := List.length_take_le ..
  rw [stored_append, List.take_append_of_le_length full, List.take_of_length_le atMost]

private theorem stored_append_of_lt {items : List MidasEvent} {event : MidasEvent}
    {bank : TV1730RawData} (room : (stored items).length < nPoints_max)
    (wave : event.wave? = some bank) :
    stored (items ++ [event]) = stored items ++ [(event.timeStamp, bank)] := by
  rw [stored_append, List.take_of_length_le]
  · simp [wave]
  · simp only [wave, Option.map_some, List.filterMap_cons, List.filterMap_nil, List.length_append,
      List.length_singleton]
    omega

theorem stored_append_of_none {items : List MidasEvent} {event : MidasEvent}
    (other : event.wave? = none) :
    stored (items ++ [event]) = stored items := by
  rw [stored_append]
  simp only [other, Option.map_none, List.filterMap_cons, List.filterMap_nil, List.append_nil]
  exact List.take_of_length_le (List.length_take_le ..)

private theorem filterMap_append_none {α : Type} {f : MidasEvent → Option α}
    (items : List MidasEvent) {event : MidasEvent} (none : f event = none) :
    (items ++ [event]).filterMap f = items.filterMap f := by
  simp [none]

private theorem filterMap_append_some {α : Type} {f : MidasEvent → Option α} (items : List MidasEvent)
    {event : MidasEvent} {value : α} (some : f event = some value) :
    (items ++ [event]).filterMap f = items.filterMap f ++ [value] := by
  simp [some]

private theorem windowAt_eq_nil (wave : Fin 3) {items : List MidasEvent} {i : ℕ}
    (beyond : (stored items).length ≤ i) : windowAt wave items i = [] := by
  rw [windowAt, List.getElem?_eq_none beyond]
  rfl

private theorem windowAt_append_of_lt {items : List MidasEvent} {event : MidasEvent}
    {bank : TV1730RawData} (room : (stored items).length < nPoints_max)
    (contributes : event.wave? = some bank) (wave : Fin 3) (i : ℕ) :
    windowAt wave (items ++ [event]) i =
      if i = (stored items).length then window wave bank else windowAt wave items i := by
  rw [windowAt, stored_append_of_lt room contributes]
  split
  · next at_end => subst at_end; simp
  · next apart =>
    rcases Nat.lt_or_gt_of_ne apart with before | after
    · rw [List.getElem?_append_left before]
      rfl
    · rw [List.getElem?_eq_none (by simp only [List.length_append, List.length_singleton]; omega),
        windowAt_eq_nil wave (by omega)]
      rfl

/-- With room for a point, the handler stores its timestamp and the windows of its bank. -/
theorem handleV730_of_room (points : Points) (timeStamp : BitVec 32) (bank : TV1730RawData)
    (room : points.num_points < nPoints_max) :
    handleV730 points timeStamp bank = .ok { points with
      num_points := points.num_points + 1
      evt_timestamp := Function.update points.evt_timestamp ⟨points.num_points, room⟩
        (Double.ofUInt32 timeStamp)
      V1730_wave := fun wave => Function.update (points.V1730_wave wave) ⟨points.num_points, room⟩
        ((points.V1730_wave wave ⟨points.num_points, room⟩).paint (window wave bank)) } := by
  have stamped := Column.store_of_lt PointArray.evt_timestamp points.evt_timestamp
    (Double.ofUInt32 timeStamp) room
  rw [handleV730, if_pos room]
  simp only [Nat.add_sub_cancel, stamped, Except.ok_bind]
  rw [foldlM_storeMeasurement _ ⟨points.num_points, room⟩ (Nat.add_sub_cancel ..) bank.ascending]
  rfl

/-- The digitizer handler extends the closed form: it stores the event's point, or drops it once
`nPoints_max` points are stored. -/
theorem handleV730_after (base : Points) (items : List MidasEvent) {event : MidasEvent}
    {bank : TV1730RawData} (contributes : event.item? = some (.wave bank)) :
    handleV730 (base.after items) event.timeStamp bank = .ok (base.after (items ++ [event])) := by
  have wave : event.wave? = some bank := by simp only [MidasEvent.wave?, contributes]
  have noPhidg (phidget : Phidget) : event.phidg? phidget = none := by
    simp only [MidasEvent.phidg?, contributes]
  have noAcc : event.acc? = none := by simp only [MidasEvent.acc?, contributes]
  have phidgets (phidget : Phidget) := filterMap_append_none items (noPhidg phidget)
  have accs := filterMap_append_none items noAcc
  by_cases room : (stored items).length < nPoints_max
  · have painted := Column.update_paint base.evt_timestamp
      ((stored items).map fun point => Double.ofUInt32 point.1) (Double.ofUInt32 event.timeStamp)
      (by rwa [List.length_map])
    simp only [List.length_map] at painted
    rw [handleV730_of_room (base.after items) event.timeStamp bank room]
    simp only [Points.after]
    refine congrArg Except.ok (Points.ext ?_ rfl rfl ?_ ?_ ?_ ?_)
    · simp only [stored_append_of_lt room wave, List.length_append, List.length_singleton]
    · simp only [stored_append_of_lt room wave, List.map_append, List.map_cons, List.map_nil]
      exact painted
    · funext w i
      simp only [windowAt_append_of_lt room wave]
      by_cases here : i.val = (stored items).length
      · obtain rfl : i = ⟨(stored items).length, room⟩ := Fin.ext here
        rw [Function.update_self, windowAt_eq_nil w (le_refl _), Column.paint_nil, if_pos rfl]
      · rw [Function.update_of_ne (fun same => here (congrArg Fin.val same)), if_neg here]
    · simp only [phidgets]
    · simp only [accs]
  · change (if (stored items).length < nPoints_max then _ else _) = _
    rw [if_neg room]
    simp only [Points.after, windowAt, stored_append_of_full [event] (Nat.not_lt.mp room), phidgets,
      accs]

private theorem lookup_map_snd {κ α : Type} [BEq κ] (entries : List (κ × ℕ)) (f : ℕ → α) (key : κ) :
    (entries.map fun (name, word) => (name, f word)).lookup key = (entries.lookup key).map f := by
  induction entries with
  | nil => rfl
  | cons entry rest ih =>
    obtain ⟨name, word⟩ := entry
    simp only [List.map_cons, List.lookup_cons, ih]
    cases key == name <;> rfl

private theorem layoutOf_nodup (phidget : Phidget) : ((layoutOf phidget).map Prod.fst).Nodup := by
  cases phidget <;> decide

private theorem accLayout_nodup : (accLayout.map Prod.fst).Nodup := by decide

/-- A phidget handler extends the closed form while its counter is below the arrays' capacity. -/
theorem handlePhidget_after (base : Points) (items : List MidasEvent) {event : MidasEvent}
    {phidget : Phidget} {bank : TGenericData} (contributes : event.item? = some (.phidg phidget bank))
    (room : (items.filterMap (MidasEvent.phidg? phidget)).length < num_phidg_max) :
    handlePhidget (layoutOf phidget) phidget (base.after items) bank =
      .ok (base.after (items ++ [event])) := by
  have noWave : event.wave? = none := by simp only [MidasEvent.wave?, contributes]
  have here : event.phidg? phidget = some bank := by
    simp only [MidasEvent.phidg?, contributes, ↓reduceIte]
  have elsewhere {other : Phidget} (apart : other ≠ phidget) : event.phidg? other = none := by
    simp only [MidasEvent.phidg?, contributes, if_neg apart.symm]
  have noAcc : event.acc? = none := by simp only [MidasEvent.acc?, contributes]
  simp only [handlePhidget, Points.after, Nat.add_sub_cancel]
  rw [Column.storeEach_of_lt _ _ ?distinct room, Except.ok_bind]
  case distinct =>
    rw [List.map_map]
    exact layoutOf_nodup phidget
  refine congrArg Except.ok (Points.ext ?_ rfl rfl ?_ ?_ ?_ ?_)
  · simp only [stored_append_of_none noWave]
  · simp only [stored_append_of_none noWave]
  · simp only [windowAt, stored_append_of_none noWave]
  · funext other
    by_cases same : other = phidget
    · subst other
      simp only [Function.update_self, filterMap_append_some items here, List.length_append,
        List.length_singleton, lookup_map_snd, List.map_append, List.map_cons, List.map_nil]
      congr 1
      funext field
      cases (layoutOf phidget).lookup field with
      | none => rfl
      | some word =>
        have painted := Column.update_paint ((base.phidg phidget).columns field)
          ((items.filterMap (MidasEvent.phidg? phidget)).map (·.getData64 word)) (bank.getData64 word)
          (by rwa [List.length_map])
        simp only [List.length_map] at painted
        exact painted
    · simp only [Function.update_of_ne same, filterMap_append_none items (elsewhere same)]
  · simp only [filterMap_append_none items noAcc]

/-- At its capacity, the first array of a phidget is written one past its end. -/
theorem handlePhidget_fault (base : Points) (items : List MidasEvent) (phidget : Phidget)
    (bank : TGenericData)
    (full : num_phidg_max ≤ (items.filterMap (MidasEvent.phidg? phidget)).length) :
    handlePhidget (layoutOf phidget) phidget (base.after items) bank =
      .error ⟨.phidg phidget .acc_x, (items.filterMap (MidasEvent.phidg? phidget)).length⟩ := by
  have layout : ∃ rest, layoutOf phidget = (.acc_x, 0) :: rest := by
    cases phidget <;> exact ⟨_, rfl⟩
  obtain ⟨rest, layout⟩ := layout
  simp only [handlePhidget, Points.after, Nat.add_sub_cancel, layout, List.map_cons]
  rw [Column.storeEach_of_le _ _ _ _ _ full, Except.error_bind]

/-- The accelerometer handler extends the closed form below the arrays' capacity. -/
theorem handlePA00_after (base : Points) (items : List MidasEvent) {event : MidasEvent}
    {bank : TGenericData} (contributes : event.item? = some (.acc bank))
    (room : (items.filterMap MidasEvent.acc?).length < num_phidg_max) :
    handlePA00 (base.after items) bank = .ok (base.after (items ++ [event])) := by
  have noWave : event.wave? = none := by simp only [MidasEvent.wave?, contributes]
  have noPhidg (phidget : Phidget) : event.phidg? phidget = none := by
    simp only [MidasEvent.phidg?, contributes]
  have here : event.acc? = some bank := by simp only [MidasEvent.acc?, contributes]
  simp only [handlePA00, Points.after, Nat.add_sub_cancel]
  rw [Column.storeEach_of_lt _ _ ?distinct room, Except.ok_bind]
  case distinct =>
    rw [List.map_map]
    exact accLayout_nodup
  refine congrArg Except.ok (Points.ext ?_ rfl rfl ?_ ?_ ?_ ?_)
  · simp only [stored_append_of_none noWave]
  · simp only [stored_append_of_none noWave]
  · simp only [windowAt, stored_append_of_none noWave]
  · simp only [filterMap_append_none items (noPhidg _)]
  · simp only [filterMap_append_some items here, List.length_append, List.length_singleton,
      lookup_map_snd, List.map_append, List.map_cons, List.map_nil]
    congr 1
    funext axis
    cases accLayout.lookup axis with
    | none => rfl
    | some word =>
      have painted := Column.update_paint (base.acc.columns axis)
        ((items.filterMap MidasEvent.acc?).map (·.getData64 word)) (bank.getData64 word)
        (by rwa [List.length_map])
      simp only [List.length_map] at painted
      exact painted

/-- At its capacity, the first accelerometer array is written one past its end. -/
theorem handlePA00_fault (base : Points) (items : List MidasEvent) (bank : TGenericData)
    (full : num_phidg_max ≤ (items.filterMap MidasEvent.acc?).length) :
    handlePA00 (base.after items) bank =
      .error ⟨.acc .acc0_x0, (items.filterMap MidasEvent.acc?).length⟩ := by
  simp only [handlePA00, Points.after, Nat.add_sub_cancel, accLayout, List.map_cons]
  rw [Column.storeEach_of_le _ _ _ _ _ full, Except.error_bind]

/-- The handler of an item. -/
def handleItem (points : Points) (timeStamp : BitVec 32) : Item → Except Fault Points
  | .wave bank => handleV730 points timeStamp bank
  | .phidg phidget bank => handlePhidget (layoutOf phidget) phidget points bank
  | .acc bank => handlePA00 points bank

/-- The chain of handlers runs the handler of the event's item. -/
theorem handleBanks_eq (points : Points) (event : MidasEvent) :
    handleBanks points event = event.item?.map (handleItem points event.timeStamp) := by
  unfold handleBanks MidasEvent.item?
  cases event.v730 with
  | some bank => rfl
  | none => cases event.bank .PH00 with
    | some bank => rfl
    | none => cases event.bank .PH01 with
      | some bank => rfl
      | none => cases event.bank .PH03 with
        | some bank => rfl
        | none => cases event.bank .PH04 with
          | some bank => rfl
          | none => cases event.bank .PA00 <;> rfl

/-- The arrays that have no cap of their own. -/
def PointArray.Uncapped : PointArray → Prop
  | .phidg _ _ => True
  | .acc _ => True
  | _ => False

/-- One item either extends the closed form or, when it does not fit, writes an uncapped array at
its capacity. -/
theorem handleItem_after (base : Points) {items : List MidasEvent} (fits : Fits items)
    {event : MidasEvent} {item : Item} (contributes : event.item? = some item) :
    (Fits (items ++ [event]) ∧
      handleItem (base.after items) event.timeStamp item = .ok (base.after (items ++ [event]))) ∨
    (¬ Fits (items ++ [event]) ∧ ∃ array, array.Uncapped ∧
      handleItem (base.after items) event.timeStamp item = .error ⟨array, num_phidg_max⟩) := by
  cases item with
  | wave bank =>
    refine Or.inl ⟨⟨fun phidget => ?_, ?_⟩, handleV730_after base items contributes⟩
    · rw [filterMap_append_none items (by simp only [MidasEvent.phidg?, contributes])]
      exact fits.phidg phidget
    · rw [filterMap_append_none items (by simp only [MidasEvent.acc?, contributes])]
      exact fits.acc
  | phidg phidget bank =>
    have here : event.phidg? phidget = some bank := by
      simp only [MidasEvent.phidg?, contributes, ↓reduceIte]
    rcases Nat.lt_or_ge
      (items.filterMap (MidasEvent.phidg? phidget)).length num_phidg_max with room | full
    · refine Or.inl ⟨⟨fun other => ?_, ?_⟩, handlePhidget_after base items contributes room⟩
      · by_cases same : other = phidget
        · subst other
          rw [filterMap_append_some items here, List.length_append, List.length_singleton]
          exact room
        · rw [filterMap_append_none items
            (by simp only [MidasEvent.phidg?, contributes, if_neg (Ne.symm same)])]
          exact fits.phidg other
      · rw [filterMap_append_none items (by simp only [MidasEvent.acc?, contributes])]
        exact fits.acc
    · refine Or.inr ⟨fun more => ?_, .phidg phidget .acc_x, trivial, ?_⟩
      · have excess := more.phidg phidget
        rw [filterMap_append_some items here, List.length_append, List.length_singleton] at excess
        omega
      · rw [handleItem, handlePhidget_fault base items phidget bank full,
          le_antisymm (fits.phidg phidget) full]
  | acc bank =>
    have here : event.acc? = some bank := by simp only [MidasEvent.acc?, contributes]
    rcases Nat.lt_or_ge (items.filterMap MidasEvent.acc?).length num_phidg_max with room | full
    · refine Or.inl ⟨⟨fun phidget => ?_, ?_⟩, handlePA00_after base items contributes room⟩
      · rw [filterMap_append_none items (by simp only [MidasEvent.phidg?, contributes])]
        exact fits.phidg phidget
      · rw [filterMap_append_some items here, List.length_append, List.length_singleton]
        exact room
    · refine Or.inr ⟨fun more => ?_, .acc .acc0_x0, trivial, ?_⟩
      · have excess := more.acc
        rw [filterMap_append_some items here, List.length_append, List.length_singleton] at excess
        omega
      · rw [handleItem, handlePA00_fault base items bank full, le_antisymm fits.acc full]

end PtfConverter.ScanTree
