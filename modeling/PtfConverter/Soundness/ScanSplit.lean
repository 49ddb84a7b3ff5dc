import PtfConverter.Soundness.ScanIsolation

/-! # Cutting a run into files

`run_convert_to_root.sh` converts the files of a run one by one and hands only the accept flag on.
The flag is right at every cut, so the number of rows never changes. What a process holds of an
open scan point is lost with it, and so are the samples that its arrays would have left for later
rows. The rows of a run are those of its uncut event sequence when no cut strands a contributing
event in front of a later row and no row shows a sample that an earlier file wrote.
-/

namespace PtfConverter.ScanTree

/-- The rows of successive files, each over the memory a new process finds. -/
def splitRows (memory : Memory) : Bool → List (List MidasEvent) → List PointRow
  | _, [] => []
  | accept, file :: files => pointRows memory.points (Gate.emitted MidasEvent.mark accept file) ++
      splitRows memory (Gate.acceptAfter MidasEvent.mark accept file) files

/-- Everything one process can do: its exit status hands its flag on. -/
theorem main_cases (memory : Memory) (argument : ℤ) (events : List MidasEvent) :
    (WithinCapacity (acceptOfArgument argument) events ∧ ∃ rows status,
      main memory argument events = .ok (rows, status) ∧
      acceptOfArgument status = Gate.acceptAfter MidasEvent.mark (acceptOfArgument argument) events ∧
      rows.map Row.point =
        pointRows memory.points (Gate.emitted MidasEvent.mark (acceptOfArgument argument) events)) ∨
    (¬ WithinCapacity (acceptOfArgument argument) events ∧ ∃ fault,
      main memory argument events = .error fault) := by
  rcases start_run_cases memory (acceptOfArgument argument) events with
    ⟨within, final, rows, ran, opened, shown⟩ | ⟨overflow, array, _, ran⟩
  · refine Or.inl ⟨within, rows, if final.gbl_accept_banks then 1 else 0, ?_, ?_, shown⟩
    · rw [main, ran]
      rfl
    · rw [opened.accept, Gate.after_accept]
      cases Gate.acceptAfter MidasEvent.mark (acceptOfArgument argument) events <;> rfl
  · refine Or.inr ⟨overflow, ⟨array, num_phidg_max⟩, ?_⟩
    rw [main, ran]
    rfl

theorem fits_of_suffix {held items : List MidasEvent} (fits : Fits (held ++ items)) : Fits items := by
  refine ⟨fun phidget => ?_, ?_⟩
  · have bound := fits.phidg phidget
    rw [List.filterMap_append, List.length_append] at bound
    omega
  · have bound := fits.acc
    rw [List.filterMap_append, List.length_append] at bound
    omega

/-- A process that starts in the middle of a run is asked for no more than the whole run. -/
theorem WithinCapacity.of_append {accept : Bool} {first second : List MidasEvent}
    (within : WithinCapacity accept (first ++ second)) :
    WithinCapacity accept first ∧
      WithinCapacity (Gate.acceptAfter MidasEvent.mark accept first) second := by
  refine ⟨fun past cut => within past (cut.trans (List.prefix_append ..)), fun past cut => ?_⟩
  have fits := within (first ++ past) ((List.prefix_append_right_inj first).mpr cut)
  rw [Gate.pendingAfter, Mealy.after_append] at fits
  have held : gate.after ⟨accept, []⟩ first = ⟨Gate.acceptAfter MidasEvent.mark accept first,
      Gate.pendingAfter MidasEvent.mark accept first⟩ := by
    rw [← Gate.after_accept ⟨accept, []⟩ first]
    rfl
  rw [held, Gate.after_pending] at fits
  exact fits_of_suffix fits

/-- The script succeeds wherever the uncut run would, with the rows of its files. -/
theorem runConvertToRoot_ok (memory : Memory) {retval : ℤ} {files : List (List MidasEvent)}
    (within : WithinCapacity (acceptOfArgument retval) files.flatten) : ∃ rows,
      runConvertToRoot memory retval files = .ok rows ∧
      rows.map Row.point = splitRows memory (acceptOfArgument retval) files := by
  induction files generalizing retval with
  | nil => exact ⟨[], rfl, rfl⟩
  | cons file files ih =>
    obtain ⟨here, later⟩ := within.of_append
    rcases main_cases memory retval file with ⟨_, rows, status, ran, handed, shown⟩ | ⟨overflow, _⟩
    · rw [← handed] at later
      obtain ⟨rest, converted, restShown⟩ := ih later
      refine ⟨rows ++ rest, ?_, ?_⟩
      · rw [runConvertToRoot, ran, Except.ok_bind]
        simp only [converted, Except.ok_bind]
        rfl
      · rw [List.map_append, shown, restShown, handed, splitRows]
    · exact absurd here overflow

/-- The script and one process over the uncut run fill the same rows. -/
def SplitEquivalent (memory : Memory) (files : List (List MidasEvent)) : Prop :=
  ∃ rows whole status, runConvertToRoot memory 0 files = .ok rows ∧
    main memory 0 files.flatten = .ok (whole, status) ∧ rows.map Row.point = whole.map Row.point

theorem splitEquivalent_iff (memory : Memory) (files : List (List MidasEvent)) :
    SplitEquivalent memory files ↔ WithinCapacity false files.flatten ∧
      splitRows memory false files =
        pointRows memory.points (Gate.emitted MidasEvent.mark false files.flatten) := by
  have argument : acceptOfArgument 0 = false := rfl
  rcases main_cases memory 0 files.flatten with
    ⟨within, whole, status, ran, _, shown⟩ | ⟨overflow, fault, ran⟩
  · obtain ⟨rows, converted, filesShown⟩ := runConvertToRoot_ok memory within
    rw [argument] at within shown filesShown
    constructor
    · rintro ⟨rows', whole', status', converted', ran', same⟩
      cases converted.symm.trans converted'
      cases ran.symm.trans ran'
      exact ⟨within, filesShown.symm.trans (same.trans shown)⟩
    · rintro ⟨_, same⟩
      exact ⟨rows, whole, status, converted, ran, filesShown.trans (same.trans shown.symm)⟩
  · refine iff_of_false ?_ fun both => overflow both.1
    rintro ⟨_, _, _, _, ran', _⟩
    cases ran.symm.trans ran'

theorem splitRows_length (memory : Memory) (accept : Bool) (files : List (List MidasEvent)) :
    (splitRows memory accept files).length =
      (Gate.fileOutputs MidasEvent.mark accept files).length := by
  induction files generalizing accept with
  | nil => rfl
  | cons file files ih =>
    rw [splitRows, Gate.fileOutputs, List.length_append, List.length_append, ih, pointRows_length]

/-- The number of rows never depends on the cuts. -/
theorem rows_length_eq (memory : Memory) (accept : Bool) (files : List (List MidasEvent)) :
    (splitRows memory accept files).length =
      (pointRows memory.points (Gate.emitted MidasEvent.mark accept files.flatten)).length := by
  rw [splitRows_length, Gate.fileOutputs_length, pointRows_length]

/-- The scan point stores a sample in the cell. -/
def Writes (items : List MidasEvent) (wave : Fin 3) (i : Fin nPoints_max)
    (cell : Fin num_v1730_max) : Prop :=
  cell.val < (windowAt wave items i).length

/-- No point of a file shows a cell that earlier files wrote and this file did not write before. -/
def Unstained (earlier points : List (List MidasEvent)) : Prop :=
  ∀ before items after, points = before ++ items :: after → ∀ wave i cell, Exposed items wave i cell →
    (∃ point ∈ earlier, Writes point wave i cell) → ∃ point ∈ before, Writes point wave i cell

/-- The same for each of the files, behind the points of the files before. -/
def UnstainedFiles : Bool → List (List MidasEvent) → List (List MidasEvent) → Prop
  | _, _, [] => True
  | accept, earlier, file :: files =>
      Unstained earlier (Gate.emitted MidasEvent.mark accept file) ∧
        UnstainedFiles (Gate.acceptAfter MidasEvent.mark accept file)
          (earlier ++ Gate.emitted MidasEvent.mark accept file) files

private theorem cell_of_unwritten (base : Points) {points : List (List MidasEvent)} {wave : Fin 3}
    {i : Fin nPoints_max} {cell : Fin num_v1730_max}
    (none : ∀ point ∈ points, ¬ Writes point wave i cell) :
    (baseAfter base points).V1730_wave wave i cell = base.V1730_wave wave i cell := by
  induction points generalizing base with
  | nil => rfl
  | cons items rest ih =>
    obtain ⟨first, others⟩ := List.forall_mem_cons.mp none
    refine (ih _ others).trans ?_
    change Column.paint _ (windowAt wave items i) cell = _
    exact Column.paint_apply_of_le _ (Nat.not_lt.mp first)

private theorem cell_of_written (base other : Points) {points : List (List MidasEvent)}
    {wave : Fin 3} {i : Fin nPoints_max} {cell : Fin num_v1730_max}
    (some : ∃ point ∈ points, Writes point wave i cell) :
    (baseAfter base points).V1730_wave wave i cell =
      (baseAfter other points).V1730_wave wave i cell := by
  induction points generalizing base other with
  | nil => simp at some
  | cons items rest ih =>
    by_cases later : ∃ point ∈ rest, Writes point wave i cell
    · exact ih _ _ later
    · have here : Writes items wave i cell := by
        obtain ⟨point, member, writes⟩ := some
        rcases List.mem_cons.mp member with rfl | inRest
        · exact writes
        · exact absurd ⟨point, inRest, writes⟩ later
      have silent : ∀ point ∈ rest, ¬ Writes point wave i cell := fun point member writes =>
        later ⟨point, member, writes⟩
      refine (cell_of_unwritten _ silent).trans (Eq.trans ?_ (cell_of_unwritten _ silent).symm)
      change Column.paint _ (windowAt wave items i) cell = Column.paint _ (windowAt wave items i) cell
      rw [Column.paint_apply_of_lt _ here, Column.paint_apply_of_lt _ here]

/-- Two lists of rows over different old contents agree row by row. -/
private theorem pointRows_eq_iff (base other : Points) (points : List (List MidasEvent)) :
    pointRows base points = pointRows other points ↔ ∀ before items after,
      points = before ++ items :: after →
      ((baseAfter base before).after items).row = ((baseAfter other before).after items).row := by
  induction points generalizing base other with
  | nil => simp [pointRows]
  | cons first rest ih =>
    rw [pointRows, pointRows, List.cons.injEq, ih]
    constructor
    · rintro ⟨here, later⟩ before items after split
      rcases before with _ | ⟨head, tail⟩
      · obtain ⟨rfl, rfl⟩ := List.cons.inj split
        exact here
      · obtain ⟨rfl, rfl⟩ := List.cons.inj split
        exact later tail items after rfl
    · intro all
      refine ⟨all [] first rest rfl, fun before items after split => ?_⟩
      exact all (first :: before) items after (by rw [split]; rfl)

/-- A process whose stored samples are all one value. -/
private def memoryOf (value : Double) : Memory := { zeroMemory with V1730_wave := fun _ _ _ => value }

/-- A file's rows do not depend on the earlier files, in any memory, exactly when it is unstained. -/
theorem unstained_iff (earlier : List (List MidasEvent)) {points : List (List MidasEvent)}
    (fits : ∀ items ∈ points, Fits items) :
    (∀ memory : Memory, pointRows memory.points points =
      pointRows (baseAfter memory.points earlier) points) ↔ Unstained earlier points := by
  simp only [pointRows_eq_iff]
  constructor
  · intro same before items after split wave i cell exposed earlierWrites
    by_contra unwritten
    have silent : ∀ point ∈ before, ¬ Writes point wave i cell := fun point member writes =>
      unwritten ⟨point, member, writes⟩
    have itemsFit : Fits items := fits items (by rw [split]; simp)
    -- The cell shows the memory in one process and the earlier file's sample in the other.
    have shows (memory : Memory) : memory.V1730_wave wave i cell =
        (baseAfter memory.points earlier).V1730_wave wave i cell := by
      have rows := same memory before items after split
      rw [← baseAfter_append] at rows
      have cells := (after_row_eq_iff (baseAfter_agree _ _ _) itemsFit).mp rows wave i cell exposed
      rw [baseAfter_append, cell_of_unwritten _ silent, cell_of_unwritten _ silent] at cells
      exact cells
    have stale := cell_of_written (memoryOf 0).points (memoryOf 1).points earlierWrites
    rw [← shows (memoryOf 0), ← shows (memoryOf 1)] at stale
    exact absurd (show (0 : Double) = 1 from stale) (by decide)
  · intro unstained memory before items after split
    rw [← baseAfter_append]
    refine (after_row_eq_iff (baseAfter_agree _ _ _) (fits items (by rw [split]; simp))).mpr
      fun wave i cell exposed => ?_
    rw [baseAfter_append]
    by_cases written : ∃ point ∈ before, Writes point wave i cell
    · exact cell_of_written _ _ written
    · have silent : ∀ point ∈ before, ¬ Writes point wave i cell := fun point member writes =>
        written ⟨point, member, writes⟩
      have earlierSilent : ∀ point ∈ earlier, ¬ Writes point wave i cell := fun point member writes =>
        written (unstained before items after split wave i cell exposed ⟨point, member, writes⟩)
      rw [cell_of_unwritten _ silent, cell_of_unwritten _ silent, cell_of_unwritten _ earlierSilent]

/-- Scan points that overwrite every sample of their rows are never stained. -/
theorem unstained_of_covered (earlier : List (List MidasEvent)) {points : List (List MidasEvent)}
    (covered : ∀ items ∈ points, Covered items) : Unstained earlier points := by
  intro before items after split wave i cell exposed _
  exact absurd exposed ((covered_iff items).mp (covered items (by rw [split]; simp)) wave i cell)

theorem fits_of_emitted {accept : Bool} {events : List MidasEvent}
    (within : WithinCapacity accept events) :
    ∀ items ∈ Gate.emitted MidasEvent.mark accept events, Fits items := by
  intro items member
  obtain ⟨past, cut, rfl⟩ := Gate.mem_outputs member
  exact within past cut

/-- The files' rows, over what earlier files left behind, are the uncut rows exactly when no file
is stained by the ones before it. -/
theorem splitRows_eq_iff {accept : Bool} (earlier : List (List MidasEvent))
    {files : List (List MidasEvent)} (within : WithinCapacity accept files.flatten) :
    (∀ memory : Memory, splitRows memory accept files =
      pointRows (baseAfter memory.points earlier) (Gate.fileOutputs MidasEvent.mark accept files)) ↔
      UnstainedFiles accept earlier files := by
  induction files generalizing accept earlier with
  | nil => exact iff_of_true (fun _ => rfl) trivial
  | cons file files ih =>
    obtain ⟨here, later⟩ := within.of_append
    rw [UnstainedFiles, ← unstained_iff earlier (fits_of_emitted here), ← ih _ later, ← forall_and]
    refine forall_congr' fun memory => ?_
    rw [splitRows, Gate.fileOutputs, pointRows_append, baseAfter_append]
    constructor
    · intro same
      exact List.append_inj same (by rw [pointRows_length, pointRows_length])
    · rintro ⟨first, rest⟩
      rw [first, rest]

/-- All readings that a row counts. -/
def PointRow.readings (row : PointRow) : ℕ :=
  row.num_points + row.num_phidg_points .phidg0 + row.num_phidg_points .phidg1 +
    row.num_phidg_points .phidg3 + row.num_phidg_points .phidg4 + row.num_ACC_points

private theorem contributions (items : List MidasEvent) :
    (items.filter (·.v730.isSome)).length + (items.filterMap (MidasEvent.phidg? .phidg0)).length +
      (items.filterMap (MidasEvent.phidg? .phidg1)).length +
      (items.filterMap (MidasEvent.phidg? .phidg3)).length +
      (items.filterMap (MidasEvent.phidg? .phidg4)).length + (items.filterMap MidasEvent.acc?).length =
      items.countP fun event => event.item?.isSome := by
  induction items with
  | nil => rfl
  | cons event rest ih =>
    have wave : event.v730.isSome = event.wave?.isSome := by rw [wave?_eq_v730]
    rcases contributes : event.item? with _ | bank | ⟨phidget, bank⟩ | bank
    · simpa [wave, MidasEvent.wave?, MidasEvent.phidg?, MidasEvent.acc?, contributes] using ih
    · simp [wave, MidasEvent.wave?, MidasEvent.phidg?, MidasEvent.acc?, contributes]
      omega
    · cases phidget <;>
        simp [wave, MidasEvent.wave?, MidasEvent.phidg?, MidasEvent.acc?, contributes] <;> omega
    · simp [wave, MidasEvent.wave?, MidasEvent.phidg?, MidasEvent.acc?, contributes]
      omega

private theorem readings_row (base : Points) (items : List MidasEvent) :
    (base.after items).row.readings + ((items.filter (·.v730.isSome)).length - nPoints_max) =
      items.countP fun event => event.item?.isSome := by
  have points : (base.after items).row.num_points = (stored items).length := rfl
  have phidgets (phidget : Phidget) : (base.after items).row.num_phidg_points phidget =
      (items.filterMap (MidasEvent.phidg? phidget)).length := rfl
  have accs : (base.after items).row.num_ACC_points = (items.filterMap MidasEvent.acc?).length := rfl
  simp only [PointRow.readings, points, phidgets, accs, stored_length, ← contributions]
  omega

private theorem item?_of_emitted {accept : Bool} {events items : List MidasEvent}
    (member : items ∈ Gate.emitted MidasEvent.mark accept events) :
    ∀ event ∈ items, event.item?.isSome := by
  obtain ⟨past, _, rfl⟩ := Gate.mem_outputs member
  intro event held
  rcases Gate.mem_after_pending held with none | ⟨_, item⟩
  · cases none
  · unfold MidasEvent.mark at item
    split_ifs at item with eom bonm contributes
    exact contributes

private theorem readings_le (base : Points) (points : List (List MidasEvent)) :
    ((pointRows base points).map PointRow.readings).sum ≤ points.flatten.length := by
  induction points generalizing base with
  | nil => exact Nat.zero_le _
  | cons items rest ih =>
    have here := readings_row base items
    have atMost : (items.countP fun event => event.item?.isSome) ≤ items.length := List.countP_le_length
    have tail := ih (base.after items).reset
    rw [pointRows, List.map_cons, List.sum_cons, List.flatten_cons, List.length_append]
    omega

/-- Short of the cap on points, a row counts every event that contributed. -/
private theorem readings_eq (base : Points) {points : List (List MidasEvent)}
    (item : ∀ items ∈ points, ∀ event ∈ items, event.item?.isSome)
    (unsaturated : ∀ items ∈ points, (items.filter (·.v730.isSome)).length ≤ nPoints_max) :
    ((pointRows base points).map PointRow.readings).sum = points.flatten.length := by
  induction points generalizing base with
  | nil => rfl
  | cons items rest ih =>
    obtain ⟨itemHere, itemRest⟩ := List.forall_mem_cons.mp item
    obtain ⟨belowHere, belowRest⟩ := List.forall_mem_cons.mp unsaturated
    have here := readings_row base items
    rw [List.countP_eq_length.mpr itemHere] at here
    rw [pointRows, List.map_cons, List.sum_cons, List.flatten_cons, List.length_append,
      ih _ itemRest belowRest]
    omega

private theorem splitRows_readings_le (memory : Memory) (accept : Bool)
    (files : List (List MidasEvent)) :
    ((splitRows memory accept files).map PointRow.readings).sum ≤
      (Gate.fileOutputs MidasEvent.mark accept files).flatten.length := by
  induction files generalizing accept with
  | nil => exact Nat.zero_le _
  | cons file files ih =>
    have here := readings_le memory.points (Gate.emitted MidasEvent.mark accept file)
    have tail := ih (Gate.acceptAfter MidasEvent.mark accept file)
    simp only [splitRows, Gate.fileOutputs, List.map_append, List.sum_append, List.flatten_append,
      List.length_append]
    omega

/-- Nothing of the run reaches across a cut, and no scan point overflows its arrays. -/
structure SplitsCleanly (files : List (List MidasEvent)) : Prop where
  within : WithinCapacity false files.flatten
  cuts : Gate.CleanCuts MidasEvent.mark false files
  unstained : UnstainedFiles false [] files

/-- No scan point of the uncut run has more V730 events than its arrays have points. -/
def Unsaturated (files : List (List MidasEvent)) : Prop :=
  ∀ items ∈ Gate.emitted MidasEvent.mark false files.flatten,
    (items.filter (·.v730.isSome)).length ≤ nPoints_max

/-- Files that split cleanly give the rows of the uncut run, whatever a process finds in memory.
Unless a scan point reaches the cap on points, no other files do. -/
theorem splitEquivalent_of_clean (files : List (List MidasEvent)) :
    (SplitsCleanly files → ∀ memory, SplitEquivalent memory files) ∧
    (Unsaturated files → (∀ memory, SplitEquivalent memory files) → SplitsCleanly files) := by
  constructor
  · rintro ⟨within, cuts, unstained⟩ memory
    refine (splitEquivalent_iff memory files).mpr ⟨within, ?_⟩
    rw [(splitRows_eq_iff [] within).mpr unstained memory,
      (Gate.fileOutputs_eq_iff false files).mpr cuts, baseAfter_nil]
  · intro unsaturated equivalent
    have split (memory : Memory) := (splitEquivalent_iff memory files).mp (equivalent memory)
    have within := (split zeroMemory).1
    have kept := splitRows_readings_le zeroMemory false files
    rw [(split zeroMemory).2, readings_eq _ (fun items => item?_of_emitted) unsaturated] at kept
    have cuts := Gate.cleanCuts_of_length_le false files kept
    refine ⟨within, cuts, (splitRows_eq_iff [] within).mp fun memory => ?_⟩
    rw [(split memory).2, (Gate.fileOutputs_eq_iff false files).mpr cuts, baseAfter_nil]

/-- Two files with one full scan point each. -/
def fullFiles : List (List MidasEvent) :=
  [[bankEvent [.EOM], fullEvent 0, bankEvent [.BONM]],
    [bankEvent [.EOM], fullEvent 1, bankEvent [.BONM]]]

private theorem fullFiles_clean : SplitsCleanly fullFiles := by
  have digitizer : ∀ event ∈ fullFiles.flatten, (∀ phidget, event.phidg? phidget = none) ∧
      event.acc? = none := by
    intro event member
    simp only [fullFiles, List.flatten_cons, List.flatten_nil, List.append_nil, List.cons_append,
      List.nil_append, List.mem_cons, List.not_mem_nil, or_false] at member
    rcases member with rfl | rfl | rfl | rfl | rfl | rfl <;> exact ⟨fun _ => rfl, rfl⟩
  refine ⟨withinCapacity_of_digitizer false digitizer, ?_, ?_⟩
  · exact ⟨Or.inl rfl, Or.inl rfl, trivial⟩
  · exact ⟨unstained_of_covered _ (List.forall_mem_singleton.mpr (covered_fullEvent 0)),
      unstained_of_covered _ (List.forall_mem_singleton.mpr (covered_fullEvent 1)), trivial⟩

theorem fullFiles_split : SplitEquivalent zeroMemory fullFiles :=
  (splitEquivalent_of_clean fullFiles).1 fullFiles_clean zeroMemory

/-- A scan point with its V730 event in one file and its BONM event in the next. -/
def straddlingFiles : List (List MidasEvent) :=
  [[bankEvent [.EOM], fullEvent 0], [bankEvent [.BONM]]]

/-- Its row has no points, where the uncut run has one. -/
theorem straddlingFiles_split : ¬ SplitEquivalent zeroMemory straddlingFiles := by
  intro same
  have points := congrArg (List.map PointRow.num_points) ((splitEquivalent_iff _ _).mp same).2
  exact absurd points (by decide)

end PtfConverter.ScanTree
