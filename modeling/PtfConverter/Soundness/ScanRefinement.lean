import PtfConverter.Model.ScanPoint

/-! # The converter refines the gate

A converter whose arrays are the closed form of the gate's pending items stays so at every event
that fits, and fills a row exactly when the gate emits, with exactly the emitted items. The old
contents of the arrays change only when a row is filled. A run faults exactly at the first event
that does not fit, so success is a condition on the events alone.
-/

namespace PtfConverter.ScanTree

/-- The gate of the gantry's marker banks. -/
abbrev gate : Mealy (Gate MidasEvent) MidasEvent (List MidasEvent) := Gate.machine MidasEvent.mark

/-- The flag and the arrays of a converter are those of a gate, over old contents `base`. -/
structure Open (base : Points) (scan : ScanToTreeConverter) (held : Gate MidasEvent) : Prop where
  accept : scan.gbl_accept_banks = held.accept
  points : scan.points = base.after held.pending

/-- The old contents after some scan points: each leaves its own values behind. -/
def baseAfter (base : Points) (emitted : List (List MidasEvent)) : Points :=
  emitted.foldl (fun base items => (base.after items).reset) base

/-- The rows of successive scan points, each over what the ones before left behind. -/
def pointRows : Points → List (List MidasEvent) → List PointRow
  | _, [] => []
  | base, items :: rest => (base.after items).row :: pointRows (base.after items).reset rest

@[simp] theorem baseAfter_nil (base : Points) : baseAfter base [] = base := rfl

theorem baseAfter_append (base : Points) (first second : List (List MidasEvent)) :
    baseAfter base (first ++ second) = baseAfter (baseAfter base first) second := List.foldl_append

theorem pointRows_append (base : Points) (first second : List (List MidasEvent)) :
    pointRows base (first ++ second) =
      pointRows base first ++ pointRows (baseAfter base first) second := by
  induction first generalizing base with
  | nil => rfl
  | cons items rest ih => exact congrArg (_ :: ·) (ih _)

theorem pointRows_length (base : Points) (emitted : List (List MidasEvent)) :
    (pointRows base emitted).length = emitted.length := by
  induction emitted generalizing base with
  | nil => rfl
  | cons items rest ih => exact congrArg (· + 1) (ih _)

theorem Points.after_nil (base : Points) : base.after [] = base.reset := by
  refine Points.ext rfl rfl rfl rfl ?_ ?_ ?_
  · funext wave i
    rfl
  · funext phidget
    simp only [Points.after, Points.reset, List.filterMap_nil, List.length_nil, List.map_nil,
      Column.paint_nil]
    congr 1
    funext field
    cases (layoutOf phidget).lookup field <;> rfl
  · simp only [Points.after, Points.reset, List.filterMap_nil, List.length_nil, List.map_nil,
      Column.paint_nil]
    congr 1
    funext axis
    cases accLayout.lookup axis <;> rfl

theorem fits_nil : Fits [] := ⟨fun _ => Nat.zero_le _, Nat.zero_le _⟩

/-- A new converter holds no items over its memory. -/
theorem open_start (memory : Memory) (accept : Bool) :
    Open memory.points (start memory accept) ⟨accept, []⟩ :=
  ⟨rfl, (Points.after_nil memory.points).symm⟩

/-- Everything one event can do. -/
theorem processMidasEvent_cases {base : Points} {scan : ScanToTreeConverter} {held : Gate MidasEvent}
    (opened : Open base scan held) (fits : Fits held.pending) (event : MidasEvent) :
    (Fits (gate.step held event).1.pending ∧ ∃ next rows,
      processMidasEvent scan event = .ok (next, rows) ∧
      Open (baseAfter base (gate.step held event).2) next (gate.step held event).1 ∧
      rows.map Row.point = pointRows base (gate.step held event).2) ∨
    (¬ Fits (gate.step held event).1.pending ∧ ∃ array, array.Uncapped ∧
      processMidasEvent scan event = .error ⟨array, num_phidg_max⟩) := by
  obtain ⟨flag, pending⟩ := held
  obtain ⟨accept, points⟩ := opened
  dsimp only at accept points fits
  by_cases eom : (event.bank .EOM).isSome
  · have stepped : gate.step ⟨flag, pending⟩ event = (⟨true, pending⟩, []) := by
      simp only [Gate.machine_step, Gate.step, MidasEvent.mark, eom, ↓reduceIte]
    rw [stepped, processMidasEvent, if_pos eom]
    exact Or.inl ⟨fits, _, _, rfl, ⟨rfl, points⟩, rfl⟩
  by_cases bonm : (event.bank .BONM).isSome
  · have stepped : gate.step ⟨flag, pending⟩ event = (⟨false, []⟩, [pending]) := by
      simp only [Gate.machine_step, Gate.step, MidasEvent.mark, eom, bonm, Bool.false_eq_true,
        ↓reduceIte]
    rw [stepped, processMidasEvent, if_neg eom, if_pos bonm]
    refine Or.inl ⟨fits_nil, _, _, rfl, ⟨rfl, ?_⟩, ?_⟩
    · change scan.points.reset = (base.after pending).reset.after []
      rw [points, Points.after_nil]
      rfl
    · simp only [List.map_cons, List.map_nil, pointRows, points]
  rw [processMidasEvent, if_neg eom, if_neg bonm, handleBanks_eq]
  cases contributes : event.item? with
  | none =>
    have stepped : gate.step ⟨flag, pending⟩ event = (⟨flag, pending⟩, []) := by
      simp only [Gate.machine_step, Gate.step, MidasEvent.mark, eom, bonm, contributes,
        Bool.false_eq_true, ↓reduceIte, Option.isSome_none]
    rw [stepped]
    cases flag <;>
      simp only [accept, single_point, Bool.or_false, Bool.false_eq_true, ↓reduceIte,
        Option.map_none] <;>
      exact Or.inl ⟨fits, _, _, rfl, ⟨rfl, points⟩, rfl⟩
  | some item =>
    have stepped : gate.step ⟨flag, pending⟩ event =
        (⟨flag, if flag then pending ++ [event] else pending⟩, []) := by
      simp only [Gate.machine_step, Gate.step, MidasEvent.mark, eom, bonm, contributes,
        Bool.false_eq_true, ↓reduceIte, Option.isSome_some]
    rw [stepped]
    cases flag with
    | false =>
      simp only [accept, single_point, Bool.or_false, Bool.false_eq_true, ↓reduceIte]
      exact Or.inl ⟨fits, _, _, rfl, ⟨rfl, points⟩, rfl⟩
    | true =>
      simp only [accept, single_point, Bool.or_false, ↓reduceIte, Option.map_some, points]
      rcases handleItem_after base fits contributes with
        ⟨more, handled⟩ | ⟨overflow, array, uncapped, handled⟩
      · rw [handled]
        exact Or.inl ⟨more, _, _, rfl, ⟨rfl, rfl⟩, rfl⟩
      · rw [handled]
        exact Or.inr ⟨overflow, array, uncapped, rfl⟩

/-- The converter without arrays: old contents and a gate, and a row for each emission. -/
def scanMachine : Mealy (Points × Gate MidasEvent) MidasEvent PointRow where
  step state event :=
    ((baseAfter state.1 (gate.step state.2 event).2, (gate.step state.2 event).1),
      pointRows state.1 (gate.step state.2 event).2)

theorem scanMachine_after (base : Points) (held : Gate MidasEvent) (events : List MidasEvent) :
    scanMachine.after (base, held) events =
      (baseAfter base (gate.outputs held events), gate.after held events) := by
  induction events generalizing base held with
  | nil => rfl
  | cons event rest ih =>
    rw [Mealy.after_cons, Mealy.outputs_cons, baseAfter_append, Mealy.after_cons]
    exact ih _ _

theorem scanMachine_outputs (base : Points) (held : Gate MidasEvent) (events : List MidasEvent) :
    scanMachine.outputs (base, held) events = pointRows base (gate.outputs held events) := by
  induction events generalizing base held with
  | nil => rfl
  | cons event rest ih =>
    rw [Mealy.outputs_cons, Mealy.outputs_cons, pointRows_append]
    exact congrArg (pointRows base (gate.step held event).2 ++ ·) (ih _ _)

/-- The events never ask for more than the uncapped arrays hold. -/
def WithinCapacity (accept : Bool) (events : List MidasEvent) : Prop :=
  ∀ past, past <+: events → Fits (Gate.pendingAfter MidasEvent.mark accept past)

/-- A whole run from any gate: it succeeds and fills the emitted scan points, or it writes an
uncapped array at its capacity. -/
theorem run_cases {base : Points} {scan : ScanToTreeConverter} {held : Gate MidasEvent}
    (opened : Open base scan held) (fits : Fits held.pending) (events : List MidasEvent) :
    ((∀ past, past <+: events → Fits (gate.after held past).pending) ∧ ∃ final rows,
      Transducer.run processMidasEvent scan events = .ok (final, rows) ∧
      Open (baseAfter base (gate.outputs held events)) final (gate.after held events) ∧
      rows.map Row.point = pointRows base (gate.outputs held events)) ∨
    ((∃ past, past <+: events ∧ ¬ Fits (gate.after held past).pending) ∧ ∃ array, array.Uncapped ∧
      Transducer.run processMidasEvent scan events = .error ⟨array, num_phidg_max⟩) := by
  have runs := scanMachine.lockstep (fun scan state => Open state.1 scan state.2)
    (fun (row : Row) point => row.point = point) (fun state => Fits state.2.pending)
    (fun fault : Fault => fault.array.Uncapped ∧ fault.index = num_phidg_max)
    (fun {scan state event} opened fits => by
      rcases processMidasEvent_cases opened fits event with
        ⟨more, next, rows, stepped, kept, same⟩ | ⟨overflow, array, uncapped, stepped⟩
      · refine Or.inl ⟨more, next, rows, stepped, kept, ?_⟩
        exact List.forall₂_map_left_iff.mp (same ▸ List.forall₂_refl _)
      · exact Or.inr ⟨overflow, ⟨array, num_phidg_max⟩, ⟨uncapped, rfl⟩, stepped⟩)
    (s := (base, held)) opened fits events
  simp only [scanMachine_after, scanMachine_outputs] at runs
  rcases runs with ⟨all, final, rows, ran, kept, same⟩ | ⟨overflow, ⟨array, index⟩,
    ⟨uncapped, rfl⟩, ran⟩
  · refine Or.inl ⟨all, final, rows, ran, kept, ?_⟩
    exact List.forall₂_eq_eq_eq ▸ List.forall₂_map_left_iff.mpr same
  · exact Or.inr ⟨overflow, array, uncapped, ran⟩

end PtfConverter.ScanTree
