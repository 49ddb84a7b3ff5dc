import PtfConverter.ToMathlib.Transducer

/-! # Collecting items behind a gate

A gate is opened and closed by the events it sees. While it is open it collects items; closing it
emits what was collected since the last closing and starts again. The flag of a gate depends on
its own history only, and the items carried over a cut stay in front of everything collected
later. A gate that restarts with no items at each cut emits what an uncut run emits exactly when
no cut strands an item in front of a later closing.
-/

/-- What an event means to a gate. -/
inductive GateMark where
  | opens | closes | item | other
deriving DecidableEq, Repr

/-- The flag of a gate, and the items collected since it last emitted. -/
structure Gate (ε : Type*) where
  accept : Bool
  pending : List ε
deriving DecidableEq

namespace Gate

variable {ε : Type*} (mark : ε → GateMark)

/-- One event at the flag. -/
def acceptStep (accept : Bool) (e : ε) : Bool :=
  match mark e with
  | .opens => true
  | .closes => false
  | _ => accept

/-- The flag a list of events leaves behind. -/
def acceptAfter (accept : Bool) (events : List ε) : Bool := events.foldl (acceptStep mark) accept

/-- One event at the gate. -/
def step (gate : Gate ε) (e : ε) : Gate ε × List (List ε) :=
  match mark e with
  | .opens => (⟨true, gate.pending⟩, [])
  | .closes => (⟨false, []⟩, [gate.pending])
  | .item => (⟨gate.accept, if gate.accept then gate.pending ++ [e] else gate.pending⟩, [])
  | .other => (gate, [])

/-- The gate as a machine: its outputs are the emitted item lists. -/
def machine : Mealy (Gate ε) ε (List ε) := ⟨step mark⟩

/-- The items held by a gate that started with none. -/
def pendingAfter (accept : Bool) (events : List ε) : List ε :=
  ((machine mark).after ⟨accept, []⟩ events).pending

/-- The emissions of a gate that started with no items. -/
def emitted (accept : Bool) (events : List ε) : List (List ε) :=
  (machine mark).outputs ⟨accept, []⟩ events

/-- Put carried items in front of the first emission. -/
def carry (held : List ε) : List (List ε) → List (List ε)
  | [] => []
  | first :: rest => (held ++ first) :: rest

variable {mark}

@[simp] theorem machine_step (gate : Gate ε) (e : ε) :
    (machine mark).step gate e = step mark gate e :=
  rfl

@[simp] theorem carry_nil (points : List (List ε)) : carry [] points = points := by
  cases points <;> rfl

theorem carry_carry (first second : List ε) (points : List (List ε)) :
    carry first (carry second points) = carry (first ++ second) points := by
  cases points
  · rfl
  · simp only [carry, List.append_assoc]

theorem step_accept (gate : Gate ε) (e : ε) :
    (step mark gate e).1.accept = acceptStep mark gate.accept e := by
  unfold step acceptStep
  cases mark e <;> rfl

/-- The flag does not depend on the items. -/
theorem after_accept (gate : Gate ε) (events : List ε) :
    ((machine mark).after gate events).accept = acceptAfter mark gate.accept events := by
  induction events generalizing gate with
  | nil => rfl
  | cons e rest ih => rw [Mealy.after_cons, ih, machine_step, step_accept]; rfl

/-- Carried items only go in front of the first emission. -/
theorem outputs_eq_carry (accept : Bool) (held : List ε) (events : List ε) :
    (machine mark).outputs ⟨accept, held⟩ events = carry held (emitted mark accept events) := by
  induction events generalizing accept held with
  | nil => rfl
  | cons e rest ih =>
    simp only [emitted, Mealy.outputs_cons, machine_step, step]
    cases mark e with
    | opens => exact ih true held
    | closes => simp only [List.singleton_append, carry, List.append_nil]
    | item =>
      cases accept
      · exact ih false held
      · simp only [↓reduceIte, List.nil_append, ih, carry_carry]
    | other => exact ih accept held

/-- Carried items stay in front of the held items until the first emission. -/
theorem after_pending (accept : Bool) (held : List ε) (events : List ε) :
    ((machine mark).after ⟨accept, held⟩ events).pending =
      (if emitted mark accept events = [] then held else []) ++ pendingAfter mark accept events := by
  induction events generalizing accept held with
  | nil => simp [emitted, pendingAfter]
  | cons e rest ih =>
    simp only [emitted, pendingAfter, Mealy.after_cons, Mealy.outputs_cons, machine_step, step]
    cases mark e with
    | opens => exact ih true held
    | closes => simp only [List.singleton_append, reduceCtorEq, ↓reduceIte, List.nil_append]
    | item =>
      cases accept
      · exact ih false held
      · have restarted := ih true [e]
        simp only [↓reduceIte, List.nil_append, ih, outputs_eq_carry]
        cases emitted mark true rest <;> simp [carry]
    | other => exact ih accept held

theorem emitted_eq_nil_iff (accept : Bool) (events : List ε) :
    emitted mark accept events = [] ↔ ∀ e ∈ events, mark e ≠ .closes := by
  induction events generalizing accept with
  | nil => simp [emitted]
  | cons e rest ih =>
    have tail (held : List ε) (flag : Bool) :
        (machine mark).outputs ⟨flag, held⟩ rest = [] ↔ ∀ e ∈ rest, mark e ≠ .closes := by
      rw [outputs_eq_carry, ← ih flag]
      cases emitted mark flag rest <;> simp [carry]
    simp only [emitted, Mealy.outputs_cons, machine_step, step, List.forall_mem_cons]
    cases marked : mark e <;> simp [tail]

theorem emitted_append (accept : Bool) (first second : List ε) :
    emitted mark accept (first ++ second) = emitted mark accept first ++
      carry (pendingAfter mark accept first) (emitted mark (acceptAfter mark accept first) second) := by
  rw [emitted, Mealy.outputs_append, ← after_accept ⟨accept, []⟩ first, ← outputs_eq_carry]
  rfl

/-- A gate holds nothing but items it saw or held before. -/
theorem mem_after_pending {gate : Gate ε} {events : List ε} {e : ε}
    (member : e ∈ ((machine mark).after gate events).pending) :
    e ∈ gate.pending ∨ e ∈ events ∧ mark e = .item := by
  induction events generalizing gate with
  | nil => exact Or.inl member
  | cons first rest ih =>
    rw [Mealy.after_cons, machine_step] at member
    rcases ih member with held | ⟨later, item⟩
    · rw [step] at held
      cases marked : mark first <;> simp only [marked] at held
      · exact Or.inl held
      · cases held
      · split at held
        · rcases List.mem_append.mp held with before | here
          · exact Or.inl before
          · obtain rfl := List.mem_singleton.mp here
            exact Or.inr ⟨List.mem_cons_self, marked⟩
        · exact Or.inl held
      · exact Or.inl held
    · exact Or.inr ⟨List.mem_cons_of_mem _ later, item⟩

/-- What a gate emits is what it held after some of the events. -/
theorem mem_outputs {gate : Gate ε} {events items : List ε}
    (member : items ∈ (machine mark).outputs gate events) :
    ∃ past, past <+: events ∧ items = ((machine mark).after gate past).pending := by
  induction events generalizing gate with
  | nil => cases member
  | cons first rest ih =>
    rcases List.mem_append.mp member with here | later
    · refine ⟨[], List.nil_prefix, ?_⟩
      rw [machine_step, step] at here
      cases marked : mark first <;> simp only [marked, List.not_mem_nil, List.mem_singleton] at here
      exact here
    · obtain ⟨past, cut, same⟩ := ih later
      exact ⟨first :: past, List.cons_prefix_cons.mpr ⟨rfl, cut⟩, same⟩

/-- An open gate collects a stretch of items whole. -/
theorem after_items (held : List ε) {events : List ε} (items : ∀ e ∈ events, mark e = .item) :
    (machine mark).after ⟨true, held⟩ events = ⟨true, held ++ events⟩ := by
  induction events generalizing held with
  | nil => rw [List.append_nil]; rfl
  | cons e rest ih =>
    obtain ⟨first, others⟩ := List.forall_mem_cons.mp items
    rw [Mealy.after_cons, machine_step, step, first]
    simp only [↓reduceIte]
    rw [ih _ others, List.append_assoc, List.singleton_append]

variable (mark)

/-- The emissions when the gate restarts with no items, but with its flag, at the start of each
file. -/
def fileOutputs : Bool → List (List ε) → List (List ε)
  | _, [] => []
  | accept, file :: files =>
    emitted mark accept file ++ fileOutputs (acceptAfter mark accept file) files

/-- No cut strands an item in front of a later closing. -/
def CleanCuts : Bool → List (List ε) → Prop
  | _, [] => True
  | accept, file :: files =>
      (pendingAfter mark accept file = [] ∨ ∀ e ∈ files.flatten, mark e ≠ .closes) ∧
        CleanCuts (acceptAfter mark accept file) files

variable {mark}

private theorem emitted_length (accept : Bool) (events : List ε) :
    (emitted mark accept events).length = events.countP fun e => mark e = .closes := by
  induction events generalizing accept with
  | nil => rfl
  | cons e rest ih =>
    have tail (held : List ε) (flag : Bool) : ((machine mark).outputs ⟨flag, held⟩ rest).length =
        rest.countP fun e => mark e = .closes := by
      rw [outputs_eq_carry, ← ih flag]
      cases emitted mark flag rest <;> simp [carry]
    simp only [emitted, Mealy.outputs_cons, machine_step, step]
    cases marked : mark e <;> simp [tail, marked, Nat.add_comm]

/-- A cut never changes how many lists are emitted. -/
theorem fileOutputs_length (accept : Bool) (files : List (List ε)) :
    (fileOutputs mark accept files).length = (emitted mark accept files.flatten).length := by
  induction files generalizing accept with
  | nil => rfl
  | cons file files ih =>
    simp only [fileOutputs, List.length_append, ih, emitted_length, List.flatten_cons,
      List.countP_append]

private theorem carry_flatten_length (held : List ε) {points : List (List ε)} (some : points ≠ []) :
    (carry held points).flatten.length = held.length + points.flatten.length := by
  cases points with
  | nil => contradiction
  | cons first rest => simp only [carry, List.flatten_cons, List.length_append]; omega

/-- Restarting can only lose items. -/
theorem fileOutputs_flatten_length_le (accept : Bool) (files : List (List ε)) :
    (fileOutputs mark accept files).flatten.length ≤
      (emitted mark accept files.flatten).flatten.length := by
  induction files generalizing accept with
  | nil => exact le_rfl
  | cons file files ih =>
    have tail := ih (acceptAfter mark accept file)
    simp only [fileOutputs, List.flatten_cons, emitted_append, List.flatten_append, List.length_append]
    rcases emptyTail : emitted mark (acceptAfter mark accept file) files.flatten with _ | ⟨first, rest⟩
    · rw [emptyTail] at tail
      simp only [carry, List.flatten_nil, List.length_nil] at tail ⊢
      omega
    · rw [emptyTail] at tail
      rw [carry_flatten_length _ (List.cons_ne_nil _ _)]
      omega

/-- Restarts that lose no item have clean cuts. -/
theorem cleanCuts_of_length_le (accept : Bool) (files : List (List ε))
    (kept : (emitted mark accept files.flatten).flatten.length ≤
      (fileOutputs mark accept files).flatten.length) :
    CleanCuts mark accept files := by
  induction files generalizing accept with
  | nil => trivial
  | cons file files ih =>
    have fewer : (fileOutputs mark (acceptAfter mark accept file) files).flatten.length ≤ _ :=
      fileOutputs_flatten_length_le _ files
    simp only [fileOutputs, List.flatten_cons, emitted_append, List.flatten_append,
      List.length_append] at kept
    rw [CleanCuts, ← emitted_eq_nil_iff (acceptAfter mark accept file)]
    by_cases later : emitted mark (acceptAfter mark accept file) files.flatten = []
    · refine ⟨Or.inr later, ih _ ?_⟩
      rw [later]
      exact Nat.zero_le _
    · rw [carry_flatten_length _ later] at kept
      exact ⟨Or.inl (List.length_eq_zero_iff.mp (by omega)), ih _ (by omega)⟩

/-- The emissions of the restarted runs are those of the uncut run exactly at clean cuts. -/
theorem fileOutputs_eq_iff (accept : Bool) (files : List (List ε)) :
    fileOutputs mark accept files = emitted mark accept files.flatten ↔
      CleanCuts mark accept files := by
  refine ⟨fun same => cleanCuts_of_length_le accept files (by rw [same]), fun clean => ?_⟩
  induction files generalizing accept with
  | nil => rfl
  | cons file files ih =>
    obtain ⟨cut, rest⟩ := clean
    rw [← emitted_eq_nil_iff (acceptAfter mark accept file)] at cut
    rw [fileOutputs, List.flatten_cons, emitted_append, ih _ rest]
    rcases cut with none | later
    · rw [none, carry_nil]
    · rw [later]
      rfl

end Gate
