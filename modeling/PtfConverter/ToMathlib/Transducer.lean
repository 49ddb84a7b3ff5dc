import Mathlib.Data.List.Forall2
import Mathlib.Data.List.Infix

/-! # Runs of transducers that may fault

A transducer consumes events one at a time, changes its state and emits outputs; a step may
instead fault, and a fault ends the run. `run` is the run over a finite list of events. It
composes at every cut, and it keeps in step with a total machine (`Mealy`) through a relation that
is checked one event at a time. Nothing here depends on what the states, events, outputs or
faults are.
-/

namespace Except

universe u v

variable {φ : Type u} {α β : Type v}

theorem bind_eq_ok_iff {x : Except φ α} {f : α → Except φ β} {b : β} :
    (x >>= f) = .ok b ↔ ∃ a, x = .ok a ∧ f a = .ok b := by
  cases x <;> simp [bind, Except.bind]

@[simp] theorem ok_bind (a : α) (f : α → Except φ β) : ((.ok a : Except φ α) >>= f) = f a := rfl

@[simp] theorem error_bind (e : φ) (f : α → Except φ β) :
    ((.error e : Except φ α) >>= f) = .error e := rfl

theorem mapError_eq_ok_iff {ψ : Type u} {x : Except φ α} {f : φ → ψ} {a : α} :
    x.mapError f = .ok a ↔ x = .ok a := by
  cases x <;> simp [Except.mapError]

/-- A fold whose steps return is the fold of what they return. -/
theorem foldlM_eq_ok {ε : Type*} {f : α → ε → Except φ α} {g : α → ε → α} {events : List ε}
    (steps : ∀ e ∈ events, ∀ a, f a e = .ok (g a e)) (a : α) :
    events.foldlM f a = .ok (events.foldl g a) := by
  induction events generalizing a with
  | nil => rfl
  | cons e rest ih =>
    obtain ⟨here, later⟩ := List.forall_mem_cons.mp steps
    rw [List.foldlM_cons, here, ok_bind, ih later, List.foldl_cons]

private theorem foldlM_keeps_from {ε : Type*} {f : α → ε → Except φ α} (Inv : List ε → α → Prop)
    (step : ∀ {past a e b}, Inv past a → f a e = .ok b → Inv (past ++ [e]) b) {past : List ε}
    {a b : α} (initial : Inv past a) {events : List ε} (ran : events.foldlM f a = .ok b) :
    Inv (past ++ events) b := by
  induction events generalizing past a with
  | nil =>
    cases ran
    rwa [List.append_nil]
  | cons e rest ih =>
    rw [List.foldlM_cons] at ran
    obtain ⟨next, stepped, ran⟩ := bind_eq_ok_iff.mp ran
    have later := ih (step initial stepped) ran
    rwa [List.append_assoc] at later

/-- What each step of a fold keeps, in view of what was consumed so far, the fold keeps. -/
theorem foldlM_keeps {ε : Type*} {f : α → ε → Except φ α} (Inv : List ε → α → Prop)
    (step : ∀ {past a e b}, Inv past a → f a e = .ok b → Inv (past ++ [e]) b) {a b : α}
    (initial : Inv [] a) {events : List ε} (ran : events.foldlM f a = .ok b) : Inv events b :=
  foldlM_keeps_from Inv step initial ran

/-- Steps that return wherever an invariant holds, and keep it, make a fold that returns. -/
theorem foldlM_total {ε : Type*} {f : α → ε → Except φ α} (Inv : List ε → α → Prop)
    {events : List ε}
    (step : ∀ past e a, past ++ [e] <+: events → Inv past a →
      ∃ b, f a e = .ok b ∧ Inv (past ++ [e]) b)
    {a : α} (initial : Inv [] a) : ∃ b, events.foldlM f a = .ok b ∧ Inv events b := by
  induction events using List.reverseRecOn with
  | nil => exact ⟨a, rfl, initial⟩
  | append_singleton past e ih =>
    obtain ⟨middle, ran, kept⟩ :=
      ih fun earlier d b front => step earlier d b (front.trans (List.prefix_append past [e]))
    obtain ⟨b, stepped, last⟩ := step past e middle (List.prefix_refl _) kept
    refine ⟨b, ?_, last⟩
    rw [List.foldlM_append, ran, ok_bind, List.foldlM_cons, stepped]
    rfl

end Except

namespace Transducer

variable {σ ε ρ φ α : Type*}

/-- The run of `step` from a state over a list of events, with every output in order. -/
def run (step : σ → ε → Except φ (σ × List ρ)) : σ → List ε → Except φ (σ × List ρ)
  | s, [] => .ok (s, [])
  | s, e :: rest => do
      let (next, out) ← step s e
      let (final, outs) ← run step next rest
      return (final, out ++ outs)

variable {step : σ → ε → Except φ (σ × List ρ)}

@[simp] theorem run_nil (s : σ) : run step s [] = .ok (s, []) := rfl

theorem run_singleton (s : σ) (e : ε) : run step s [e] = step s e := by
  rw [run]
  rcases step s e with fault | ⟨next, out⟩
  · rfl
  · simp only [Except.ok_bind, run_nil, pure, Except.pure, List.append_nil]

theorem run_cons_ok_iff {s t : σ} {e : ε} {rest : List ε} {outs : List ρ} :
    run step s (e :: rest) = .ok (t, outs) ↔
      ∃ next out tail, step s e = .ok (next, out) ∧ run step next rest = .ok (t, tail) ∧
        outs = out ++ tail := by
  simp only [run, Except.bind_eq_ok_iff, Prod.exists, pure, Except.pure, Except.ok.injEq,
    Prod.mk.injEq]
  constructor
  · rintro ⟨next, out, stepped, final, tail, ran, rfl, rfl⟩
    exact ⟨next, out, tail, stepped, ran, rfl⟩
  · rintro ⟨next, out, tail, stepped, ran, rfl⟩
    exact ⟨next, out, stepped, t, tail, ran, rfl, rfl⟩

theorem run_append (s : σ) (first second : List ε) :
    run step s (first ++ second) = do
      let (middle, left) ← run step s first
      let (final, right) ← run step middle second
      return (final, left ++ right) := by
  induction first generalizing s with
  | nil =>
    simp only [List.nil_append, run_nil, Except.ok_bind]
    rcases run step s second with fault | ⟨final, outs⟩ <;> rfl
  | cons e rest ih =>
    rw [List.cons_append, run, run]
    rcases step s e with fault | ⟨next, out⟩
    · rfl
    · simp only [Except.ok_bind, ih]
      rcases run step next rest with fault | ⟨middle, left⟩
      · rfl
      · simp only [Except.ok_bind, pure, Except.pure]
        rcases run step middle second with fault | ⟨final, right⟩
        · rfl
        · simp only [Except.ok_bind, List.append_assoc]

theorem run_concat (s : σ) (events : List ε) (e : ε) :
    run step s (events ++ [e]) = do
      let (middle, left) ← run step s events
      let (final, right) ← step middle e
      return (final, left ++ right) := by
  rw [run_append]
  rcases run step s events with fault | ⟨middle, left⟩
  · rfl
  · simp only [Except.ok_bind, run]
    rcases step middle e with fault | ⟨final, right⟩
    · rfl
    · simp only [Except.ok_bind, pure, Except.pure, List.append_nil]

/-- A run composes at any cut: the suffix starts from the state the prefix reached. -/
theorem run_append_ok_iff {s t : σ} {first second : List ε} {outs : List ρ} :
    run step s (first ++ second) = .ok (t, outs) ↔
      ∃ middle left right, run step s first = .ok (middle, left) ∧
        run step middle second = .ok (t, right) ∧ outs = left ++ right := by
  induction first generalizing s outs with
  | nil =>
    constructor
    · intro ran
      exact ⟨s, [], outs, rfl, ran, rfl⟩
    · rintro ⟨middle, left, right, ran, suffix, rfl⟩
      cases ran
      exact suffix
  | cons e rest ih =>
    simp only [List.cons_append, run_cons_ok_iff, ih]
    constructor
    · rintro ⟨next, out, tail, stepped, ⟨middle, left, right, ran, suffix, rfl⟩, rfl⟩
      exact ⟨middle, out ++ left, right, ⟨next, out, left, stepped, ran, rfl⟩, suffix,
        (List.append_assoc ..).symm⟩
    · rintro ⟨middle, left, right, ⟨next, out, tail, stepped, ran, rfl⟩, suffix, rfl⟩
      exact ⟨next, out, tail ++ right, stepped, ⟨middle, tail, right, ran, suffix, rfl⟩,
        List.append_assoc ..⟩

private theorem run_keeps_from (Inv : List ε → List ρ → σ → Prop)
    (kept : ∀ {past given s e t out}, Inv past given s → step s e = .ok (t, out) →
      Inv (past ++ [e]) (given ++ out) t)
    {past : List ε} {given : List ρ} {s t : σ} (initial : Inv past given s) {events : List ε}
    {outs : List ρ} (ran : run step s events = .ok (t, outs)) :
    Inv (past ++ events) (given ++ outs) t := by
  induction events generalizing past given s outs with
  | nil =>
    cases ran
    rwa [List.append_nil, List.append_nil]
  | cons e rest ih =>
    obtain ⟨next, out, tail, stepped, rest, rfl⟩ := run_cons_ok_iff.mp ran
    have later := ih (kept initial stepped) rest
    rwa [List.append_assoc, List.append_assoc] at later

/-- What each step keeps, in view of the events and the outputs so far, a run keeps. -/
theorem run_keeps (Inv : List ε → List ρ → σ → Prop)
    (kept : ∀ {past given s e t out}, Inv past given s → step s e = .ok (t, out) →
      Inv (past ++ [e]) (given ++ out) t)
    {s t : σ} (initial : Inv [] [] s) {events : List ε} {outs : List ρ}
    (ran : run step s events = .ok (t, outs)) :
    Inv events outs t :=
  run_keeps_from Inv kept initial ran

/-- Steps that return, and keep what the next step needs in view of the outputs so far,
make a run that returns. -/
theorem run_total (Inv : List ρ → σ → Prop)
    (kept : ∀ {given s} e, Inv given s → ∃ t out, step s e = .ok (t, out) ∧ Inv (given ++ out) t)
    (given : List ρ) {s : σ} (initial : Inv given s) (events : List ε) :
    ∃ t outs, run step s events = .ok (t, outs) ∧ Inv (given ++ outs) t := by
  induction events generalizing given s with
  | nil =>
    refine ⟨s, [], rfl, ?_⟩
    rwa [List.append_nil]
  | cons e rest ih =>
    obtain ⟨next, out, stepped, here⟩ := kept e initial
    obtain ⟨t, outs, ran, later⟩ := ih (given ++ out) here
    refine ⟨t, out ++ outs, run_cons_ok_iff.mpr ⟨next, out, outs, stepped, ran, rfl⟩, ?_⟩
    rwa [← List.append_assoc]

/-- Steps that keep an invariant, in view of the outputs so far, or end with a fault of some
kind, make such a run. -/
theorem run_outcome (Inv : List ρ → σ → Prop) (Ends : φ → Prop)
    (kept : ∀ {given s} e, Inv given s →
      (∃ t out, step s e = .ok (t, out) ∧ Inv (given ++ out) t) ∨
      ∃ fault, step s e = .error fault ∧ Ends fault)
    (given : List ρ) {s : σ} (initial : Inv given s) (events : List ε) :
    (∃ t outs, run step s events = .ok (t, outs) ∧ Inv (given ++ outs) t) ∨
      ∃ fault, run step s events = .error fault ∧ Ends fault := by
  induction events generalizing given s with
  | nil =>
    refine .inl ⟨s, [], rfl, ?_⟩
    rwa [List.append_nil]
  | cons e rest ih =>
    obtain ⟨next, out, stepped, here⟩ | ⟨fault, stepped, ends⟩ := kept e initial
    · obtain ⟨t, outs, ran, later⟩ | ⟨fault, ran, ends⟩ := ih (given ++ out) here
      · refine .inl ⟨t, out ++ outs, run_cons_ok_iff.mpr ⟨next, out, outs, stepped, ran, rfl⟩, ?_⟩
        rwa [← List.append_assoc]
      · exact .inr ⟨fault, by simp only [run, stepped, ran, Except.ok_bind, Except.error_bind], ends⟩
    · exact .inr ⟨fault, by simp only [run, stepped, Except.error_bind], ends⟩

/-- A step without outputs only moves the state. -/
theorem run_cons_silent {s next : σ} {e : ε} (stepped : step s e = .ok (next, [])) (rest : List ε) :
    run step s (e :: rest) = run step next rest := by
  simp only [run, stepped, Except.ok_bind, List.nil_append]
  rcases run step next rest with fault | ⟨final, outs⟩ <;> rfl

/-- Without the outputs, a run is a fold. -/
theorem run_map_fst (s : σ) (events : List ε) :
    (run step s events).map Prod.fst = events.foldlM (fun s e => (step s e).map Prod.fst) s := by
  induction events generalizing s with
  | nil => rfl
  | cons e rest ih =>
    rw [List.foldlM_cons, run]
    rcases step s e with fault | ⟨next, out⟩
    · rfl
    · have first : (Except.ok (next, out) : Except φ (σ × List ρ)).map Prod.fst = .ok next := rfl
      simp only [first, Except.ok_bind, ← ih]
      rcases run step next rest with fault | ⟨final, outs⟩ <;> rfl

/-- Two runs look alike through `view` when their first steps do and the rest do from there. -/
theorem run_cons_congr {κ : Type*} (view : σ → κ) {s t : σ} {e e' : ε} {rest rest' : List ε}
    (first : (step s e).map (Prod.map view id) = (step t e').map (Prod.map view id))
    (later : ∀ {next next' out}, step s e = .ok (next, out) → step t e' = .ok (next', out) →
      view next = view next' →
      (run step next rest).map (Prod.map view id) = (run step next' rest').map (Prod.map view id)) :
    (run step s (e :: rest)).map (Prod.map view id) =
      (run step t (e' :: rest')).map (Prod.map view id) := by
  rw [run, run]
  rcases here : step s e with fault | ⟨next, out⟩ <;>
    rcases there : step t e' with fault' | ⟨next', out'⟩ <;>
    simp only [here, there, Except.map, reduceCtorEq] at first
  · exact first
  · simp only [Except.ok.injEq, Prod.map_apply, id_eq, Prod.mk.injEq] at first
    obtain ⟨kept, rfl⟩ := first
    have tail := later here there kept
    simp only [Except.ok_bind]
    rcases ran : run step next rest with fault | ⟨final, outs⟩ <;>
      rcases ran' : run step next' rest' with fault' | ⟨final', outs'⟩ <;>
      simp only [ran, ran', Except.map, reduceCtorEq] at tail
    · exact tail
    · simp only [Except.ok.injEq, Prod.map_apply, id_eq, Prod.mk.injEq] at tail
      obtain ⟨last, rfl⟩ := tail
      exact congrArg (fun state => Except.ok (state, out ++ outs)) last

end Transducer

/-- A total machine with outputs: the abstract side of a simulation. -/
structure Mealy (σ ε ρ : Type*) where
  /-- One step of the machine. -/
  step : σ → ε → σ × List ρ

namespace Mealy

variable {σ ε ρ α φ τ : Type*} (m : Mealy σ ε ρ)

/-- The state after a list of events. -/
def after (s : σ) (events : List ε) : σ := events.foldl (fun s e => (m.step s e).1) s

/-- The outputs of a list of events, in order. -/
def outputs : σ → List ε → List ρ
  | _, [] => []
  | s, e :: rest => (m.step s e).2 ++ outputs (m.step s e).1 rest

@[simp] theorem after_nil (s : σ) : m.after s [] = s := rfl

@[simp] theorem after_cons (s : σ) (e : ε) (rest : List ε) :
    m.after s (e :: rest) = m.after (m.step s e).1 rest := rfl

@[simp] theorem after_append (s : σ) (first second : List ε) :
    m.after s (first ++ second) = m.after (m.after s first) second := List.foldl_append

@[simp] theorem outputs_nil (s : σ) : m.outputs s [] = [] := rfl

@[simp] theorem outputs_cons (s : σ) (e : ε) (rest : List ε) :
    m.outputs s (e :: rest) = (m.step s e).2 ++ m.outputs (m.step s e).1 rest := rfl

@[simp] theorem outputs_append (s : σ) (first second : List ε) :
    m.outputs s (first ++ second) = m.outputs s first ++ m.outputs (m.after s first) second := by
  induction first generalizing s with
  | nil => rfl
  | cons e rest ih => simp only [List.cons_append, outputs_cons, ih, after_cons, List.append_assoc]

/-- A fallible implementation in lockstep with the machine: each step either reaches an allowed
state of the machine with matching outputs, or the machine's next state is not allowed and the
implementation faults. Then whole runs do the same, and a run succeeds exactly when every state
on its way is allowed. -/
theorem lockstep {step : τ → ε → Except φ (τ × List α)} (related : τ → σ → Prop)
    (matched : α → ρ → Prop) (allowed : σ → Prop) (refused : φ → Prop)
    (square : ∀ {t s e}, related t s → allowed s →
      (allowed (m.step s e).1 ∧ ∃ next out, step t e = .ok (next, out) ∧
        related next (m.step s e).1 ∧ List.Forall₂ matched out (m.step s e).2) ∨
      (¬ allowed (m.step s e).1 ∧ ∃ fault, refused fault ∧ step t e = .error fault))
    {t : τ} {s : σ} (initial : related t s) (safe : allowed s) (events : List ε) :
    ((∀ past, past <+: events → allowed (m.after s past)) ∧ ∃ final outs,
      Transducer.run step t events = .ok (final, outs) ∧ related final (m.after s events) ∧
      List.Forall₂ matched outs (m.outputs s events)) ∨
    ((∃ past, past <+: events ∧ ¬ allowed (m.after s past)) ∧ ∃ fault, refused fault ∧
      Transducer.run step t events = .error fault) := by
  induction events generalizing t s with
  | nil =>
    refine Or.inl ⟨fun past cut => ?_, t, [], rfl, initial, .nil⟩
    rw [List.prefix_nil.mp cut]
    exact safe
  | cons e rest ih =>
    rcases square (e := e) initial safe with
      ⟨next, after, out, stepped, kept, here⟩ | ⟨refuses, fault, reason, stepped⟩
    · rcases ih kept next with
        ⟨all, final, outs, ran, last, later⟩ | ⟨⟨past, cut, refuses⟩, fault, reason, ran⟩
      · refine Or.inl ⟨fun past cut => ?_, final, out ++ outs, ?_, last, List.rel_append here later⟩
        · rcases List.prefix_cons_iff.mp cut with rfl | ⟨tail, rfl, tailCut⟩
          · exact safe
          · exact all tail tailCut
        · exact Transducer.run_cons_ok_iff.mpr ⟨after, out, outs, stepped, ran, rfl⟩
      · refine Or.inr ⟨⟨e :: past, List.cons_prefix_cons.mpr ⟨rfl, cut⟩, refuses⟩, fault, reason, ?_⟩
        simp only [Transducer.run, stepped, Except.ok_bind, ran, Except.error_bind]
    · refine Or.inr ⟨⟨[e], ⟨rest, rfl⟩, refuses⟩, fault, reason, ?_⟩
      rw [Transducer.run, stepped, Except.error_bind]

end Mealy
