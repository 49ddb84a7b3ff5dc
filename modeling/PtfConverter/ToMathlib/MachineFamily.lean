import PtfConverter.ToMathlib.Transducer
import Mathlib.Logic.Function.Basic

/-! # Families of machines, and machines that feed a consumer

A family runs one copy of a machine for each index on a stream of indexed events. What the copy of
an index does depends only on the events of that index, whatever stands between them. A driven
machine hands its outputs to a consumer that may fault, and refuses the events that it has no room
for; as long as it refuses nothing, its run is the run of the machine with the consumer run over the
outputs.
-/

/-- The events of one index, in order. -/
def List.ofIndex {ι α : Type*} [DecidableEq ι] (i : ι) (events : List (ι × α)) : List α :=
  events.filterMap fun e => if e.1 = i then some e.2 else none

section OfIndex

variable {ι α : Type*} [DecidableEq ι]

@[simp] theorem List.ofIndex_nil (i : ι) : ([] : List (ι × α)).ofIndex i = [] := rfl

@[simp] theorem List.ofIndex_append (i : ι) (first second : List (ι × α)) :
    (first ++ second).ofIndex i = first.ofIndex i ++ second.ofIndex i := List.filterMap_append

theorem List.ofIndex_cons_self (i : ι) (a : α) (rest : List (ι × α)) :
    ((i, a) :: rest).ofIndex i = a :: rest.ofIndex i := by
  rw [List.ofIndex, List.filterMap_cons, if_pos rfl]
  rfl

theorem List.ofIndex_cons_ne {i j : ι} (ne : j ≠ i) (a : α) (rest : List (ι × α)) :
    ((j, a) :: rest).ofIndex i = rest.ofIndex i := by
  rw [List.ofIndex, List.filterMap_cons, if_neg ne]
  rfl

theorem List.ofIndex_map_self (i : ι) (list : List α) : (list.map (Prod.mk i)).ofIndex i = list := by
  induction list with
  | nil => rfl
  | cons a list ih => rw [List.map_cons, List.ofIndex_cons_self, ih]

theorem List.ofIndex_map_ne {i j : ι} (ne : j ≠ i) (list : List α) :
    (list.map (Prod.mk j)).ofIndex i = [] := by
  induction list with
  | nil => rfl
  | cons a list ih => rw [List.map_cons, List.ofIndex_cons_ne ne, ih]

theorem List.mem_of_mem_ofIndex {i : ι} {a : α} {events : List (ι × α)}
    (mem : a ∈ events.ofIndex i) : (i, a) ∈ events := by
  obtain ⟨⟨j, b⟩, member, same⟩ := List.mem_filterMap.mp mem
  split_ifs at same with own
  obtain rfl := Option.some.inj same
  exact own ▸ member

theorem List.ofIndex_filter (i : ι) (events : List (ι × α)) :
    (events.filter fun e => e.1 = i).ofIndex i = events.ofIndex i := by
  rw [List.ofIndex, List.ofIndex, List.filterMap_filter]
  congr 1
  funext e
  simp only [decide_eq_true_eq]
  split_ifs <;> rfl

end OfIndex

namespace Mealy

universe u v

variable {φ : Type u} {ι σ ε ρ β : Type v} [DecidableEq ι] (m : Mealy σ ε ρ)

/-- One copy of the machine for each index. -/
def family : Mealy (ι → σ) (ι × ε) (ι × ρ) where
  step states e :=
    (Function.update states e.1 (m.step (states e.1) e.2).1,
      (m.step (states e.1) e.2).2.map (Prod.mk e.1))

@[simp] theorem family_step_self (states : ι → σ) (i : ι) (e : ε) :
    (m.family.step states (i, e)).1 i = (m.step (states i) e).1 := Function.update_self ..

theorem family_step_ne (states : ι → σ) {i j : ι} (ne : j ≠ i) (e : ε) :
    (m.family.step states (j, e)).1 i = states i := Function.update_of_ne ne.symm ..

/-- The copy of an index goes through the events of that index alone. -/
theorem family_after (states : ι → σ) (events : List (ι × ε)) (i : ι) :
    m.family.after states events i = m.after (states i) (events.ofIndex i) := by
  induction events generalizing states with
  | nil => rfl
  | cons e rest ih =>
    obtain ⟨j, e⟩ := e
    rw [after_cons, ih]
    obtain rfl | ne := eq_or_ne j i
    · rw [family_step_self, List.ofIndex_cons_self, after_cons]
    · rw [family_step_ne m states ne, List.ofIndex_cons_ne ne]

theorem family_outputs (states : ι → σ) (events : List (ι × ε)) (i : ι) :
    (m.family.outputs states events).ofIndex i = m.outputs (states i) (events.ofIndex i) := by
  induction events generalizing states with
  | nil => rfl
  | cons e rest ih =>
    obtain ⟨j, e⟩ := e
    rw [outputs_cons, List.ofIndex_append, ih]
    obtain rfl | ne := eq_or_ne j i
    · rw [family_step_self, List.ofIndex_cons_self, outputs_cons]
      exact congrArg (· ++ _) (List.ofIndex_map_self ..)
    · rw [family_step_ne m states ne, List.ofIndex_cons_ne ne]
      exact congrArg (· ++ _) (List.ofIndex_map_ne ne _)

variable (allowed : σ → ε → Prop)

/-- Every event finds the machine in a state that takes it. -/
def Accepts : σ → List ε → Prop
  | _, [] => True
  | s, e :: rest => allowed s e ∧ Accepts (m.step s e).1 rest

theorem family_accepts (states : ι → σ) (events : List (ι × ε)) :
    m.family.Accepts (fun states e => allowed (states e.1) e.2) states events ↔
      ∀ i, m.Accepts allowed (states i) (events.ofIndex i) := by
  induction events generalizing states with
  | nil => exact iff_of_true trivial fun _ => trivial
  | cons e rest ih =>
    obtain ⟨j, e⟩ := e
    simp only [Accepts, ih]
    constructor
    · rintro ⟨here, later⟩ i
      specialize later i
      obtain rfl | ne := eq_or_ne j i
      · rw [family_step_self] at later
        rw [List.ofIndex_cons_self]
        exact ⟨here, later⟩
      · rw [family_step_ne m states ne] at later
        rwa [List.ofIndex_cons_ne ne]
    · intro each
      have mine := each j
      rw [List.ofIndex_cons_self] at mine
      refine ⟨mine.1, fun i => ?_⟩
      obtain rfl | ne := eq_or_ne j i
      · rw [family_step_self]
        exact mine.2
      · have other := each i
        rw [List.ofIndex_cons_ne ne] at other
        rwa [family_step_ne m states ne]

variable [∀ s e, Decidable (allowed s e)] (refuse : σ → ε → φ) (consume : β → ρ → Except φ β)

/-- One step of the machine, with its outputs handed to the consumer. -/
def drive (state : σ × β) (e : ε) : Except φ ((σ × β) × List ρ) :=
  if allowed state.1 e then do
    let b ← (m.step state.1 e).2.foldlM consume state.2
    return (((m.step state.1 e).1, b), (m.step state.1 e).2)
  else .error (refuse state.1 e)

variable {m allowed refuse consume}

/-- As long as nothing is refused, the consumer gets the outputs of the machine. -/
theorem run_drive_of_accepts {s : σ} {events : List ε} (accepts : m.Accepts allowed s events) (b : β) :
    Transducer.run (m.drive allowed refuse consume) (s, b) events = do
      let b ← (m.outputs s events).foldlM consume b
      return ((m.after s events, b), m.outputs s events) := by
  induction events generalizing s b with
  | nil => rfl
  | cons e rest ih =>
    obtain ⟨here, later⟩ := accepts
    rw [Transducer.run, drive, if_pos here, outputs_cons, List.foldlM_append]
    rcases consumed : (m.step s e).2.foldlM consume b with fault | next
    · rfl
    · simp only [Except.ok_bind, pure, Except.pure, ih later]
      rcases (m.outputs (m.step s e).1 rest).foldlM consume next with fault | final <;> rfl

/-- A fold that faults does so at one of its elements. -/
theorem foldlM_error {b : β} {outs : List ρ} {fault : φ}
    (stopped : outs.foldlM consume b = .error fault) :
    ∃ b, ∃ o ∈ outs, consume b o = .error fault := by
  induction outs generalizing b with
  | nil => cases stopped
  | cons o outs ih =>
    rw [List.foldlM_cons] at stopped
    rcases consumed : consume b o with early | next
    · rw [consumed, Except.error_bind] at stopped
      cases stopped
      exact ⟨b, o, List.mem_cons_self, consumed⟩
    · rw [consumed, Except.ok_bind] at stopped
      obtain ⟨b, o, later, here⟩ := ih stopped
      exact ⟨b, o, List.mem_cons_of_mem _ later, here⟩

/-- A refused event ends the run, unless the consumer faults first. -/
theorem run_drive_of_not_accepts {s : σ} {events : List ε}
    (rejects : ¬ m.Accepts allowed s events) (b : β) :
    ∃ fault, Transducer.run (m.drive allowed refuse consume) (s, b) events = .error fault ∧
      ((∃ s e, ¬ allowed s e ∧ fault = refuse s e) ∨
        ∃ b, ∃ o ∈ m.outputs s events, consume b o = .error fault) := by
  induction events generalizing s b with
  | nil => exact absurd trivial rejects
  | cons e rest ih =>
    rw [Transducer.run, drive]
    by_cases here : allowed s e
    · rw [if_pos here]
      rcases consumed : (m.step s e).2.foldlM consume b with fault | next
      · obtain ⟨b, o, member, stopped⟩ := foldlM_error consumed
        exact ⟨fault, rfl, .inr ⟨b, o, List.mem_append_left _ member, stopped⟩⟩
      · obtain ⟨fault, ran, reason⟩ := ih (fun later => rejects ⟨here, later⟩) next
        refine ⟨fault, ?_, reason.imp_right ?_⟩
        · simp only [Except.ok_bind, pure, Except.pure, ran, Except.error_bind]
        · rintro ⟨b, o, member, stopped⟩
          exact ⟨b, o, List.mem_append_right _ member, stopped⟩
    · rw [if_neg here]
      exact ⟨refuse s e, rfl, .inl ⟨s, e, here, rfl⟩⟩

end Mealy
