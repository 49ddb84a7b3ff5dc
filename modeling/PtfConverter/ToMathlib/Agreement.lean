import PtfConverter.ToMathlib.Transducer

/-! # Computations that end alike

Two fallible computations agree through a relation when both return, with related results, or both
stop at the same fault. Agreement composes along `bind`, folds and runs of transducers, so that it
is checked one step at a time; two computations that agree with a third one agree with each other.
-/

namespace Except

universe u v

variable {φ : Type u} {α β γ δ ε : Type v}

/-- Both computations return, with related results, or both stop at the same fault. -/
inductive Agree (R : α → β → Prop) : Except φ α → Except φ β → Prop
  | ok {a : α} {b : β} (related : R a b) : Agree R (.ok a) (.ok b)
  | error (fault : φ) : Agree R (.error fault) (.error fault)

namespace Agree

variable {R : α → β → Prop}

theorem mono {S : α → β → Prop} (weaker : ∀ a b, R a b → S a b) {x : Except φ α} {y : Except φ β}
    (agree : Agree R x y) : Agree S x y := by
  cases agree with
  | ok related => exact .ok (weaker _ _ related)
  | error fault => exact .error fault

theorem bind {S : γ → δ → Prop} {x : Except φ α} {y : Except φ β} (agree : Agree R x y)
    {f : α → Except φ γ} {g : β → Except φ δ} (next : ∀ a b, R a b → Agree S (f a) (g b)) :
    Agree S (x >>= f) (y >>= g) := by
  cases agree with
  | ok related => exact next _ _ related
  | error fault => exact .error fault

/-- The first computation may go on alone. -/
theorem bind_left {S : γ → β → Prop} {x : Except φ α} {y : Except φ β} (agree : Agree R x y)
    {f : α → Except φ γ} (later : ∀ a b, R a b → Agree S (f a) (.ok b)) : Agree S (x >>= f) y := by
  cases agree with
  | error fault => exact .error fault
  | ok related => exact later _ _ related

/-- Related results are the results. -/
theorem remember {x : Except φ α} {y : Except φ β} (agree : Agree R x y) :
    Agree (fun a b => R a b ∧ x = .ok a ∧ y = .ok b) x y := by
  cases agree with
  | ok related => exact .ok ⟨related, rfl, rfl⟩
  | error fault => exact .error fault

theorem ite {p : Prop} [Decidable p] {x x' : Except φ α} {y y' : Except φ β} (yes : p → Agree R x y)
    (no : ¬ p → Agree R x' y') : Agree R (if p then x else x') (if p then y else y') := by
  split_ifs with h
  · exact yes h
  · exact no h

/-- Two computations that agree with a third one agree with each other. -/
theorem meet {S : γ → β → Prop} {x : Except φ α} {y : Except φ β} {z : Except φ γ}
    (left : Agree R x y) (right : Agree S z y) : Agree (fun a c => ∃ b, R a b ∧ S c b) x z := by
  cases left with
  | ok related =>
    cases right with
    | ok other => exact .ok ⟨_, related, other⟩
  | error fault =>
    cases right
    exact .error fault

/-- Results that show the same make equal computations of what they show. -/
theorem map_eq {f : α → γ} {g : β → γ} (same : ∀ a b, R a b → f a = g b) {x : Except φ α}
    {y : Except φ β} (agree : Agree R x y) : x.map f = y.map g := by
  cases agree with
  | ok related => exact congrArg Except.ok (same _ _ related)
  | error fault => rfl

theorem of_ok {x : Except φ α} {b : β} (agree : Agree R x (.ok b)) : ∃ a, x = .ok a ∧ R a b := by
  cases agree with
  | ok related => exact ⟨_, rfl, related⟩

theorem to_ok {a : α} {y : Except φ β} (agree : Agree R (.ok a) y) : ∃ b, y = .ok b ∧ R a b := by
  cases agree with
  | ok related => exact ⟨_, rfl, related⟩

theorem of_error {x : Except φ α} {fault : φ} (agree : Agree R x (.error fault)) :
    x = .error fault := by
  cases agree
  rfl

theorem foldlM {f : α → ε → Except φ α} {g : β → ε → Except φ β}
    (step : ∀ a b e, R a b → Agree R (f a e) (g b e)) {a : α} {b : β} (initial : R a b)
    (events : List ε) :
    Agree R (events.foldlM f a) (events.foldlM g b) := by
  induction events generalizing a b with
  | nil => exact .ok initial
  | cons e rest ih =>
    rw [List.foldlM_cons, List.foldlM_cons]
    exact (step a b e initial).bind fun _ _ related => ih related

end Agree

end Except

namespace Transducer

universe u v

variable {φ : Type u} {σ τ ε ε' ρ ρ' : Type v}

/-- Steps that agree, and show the same in their outputs, make runs that agree and show the same. -/
theorem run_agree_filterMap {κ : Type v} {R : σ → τ → Prop} {f : σ → ε → Except φ (σ × List ρ)}
    {g : τ → ε' → Except φ (τ × List ρ')} (event : ε → ε') (left : ρ → Option κ)
    (right : ρ' → Option κ)
    (step : ∀ s t e, R s t →
      Except.Agree (fun a b => R a.1 b.1 ∧ a.2.filterMap left = b.2.filterMap right) (f s e)
      (g t (event e)))
    {s : σ} {t : τ} (initial : R s t) (events : List ε) :
    Except.Agree (fun a b => R a.1 b.1 ∧ a.2.filterMap left = b.2.filterMap right)
      (run f s events) (run g t (events.map event)) := by
  induction events generalizing s t with
  | nil => exact .ok ⟨initial, rfl⟩
  | cons e rest ih =>
    apply (step s t e initial).bind
    rintro ⟨next, out⟩ ⟨next', out'⟩ ⟨related, here⟩
    apply (ih related).bind
    rintro ⟨final, outs⟩ ⟨final', outs'⟩ ⟨last, later⟩
    refine .ok ⟨last, ?_⟩
    change (out ++ outs).filterMap left = (out' ++ outs').filterMap right
    rw [List.filterMap_append, List.filterMap_append]
    exact congrArg₂ (· ++ ·) here later

/-- Steps that agree, with corresponding outputs, make runs that agree, with corresponding outputs. -/
theorem run_agree_map {R : σ → τ → Prop} {f : σ → ε → Except φ (σ × List ρ)}
    {g : τ → ε' → Except φ (τ × List ρ')} (event : ε → ε') (output : ρ → ρ')
    (step : ∀ s t e, R s t →
      Except.Agree (fun a b => R a.1 b.1 ∧ a.2.map output = b.2) (f s e) (g t (event e)))
    {s : σ} {t : τ} (initial : R s t) (events : List ε) :
    Except.Agree (fun a b => R a.1 b.1 ∧ a.2.map output = b.2) (run f s events)
      (run g t (events.map event)) := by
  have agree := run_agree_filterMap event (fun out => some (output out)) some (f := f) (g := g)
    (fun s t e related => ?step)
    initial events
  case step => simpa only [List.filterMap_eq_map', List.filterMap_some] using step s t e related
  simpa only [List.filterMap_eq_map', List.filterMap_some] using agree

/-- Steps that agree, whatever their outputs are, make runs that agree. -/
theorem run_agree_fst {R : σ → τ → Prop} {f : σ → ε → Except φ (σ × List ρ)}
    {g : τ → ε' → Except φ (τ × List ρ')} (event : ε → ε')
    (step : ∀ s t e, R s t → Except.Agree (fun a b => R a.1 b.1) (f s e) (g t (event e))) {s : σ}
    {t : τ} (initial : R s t) (events : List ε) :
    Except.Agree (fun a b => R a.1 b.1) (run f s events) (run g t (events.map event)) := by
  have silent {α : Type v} (out : List α) :
      out.filterMap (fun _ => (none : Option PUnit.{v + 1})) = [] :=
    List.filterMap_eq_nil_iff.mpr fun _ _ => rfl
  apply (run_agree_filterMap event (fun _ => (none : Option PUnit))
    (fun _ => none) ?_ initial events).mono
  · exact fun _ _ both => both.1
  · intro s t e related
    exact (step s t e related).mono fun _ _ next => ⟨next, (silent _).trans (silent _).symm⟩

/-- Steps that agree, with the same outputs, make runs that agree, with the same outputs. -/
theorem run_agree {R : σ → τ → Prop} {f : σ → ε → Except φ (σ × List ρ)}
    {g : τ → ε → Except φ (τ × List ρ)}
    (step : ∀ s t e, R s t → Except.Agree (fun a b => R a.1 b.1 ∧ a.2 = b.2) (f s e) (g t e))
    {s : σ} {t : τ} (initial : R s t) (events : List ε) :
    Except.Agree (fun a b => R a.1 b.1 ∧ a.2 = b.2) (run f s events) (run g t events) := by
  have agree := run_agree_map (f := f) (g := g) id id (fun s t e related => ?step) initial events
  case step => simpa only [List.map_id, id_eq] using step s t e related
  simpa only [List.map_id] using agree

end Transducer
