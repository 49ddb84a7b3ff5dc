import PtfConverter.ToMathlib.Transducer

/-! # Paths of a labelled transition relation

A relation says from which state which label may lead where. A transducer refines it when its outputs
are the labels of paths: it is enough that the outputs of one step are, from every pair of related
states, and that the path ends in related states again.
-/

variable {σ α : Type*}

/-- From a state, a list of labels leads to another state. -/
inductive LabelledPath (next : σ → α → σ → Prop) : σ → List α → σ → Prop
  | nil (s : σ) : LabelledPath next s [] s
  | cons {s t u : σ} {a : α} {labels : List α} (first : next s a t)
      (rest : LabelledPath next t labels u) :
      LabelledPath next s (a :: labels) u

namespace LabelledPath

variable {next : σ → α → σ → Prop}

theorem single {s t : σ} {a : α} (first : next s a t) : LabelledPath next s [a] t :=
  .cons first (.nil t)

theorem append {s t u : σ} {labels more : List α} (path : LabelledPath next s labels t)
    (later : LabelledPath next t more u) : LabelledPath next s (labels ++ more) u := by
  induction path with
  | nil s => exact later
  | cons first rest ih => exact .cons first (ih later)

/-- A path can be cut anywhere. -/
theorem split {s u : σ} (labels : List α) {more : List α}
    (path : LabelledPath next s (labels ++ more) u) :
    ∃ t, LabelledPath next s labels t ∧ LabelledPath next t more u := by
  induction labels generalizing s with
  | nil => exact ⟨s, .nil s, path⟩
  | cons a labels ih =>
    cases path with
    | cons first rest =>
      obtain ⟨t, before, after⟩ := ih rest
      exact ⟨t, .cons first before, after⟩

end LabelledPath

namespace Transducer

variable {τ ε φ : Type*} {step : τ → ε → Except φ (τ × List α)}

/-- Wherever a run takes an event, the state and the event are as the property says. -/
def Along (step : τ → ε → Except φ (τ × List α)) (property : τ → ε → Prop) (t : τ)
    (events : List ε) : Prop :=
  ∀ past e rest, events = past ++ e :: rest → ∀ middle outs, run step t past = .ok (middle, outs) →
    property middle e

theorem Along.nil (property : τ → ε → Prop) (t : τ) : Along step property t [] := by
  intro past e rest split
  exact absurd (congrArg List.length split) (by simp)

theorem Along.cons {property : τ → ε → Prop} {t : τ} {e : ε} {rest : List ε} (here : property t e)
    (later : ∀ next out, step t e = .ok (next, out) → Along step property next rest) :
    Along step property t (e :: rest) := by
  intro past e' behind split middle outs ran
  cases past with
  | nil =>
    cases split
    cases ran
    exact here
  | cons first past =>
    cases split
    obtain ⟨next, out, tail, stepped, ran, -⟩ := run_cons_ok_iff.mp ran
    exact later next out stepped past e' behind rfl middle tail ran

theorem Along.head {property : τ → ε → Prop} {t : τ} {e : ε} {rest : List ε}
    (along : Along step property t (e :: rest)) : property t e :=
  along [] e rest rfl t [] rfl

theorem Along.tail {property : τ → ε → Prop} {t next : τ} {e : ε} {rest : List ε} {out : List α}
    (along : Along step property t (e :: rest)) (stepped : step t e = .ok (next, out)) :
    Along step property next rest := by
  rintro past e' later rfl middle outs ran
  exact along (e :: past) e' later rfl middle (out ++ outs)
    (run_cons_ok_iff.mpr ⟨_, _, _, stepped, ran, rfl⟩)

/-- A run whose steps are paths, as long as the property holds, is a path. -/
theorem run_path {next : σ → α → σ → Prop} {related : τ → σ → Prop} {property : τ → ε → Prop}
    (square : ∀ {t s e t' out}, related t s → property t e → step t e = .ok (t', out) →
      ∃ s', LabelledPath next s out s' ∧ related t' s')
    {t t' : τ} {s : σ} {events : List ε} {outs : List α} (initial : related t s)
    (along : Along step property t events) (ran : run step t events = .ok (t', outs)) :
    ∃ s', LabelledPath next s outs s' ∧ related t' s' := by
  induction events generalizing t s outs with
  | nil =>
    cases ran
    exact ⟨s, .nil s, initial⟩
  | cons e rest ih =>
    obtain ⟨middle, out, tail, stepped, behind, rfl⟩ := run_cons_ok_iff.mp ran
    obtain ⟨s', here, related⟩ := square initial along.head stepped
    obtain ⟨last, later, final⟩ := ih related (along.tail stepped) behind
    exact ⟨last, here.append later, final⟩

end Transducer
