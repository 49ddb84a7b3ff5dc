import PtfConverter.ToMathlib.Transducer
import Mathlib.Logic.Function.Basic

/-! # Interleavings of several streams under markers

Several streams of words are sent as one: a marker names the stream that the words behind it belong
to, until the next marker. `Interleaving` is the relation between what the streams still hold before
and after a list of words was sent. A step function that keeps an invariant across a marker and
across the next word of the current stream keeps it across every interleaving.
-/

variable {γ ω σ φ : Type*} [DecidableEq γ] {marker : γ → ω}

/-- From a current stream, with the words that each stream still holds, a list of words leads to
another current stream and what is left. -/
inductive Interleaving (marker : γ → ω) : γ → (γ → List ω) → List ω → γ → (γ → List ω) → Prop
  | done (g : γ) (streams : γ → List ω) : Interleaving marker g streams [] g streams
  | mark {g last : γ} (next : γ) {streams left : γ → List ω} {words : List ω}
      (rest : Interleaving marker next streams words last left) :
      Interleaving marker g streams (marker next :: words) last left
  | word {g last : γ} {streams left : γ → List ω} {head : ω} {tail words : List ω}
      (front : streams g = head :: tail)
      (rest : Interleaving marker g (Function.update streams g tail) words last left) :
      Interleaving marker g streams (head :: words) last left

namespace Interleaving

theorem finished {g : γ} {streams left : γ → List ω} (same : ∀ h, streams h = left h) :
    Interleaving marker g streams [] g left := by
  rw [← funext same]
  exact .done g streams

/-- Several words of the current stream may be sent at once. -/
theorem send {g last : γ} (first tail : List ω) {streams left : γ → List ω} {words : List ω}
    (front : streams g = first ++ tail)
    (rest : Interleaving marker g (Function.update streams g tail) words last left) :
    Interleaving marker g streams (first ++ words) last left := by
  induction first generalizing streams with
  | nil =>
    rw [List.nil_append] at front
    rwa [← front, Function.update_eq_self] at rest
  | cons head first ih =>
    refine .word front (ih (Function.update_self ..) ?_)
    rwa [Function.update_idem]

/-- An interleaving can be cut anywhere. -/
theorem split {g last : γ} {streams left : γ → List ω} (first : List ω) {second : List ω}
    (sent : Interleaving marker g streams (first ++ second) last left) :
    ∃ middle between, Interleaving marker g streams first middle between ∧
      Interleaving marker middle between second last left := by
  induction first generalizing g streams with
  | nil => exact ⟨g, streams, .done g streams, sent⟩
  | cons head first ih =>
    cases sent with
    | mark next rest =>
      obtain ⟨middle, between, before, after⟩ := ih rest
      exact ⟨middle, between, .mark next before, after⟩
    | word front rest =>
      obtain ⟨middle, between, before, after⟩ := ih rest
      exact ⟨middle, between, .word front before, after⟩

/-- A sent word is a marker or comes from a stream. -/
theorem origin {g last : γ} {streams left : γ → List ω} {words : List ω}
    (sent : Interleaving marker g streams words last left) {word : ω} (member : word ∈ words) :
    (∃ h, word = marker h) ∨ ∃ h, word ∈ streams h := by
  induction sent with
  | done g streams => cases member
  | mark next rest ih =>
    rcases List.mem_cons.mp member with rfl | later
    · exact .inl ⟨next, rfl⟩
    · exact ih later
  | @word g last streams left head tail words front rest ih =>
    rcases List.mem_cons.mp member with rfl | later
    · exact .inr ⟨g, by rw [front]; exact List.mem_cons_self⟩
    · refine (ih later).imp_right ?_
      rintro ⟨h, held⟩
      refine ⟨h, ?_⟩
      by_cases same : h = g
      · subst same
        rw [Function.update_self] at held
        rw [front]
        exact List.mem_cons_of_mem _ held
      · rwa [Function.update_of_ne same] at held

/-- When nothing is left, every word of every stream was sent. -/
theorem sent_of_empty {g last : γ} {streams left : γ → List ω} {words : List ω}
    (sent : Interleaving marker g streams words last left) (empty : ∀ h, left h = []) {h : γ} {word : ω}
    (member : word ∈ streams h) : word ∈ words := by
  induction sent with
  | done g streams =>
    rw [empty h] at member
    cases member
  | mark next rest ih => exact List.mem_cons_of_mem _ (ih empty member)
  | @word g last streams left head tail words front rest ih =>
    by_cases same : h = g
    · subst same
      rw [front] at member
      rcases List.mem_cons.mp member with rfl | later
      · exact List.mem_cons_self
      · exact List.mem_cons_of_mem _ (ih empty (by rwa [Function.update_self]))
    · exact List.mem_cons_of_mem _ (ih empty (by rwa [Function.update_of_ne same]))

/-- What each step keeps, every interleaving keeps. -/
theorem foldlM_ok {step : σ → ω → Except φ σ} {Inv : γ → (γ → List ω) → σ → Prop}
    (onMark : ∀ {g streams s} (next : γ), Inv g streams s →
      ∃ t, step s (marker next) = .ok t ∧ Inv next streams t)
    (onWord : ∀ {g streams s head tail}, Inv g streams s → streams g = head :: tail →
      ∃ t, step s head = .ok t ∧ Inv g (Function.update streams g tail) t)
    {g last : γ} {streams left : γ → List ω} {words : List ω}
    (sent : Interleaving marker g streams words last left) {s : σ} (initial : Inv g streams s) :
    ∃ t, words.foldlM step s = .ok t ∧ Inv last left t := by
  induction sent generalizing s with
  | done g streams => exact ⟨s, rfl, initial⟩
  | mark next rest ih =>
    obtain ⟨t, stepped, kept⟩ := onMark next initial
    rw [List.foldlM_cons, stepped, Except.ok_bind]
    exact ih kept
  | word front rest ih =>
    obtain ⟨t, stepped, kept⟩ := onWord initial front
    rw [List.foldlM_cons, stepped, Except.ok_bind]
    exact ih kept

end Interleaving
