import PtfConverter.Soundness.SkimPulses

/-! # Which samples the scan reads

An iteration reads the samples next to its index, and two samples back when it opens a pulse. The loop
keeps the index away from both ends, by one sample; so a pulse that opens at index 1 begins in front
of the samples. In an empty waveform the bound of the loop wraps around.
-/

namespace PtfConverter.SkimSingle

section Reads

variable {thresholds : Thresholds} {chan : ℤ} {wave : Waveform} {rootevent : ptfEvent} {scan : Scan}
  {j k : ℕ}

/-- The indices that one iteration reads: next to its own, and two samples back to open a pulse. -/
theorem step_reads :
    ∃ more, (scan.step thresholds chan wave j).reads =
      scan.reads ++ [(j + 1 : ℤ), (j - 1 : ℤ)] ++ more ∧
    ∀ i ∈ more, i = j ∨ i = j - 1 ∨
      i = j - 2 ∧ scan.inpulse = none ∧ thresholds.DerivThreshold < |wave.Deriv j| := by
  cases state : scan.inpulse with
  | none =>
    by_cases large : thresholds.DerivThreshold < |wave.Deriv j|
    · refine ⟨_, congrArg Scan.reads (step_open state large), fun i member => ?_⟩
      simp only [List.mem_cons, List.not_mem_nil, or_false] at member
      rcases member with here | before | back
      · exact .inl here
      · exact .inr (.inl before)
      · exact .inr (.inr ⟨back, rfl, large⟩)
    · by_cases quiet : |wave.Deriv j| < thresholds.SmallDeriv
      · refine ⟨_, congrArg Scan.reads (step_quiet state large quiet), fun i member => ?_⟩
        exact .inl (List.mem_singleton.mp member)
      · refine ⟨[], ?_, fun i member => absurd member List.not_mem_nil⟩
        rw [step_idle state large quiet, List.append_nil]
  | some pulse =>
    cases closes : (pulse.extend wave j).closes thresholds wave j with
    | true =>
      refine ⟨_, congrArg Scan.reads (step_close state closes), fun i member => ?_⟩
      exact .inl (List.mem_singleton.mp member)
    | false =>
      refine ⟨_, congrArg Scan.reads (step_extend state closes), fun i member => ?_⟩
      exact .inl (List.mem_singleton.mp member)

/-- What was read stays read. -/
theorem before_reads (later : j ≤ k) :
    (Scan.before thresholds chan wave rootevent (j + 1)).reads ⊆
      (Scan.before thresholds chan wave rootevent (k + 1)).reads := by
  induction k, later using Nat.le_induction with
  | base => exact List.Subset.refl _
  | succ k _ ih =>
    obtain ⟨more, reads, _⟩ :=
      @step_reads thresholds chan wave (Scan.before thresholds chan wave rootevent (k + 1)) (k + 1)
    rw [before_succ, reads, List.append_assoc]
    exact List.Subset.trans ih (List.subset_append_left _ _)

end Reads

variable (thresholds : Thresholds) (chan : ℤ) (wave : Waveform) (rootevent : ptfEvent)

/-- The scan reads samples only, and opens no pulse in front of them. -/
def ScansInside : Prop :=
  (∀ i ∈ (scan thresholds chan wave rootevent).reads, 0 ≤ i ∧ i < wave.size) ∧
    ∀ j ∈ openings thresholds chan wave rootevent wave.bound, 0 ≤ (j : ℤ) - 2

/-- There are samples, and no large derivative between the first and the third. -/
def StartsFlat : Prop :=
  wave.samples ≠ [] ∧ ∀ first third, wave.samples[0]? = some first → wave.samples[2]? = some third →
    |(third.toNat : ℤ) - first.toNat| ≤ thresholds.DerivThreshold

variable {thresholds chan wave rootevent}

theorem sample_natCast {k : ℕ} {value : BitVec 16} (found : wave.samples[k]? = some value) :
    wave.sample k = value.toNat := by
  rw [Waveform.sample, if_pos (Int.natCast_nonneg k), Int.toNat_natCast, found]

/-- With three samples, the first derivative is that of the first and the third. -/
theorem Deriv_one {first third : BitVec 16} (head : wave.samples[0]? = some first)
    (next : wave.samples[2]? = some third) :
    wave.Deriv 1 = third.toNat - first.toNat := by
  have low : wave.sample (1 - 1) = first.toNat := sample_natCast head
  have high : wave.sample (1 + 1) = third.toNat := sample_natCast next
  rw [Waveform.Deriv, high, low]

/-- The loop stays one sample away from the end. -/
theorem bound_eq (some : wave.samples ≠ []) : wave.bound = wave.size - 1 := by
  have positive := List.length_pos_iff.mpr some
  have fits := wave.fits
  rw [Waveform.bound, Waveform.size]
  omega

/-- A large first derivative opens a pulse at index 1. -/
theorem one_mem_openings (long : 3 ≤ wave.size) (large : thresholds.DerivThreshold < |wave.Deriv 1|) :
    1 ∈ openings thresholds chan wave rootevent wave.bound := by
  have some : wave.samples ≠ [] := by
    rintro none
    rw [Waveform.size, none] at long
    exact absurd long (by decide)
  have opens : Opens thresholds chan wave rootevent 1 := ⟨rfl, large⟩
  rw [openings, List.mem_filter, List.mem_range'_1, bound_eq some]
  exact ⟨by omega, decide_eq_true opens⟩

/-- An empty waveform is read at its third place. -/
theorem two_mem_reads (none : wave.samples = []) : 2 ∈ (scan thresholds chan wave rootevent).reads := by
  have wraps : 1 ≤ wave.bound - 1 := by
    rw [Waveform.bound, Waveform.size, none]
    decide
  obtain ⟨more, reads, _⟩ :=
    @step_reads thresholds chan wave (Scan.before thresholds chan wave rootevent 1) 1
  rw [scan_eq_before]
  apply before_reads wraps
  rw [before_succ, reads]
  exact List.mem_append_left _ (List.mem_append_right _ List.mem_cons_self)

/-- Where the waveform starts flat, no pulse opens at index 1. -/
theorem not_opens_one (flat : StartsFlat thresholds wave) (inside : 1 < wave.bound) :
    ¬ thresholds.DerivThreshold < |wave.Deriv 1| := by
  obtain ⟨some, small⟩ := flat
  rw [bound_eq some, Waveform.size] at inside
  have head := List.getElem?_eq_getElem (l := wave.samples) (i := 0) (by omega)
  have next := List.getElem?_eq_getElem (l := wave.samples) (i := 2) (by omega)
  rw [Deriv_one head next]
  exact not_lt.mpr (small _ _ head next)

/-- Where the waveform starts flat, every iteration reads inside. -/
theorem before_inside (flat : StartsFlat thresholds wave) {k : ℕ} (inside : k ≤ wave.bound - 1) :
    ∀ i ∈ (Scan.before thresholds chan wave rootevent (k + 1)).reads, 0 ≤ i ∧ i < wave.size := by
  have size := bound_eq flat.1
  induction k with
  | zero => exact fun i member => absurd member List.not_mem_nil
  | succ k ih =>
    intro i member
    obtain ⟨more, reads, behind⟩ :=
      @step_reads thresholds chan wave (Scan.before thresholds chan wave rootevent (k + 1)) (k + 1)
    rw [before_succ, reads, List.mem_append, List.mem_append, List.mem_cons,
      List.mem_singleton] at member
    rcases member with (old | next | previous) | new
    · exact ih (Nat.le_of_succ_le inside) i old
    · omega
    · omega
    · rcases behind i new with here | previous | ⟨back, _, large⟩
      · omega
      · omega
      · rcases Nat.eq_zero_or_pos k with rfl | later
        · exact absurd large (not_opens_one flat (by omega))
        · omega

/-- The scan stays inside the samples exactly when there are some, and the waveform starts flat. -/
theorem scansInside_iff (thresholds : Thresholds) (chan : ℤ) (wave : Waveform) (rootevent : ptfEvent) :
    ScansInside thresholds chan wave rootevent ↔ StartsFlat thresholds wave := by
  constructor
  · rintro ⟨reads, starts⟩
    refine ⟨fun none => ?_, fun first third head next => ?_⟩
    · have past := (reads 2 (two_mem_reads none)).2
      rw [Waveform.size, none] at past
      exact absurd past (by decide)
    · by_contra large
      rw [not_le, ← Deriv_one head next] at large
      obtain ⟨long, _⟩ := List.getElem?_eq_some_iff.mp next
      have front := starts 1 (one_mem_openings long large)
      exact absurd front (by decide)
  · intro flat
    refine ⟨?_, fun j member => ?_⟩
    · rw [scan_eq_before]
      exact before_inside flat le_rfl
    · rw [openings, List.mem_filter, List.mem_range'_1, decide_eq_true_eq] at member
      obtain ⟨⟨low, high⟩, opens⟩ := member
      rcases Nat.eq_or_lt_of_le low with rfl | later
      · exact absurd opens.2 (not_opens_one flat (by omega))
      · omega

/-- A step between the first and the third sample. -/
def startingStep : Waveform := ⟨[0, 0, 100], fun _ => 0, by decide⟩

/-- The first iteration opens a pulse, and reads the sample in front of the first one. -/
theorem startingStep_outside : ¬ ScansInside .initial 0 startingStep ⟨[], []⟩ := by
  rintro ⟨_, starts⟩
  have front := starts 1 (by decide)
  exact absurd front (by decide)

end PtfConverter.SkimSingle
