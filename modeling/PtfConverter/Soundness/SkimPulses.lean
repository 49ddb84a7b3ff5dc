import PtfConverter.Model.SkimSingle
import Mathlib.Algebra.BigOperators.Intervals
import Mathlib.Algebra.BigOperators.Ring.Finset
import Mathlib.Algebra.BigOperators.Ring.List

/-! # What the scan records of a pulse

While a pulse is open, its variables sum up the samples since it was opened; outside pulses, the
window holds the last quiet samples. Both are kept by every iteration, whatever the derivative does,
so that a pulse is recorded with its charge, its lowest sample and the baseline in front of it.
-/

namespace PtfConverter.SkimSingle

section Step

variable {thresholds : Thresholds} {chan : ℤ} {wave : Waveform} {scan : Scan} {pulse : OpenPulse}
  {j : ℕ}

theorem step_open (free : scan.inpulse = none) (large : thresholds.DerivThreshold < |wave.Deriv j|) :
    scan.step thresholds chan wave j =
      { scan with
        inpulse := some (.opened wave scan.BaseSamples j)
        reads := scan.reads ++ [(j + 1 : ℤ), (j - 1 : ℤ)] ++ [(j : ℤ), (j - 1 : ℤ), (j - 2 : ℤ)] } := by
  rw [Scan.step]
  simp only [free, if_pos large]

theorem step_quiet (free : scan.inpulse = none) (small : ¬ thresholds.DerivThreshold < |wave.Deriv j|)
    (quiet : |wave.Deriv j| < thresholds.SmallDeriv) :
    scan.step thresholds chan wave j =
      { scan with
        BaseSamples := Window.push 20 scan.BaseSamples (wave.sample j)
        reads := scan.reads ++ [(j + 1 : ℤ), (j - 1 : ℤ)] ++ [(j : ℤ)] } := by
  rw [Scan.step]
  simp only [free, if_neg small, if_pos quiet]

theorem step_idle (free : scan.inpulse = none) (small : ¬ thresholds.DerivThreshold < |wave.Deriv j|)
    (loud : ¬ |wave.Deriv j| < thresholds.SmallDeriv) :
    scan.step thresholds chan wave j =
      { scan with reads := scan.reads ++ [(j + 1 : ℤ), (j - 1 : ℤ)] } := by
  rw [Scan.step]
  simp only [free, if_neg small, if_neg loud]

theorem step_extend (inside : scan.inpulse = some pulse)
    (goes : (pulse.extend wave j).closes thresholds wave j = false) :
    scan.step thresholds chan wave j =
      { scan with
        inpulse := some (pulse.extend wave j)
        reads := scan.reads ++ [(j + 1 : ℤ), (j - 1 : ℤ)] ++ [(j : ℤ)] } := by
  rw [Scan.step]
  simp only [inside, goes, Bool.false_eq_true, if_false]

theorem step_close (inside : scan.inpulse = some pulse)
    (closes : (pulse.extend wave j).closes thresholds wave j = true) :
    scan.step thresholds chan wave j =
      { scan with
        inpulse := none
        rootevent := scan.rootevent.record chan ((pulse.extend wave j).recorded j)
        pulsecount := if (pulse.extend wave j).MaxVT < 4000 then
          scan.pulsecount + 1 else scan.pulsecount
        reads := scan.reads ++ [(j + 1 : ℤ), (j - 1 : ℤ)] ++ [(j : ℤ)] } := by
  rw [Scan.step]
  simp only [inside, closes, if_true]

@[simp] theorem extend_Start : (pulse.extend wave j).Start = pulse.Start := by
  simp only [OpenPulse.extend]
  split_ifs <;> rfl

@[simp] theorem extend_Baseline : (pulse.extend wave j).Baseline = pulse.Baseline := by
  simp only [OpenPulse.extend]
  split_ifs <;> rfl

@[simp] theorem extend_Charge : (pulse.extend wave j).Charge = pulse.Charge + wave.sample j := by
  simp only [OpenPulse.extend]
  split_ifs <;> rfl

theorem extend_MaxV : ((pulse.extend wave j).MaxV, (pulse.extend wave j).MaxVT) =
    if wave.sample j < pulse.MaxV then (wave.sample j, (j : ℤ)) else (pulse.MaxV, pulse.MaxVT) := by
  simp only [OpenPulse.extend]
  split_ifs <;> rfl

end Step

/-- The test for the end of the waveform is never true inside the loop. -/
theorem atEnd_of_lt {wave : Waveform} {j : ℕ} (inside : j < wave.bound) : wave.atEnd j = false := by
  rw [Waveform.bound] at inside
  rw [Waveform.atEnd, decide_eq_false_iff_not]
  omega

section Pulses

variable (thresholds : Thresholds) (chan : ℤ) (wave : Waveform) (rootevent : ptfEvent)

/-- The scan comes to an index in no pulse, and opens one. -/
def Opens (j : ℕ) : Prop :=
  (Scan.before thresholds chan wave rootevent j).inpulse = none ∧
    thresholds.DerivThreshold < |wave.Deriv j|

/-- A sample outside pulses, with a derivative below `SmallDeriv`. -/
def Quiet (j : ℕ) : Prop :=
  (Scan.before thresholds chan wave rootevent j).inpulse = none ∧
    ¬ thresholds.DerivThreshold < |wave.Deriv j| ∧
    |wave.Deriv j| < thresholds.SmallDeriv

instance : DecidablePred (Opens thresholds chan wave rootevent) :=
  fun _ => inferInstanceAs (Decidable (_ ∧ _))

instance : DecidablePred (Quiet thresholds chan wave rootevent) :=
  fun _ => inferInstanceAs (Decidable (_ ∧ _ ∧ _))

/-- The quiet samples in front of an index. -/
def quietSamples (j : ℕ) : List ℤ :=
  ((List.range' 1 (j - 1)).filter fun k =>
    Quiet thresholds chan wave rootevent k).map fun (k : ℕ) => wave.sample k

/-- The mean of the last 20 quiet samples in front of an index, or of all of them; 0 when there are
none. -/
def baseline (j : ℕ) : ℚ :=
  let window := (quietSamples thresholds chan wave rootevent j).rtake 20
  if window = [] then 0 else (window.sum : ℚ) / (window.length : ℚ)

/-- A sample that is back near a baseline. -/
def Settles (baseline : ℚ) (k : ℕ) : Prop :=
  |wave.Deriv k| < thresholds.SmallDeriv ∧ (-5 : ℚ) < (wave.sample k : ℚ) - baseline

/-- A pulse from the index that opens it to the one that closes it. -/
structure Pulsed (j last : ℕ) : Prop where
  opens : Opens thresholds chan wave rootevent j
  later : j < last
  inside : last < wave.bound
  between : ∀ k, j < k → k < last →
    ¬ Settles thresholds wave (baseline thresholds chan wave rootevent j) k
  settles : Settles thresholds wave (baseline thresholds chan wave rootevent j) last

/-- What is recorded of a pulse: its charge, with the baseline taken away, and its lowest sample. -/
def Describes (j last : ℕ) (pulse : Pulse) : Prop :=
  ∃ (Charge : ℤ) (MaxVT : ℕ) (MaxD MaxDT MinD MinDT : ℤ),
    Charge = ∑ k ∈ Finset.Icc (j - 2) last, wave.sample k ∧
      (j ≤ MaxVT ∧ MaxVT ≤ last) ∧ (∀ k, j ≤ k → k ≤ last → wave.sample MaxVT ≤ wave.sample k) ∧
      pulse = .new (MaxVT * 2) Charge (baseline thresholds chan wave rootevent j) (wave.sample MaxVT)
        (last - (j - 2) + 1) (j - 2) MaxD MaxDT MinD MinDT

/-- What is recorded of a pulse that an index opened: where it starts, and, when samples lie in
front of the index, what the samples up to the one that closed it say. -/
structure Recorded (j : ℕ) (pulse : Pulse) : Prop where
  start : pulse.startbin = (j : ℤ) - 2
  closed : ∃ last, Pulsed thresholds chan wave rootevent j last ∧
    (2 ≤ j → Describes thresholds chan wave rootevent j last pulse)

/-- The variables of a pulse that was opened at an index, in front of another. -/
structure Sums (j k : ℕ) (pulse : OpenPulse) : Prop where
  later : j < k
  Start : pulse.Start = (j : ℤ) - 2
  Baseline : pulse.Baseline = baseline thresholds chan wave rootevent j
  Charge : 2 ≤ j → pulse.Charge = ∑ i ∈ Finset.Ico (j - 2) k, wave.sample i
  MaxV : ∃ MaxVT : ℕ, pulse.MaxVT = MaxVT ∧
    Extremum (· ≤ ·) (fun i => wave.sample i) j k pulse.MaxV MaxVT

/-- A pulse that was opened at an index, and goes on in front of another. -/
structure Building (j k : ℕ) (pulse : OpenPulse) : Prop where
  sums : Sums thresholds chan wave rootevent j k pulse
  opens : Opens thresholds chan wave rootevent j
  going : ∀ i, j < i → i < k → ¬ Settles thresholds wave (baseline thresholds chan wave rootevent j) i

/-- The indices in front of another that open pulses. -/
def openings (k : ℕ) : List ℕ :=
  (List.range' 1 (k - 1)).filter fun j => Opens thresholds chan wave rootevent j

/-- An event with some pulses recorded. -/
def recordAll (records : List Pulse) : ptfEvent :=
  records.foldl (fun event pulse => event.record chan pulse) rootevent

/-- What holds of the scan in front of an index. -/
structure Invariant (k : ℕ) (records : List Pulse) (scan : Scan) : Prop where
  BaseSamples : scan.BaseSamples = (quietSamples thresholds chan wave rootevent k).rtake 20
  inpulse : ∀ pulse, scan.inpulse = some pulse → ∃ j, Building thresholds chan wave rootevent j k pulse
  event : scan.rootevent = recordAll chan rootevent records
  described : ∀ pulse ∈ records, ∃ j, Recorded thresholds chan wave rootevent j pulse
  opened : records.map Pulse.startbin ++ (scan.inpulse.map OpenPulse.Start).toList =
    (openings thresholds chan wave rootevent k).map fun (j : ℕ) => (j : ℤ) - 2

end Pulses

section Iterations

variable {thresholds : Thresholds} {chan : ℤ} {wave : Waveform} {rootevent : ptfEvent}
  {pulse : OpenPulse} {j k : ℕ}

theorem before_succ (k : ℕ) :
    Scan.before thresholds chan wave rootevent (k + 2) =
      (Scan.before thresholds chan wave rootevent (k + 1)).step thresholds chan wave (k + 1) := by
  rw [Scan.before, Scan.before, Nat.add_sub_cancel, Nat.add_succ_sub_one, List.range'_1_concat,
    List.foldl_append, Nat.add_comm 1 k]
  rfl

theorem quietSamples_succ (k : ℕ) :
    quietSamples thresholds chan wave rootevent (k + 2) =
      quietSamples thresholds chan wave rootevent (k + 1) ++
        if Quiet thresholds chan wave rootevent (k + 1) then [wave.sample (k + 1 : ℕ)] else [] := by
  rw [quietSamples, quietSamples, Nat.add_sub_cancel, Nat.add_succ_sub_one, List.range'_1_concat,
    List.filter_append, List.map_append, Nat.add_comm 1 k]
  congr 1
  split_ifs with quiet
  · rw [List.filter_singleton, decide_eq_true quiet]
    rfl
  · rw [List.filter_singleton, decide_eq_false quiet]
    rfl

theorem quietSamples_of_loud (loud : ¬ Quiet thresholds chan wave rootevent (k + 1)) :
    quietSamples thresholds chan wave rootevent (k + 2) =
      quietSamples thresholds chan wave rootevent (k + 1) := by
  rw [quietSamples_succ, if_neg loud, List.append_nil]

theorem openings_succ (k : ℕ) :
    openings thresholds chan wave rootevent (k + 2) =
      openings thresholds chan wave rootevent (k + 1) ++
        if Opens thresholds chan wave rootevent (k + 1) then [k + 1] else [] := by
  rw [openings, openings, Nat.add_sub_cancel, Nat.add_succ_sub_one, List.range'_1_concat,
    List.filter_append, Nat.add_comm 1 k]
  congr 1
  split_ifs with opens
  · rw [List.filter_singleton, decide_eq_true opens]
    rfl
  · rw [List.filter_singleton, decide_eq_false opens]
    rfl

theorem openings_of_closed (closed : ¬ Opens thresholds chan wave rootevent (k + 1)) :
    openings thresholds chan wave rootevent (k + 2) =
      openings thresholds chan wave rootevent (k + 1) := by
  rw [openings_succ, if_neg closed, List.append_nil]

/-- The quotients add up to the mean. -/
theorem opened_Baseline {BaseSamples : List ℤ}
    (window : BaseSamples = (quietSamples thresholds chan wave rootevent j).rtake 20) :
    (OpenPulse.opened wave BaseSamples j).Baseline = baseline thresholds chan wave rootevent j := by
  rw [OpenPulse.opened, baseline]
  simp only [← window, div_eq_mul_inv]
  rw [List.sum_map_mul_right]
  split_ifs with none
  · rw [none, List.map_nil, List.sum_nil, zero_mul]
  · rw [Int.cast_list_sum]

theorem sums_opened {BaseSamples : List ℤ}
    (window : BaseSamples = (quietSamples thresholds chan wave rootevent j).rtake 20) :
    Sums thresholds chan wave rootevent j (j + 1) (.opened wave BaseSamples j) := by
  refine ⟨Nat.lt_succ_self j, rfl, opened_Baseline window, fun two => ?_, j, rfl,
    Extremum.single le_rfl⟩
  obtain ⟨m, rfl⟩ := Nat.exists_eq_add_of_le' two
  rw [Nat.add_sub_cancel, Finset.sum_Ico_succ_top (by omega), Finset.sum_Ico_succ_top (by omega),
    Finset.sum_Ico_succ_top (by omega), Finset.Ico_self, Finset.sum_empty, OpenPulse.opened]
  have one : ((m + 2 : ℕ) : ℤ) - 1 = (m + 1 : ℕ) := by omega
  have two : ((m + 2 : ℕ) : ℤ) - 2 = (m : ℕ) := by omega
  simp only [one, two]
  omega

theorem Sums.extend (sums : Sums thresholds chan wave rootevent j k pulse) :
    Sums thresholds chan wave rootevent j (k + 1) (pulse.extend wave k) := by
  obtain ⟨MaxVT, place, extremum⟩ := sums.MaxV
  have later := sums.later
  refine ⟨Nat.lt_succ_of_lt sums.later, extend_Start.trans sums.Start,
    extend_Baseline.trans sums.Baseline, fun two => ?_, ?_⟩
  · rw [extend_Charge, sums.Charge two, Finset.sum_Ico_succ_top (by omega)]
  · have pair := @extend_MaxV wave pulse k
    split_ifs at pair with lower
    · obtain ⟨value, new⟩ := Prod.mk.inj pair
      rw [value]
      exact ⟨k, new, extremum.replace le_rfl lower.le⟩
    · obtain ⟨value, old⟩ := Prod.mk.inj pair
      rw [value]
      exact ⟨MaxVT, old.trans place, extremum.keep (not_lt.mp lower)⟩

/-- Inside the loop, a pulse ends where it settles. -/
theorem closes_iff (inside : k < wave.bound) :
    pulse.closes thresholds wave k = true ↔ Settles thresholds wave pulse.Baseline k := by
  rw [OpenPulse.closes, atEnd_of_lt inside, Bool.or_false, Bool.and_eq_true, decide_eq_true_eq,
    decide_eq_true_eq]
  rfl

theorem Sums.closes_iff (sums : Sums thresholds chan wave rootevent j k pulse)
    (inside : k < wave.bound) :
    (pulse.extend wave k).closes thresholds wave k = true ↔
      Settles thresholds wave (baseline thresholds chan wave rootevent j) k := by
  rw [SkimSingle.closes_iff inside, extend_Baseline, sums.Baseline]

/-- What is recorded of a pulse that ends. -/
theorem Sums.describes (sums : Sums thresholds chan wave rootevent j (k + 1) pulse) (two : 2 ≤ j) :
    Describes thresholds chan wave rootevent j k (pulse.recorded k) := by
  obtain ⟨MaxVT, place, extremum⟩ := sums.MaxV
  refine ⟨pulse.Charge, MaxVT, pulse.MaxD, pulse.MaxDT, pulse.MinD, pulse.MinDT, sums.Charge two,
    ?_, ?_, ?_⟩
  · exact ⟨extremum.inside.1, Nat.le_of_lt_succ extremum.inside.2⟩
  · intro i low high
    exact extremum.attained.symm.le.trans (extremum.extreme i low (Nat.lt_succ_of_le high))
  · rw [OpenPulse.recorded, place, sums.Start, sums.Baseline, extremum.attained]
    rfl

section Branches

variable {records : List Pulse}
  (invariant : Invariant thresholds chan wave rootevent (k + 1) records
    (Scan.before thresholds chan wave rootevent (k + 1)))

include invariant

theorem Invariant.opened_of_none
    (state : (Scan.before thresholds chan wave rootevent (k + 1)).inpulse = none) :
    records.map Pulse.startbin =
      (openings thresholds chan wave rootevent (k + 1)).map fun (j : ℕ) => (j : ℤ) - 2 := by
  have opened := invariant.opened
  rwa [state, Option.map_none, Option.toList_none, List.append_nil] at opened

/-- A large derivative opens a pulse. -/
theorem Invariant.opens (state : (Scan.before thresholds chan wave rootevent (k + 1)).inpulse = none)
    (large : thresholds.DerivThreshold < |wave.Deriv (k + 1 : ℕ)|) :
    Invariant thresholds chan wave rootevent (k + 2) records
      (Scan.before thresholds chan wave rootevent (k + 2)) := by
  have opens : Opens thresholds chan wave rootevent (k + 1) := ⟨state, large⟩
  have loud : ¬ Quiet thresholds chan wave rootevent (k + 1) := fun quiet => quiet.2.1 large
  rw [before_succ, step_open state large]
  refine ⟨?_, ?_, invariant.event, invariant.described, ?_⟩
  · rw [quietSamples_of_loud loud]
    exact invariant.BaseSamples
  · rintro pulse same
    obtain rfl := Option.some.inj same
    refine ⟨k + 1, sums_opened invariant.BaseSamples, opens, fun i low high => ?_⟩
    omega
  · rw [openings_succ, if_pos opens, List.map_append, ← invariant.opened_of_none state]
    rfl

/-- Any other sample outside of pulses at most goes into the baseline. -/
theorem Invariant.waits (state : (Scan.before thresholds chan wave rootevent (k + 1)).inpulse = none)
    (large : ¬ thresholds.DerivThreshold < |wave.Deriv (k + 1 : ℕ)|) :
    Invariant thresholds chan wave rootevent (k + 2) records
      (Scan.before thresholds chan wave rootevent (k + 2)) := by
  have closed : ¬ Opens thresholds chan wave rootevent (k + 1) := fun opens => large opens.2
  have opened := invariant.opened_of_none state
  rw [← openings_of_closed closed] at opened
  rw [before_succ]
  by_cases small : |wave.Deriv (k + 1 : ℕ)| < thresholds.SmallDeriv
  · have quiet : Quiet thresholds chan wave rootevent (k + 1) := ⟨state, large, small⟩
    rw [step_quiet state large small]
    refine ⟨?_, ?_, invariant.event, invariant.described, ?_⟩
    · rw [quietSamples_succ, if_pos quiet, ← Window.push_rtake, ← invariant.BaseSamples]
    · rintro pulse same
      rw [state] at same
      cases same
    · rw [← opened, state]
      exact List.append_nil _
  · have loud : ¬ Quiet thresholds chan wave rootevent (k + 1) := fun quiet => small quiet.2.2
    rw [step_idle state large small]
    refine ⟨?_, ?_, invariant.event, invariant.described, ?_⟩
    · rw [quietSamples_of_loud loud]
      exact invariant.BaseSamples
    · rintro pulse same
      rw [state] at same
      cases same
    · rw [← opened, state]
      exact List.append_nil _

/-- In a pulse no other is opened, and no sample is quiet. -/
theorem Invariant.of_some
    (state : (Scan.before thresholds chan wave rootevent (k + 1)).inpulse = some pulse) :
    (Scan.before thresholds chan wave rootevent (k + 1)).BaseSamples =
        (quietSamples thresholds chan wave rootevent (k + 2)).rtake 20 ∧
      records.map Pulse.startbin ++ [pulse.Start] =
        (openings thresholds chan wave rootevent (k + 2)).map fun (j : ℕ) => (j : ℤ) - 2 := by
  have busy : (Scan.before thresholds chan wave rootevent (k + 1)).inpulse ≠ none := by
    rw [state]
    exact Option.some_ne_none pulse
  have opened := invariant.opened
  rw [state, Option.map_some, Option.toList_some] at opened
  rw [quietSamples_of_loud fun quiet => busy quiet.1, openings_of_closed fun opens => busy opens.1]
  exact ⟨invariant.BaseSamples, opened⟩

/-- A sample where the pulse settles closes and records it. -/
theorem Invariant.closes
    (state : (Scan.before thresholds chan wave rootevent (k + 1)).inpulse = some pulse)
    (building : Building thresholds chan wave rootevent j (k + 1) pulse)
    (inside : k + 1 < wave.bound)
    (settles : Settles thresholds wave (baseline thresholds chan wave rootevent j) (k + 1)) :
    Invariant thresholds chan wave rootevent (k + 2)
      (records ++ [(pulse.extend wave (k + 1)).recorded (k + 1)])
      (Scan.before thresholds chan wave rootevent (k + 2)) := by
  obtain ⟨window, opened⟩ := invariant.of_some state
  have start : ((pulse.extend wave (k + 1)).recorded (k + 1)).startbin = pulse.Start := extend_Start
  rw [before_succ, step_close state ((building.sums.closes_iff inside).mpr settles)]
  refine ⟨window, ?_, ?_, ?_, ?_⟩
  · rintro pulse same
    cases same
  · rw [recordAll, List.foldl_append, invariant.event]
    rfl
  · intro pulse member
    rcases List.mem_append.mp member with old | new
    · exact invariant.described pulse old
    · obtain rfl := List.mem_singleton.mp new
      exact ⟨j, start.trans building.sums.Start, k + 1,
        ⟨building.opens, building.sums.later, inside, building.going, settles⟩,
        building.sums.extend.describes⟩
  · rw [← opened, List.map_append, List.map_singleton, start]
    exact List.append_nil _

/-- At any other sample the pulse goes on. -/
theorem Invariant.extends
    (state : (Scan.before thresholds chan wave rootevent (k + 1)).inpulse = some pulse)
    (building : Building thresholds chan wave rootevent j (k + 1) pulse)
    (inside : k + 1 < wave.bound)
    (settles : ¬ Settles thresholds wave (baseline thresholds chan wave rootevent j) (k + 1)) :
    Invariant thresholds chan wave rootevent (k + 2) records
      (Scan.before thresholds chan wave rootevent (k + 2)) := by
  obtain ⟨window, opened⟩ := invariant.of_some state
  have goes : (pulse.extend wave (k + 1)).closes thresholds wave (k + 1) = false :=
    Bool.eq_false_iff.mpr (mt (building.sums.closes_iff inside).mp settles)
  rw [before_succ, step_extend state goes]
  refine ⟨window, ?_, invariant.event, invariant.described, ?_⟩
  · rintro _ same
    obtain rfl := Option.some.inj same
    refine ⟨j, building.sums.extend, building.opens, fun i low high => ?_⟩
    rcases Nat.lt_succ_iff_lt_or_eq.mp high with before | rfl
    · exact building.going i low before
    · exact settles
  · rw [← opened, Option.map_some, extend_Start]
    rfl

/-- Every iteration keeps the invariant, and records at most one pulse. -/
theorem Invariant.step (inside : k + 1 < wave.bound) :
    ∃ more, Invariant thresholds chan wave rootevent (k + 2) (records ++ more)
      (Scan.before thresholds chan wave rootevent (k + 2)) := by
  cases state : (Scan.before thresholds chan wave rootevent (k + 1)).inpulse with
  | none =>
    refine ⟨[], ?_⟩
    rw [List.append_nil]
    by_cases large : thresholds.DerivThreshold < |wave.Deriv (k + 1 : ℕ)|
    · exact invariant.opens state large
    · exact invariant.waits state large
  | some pulse =>
    obtain ⟨j, building⟩ := invariant.inpulse pulse state
    by_cases settles : Settles thresholds wave (baseline thresholds chan wave rootevent j) (k + 1)
    · exact ⟨_, invariant.closes state building inside settles⟩
    · refine ⟨[], ?_⟩
      rw [List.append_nil]
      exact invariant.extends state building inside settles

end Branches

theorem invariant_before (inside : k ≤ wave.bound - 1) :
    ∃ records, Invariant thresholds chan wave rootevent (k + 1) records
      (Scan.before thresholds chan wave rootevent (k + 1)) := by
  induction k with
  | zero =>
    refine ⟨[], rfl, fun pulse same => ?_, rfl, fun pulse member => ?_, rfl⟩
    · cases same
    · cases member
  | succ k ih =>
    obtain ⟨records, invariant⟩ := ih (Nat.le_of_succ_le inside)
    obtain ⟨more, next⟩ := invariant.step (by omega)
    exact ⟨records ++ more, next⟩

end Iterations

/-- The scan is the state behind its last iteration. -/
theorem scan_eq_before (thresholds : Thresholds) (chan : ℤ) (wave : Waveform) (rootevent : ptfEvent) :
    scan thresholds chan wave rootevent =
      Scan.before thresholds chan wave rootevent (wave.bound - 1 + 1) := by
  rw [scan, Scan.before, Nat.add_sub_cancel]

theorem recordAll_target (rootevent : ptfEvent) (records : List Pulse) :
    (recordAll 0 rootevent records).targetpmtpulses = rootevent.targetpmtpulses ++ records := by
  induction records generalizing rootevent with
  | nil => exact (List.append_nil _).symm
  | cons pulse records ih =>
    change (recordAll 0 (rootevent.AddTargetPulse pulse) records).targetpmtpulses = _
    rw [ih, ptfEvent.AddTargetPulse, List.append_assoc]
    rfl

section Conservation

variable (thresholds : Thresholds) (chan : ℤ) (wave : Waveform) (rootevent : ptfEvent)

/-- The pulses that the scan records are those that it opens, each of them once. -/
def Conserves : Prop :=
  ∃ records, (scan thresholds chan wave rootevent).rootevent = recordAll chan rootevent records ∧
    records.map Pulse.startbin =
      (openings thresholds chan wave rootevent wave.bound).map fun (j : ℕ) => (j : ℤ) - 2

/-- At its last index, the scan opens a pulse, or it comes to it in a pulse that does not settle
there. -/
def EndsInPulse : Prop :=
  1 < wave.bound ∧
    match (Scan.before thresholds chan wave rootevent (wave.bound - 1)).inpulse with
    | none => thresholds.DerivThreshold < |wave.Deriv (wave.bound - 1 : ℕ)|
    | some pulse => ¬ Settles thresholds wave pulse.Baseline (wave.bound - 1)

variable {thresholds chan wave rootevent}

theorem recordAll_monitor (records : List Pulse) :
    (recordAll 1 rootevent records).monitor0pulses = rootevent.monitor0pulses ++ records := by
  induction records generalizing rootevent with
  | nil => exact (List.append_nil _).symm
  | cons pulse records ih =>
    change (recordAll 1 (rootevent.AddMonitor0Pulse pulse) records).monitor0pulses = _
    rw [ih, ptfEvent.AddMonitor0Pulse, List.append_assoc]
    rfl

/-- In both channels, the event shows what was recorded. -/
theorem recordAll_inj (channel : chan = 0 ∨ chan = 1) {records others : List Pulse}
    (same : recordAll chan rootevent records = recordAll chan rootevent others) : records = others := by
  rcases channel with rfl | rfl
  · have lists := congrArg ptfEvent.targetpmtpulses same
    rwa [recordAll_target, recordAll_target, List.append_cancel_left_eq] at lists
  · have lists := congrArg ptfEvent.monitor0pulses same
    rwa [recordAll_monitor, recordAll_monitor, List.append_cancel_left_eq] at lists

/-- Only a pulse that is open behind the loop is lost. -/
theorem conserves_iff_closed (channel : chan = 0 ∨ chan = 1) :
    Conserves thresholds chan wave rootevent ↔
      (scan thresholds chan wave rootevent).inpulse = none := by
  obtain ⟨records, invariant⟩ := @invariant_before thresholds chan wave rootevent _ le_rfl
  rw [← scan_eq_before] at invariant
  have opened := invariant.opened
  rw [openings, Nat.add_sub_cancel, ← openings] at opened
  constructor
  · rintro ⟨others, event', startbins⟩
    obtain rfl := recordAll_inj channel (event'.symm.trans invariant.event)
    rw [startbins] at opened
    have none := List.append_right_eq_self.mp opened
    rw [Option.toList_eq_nil_iff, Option.map_eq_none_iff] at none
    exact none
  · intro closed
    rw [closed, Option.map_none, Option.toList_none, List.append_nil] at opened
    exact ⟨records, invariant.event, opened⟩

theorem step_free {scan : Scan} {j : ℕ} (free : scan.inpulse = none) :
    (scan.step thresholds chan wave j).inpulse = none ↔
      ¬ thresholds.DerivThreshold < |wave.Deriv j| := by
  by_cases large : thresholds.DerivThreshold < |wave.Deriv j|
  · rw [step_open free large]
    exact iff_of_false (Option.some_ne_none _) fun small => small large
  · by_cases quiet : |wave.Deriv j| < thresholds.SmallDeriv
    · rw [step_quiet free large quiet]
      exact iff_of_true free large
    · rw [step_idle free large quiet]
      exact iff_of_true free large

theorem step_busy {scan : Scan} {pulse : OpenPulse} {j : ℕ} (busy : scan.inpulse = some pulse)
    (inside : j < wave.bound) :
    (scan.step thresholds chan wave j).inpulse = none ↔ Settles thresholds wave pulse.Baseline j := by
  have closes : (pulse.extend wave j).closes thresholds wave j = true ↔
      Settles thresholds wave pulse.Baseline j := by
    rw [closes_iff inside, extend_Baseline]
  by_cases settles : Settles thresholds wave pulse.Baseline j
  · rw [step_close busy (closes.mpr settles)]
    exact iff_of_true rfl settles
  · rw [step_extend busy (Bool.eq_false_iff.mpr (mt closes.mp settles))]
    exact iff_of_false (Option.some_ne_none _) settles

/-- The last iteration decides whether a pulse stays open. -/
theorem scan_inpulse :
    (scan thresholds chan wave rootevent).inpulse = none ↔
      ¬ EndsInPulse thresholds chan wave rootevent := by
  by_cases some : 1 < wave.bound
  · obtain ⟨k, bound⟩ := Nat.exists_eq_add_of_le' some
    have inside : k + 1 < wave.bound := by omega
    have last : wave.bound - 1 = k + 1 := by omega
    rw [scan_eq_before, EndsInPulse, last, before_succ, and_iff_right some]
    cases state : (Scan.before thresholds chan wave rootevent (k + 1)).inpulse with
    | none => exact step_free state
    | some pulse => exact (step_busy state inside).trans not_not.symm
  · have none : wave.bound - 1 = 0 := by omega
    rw [scan_eq_before, none]
    exact iff_of_true rfl fun ends => some ends.1

end Conservation

/-- The scan of a channel conserves its pulses exactly when the waveform does not end in a pulse. -/
theorem conserves_iff (thresholds : Thresholds) (chan : ℤ) (channel : chan = 0 ∨ chan = 1)
    (wave : Waveform) (rootevent : ptfEvent) :
    Conserves thresholds chan wave rootevent ↔ ¬ EndsInPulse thresholds chan wave rootevent :=
  (conserves_iff_closed channel).trans scan_inpulse

/-- One low sample between high ones. -/
def dip : Waveform := ⟨[100, 100, 100, 0, 100, 100, 100], fun _ => 0, by decide⟩

theorem conserves_iff_dip : Conserves .initial 1 dip ⟨[], []⟩ :=
  (conserves_iff .initial 1 (.inr rfl) dip _).mpr (scan_inpulse.mp (by decide +kernel))

/-- Four samples, with a step at the end. -/
def endingStep : Waveform := ⟨[0, 0, 0, 100], fun _ => 0, by decide⟩

/-- The step opens a pulse at the last index of the loop, and nothing records it. -/
theorem endingStep_lost : ¬ Conserves .initial 0 endingStep ⟨[], []⟩ := by
  rw [conserves_iff_closed (.inl rfl)]
  decide

end PtfConverter.SkimSingle
