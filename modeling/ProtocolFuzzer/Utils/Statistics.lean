/-
# Statistics of samples

`Statistics` keeps a count, two sums and two extremes while samples come in, and computes
the average and the variance from them. `Describes` says what the five numbers are of the
samples so far. The extremes start at infinity, so they range over the numbers with an
infinity added; everything else is exact arithmetic.
-/

import Mathlib.Data.List.MinMax
import Mathlib.Tactic.Linarith
import ProtocolFuzzer.Math.Deviations

namespace ProtocolFuzzer.Utils

open Math

/-- Statistics collection helper. -/
structure Statistics (K : Type*) where
  count : ℕ
  sum : K
  sumSquared : K
  min : WithTop K
  max : WithBot K

namespace Statistics

variable {K : Type*} [Field K] [LinearOrder K]

def new : Statistics K where
  count := 0
  sum := 0
  sumSquared := 0
  min := ⊤
  max := ⊥

def add (s : Statistics K) (value : K) : Statistics K where
  count := s.count + 1
  sum := s.sum + value
  sumSquared := s.sumSquared + value * value
  min := s.min ⊓ value
  max := s.max ⊔ value

def mean (s : Statistics K) : K := if s.count > 0 then s.sum / s.count else 0

def variance (s : Statistics K) : K :=
  if s.count > 1 then
    let mean := s.mean
    (s.sumSquared - s.count * mean * mean) / (s.count - 1 : ℕ)
  else 0

def reset (_ : Statistics K) : Statistics K := new

/-- The derived `Default`: every field is zero. -/
def default : Statistics K where
  count := 0
  sum := 0
  sumSquared := 0
  min := (0 : K)
  max := (0 : K)

/-- The statistics after a sequence of samples. -/
def addAll (s : Statistics K) (samples : List K) : Statistics K := samples.foldl add s

/-- The numbers are those of the samples. -/
structure Describes (s : Statistics K) (samples : List K) : Prop where
  count : s.count = samples.length
  sum : s.sum = samples.sum
  sumSquared : s.sumSquared = (samples.map fun x => x * x).sum
  min : s.min = samples.minimum
  max : s.max = samples.maximum

theorem Describes.new : (new : Statistics K).Describes [] := ⟨rfl, rfl, rfl, rfl, rfl⟩

/-- One more sample. -/
theorem Describes.add {s : Statistics K} {samples : List K} (h : s.Describes samples)
    (value : K) : (s.add value).Describes (samples ++ [value]) where
  count := by rw [Statistics.add, h.count, List.length_append, List.length_singleton]
  sum := by rw [Statistics.add, h.sum, List.sum_append, List.sum_singleton]
  sumSquared := by
    rw [Statistics.add, h.sumSquared, List.map_append, List.sum_append, List.map_singleton,
      List.sum_singleton]
  min := by
    rw [List.minimum_concat, ← h.min]
    rfl
  max := by
    rw [List.maximum_concat, ← h.max]
    rfl

/-- A sequence of samples. -/
theorem Describes.addAll {s : Statistics K} {before : List K} (h : s.Describes before)
    (samples : List K) : (s.addAll samples).Describes (before ++ samples) := by
  induction samples generalizing s before with
  | nil =>
      rw [List.append_nil]
      exact h
  | cons value samples ih =>
      rw [List.append_cons]
      exact ih (h.add value)

theorem describes_addAll_new (samples : List K) : (new.addAll samples).Describes samples :=
  Describes.new.addAll samples

theorem Describes.mean_eq {s : Statistics K} {samples : List K} (h : s.Describes samples)
    (nonempty : samples ≠ []) : s.mean = average samples := by
  have hpos : s.count > 0 := h.count ▸ List.length_pos_iff.mpr nonempty
  rw [mean, if_pos hpos, h.sum, h.count, average]

/-- An accumulator holds the extremes it had against those of the samples. -/
theorem min_max_addAll (s : Statistics K) (samples : List K) :
    (s.addAll samples).min = s.min ⊓ samples.minimum ∧
      (s.addAll samples).max = s.max ⊔ samples.maximum := by
  induction samples generalizing s with
  | nil => exact ⟨(inf_top_eq s.min).symm, (sup_bot_eq s.max).symm⟩
  | cons value samples ih =>
      obtain ⟨hmin, hmax⟩ := ih (s.add value)
      constructor
      · rw [List.minimum_cons, ← inf_assoc]
        exact hmin
      · rw [List.maximum_cons, ← sup_assoc]
        exact hmax

/-- The derived start agrees with `new` exactly when zero is not beyond the samples. -/
theorem default_agrees_iff (samples : List K) :
    ((default.addAll samples).min = (new.addAll samples).min ∧
      (default.addAll samples).max = (new.addAll samples).max ∧
      (new.addAll samples).min = samples.minimum ∧
      (new.addAll samples).max = samples.maximum) ↔
      (∃ x ∈ samples, x ≤ 0) ∧ ∃ x ∈ samples, 0 ≤ x := by
  have hnew := describes_addAll_new samples
  obtain ⟨hmin, hmax⟩ := min_max_addAll default samples
  have hlow : default.min ⊓ samples.minimum = samples.minimum ↔ ∃ x ∈ samples, x ≤ 0 :=
    inf_eq_right.trans List.minimum_le_coe_iff
  have hhigh : default.max ⊔ samples.maximum = samples.maximum ↔ ∃ x ∈ samples, 0 ≤ x :=
    sup_eq_right.trans List.coe_le_maximum_iff
  rw [hmin, hmax, hnew.min, hnew.max, hlow, hhigh]
  exact ⟨fun h => ⟨h.1, h.2.1⟩, fun h => ⟨h.1, h.2, rfl, rfl⟩⟩

/-- Positive samples leave the minimum of the derived start at zero. -/
theorem default_keeps_zero :
    ¬ ((default.addAll [1, 2, 3] : Statistics ℚ).min = (new.addAll [1, 2, 3]).min ∧
      (default.addAll [1, 2, 3] : Statistics ℚ).max = (new.addAll [1, 2, 3]).max ∧
      (new.addAll [1, 2, 3] : Statistics ℚ).min = [1, 2, 3].minimum ∧
      (new.addAll [1, 2, 3] : Statistics ℚ).max = [1, 2, 3].maximum) := by
  decide +kernel

variable [IsStrictOrderedRing K]

/-- The one-pass variance is the two-pass one. -/
theorem Describes.variance_eq {s : Statistics K} {samples : List K} (h : s.Describes samples)
    (several : 2 ≤ samples.length) :
    s.variance = squaredDeviations samples s.mean / (samples.length - 1) := by
  have nonempty : samples ≠ [] := List.length_pos_iff.mp (by omega)
  have hcount : s.count > 1 := h.count ▸ several
  have hcast : ((samples.length - 1 : ℕ) : K) = samples.length - 1 :=
    Nat.cast_pred (by omega)
  rw [variance, if_pos hcount, h.mean_eq nonempty, squaredDeviations_average nonempty,
    h.sumSquared, h.count, hcast]

/-- The extremes are samples, and the mean lies between them. -/
theorem Describes.mean_between {s : Statistics K} {samples : List K} (h : s.Describes samples)
    (nonempty : samples ≠ []) :
    ∃ low ∈ samples, ∃ high ∈ samples, s.min = low ∧ s.max = high ∧
      (∀ x ∈ samples, low ≤ x ∧ x ≤ high) ∧ low ≤ s.mean ∧ s.mean ≤ high := by
  obtain ⟨low, hlow⟩ := WithTop.ne_top_iff_exists.mp (mt List.minimum_eq_top.mp nonempty)
  obtain ⟨high, hhigh⟩ := WithBot.ne_bot_iff_exists.mp (mt List.maximum_eq_bot.mp nonempty)
  have hmin := List.minimum_eq_coe_iff.mp hlow.symm
  have hmax := List.maximum_eq_coe_iff.mp hhigh.symm
  rw [h.mean_eq nonempty]
  exact ⟨low, hmin.1, high, hmax.1, h.min.trans hlow.symm, h.max.trans hhigh.symm,
    fun x hx => ⟨hmin.2 x hx, hmax.2 x hx⟩, le_average nonempty hmin.2,
    average_le nonempty hmax.2⟩

theorem length_sub_one_pos {samples : List K} (several : 2 ≤ samples.length) :
    (0 : K) < samples.length - 1 := by
  have hcast : (2 : K) ≤ samples.length := by exact_mod_cast several
  linarith

theorem Describes.variance_nonneg {s : Statistics K} {samples : List K} (h : s.Describes samples)
    (several : 2 ≤ samples.length) : 0 ≤ s.variance := by
  rw [h.variance_eq several]
  exact div_nonneg (squaredDeviations_nonneg _ _) (length_sub_one_pos several).le

/-- Samples without variance are all equal to their mean. -/
theorem Describes.eq_of_variance_eq_zero {s : Statistics K} {samples : List K}
    (h : s.Describes samples) (several : 2 ≤ samples.length) (zero : s.variance = 0) :
    ∀ x ∈ samples, ∀ y ∈ samples, x = y := by
  rw [h.variance_eq several, div_eq_zero_iff, or_iff_left (length_sub_one_pos several).ne']
    at zero
  intro x hx y hy
  have hcenter := eq_of_squaredDeviations_eq_zero zero
  rw [hcenter x hx, hcenter y hy]

/-- With a sample, the mean is the average and lies between the extremes, which are samples;
with two, the one-pass variance is that of its definition. It makes no difference whether
the accumulator is new or was reset. -/
theorem statistics_describe (before : Statistics K) (samples : List K) :
    before.reset = new ∧
    (samples ≠ [] →
      (before.reset.addAll samples).mean = samples.sum / samples.length ∧
      ∃ low ∈ samples, ∃ high ∈ samples,
        (before.reset.addAll samples).min = low ∧ (before.reset.addAll samples).max = high ∧
        (∀ x ∈ samples, low ≤ x ∧ x ≤ high) ∧
        low ≤ (before.reset.addAll samples).mean ∧
        (before.reset.addAll samples).mean ≤ high) ∧
    (2 ≤ samples.length →
      (before.reset.addAll samples).variance =
        (samples.map fun x => (x - (before.reset.addAll samples).mean) ^ 2).sum /
          (samples.length - 1) ∧
      0 ≤ (before.reset.addAll samples).variance ∧
      ((before.reset.addAll samples).variance = 0 → ∀ x ∈ samples, ∀ y ∈ samples, x = y)) := by
  have h : (before.reset.addAll samples).Describes samples := describes_addAll_new samples
  generalize before.reset.addAll samples = s at h
  exact ⟨rfl, fun nonempty => ⟨h.mean_eq nonempty, h.mean_between nonempty⟩,
    fun several => ⟨h.variance_eq several, h.variance_nonneg several,
      h.eq_of_variance_eq_zero several⟩⟩

/-- The samples 1, 2 and 3 after a reset. -/
theorem statistics_describe_three :
    let before : Statistics ℚ := new.addAll [7, 7]
    let samples : List ℚ := [1, 2, 3]
    before.reset = new ∧
    (samples ≠ [] →
      (before.reset.addAll samples).mean = samples.sum / samples.length ∧
      ∃ low ∈ samples, ∃ high ∈ samples,
        (before.reset.addAll samples).min = low ∧ (before.reset.addAll samples).max = high ∧
        (∀ x ∈ samples, low ≤ x ∧ x ≤ high) ∧
        low ≤ (before.reset.addAll samples).mean ∧
        (before.reset.addAll samples).mean ≤ high) ∧
    (2 ≤ samples.length →
      (before.reset.addAll samples).variance =
        (samples.map fun x => (x - (before.reset.addAll samples).mean) ^ 2).sum /
          (samples.length - 1) ∧
      0 ≤ (before.reset.addAll samples).variance ∧
      ((before.reset.addAll samples).variance = 0 → ∀ x ∈ samples, ∀ y ∈ samples, x = y)) :=
  statistics_describe (new.addAll [7, 7]) [1, 2, 3]

example : (new.addAll [1, 2, 3] : Statistics ℚ).variance = 1 := by decide +kernel

end Statistics

end ProtocolFuzzer.Utils
