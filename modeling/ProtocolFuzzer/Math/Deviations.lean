/-
# Averages and deviations

The average of a list of numbers, and the sum of the squared distances from a centre. From
the average, that sum is the sum of the squares less the square of the average counted
once for each number, so it can be computed from two sums that grow as numbers come in.
-/

import Mathlib.Algebra.Order.BigOperators.Group.List
import Mathlib.Algebra.Order.Field.Basic
import Mathlib.Algebra.Order.Ring.Cast
import Mathlib.Tactic.Ring
import Mathlib.Tactic.Positivity

namespace ProtocolFuzzer.Math

variable {K : Type*} [Field K]

def average (xs : List K) : K := xs.sum / xs.length

/-- The sum of the squared distances from a centre. -/
def squaredDeviations (xs : List K) (center : K) : K := (xs.map fun x => (x - center) ^ 2).sum

theorem squaredDeviations_eq (xs : List K) (center : K) :
    squaredDeviations xs center =
      (xs.map fun x => x * x).sum - 2 * center * xs.sum + xs.length * center * center := by
  induction xs with
  | nil => simp [squaredDeviations]
  | cons x xs ih =>
      rw [squaredDeviations] at ih ⊢
      rw [List.map_cons, List.sum_cons, ih, List.map_cons, List.sum_cons, List.sum_cons,
        List.length_cons, Nat.cast_succ]
      ring

variable [LinearOrder K] [IsStrictOrderedRing K] {xs : List K}

theorem length_mul_average (nonempty : xs ≠ []) : xs.length * average xs = xs.sum := by
  have hlength : (xs.length : K) ≠ 0 := by simpa using nonempty
  rw [average, mul_div_cancel₀ _ hlength]

theorem le_average (nonempty : xs ≠ []) {low : K} (bound : ∀ x ∈ xs, low ≤ x) :
    low ≤ average xs := by
  have hlength : (0 : K) < xs.length := by
    simpa using List.length_pos_iff.mpr nonempty
  have hsum := List.card_nsmul_le_sum xs low bound
  rw [nsmul_eq_mul, mul_comm] at hsum
  exact (le_div_iff₀ hlength).mpr hsum

theorem average_le (nonempty : xs ≠ []) {high : K} (bound : ∀ x ∈ xs, x ≤ high) :
    average xs ≤ high := by
  have hlength : (0 : K) < xs.length := by
    simpa using List.length_pos_iff.mpr nonempty
  have hsum := List.sum_le_card_nsmul xs high bound
  rw [nsmul_eq_mul, mul_comm] at hsum
  exact (div_le_iff₀ hlength).mpr hsum

/-- From the average, two sums are enough. -/
theorem squaredDeviations_average (nonempty : xs ≠ []) :
    squaredDeviations xs (average xs) =
      (xs.map fun x => x * x).sum - xs.length * average xs * average xs := by
  rw [squaredDeviations_eq, ← length_mul_average nonempty]
  ring

theorem squares_nonneg (xs : List K) (center : K) :
    ∀ y ∈ xs.map fun x => (x - center) ^ 2, 0 ≤ y := by
  rw [List.forall_mem_map]
  exact fun x _ => sq_nonneg (x - center)

theorem squaredDeviations_nonneg (xs : List K) (center : K) : 0 ≤ squaredDeviations xs center :=
  List.sum_nonneg (squares_nonneg xs center)

/-- Numbers that do not deviate are at the centre. -/
theorem eq_of_squaredDeviations_eq_zero {center : K} (none : squaredDeviations xs center = 0) :
    ∀ x ∈ xs, x = center := by
  intro x hx
  have hzero : (x - center) ^ 2 = 0 := List.all_zero_of_le_zero_le_of_sum_eq_zero
    (squares_nonneg xs center) none (List.mem_map_of_mem hx)
  exact sub_eq_zero.mp ((pow_eq_zero_iff two_ne_zero).mp hzero)

end ProtocolFuzzer.Math
