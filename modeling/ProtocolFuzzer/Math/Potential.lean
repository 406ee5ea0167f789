/-
# Potentials

A run of steps of which each yields a gain. If every step pays its gain out of a
potential of the state, then what a run gains is bounded by the potential it uses up,
however the gains are spread over the steps. The steps allowed in a state may depend on
the steps still to come, so the invariant is about both.
-/

import Mathlib.Algebra.Order.Group.Defs
import Mathlib.Data.List.Basic
import Mathlib.Tactic.GCongr

namespace ProtocolFuzzer.Math

variable {S X M : Type*} (step : S → X → S) (gain : S → X → M)

/-- The gains of a run, step by step. -/
def gains : S → List X → List M
  | _, [] => []
  | s, x :: xs => gain s x :: gains (step s x) xs

theorem take_gains (n : ℕ) (s : S) (xs : List X) :
    (gains step gain s xs).take n = gains step gain s (xs.take n) := by
  induction n generalizing s xs with
  | zero => rfl
  | succ n ih =>
      cases xs with
      | nil => rfl
      | cons x xs => rw [gains, List.take_succ_cons, List.take_succ_cons, gains, ih]

theorem drop_gains (n : ℕ) (s : S) (xs : List X) :
    (gains step gain s xs).drop n = gains step gain ((xs.take n).foldl step s) (xs.drop n) := by
  induction n generalizing s xs with
  | zero => rfl
  | succ n ih =>
      cases xs with
      | nil => rfl
      | cons x xs =>
          rw [gains, List.drop_succ_cons, List.drop_succ_cons, List.take_succ_cons,
            List.foldl_cons, ih]

variable {step gain}

/-- What a run gains is paid for by its potential. -/
theorem sum_gains_add_le [AddCommGroup M] [PartialOrder M] [IsOrderedAddMonoid M]
    (inv : S → List X → Prop) (potential : S → M)
    (hstep : ∀ s x xs, inv s (x :: xs) →
      gain s x + potential (step s x) ≤ potential s ∧ inv (step s x) xs)
    {s : S} {xs : List X} (hinv : inv s xs) :
    (gains step gain s xs).sum + potential (xs.foldl step s) ≤ potential s := by
  induction xs generalizing s with
  | nil => exact (zero_add (potential s)).le
  | cons x xs ih =>
      obtain ⟨hpaid, hnext⟩ := hstep s x xs hinv
      rw [gains, List.sum_cons, List.foldl_cons, add_assoc]
      calc gain s x + ((gains step gain (step s x) xs).sum + potential (xs.foldl step (step s x)))
          ≤ gain s x + potential (step s x) := by gcongr; exact ih hnext
        _ ≤ potential s := hpaid

end ProtocolFuzzer.Math
