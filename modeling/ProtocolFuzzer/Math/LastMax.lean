/-
# The last of several maxima

A search for a maximum that replaces its candidate on ties ends with the last element of
maximal key. In a list that is sorted by a rank, this is the maximal element of highest
rank.
-/

import Mathlib.Data.List.Induction
import Mathlib.Algebra.Order.Group.Nat
import Mathlib.Tactic.SplitIfs

namespace ProtocolFuzzer.Math

universe u

variable {α : Type u}

/-- Search the list for a larger or equal key, starting from a candidate. -/
def lastMax (key : α → ℕ) (best : α) (xs : List α) : α :=
  xs.foldl (fun best x => if key best > key x then best else x) best

/-- No key before the winner is larger, and every key after it is smaller. -/
def IsLastMax (key : α → ℕ) (xs : List α) (winner : α) : Prop :=
  ∃ before after, xs = before ++ winner :: after ∧
    (∀ x ∈ before, key x ≤ key winner) ∧ ∀ x ∈ after, key x < key winner

namespace IsLastMax

variable {key : α → ℕ} {xs : List α} {winner x : α}

theorem le (h : IsLastMax key xs winner) (hx : x ∈ xs) : key x ≤ key winner := by
  obtain ⟨before, after, rfl, hbefore, hafter⟩ := h
  rcases List.mem_append.mp hx with hx | hx
  · exact hbefore x hx
  · rcases List.mem_cons.mp hx with rfl | hx
    · exact le_rfl
    · exact (hafter x hx).le

/-- In a sorted list, elements of higher rank come after the winner. -/
theorem lt_of_rank (h : IsLastMax key xs winner) {rank : α → ℕ}
    (sorted : xs.Pairwise fun a b => rank a ≤ rank b) (hx : x ∈ xs)
    (higher : rank winner < rank x) : key x < key winner := by
  obtain ⟨before, after, rfl, -, hafter⟩ := h
  rcases List.mem_append.mp hx with hx | hx
  · have hrank := (List.pairwise_append.mp sorted).2.2 x hx winner List.mem_cons_self
    omega
  · rcases List.mem_cons.mp hx with rfl | hx
    · exact absurd higher (Nat.lt_irrefl _)
    · exact hafter x hx

/-- One more element either loses against the winner or replaces it. -/
theorem concat (h : IsLastMax key xs winner) (x : α) :
    IsLastMax key (xs ++ [x]) (if key winner > key x then winner else x) := by
  split_ifs with smaller
  · obtain ⟨before, after, rfl, hbefore, hafter⟩ := h
    refine ⟨before, after ++ [x], by simp, hbefore, fun y hy => ?_⟩
    rcases List.mem_append.mp hy with hy | hy
    · exact hafter y hy
    · rwa [List.mem_singleton.mp hy]
  · exact ⟨xs, [], rfl, fun y hy => (h.le hy).trans (Nat.not_lt.mp smaller), by simp⟩

end IsLastMax

theorem lastMax_isLastMax (key : α → ℕ) (best : α) (xs : List α) :
    IsLastMax key (best :: xs) (lastMax key best xs) := by
  induction xs using List.reverseRecOn with
  | nil => exact ⟨[], [], rfl, by simp, by simp⟩
  | append_singleton xs x ih =>
      rw [lastMax, List.foldl_append]
      exact ih.concat x

end ProtocolFuzzer.Math
