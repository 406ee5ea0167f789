/-
# Lists divided into groups

A list whose elements belong to groups is the union of the groups, so what is counted per
group adds up. A group comes first in the list when no element of it is preceded by an
element of another group.
-/

import Mathlib.Algebra.BigOperators.Group.Finset.Piecewise
import Mathlib.Algebra.BigOperators.Ring.Finset
import Mathlib.Data.List.DropRight

namespace ProtocolFuzzer.Math

universe u v

variable {α : Type u}

/-- Counting in every group counts everything. -/
theorem sum_countP_groups {γ : Type v} [DecidableEq γ] {group : α → γ} {groups : Finset γ}
    {xs : List α} (h : ∀ x ∈ xs, group x ∈ groups) (p : α → Bool) :
    ∑ g ∈ groups, (xs.filter fun x => group x = g).countP p = xs.countP p := by
  induction xs with
  | nil => simp
  | cons x xs ih =>
      rw [List.forall_mem_cons] at h
      have hsplit : ∀ g, ((x :: xs).filter fun y => group y = g).countP p =
          (if group x = g then (if p x then 1 else 0) else 0) +
            (xs.filter fun y => group y = g).countP p := by
        intro g
        by_cases same : group x = g
        · rw [List.filter_cons_of_pos (by simpa using same), List.countP_cons, if_pos same,
            Nat.add_comm]
        · rw [List.filter_cons_of_neg (by simpa using same), if_neg same, Nat.zero_add]
      rw [Finset.sum_congr rfl fun g _ => hsplit g, Finset.sum_add_distrib, ih h.2,
        Finset.sum_ite_eq, if_pos h.1, List.countP_cons, Nat.add_comm]

/-- The elements up to the last one of a group are only its own elements exactly when the
group comes first. -/
theorem length_rdropWhile_eq_iff (p : α → Bool) (xs : List α) :
    (xs.rdropWhile fun x => !p x).length = (xs.filter p).length ↔
      xs.Pairwise fun earlier later => p later → p earlier := by
  induction xs using List.reverseRecOn with
  | nil => simp
  | append_singleton xs x ih =>
      rw [List.rdropWhile_concat, List.filter_append, List.pairwise_append, List.length_append]
      by_cases last : p x
      · have hfirst : (∀ y ∈ xs, p y) → xs.Pairwise fun earlier later => p later → p earlier :=
          fun h => List.pairwise_of_forall_mem_list fun y hy _ _ _ => h y hy
        rw [if_neg (by simp [last]), List.filter_cons_of_pos last, List.filter_nil,
          List.length_append, Nat.add_right_cancel_iff, eq_comm, List.length_filter_eq_length_iff]
        constructor
        · exact fun h => ⟨hfirst h, List.pairwise_singleton _ _, fun y hy _ _ _ => h y hy⟩
        · exact fun h y hy => h.2.2 y hy x List.mem_cons_self last
      · rw [if_pos (by simp [last]), List.filter_cons_of_neg last, List.filter_nil,
          List.length_nil, Nat.add_zero, ih]
        simp [last]

end ProtocolFuzzer.Math
