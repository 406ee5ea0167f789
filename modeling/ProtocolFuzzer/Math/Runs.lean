/-
# Runs of equal elements

What belongs to the runs of a list can be counted at its positions, of which those in a
longer run have an equal neighbour, or run by run. Both counts add up over a place where
two different elements meet, and agree on a list of equal elements. These two rules are
all that a single pass over the list needs.
-/

import Mathlib.Algebra.GroupWithZero.Nat
import Mathlib.Data.List.SplitBy
import Mathlib.Tactic.SplitIfs

namespace ProtocolFuzzer.Math

variable {α : Type*}

/-- No two equal elements meet where the lists do. -/
def Apart (xs ys : List α) : Prop := ∀ x ∈ xs.getLast?, ∀ y ∈ ys.head?, x ≠ y

/-- A count of the elements in longer runs. -/
structure CountsRuns (f : List α → ℕ) : Prop where
  append : ∀ {xs ys}, Apart xs ys → f (xs ++ ys) = f xs + f ys
  replicate : ∀ n a, f (List.replicate n a) = if n > 1 then n else 0

/-- The element at a position equals its left or its right neighbour. -/
def HasTwin (xs : List α) (i : ℕ) : Prop := (0 < i ∧ xs[i - 1]? = xs[i]?) ∨ xs[i]? = xs[i + 1]?

theorem apart_replicate_cons {x y : α} (h : x ≠ y) (n : ℕ) (ys : List α) :
    Apart (List.replicate n x) (y :: ys) := by
  intro x' hx' y' hy'
  have hx : x' = x := List.eq_of_mem_replicate (List.mem_of_mem_getLast? hx')
  have hy : y' = y := (Option.some.inj hy').symm
  rw [hx, hy]
  exact h

theorem hasTwin_replicate {n i : ℕ} (long : n > 1) (inside : i < n) (x : α) :
    HasTwin (List.replicate n x) i := by
  have hat : ∀ j, j < n → (List.replicate n x)[j]? = some x :=
    fun j hj => List.getElem?_replicate_of_lt hj
  by_cases next : i + 1 < n
  · right
    rw [hat i inside, hat (i + 1) next]
  · left
    rw [hat i inside, hat (i - 1) (by omega)]
    exact ⟨by omega, rfl⟩

/-- Neighbours that are equal are on the same side. -/
theorem getElem?_append_eq_succ {xs ys : List α} (apart : Apart xs ys) {i : ℕ}
    (left : i < xs.length) :
    (xs ++ ys)[i]? = (xs ++ ys)[i + 1]? ↔ xs[i]? = xs[i + 1]? := by
  rw [List.getElem?_append_left left]
  by_cases next : i + 1 < xs.length
  · rw [List.getElem?_append_left next]
  · have hlast : i = xs.length - 1 := by omega
    have hend : xs.getLast? = some xs[i] := by
      rw [List.getLast?_eq_getElem?, ← hlast, List.getElem?_eq_getElem left]
    have hhead : (xs ++ ys)[i + 1]? = ys.head? := by
      rw [List.getElem?_append_right (Nat.not_lt.mp next), List.head?_eq_getElem?,
        Nat.sub_eq_zero_of_le (Nat.succ_le_of_lt left)]
    rw [hhead, List.getElem?_eq_getElem left, List.getElem?_eq_none (Nat.not_lt.mp next)]
    apply iff_of_false
    · intro same
      exact apart xs[i] hend xs[i] same.symm rfl
    · exact Option.some_ne_none _

theorem hasTwin_append_left {xs ys : List α} (apart : Apart xs ys) {i : ℕ}
    (left : i < xs.length) : HasTwin (xs ++ ys) i ↔ HasTwin xs i := by
  rw [HasTwin, HasTwin, getElem?_append_eq_succ apart left, List.getElem?_append_left left,
    List.getElem?_append_left (Nat.lt_of_le_of_lt (Nat.sub_le i 1) left)]

theorem hasTwin_append_right {xs ys : List α} (apart : Apart xs ys) (k : ℕ) :
    HasTwin (xs ++ ys) (xs.length + k) ↔ HasTwin ys k := by
  have hright : ∀ j, (xs ++ ys)[xs.length + j]? = ys[j]? := by
    intro j
    rw [List.getElem?_append_right (Nat.le_add_right _ j), Nat.add_sub_cancel_left]
  rw [HasTwin, HasTwin, Nat.add_assoc, hright, hright]
  apply or_congr_left
  cases k with
  | zero =>
      apply iff_of_false
      · intro ⟨hpos, same⟩
        -- The last element on the left would equal what is behind the left part alone.
        have hnext := getElem?_append_eq_succ apart (Nat.sub_lt hpos Nat.one_pos)
        have hlast : xs.length - 1 + 1 = xs.length := Nat.sub_add_cancel hpos
        have hcross : (xs ++ ys)[xs.length - 1]? = (xs ++ ys)[xs.length]? :=
          same.trans (hright 0).symm
        rw [hlast] at hnext
        have hnone := hnext.mp hcross
        rw [List.getElem?_eq_none (Nat.le_refl _), List.getElem?_eq_none_iff] at hnone
        omega
      · exact fun h => absurd h.1 (Nat.lt_irrefl 0)
  | succ k =>
      rw [show xs.length + (k + 1) - 1 = xs.length + k by omega, hright, Nat.add_sub_cancel]
      exact and_congr_left fun _ => iff_of_true (by omega) k.succ_pos

variable [DecidableEq α]

instance (xs : List α) : DecidablePred (HasTwin xs) :=
  fun i => inferInstanceAs (Decidable ((0 < i ∧ xs[i - 1]? = xs[i]?) ∨ xs[i]? = xs[i + 1]?))

/-- The number of positions with an equal neighbour. -/
def countTwins (xs : List α) : ℕ := (List.range xs.length).countP (HasTwin xs ·)

/-- The maximal runs of equal elements. -/
def runs (xs : List α) : List (List α) := xs.splitBy (· == ·)

/-- The total length of the runs of at least two elements. -/
def repeatedLength (xs : List α) : ℕ := (((runs xs).map List.length).filter (2 ≤ ·)).sum

theorem countTwins_le (xs : List α) : countTwins xs ≤ xs.length :=
  List.countP_le_length.trans List.length_range.le

theorem countsRuns_countTwins : CountsRuns (countTwins (α := α)) where
  append {xs ys} apart := by
    have hleft : (List.range xs.length).countP (HasTwin (xs ++ ys) ·) = countTwins xs := by
      apply List.countP_congr
      intro i hi
      simp only [decide_eq_true_eq, hasTwin_append_left apart (List.mem_range.mp hi)]
    have hright : ((List.range ys.length).map (xs.length + ·)).countP (HasTwin (xs ++ ys) ·) =
        countTwins ys := by
      rw [List.countP_map]
      apply List.countP_congr
      intro k _
      simp only [Function.comp_apply, decide_eq_true_eq, hasTwin_append_right apart]
    rw [countTwins, List.length_append, List.range_add, List.countP_append, hleft, hright]
  replicate n a := by
    rw [countTwins, List.length_replicate]
    split_ifs with long
    · have hall : ∀ i ∈ List.range n, decide (HasTwin (List.replicate n a) i) = true := by
        intro i hi
        rw [decide_eq_true_eq]
        exact hasTwin_replicate long (List.mem_range.mp hi) a
      rw [List.countP_eq_length.mpr hall, List.length_range]
    · rw [List.countP_eq_zero]
      intro i hi
      have hzero : n = 1 ∧ i = 0 := by
        rw [List.mem_range] at hi
        omega
      obtain ⟨rfl, rfl⟩ := hzero
      simp [HasTwin]

theorem countsRuns_repeatedLength : CountsRuns (repeatedLength (α := α)) where
  append {xs ys} apart := by
    have hruns : runs (xs ++ ys) = runs xs ++ runs ys :=
      List.splitBy_append fun x hx y hy => beq_false_of_ne (apart x hx y hy)
    rw [repeatedLength, hruns, List.map_append, List.filter_append, List.sum_append,
      repeatedLength, repeatedLength]
  replicate n a := by
    cases n with
    | zero => rfl
    | succ n =>
        have hchain : (List.replicate (n + 1) a).IsChain fun x y => (x == y) = true :=
          List.isChain_replicate_of_rel (n + 1) (beq_self_eq_true a)
        have hruns : runs (List.replicate (n + 1) a) = [List.replicate (n + 1) a] :=
          List.splitBy_of_isChain (List.cons_ne_nil _ _) hchain
        rw [repeatedLength, hruns, List.map_singleton, List.length_replicate]
        cases n with
        | zero => rfl
        | succ n =>
            rw [List.filter_cons_of_pos (by simp), if_pos (by omega)]
            rfl

end ProtocolFuzzer.Math
