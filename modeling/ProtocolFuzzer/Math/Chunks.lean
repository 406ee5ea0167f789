/-
# Chunks and columns

Cutting a list into chunks of one size, of which the last may be shorter, and writing a
list as a table whose cells are all equally wide. The chunks put together are the list,
and a cell is found in a table at a multiple of the width.
-/

import Mathlib.Data.List.Basic

namespace ProtocolFuzzer.Math

variable {α β : Type*}

/-- Consecutive chunks of the given size; the last one holds what is left. -/
def chunks (size : ℕ) (xs : List α) : List (List α) :=
  (List.range ((xs.length + size - 1) / size)).map fun i => (xs.drop (i * size)).take size

theorem flatMap_chunk (size : ℕ) (xs : List α) (count : ℕ) :
    ((List.range count).flatMap fun i => (xs.drop (i * size)).take size) =
      xs.take (count * size) := by
  induction count with
  | zero => simp
  | succ count ih =>
      rw [List.range_succ, List.flatMap_append, ih, List.flatMap_singleton, Nat.succ_mul,
        List.take_add]

theorem flatten_chunks {size : ℕ} (nonzero : 0 < size) (xs : List α) :
    (chunks size xs).flatten = xs := by
  rw [chunks, ← List.flatMap_def, flatMap_chunk]
  apply List.take_of_length_le
  have hdiv := Nat.lt_div_mul_add (a := xs.length + size - 1) nonzero
  omega

theorem length_le_of_mem_chunks {size : ℕ} {xs chunk : List α} (h : chunk ∈ chunks size xs) :
    chunk.length ≤ size := by
  obtain ⟨i, -, rfl⟩ := List.mem_map.mp h
  exact List.length_take_le _ _

/-- The elements at the first positions, those that are there. -/
theorem filterMap_getElem?_range (xs : List α) (n : ℕ) :
    ((List.range n).filterMap fun i => xs[i]?) = xs.take n := by
  induction n with
  | zero => rfl
  | succ n ih =>
      have hlast : [n].filterMap (fun i => xs[i]?) = xs[n]?.toList := by
        cases h : xs[n]? <;> simp [h]
      rw [List.range_succ, List.filterMap_append, ih, hlast, List.take_add_one]

/-- The cells of a table before the one at `j` take up `j` times the width. -/
theorem drop_flatMap_append {width : ℕ} {cell : α → List β} (wide : ∀ x, (cell x).length = width)
    (xs : List α) (rest : List β) {j : ℕ} (inside : j < xs.length) :
    (xs.flatMap cell ++ rest).drop (width * j) =
      cell xs[j] ++ ((xs.drop (j + 1)).flatMap cell ++ rest) := by
  induction xs generalizing j with
  | nil => exact absurd inside (Nat.not_lt_zero j)
  | cons x xs ih =>
      rw [List.flatMap_cons, List.append_assoc]
      cases j with
      | zero => rfl
      | succ j =>
          have hcell : (cell x).length ≤ width * (j + 1) := by
            rw [wide, Nat.mul_succ]
            exact Nat.le_add_left width _
          rw [List.drop_append, List.drop_eq_nil_of_le hcell, List.nil_append, wide,
            Nat.mul_succ, Nat.add_sub_cancel]
          exact ih (Nat.lt_of_succ_lt_succ inside)

end ProtocolFuzzer.Math
