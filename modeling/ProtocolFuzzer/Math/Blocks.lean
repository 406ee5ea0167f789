/-
# Block edits

Edits of a list that move whole blocks: one list is another with a contiguous block
added, or with two blocks of one length exchanged. An exchange loses and duplicates
nothing.
-/

import Mathlib.Data.List.Perm.Basic

namespace ProtocolFuzzer.Math

variable {α : Type*}

/-- The longer list is the shorter one with a block of at most `limit` elements added, and at
least one. -/
structure AddsBlock (limit : ℕ) (shorter block longer : List α) : Prop where
  nonempty : 1 ≤ block.length
  bounded : block.length ≤ limit
  placed : ∃ before after, shorter = before ++ after ∧ longer = before ++ (block ++ after)

/-- Two disjoint blocks of one length change places. -/
def ExchangesBlocks (input result : List α) : Prop :=
  ∃ before first between second after, first.length = second.length ∧
    input = before ++ (first ++ (between ++ (second ++ after))) ∧
    result = before ++ (second ++ (between ++ (first ++ after)))

theorem ExchangesBlocks.perm {input result : List α} (h : ExchangesBlocks input result) :
    result.Perm input := by
  obtain ⟨before, first, between, second, after, -, rfl, rfl⟩ := h
  have hout : (between ++ (first ++ after)).Perm (first ++ (between ++ after)) :=
    List.perm_append_comm_assoc between first after
  have hin : (second ++ (between ++ after)).Perm (between ++ (second ++ after)) :=
    List.perm_append_comm_assoc second between after
  apply List.Perm.append_left
  exact ((hout.append_left second).trans (List.perm_append_comm_assoc second first _)).trans
    (hin.append_left first)

theorem AddsBlock.ne {limit : ℕ} {shorter block longer : List α}
    (h : AddsBlock limit shorter block longer) : shorter ≠ longer := by
  obtain ⟨nonempty, -, before, after, rfl, rfl⟩ := h
  intro same
  have hlength := congrArg List.length same
  simp only [List.length_append] at hlength
  omega

/-- Writing a block into a list at a position. -/
theorem addsBlock_take_drop {limit : ℕ} {xs block : List α} (nonempty : 1 ≤ block.length)
    (bounded : block.length ≤ limit) (i : ℕ) :
    AddsBlock limit xs block (xs.take i ++ (block ++ xs.drop i)) :=
  ⟨nonempty, bounded, xs.take i, xs.drop i, (List.take_append_drop i xs).symm, rfl⟩

/-- Cutting a block out of a list. -/
theorem addsBlock_cut {limit : ℕ} {xs : List α} {i n : ℕ} (nonempty : 1 ≤ n) (bounded : n ≤ limit)
    (inside : i + n ≤ xs.length) :
    AddsBlock limit (xs.take i ++ xs.drop (i + n)) ((xs.drop i).take n) xs := by
  have hlength : ((xs.drop i).take n).length = n := by
    rw [List.length_take, List.length_drop]
    omega
  refine ⟨hlength.symm ▸ nonempty, hlength.symm ▸ bounded, xs.take i, xs.drop (i + n), rfl, ?_⟩
  rw [← List.drop_drop, List.take_append_drop, List.take_append_drop]

/-- A block is read at the position where it stands. -/
theorem take_drop_block {before block : List α} {i : ℕ} (place : before.length = i)
    (after : List α) : ((before ++ (block ++ after)).drop i).take block.length = block := by
  rw [List.drop_left' place, List.take_left]

/-- So is the second of two blocks. -/
theorem take_drop_second_block {before first between second : List α} {j : ℕ}
    (place : (before ++ (first ++ between)).length = j) (after : List α) :
    ((before ++ (first ++ (between ++ (second ++ after)))).drop j).take second.length =
      second := by
  have hsplit : before ++ (first ++ (between ++ (second ++ after))) =
      (before ++ (first ++ between)) ++ (second ++ after) := by
    simp only [List.append_assoc]
  rw [hsplit, take_drop_block place]

/-- Two disjoint blocks of one length, and what is around them. -/
theorem exists_two_blocks {xs : List α} {i j n : ℕ} (disjoint : i + n ≤ j)
    (inside : j + n ≤ xs.length) :
    ∃ before first between second after, before.length = i ∧
      first.length = n ∧ (before ++ (first ++ between)).length = j ∧ second.length = n ∧
      xs = before ++ (first ++ (between ++ (second ++ after))) := by
  refine ⟨xs.take i, (xs.drop i).take n, (xs.drop (i + n)).take (j - (i + n)),
    (xs.drop j).take n, xs.drop (j + n), ?_, ?_, ?_, ?_, ?_⟩
  · rw [List.length_take, Nat.min_eq_left (by omega)]
  · rw [List.length_take, List.length_drop, Nat.min_eq_left (by omega)]
  · simp only [List.length_append, List.length_take, List.length_drop]
    omega
  · rw [List.length_take, List.length_drop, Nat.min_eq_left (by omega)]
  · have hlast : (xs.drop j).take n ++ xs.drop (j + n) = xs.drop j := by
      rw [← List.drop_drop, List.take_append_drop]
    have hgap : (xs.drop (i + n)).take (j - (i + n)) ++ xs.drop j = xs.drop (i + n) := by
      conv_lhs =>
        enter [2]
        rw [← Nat.add_sub_of_le disjoint, ← List.drop_drop]
      rw [List.take_append_drop]
    rw [hlast, hgap, ← List.drop_drop, List.take_append_drop, List.take_append_drop]

end ProtocolFuzzer.Math
