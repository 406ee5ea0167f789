/-
# Insertions and deletions

One element at a time is inserted into a list or taken out of it, at a position that is
reduced modulo the number of those possible. How many such edits lead from one list to
another is a question of what the two have in common: edits that keep a common sublist in
place take out the rest of the one list and insert the rest of the other, and any run of
edits leaves a common sublist behind that accounts for its number.
-/

import Mathlib.Data.List.Induction
import Mathlib.Data.List.InsertIdx

namespace ProtocolFuzzer.Math

variable {α : Type}

inductive Edit (α : Type)
  | insert (pos : ℕ) (x : α)
  | delete (pos : ℕ)

namespace Edit

def pos : Edit α → ℕ
  | insert pos _ => pos
  | delete pos => pos

def apply (xs : List α) : Edit α → List α
  | insert pos x => xs.insertIdx (pos % (xs.length + 1)) x
  | delete pos => xs.eraseIdx (pos % xs.length)

theorem apply_delete_nil (pos : ℕ) : (delete pos).apply ([] : List α) = [] := by
  rw [apply, List.eraseIdx_nil]

/-- An insertion behind the first part of a list. -/
theorem apply_insert_append (before after : List α) (x : α) :
    (insert before.length x).apply (before ++ after) = before ++ x :: after := by
  have hpos : before.length % ((before ++ after).length + 1) = before.length :=
    Nat.mod_eq_of_lt (by rw [List.length_append]; omega)
  rw [apply, hpos]
  clear hpos
  induction before with
  | nil => rfl
  | cons y before ih =>
      rw [List.cons_append, List.length_cons, List.insertIdx_succ_cons, ih, List.cons_append]

theorem apply_delete_append (before after : List α) (x : α) :
    (delete before.length).apply (before ++ x :: after) = before ++ after := by
  have hpos : before.length % (before ++ x :: after).length = before.length :=
    Nat.mod_eq_of_lt (by rw [List.length_append, List.length_cons]; omega)
  rw [apply, hpos, List.eraseIdx_append_of_length_le (Nat.le_refl _), Nat.sub_self,
    List.eraseIdx_zero, List.tail_cons]

end Edit

/-- A list keeps all but one element of a sublist when it loses one of its own. -/
theorem exists_sublist_eraseIdx {common xs : List α} (h : common.Sublist xs) (i : ℕ) :
    ∃ kept : List α, kept.Sublist common ∧ kept.Sublist (xs.eraseIdx i) ∧
      common.length ≤ kept.length + 1 := by
  induction h generalizing i with
  | slnil => exact ⟨[], List.Sublist.refl [], List.nil_sublist _, Nat.zero_le _⟩
  | @cons common xs x h ih =>
      cases i with
      | zero => exact ⟨common, List.Sublist.refl common, h, Nat.le_succ _⟩
      | succ i =>
          obtain ⟨kept, hcommon, hxs, hlength⟩ := ih i
          exact ⟨kept, hcommon, hxs.cons x, hlength⟩
  | @cons_cons common xs x h ih =>
      cases i with
      | zero => exact ⟨common, List.sublist_cons_self x common, h, Nat.le_refl _⟩
      | succ i =>
          obtain ⟨kept, hcommon, hxs, hlength⟩ := ih i
          exact ⟨x :: kept, hcommon.cons_cons x, hxs.cons_cons x, Nat.succ_le_succ hlength⟩

/-- What an edit adds in length, or takes out of a common sublist, is paid for by itself. -/
theorem Edit.exists_kept {common xs : List α} (h : common.Sublist xs) (edit : Edit α) :
    ∃ kept : List α, kept.Sublist common ∧ kept.Sublist (edit.apply xs) ∧
      (edit.apply xs).length + 2 * common.length ≤ xs.length + 1 + 2 * kept.length := by
  cases edit with
  | insert pos x =>
      have hlength : (xs.insertIdx (pos % (xs.length + 1)) x).length ≤ xs.length + 1 :=
        List.length_insertIdx_le_succ
      refine ⟨common, List.Sublist.refl common, h.trans (List.sublist_insertIdx xs _ x), ?_⟩
      rw [apply]
      omega
  | delete pos =>
      by_cases empty : xs = []
      · subst empty
        obtain rfl := List.eq_nil_of_sublist_nil h
        exact ⟨[], List.Sublist.refl [], List.nil_sublist _, by simp [apply_delete_nil]⟩
      · have hpos := List.length_pos_iff.mpr empty
        obtain ⟨kept, hcommon, hxs, hlength⟩ := exists_sublist_eraseIdx h (pos % xs.length)
        refine ⟨kept, hcommon, hxs, ?_⟩
        rw [apply, List.length_eraseIdx_of_lt (Nat.mod_lt pos hpos)]
        omega

/-- A run of edits leaves a common sublist in place. -/
theorem exists_common (edits : List (Edit α)) (xs : List α) :
    ∃ common : List α, common.Sublist xs ∧ common.Sublist (edits.foldl Edit.apply xs) ∧
      xs.length + (edits.foldl Edit.apply xs).length ≤ edits.length + 2 * common.length := by
  induction edits using List.reverseRecOn with
  | nil => exact ⟨xs, List.Sublist.refl xs, List.Sublist.refl xs, by simp; omega⟩
  | append_singleton edits edit ih =>
      obtain ⟨common, hxs, hresult, hlength⟩ := ih
      obtain ⟨kept, hcommon, hnext, hkept⟩ := edit.exists_kept hresult
      rw [List.foldl_append, List.foldl_cons, List.foldl_nil, List.length_append,
        List.length_singleton]
      exact ⟨kept, hcommon.trans hxs, hnext, by omega⟩

theorem length_concat_add (before xs : List α) (x : α) :
    (before ++ [x]).length + xs.length = before.length + (x :: xs).length := by
  rw [List.length_append, List.length_singleton, List.length_cons]
  omega

/-- What is not in the sublist is taken out, from front to back. -/
theorem exists_deletions {common xs : List α} (h : common.Sublist xs) (before : List α) :
    ∃ edits : List (Edit α), edits.length + common.length = xs.length ∧
      (∀ edit ∈ edits, edit.pos < before.length + xs.length) ∧
      edits.foldl Edit.apply (before ++ xs) = before ++ common := by
  induction h generalizing before with
  | slnil => exact ⟨[], rfl, by simp, rfl⟩
  | @cons common xs x h ih =>
      obtain ⟨edits, hlength, hpos, hrun⟩ := ih before
      refine ⟨.delete before.length :: edits, ?_, ?_, ?_⟩
      · rw [List.length_cons, List.length_cons]
        omega
      · refine List.forall_mem_cons.mpr ⟨Nat.lt_add_of_pos_right (Nat.succ_pos _), ?_⟩
        exact fun edit hmem => Nat.lt_succ_of_lt (hpos edit hmem)
      · rw [List.foldl_cons, Edit.apply_delete_append, hrun]
  | @cons_cons common xs x h ih =>
      obtain ⟨edits, hlength, hpos, hrun⟩ := ih (before ++ [x])
      rw [length_concat_add] at hpos
      refine ⟨edits, ?_, hpos, by simpa using hrun⟩
      rw [List.length_cons, List.length_cons]
      omega

/-- What is not in the sublist is inserted, from front to back. -/
theorem exists_insertions {common ys : List α} (h : common.Sublist ys) (before : List α) :
    ∃ edits : List (Edit α), edits.length + common.length = ys.length ∧
      (∀ edit ∈ edits, edit.pos < before.length + ys.length) ∧
      edits.foldl Edit.apply (before ++ common) = before ++ ys := by
  induction h generalizing before with
  | slnil => exact ⟨[], rfl, by simp, rfl⟩
  | @cons common ys y h ih =>
      obtain ⟨edits, hlength, hpos, hrun⟩ := ih (before ++ [y])
      rw [length_concat_add] at hpos
      refine ⟨.insert before.length y :: edits, ?_, ?_, ?_⟩
      · rw [List.length_cons, List.length_cons]
        omega
      · exact List.forall_mem_cons.mpr ⟨Nat.lt_add_of_pos_right (Nat.succ_pos _), hpos⟩
      · rw [List.foldl_cons, Edit.apply_insert_append]
        simpa using hrun
  | @cons_cons common ys y h ih =>
      obtain ⟨edits, hlength, hpos, hrun⟩ := ih (before ++ [y])
      rw [length_concat_add] at hpos
      refine ⟨edits, ?_, hpos, by simpa using hrun⟩
      rw [List.length_cons, List.length_cons]
      omega

/-- The deletions and then the insertions. -/
theorem exists_edits {common xs ys : List α} (hxs : common.Sublist xs) (hys : common.Sublist ys) :
    ∃ edits : List (Edit α), edits.length + 2 * common.length = xs.length + ys.length ∧
      (∀ edit ∈ edits, edit.pos < max xs.length ys.length) ∧
      edits.foldl Edit.apply xs = ys := by
  obtain ⟨deletions, hdeletions, hpos, hrun⟩ := exists_deletions hxs []
  obtain ⟨insertions, hinsertions, hpos', hrun'⟩ := exists_insertions hys []
  rw [List.length_nil, Nat.zero_add] at hpos hpos'
  rw [List.nil_append, List.nil_append] at hrun hrun'
  refine ⟨deletions ++ insertions, ?_, ?_, ?_⟩
  · rw [List.length_append]
    omega
  · intro edit hmem
    rcases List.mem_append.mp hmem with hmem | hmem
    · exact Nat.lt_of_lt_of_le (hpos edit hmem) (Nat.le_max_left _ _)
    · exact Nat.lt_of_lt_of_le (hpos' edit hmem) (Nat.le_max_right _ _)
  · rw [List.foldl_append, hrun, hrun']

end ProtocolFuzzer.Math
