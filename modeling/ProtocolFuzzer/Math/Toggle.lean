/-
# Toggling

To toggle an element of a finite set is to remove it if it is there and to add it if it
is not. A sequence of toggles may hit one element several times, so it says little about
which elements are left; but their number is bounded by the number of toggles, and its
parity is theirs.
-/

import Mathlib.Data.Finset.Card
import Mathlib.Data.Finset.SymmDiff

namespace ProtocolFuzzer.Math

variable {α : Type*} [DecidableEq α]

/-- Remove the element, or add it. -/
def toggle (s : Finset α) (a : α) : Finset α := symmDiff s {a}

theorem mem_toggle {s : Finset α} {a b : α} :
    b ∈ toggle s a ↔ if b = a then a ∉ s else b ∈ s := by
  rw [toggle, Finset.mem_symmDiff, Finset.mem_singleton]
  split_ifs with same
  · subst same
    tauto
  · tauto

theorem card_toggle (s : Finset α) (a : α) :
    (toggle s a).card + 1 = s.card ∨ (toggle s a).card = s.card + 1 := by
  by_cases present : a ∈ s
  · have hremoved : toggle s a = s.erase a := by
      ext b
      rw [mem_toggle, Finset.mem_erase]
      split_ifs with same
      · simp [same, present]
      · simp [same]
    exact .inl (by rw [hremoved, Finset.card_erase_add_one present])
  · have hadded : toggle s a = insert a s := by
      ext b
      rw [mem_toggle, Finset.mem_insert]
      split_ifs with same
      · simp [same, present]
      · simp [same]
    exact .inr (by rw [hadded, Finset.card_insert_of_notMem present])

theorem card_foldl_toggle_le (toggles : List α) (s : Finset α) :
    (toggles.foldl toggle s).card ≤ s.card + toggles.length := by
  induction toggles generalizing s with
  | nil => exact Nat.le_add_right _ _
  | cons a toggles ih =>
      rw [List.foldl_cons, List.length_cons]
      have hrest := ih (toggle s a)
      have hfirst := card_toggle s a
      omega

theorem card_foldl_toggle_mod_two (toggles : List α) (s : Finset α) :
    (toggles.foldl toggle s).card % 2 = (s.card + toggles.length) % 2 := by
  induction toggles generalizing s with
  | nil => rfl
  | cons a toggles ih =>
      rw [List.foldl_cons, List.length_cons, ih]
      have hfirst := card_toggle s a
      omega

end ProtocolFuzzer.Math
