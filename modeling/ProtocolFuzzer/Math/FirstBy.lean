/-
# First occurrences by key

Deduplication by a key keeps, of all elements that share a key, the one that came
first. The operation is the core library's `List.eraseDupsBy`; this module states
how it grows when a list is extended at its end, which is how a program that
deduplicates online sees it.
-/

import Mathlib.Data.List.Induction
import Mathlib.Data.List.Nodup

namespace ProtocolFuzzer.Math

universe u v

variable {α : Type u} {κ : Type v} [DecidableEq κ]

/-- The elements of a list whose key did not occur before them. -/
def firstBy (key : α → κ) (xs : List α) : List α :=
  xs.eraseDupsBy fun later earlier => key later == key earlier

@[simp]
theorem firstBy_nil (key : α → κ) : firstBy key [] = [] := rfl

theorem firstBy_cons (key : α → κ) (x : α) (xs : List α) :
    firstBy key (x :: xs) = x :: firstBy key (xs.filter fun y => key y ≠ key x) := by
  rw [firstBy, List.eraseDupsBy_cons]
  congr 3
  funext y
  by_cases same : key y = key x <;> simp [same]

/-- What is left to deduplicate after the head is shorter than the list; every
induction below runs along this. -/
theorem length_rest_lt (key : α → κ) {head : α} {tail : List α} {n : ℕ}
    (hlen : (head :: tail).length = n) :
    (tail.filter fun y => key y ≠ key head).length < n := by
  have hle := List.length_filter_le (fun y => decide (key y ≠ key head)) tail
  rw [← hlen, List.length_cons]
  omega

/-- Deduplication loses no key. -/
theorem exists_mem_firstBy (key : α → κ) {xs : List α} {x : α} (hx : x ∈ xs) :
    ∃ y ∈ firstBy key xs, key y = key x := by
  induction hlen : xs.length using Nat.strongRecOn generalizing xs with
  | ind n ih =>
      cases xs with
      | nil => simp at hx
      | cons head tail =>
          rw [firstBy_cons]
          by_cases same : key x = key head
          · exact ⟨head, List.mem_cons_self, same.symm⟩
          · have hmem : x ∈ tail.filter fun y => key y ≠ key head := by
              rcases List.mem_cons.mp hx with rfl | htail
              · exact absurd rfl same
              · exact List.mem_filter.mpr ⟨htail, by simpa using same⟩
            obtain ⟨y, hy, hkey⟩ := ih _ (length_rest_lt key hlen) hmem rfl
            exact ⟨y, List.mem_cons_of_mem _ hy, hkey⟩

/-- Deduplication only selects elements of the list. -/
theorem mem_of_mem_firstBy (key : α → κ) {xs : List α} {x : α} (hx : x ∈ firstBy key xs) :
    x ∈ xs := by
  induction hlen : xs.length using Nat.strongRecOn generalizing xs with
  | ind n ih =>
      cases xs with
      | nil => simp at hx
      | cons head tail =>
          rw [firstBy_cons] at hx
          rcases List.mem_cons.mp hx with rfl | htail
          · exact List.mem_cons_self
          · have hrest := ih _ (length_rest_lt key hlen) htail rfl
            exact List.mem_cons_of_mem _ (List.mem_filter.mp hrest).1

/-- Extending the list at its end appends the new element exactly when its key
is new. -/
theorem firstBy_concat (key : α → κ) (xs : List α) (x : α) :
    firstBy key (xs ++ [x]) =
      if ∃ y ∈ xs, key y = key x then firstBy key xs else firstBy key xs ++ [x] := by
  induction hlen : xs.length using Nat.strongRecOn generalizing xs with
  | ind n ih =>
      cases xs with
      | nil => simp [firstBy_cons]
      | cons head tail =>
          rw [List.cons_append, firstBy_cons, firstBy_cons, List.filter_append]
          by_cases same : key x = key head
          · have known : ∃ y ∈ head :: tail, key y = key x :=
              ⟨head, List.mem_cons_self, same.symm⟩
            rw [if_pos known]
            simp [same]
          · have fresh : [x].filter (fun y => decide (key y ≠ key head)) = [x] := by simp [same]
            rw [fresh, ih _ (length_rest_lt key hlen) _ rfl]
            have hiff : (∃ y ∈ tail.filter (fun y => decide (key y ≠ key head)), key y = key x) ↔
                ∃ y ∈ head :: tail, key y = key x := by
              constructor
              · rintro ⟨y, hy, hkey⟩
                exact ⟨y, List.mem_cons_of_mem _ (List.mem_filter.mp hy).1, hkey⟩
              · rintro ⟨y, hy, hkey⟩
                rcases List.mem_cons.mp hy with rfl | htail
                · exact absurd hkey.symm same
                · refine ⟨y, List.mem_filter.mpr ⟨htail, ?_⟩, hkey⟩
                  simpa [hkey] using same
            by_cases known : ∃ y ∈ head :: tail, key y = key x
            · rw [if_pos known, if_pos (hiff.mpr known)]
            · rw [if_neg known, if_neg (mt hiff.mp known), List.cons_append]

/-- Extending the list does not change what was kept before. -/
theorem firstBy_prefix (key : α → κ) (xs ys : List α) :
    firstBy key xs <+: firstBy key (xs ++ ys) := by
  induction ys using List.reverseRecOn with
  | nil => simp
  | append_singleton ys y ih =>
      rw [← List.append_assoc, firstBy_concat]
      split_ifs with known
      · exact ih
      · exact ih.trans (List.prefix_append _ _)

/-- No key occurs twice after deduplication. -/
theorem nodup_map_firstBy (key : α → κ) (xs : List α) : ((firstBy key xs).map key).Nodup := by
  induction xs using List.reverseRecOn with
  | nil => simp
  | append_singleton xs x ih =>
      rw [firstBy_concat]
      split_ifs with known
      · exact ih
      · rw [List.map_append, List.nodup_append]
        refine ⟨ih, by simp, ?_⟩
        intro k hk other hother
        obtain ⟨y, hy, rfl⟩ := List.mem_map.mp hk
        obtain rfl : other = key x := by simpa using hother
        exact fun hkey => known ⟨y, mem_of_mem_firstBy key hy, hkey⟩

end ProtocolFuzzer.Math
