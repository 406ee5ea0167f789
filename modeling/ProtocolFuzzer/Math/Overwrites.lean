/-
# Writing many entries into a map

A directory is a finite map from names to contents, and saving results into it is writing
one entry after the other, over whatever was there before. If the names are distinct, the
map afterwards has every entry that was written, and of the rest what it had before. So the
order of the writes does not matter, and what an earlier save left behind under other names
stays. Numbered files, two for each number, have distinct names if their names can be told
apart.
-/

import Mathlib.Data.Finmap

namespace ProtocolFuzzer.Math

universe u v

variable {κ : Type u} {α : Type v} [DecidableEq κ]

/-- Write entries into a map, each over an earlier one of its name. -/
def writeAll (map : Finmap fun _ : κ => α) (entries : List (κ × α)) : Finmap fun _ : κ => α :=
  entries.foldl (fun map entry => map.insert entry.1 entry.2) map

variable {map : Finmap fun _ : κ => α} {entries : List (κ × α)}

/-- The names that are not written keep their contents. -/
theorem lookup_writeAll_of_notMem {name : κ} (h : name ∉ entries.map Prod.fst) :
    (writeAll map entries).lookup name = map.lookup name := by
  induction entries generalizing map with
  | nil => rfl
  | cons entry entries ih =>
      rw [List.map_cons, List.mem_cons, not_or] at h
      change (writeAll (map.insert entry.1 entry.2) entries).lookup name = _
      rw [ih h.2, Finmap.lookup_insert_of_ne _ h.1]

/-- Distinct names have the contents that were written. -/
theorem lookup_writeAll_of_mem (nodup : (entries.map Prod.fst).Nodup) {name : κ} {content : α}
    (h : (name, content) ∈ entries) : (writeAll map entries).lookup name = some content := by
  induction entries generalizing map with
  | nil => cases h
  | cons entry entries ih =>
      rw [List.map_cons, List.nodup_cons] at nodup
      change (writeAll (map.insert entry.1 entry.2) entries).lookup name = _
      rcases List.mem_cons.mp h with rfl | hmem
      · rw [lookup_writeAll_of_notMem nodup.1, Finmap.lookup_insert]
      · exact ih nodup.2 hmem

/-- Names that are written keep nothing of what was there before. -/
theorem lookup_writeAll_of_mem_map (nodup : (entries.map Prod.fst).Nodup) {name : κ}
    (h : name ∈ entries.map Prod.fst) (map map' : Finmap fun _ : κ => α) :
    (writeAll map entries).lookup name = (writeAll map' entries).lookup name := by
  obtain ⟨entry, hmem, rfl⟩ := List.mem_map.mp h
  rw [lookup_writeAll_of_mem nodup hmem, lookup_writeAll_of_mem nodup hmem]

/-- The names afterwards. -/
theorem keys_writeAll : (writeAll map entries).keys =
    map.keys ∪ (entries.map Prod.fst).toFinset := by
  induction entries generalizing map with
  | nil => exact (Finset.union_empty map.keys).symm
  | cons entry entries ih =>
      have hinsert : (map.insert entry.1 entry.2).keys = insert entry.1 map.keys := by
        ext name
        rw [Finmap.mem_keys, Finmap.mem_insert, Finset.mem_insert, Finmap.mem_keys]
      change (writeAll (map.insert entry.1 entry.2) entries).keys = _
      rw [ih, hinsert, List.map_cons, List.toFinset_cons, Finset.insert_union,
        Finset.union_insert]

/-- Two names for each number. -/
def numbered (first second : ℕ → κ) (n : ℕ) : List κ :=
  (List.range n).flatMap fun i => [first i, second i]

variable {first second : ℕ → κ} {n : ℕ}

omit [DecidableEq κ] in
theorem mem_numbered {name : κ} :
    name ∈ numbered first second n ↔ ∃ i < n, name = first i ∨ name = second i := by
  simp [numbered]

omit [DecidableEq κ] in
theorem length_numbered : (numbered first second n).length = 2 * n := by
  induction n with
  | zero => rfl
  | succ n ih =>
      rw [numbered, List.range_succ, List.flatMap_append, ← numbered, List.length_append, ih]
      rfl

omit [DecidableEq κ] in
theorem nodup_numbered (hfirst : Function.Injective first) (hsecond : Function.Injective second)
    (hne : ∀ i j, first i ≠ second j) : (numbered first second n).Nodup := by
  rw [numbered, List.nodup_flatMap]
  constructor
  · intro i _
    simpa using hne i i
  · refine List.nodup_range.imp fun {i j} hij name hi hj => ?_
    rcases List.mem_pair.mp hi with rfl | rfl
    · rcases List.mem_pair.mp hj with h | h
      · exact hij (hfirst h)
      · exact hne i j h
    · rcases List.mem_pair.mp hj with h | h
      · exact hne j i h.symm
      · exact hij (hsecond h)

end ProtocolFuzzer.Math
