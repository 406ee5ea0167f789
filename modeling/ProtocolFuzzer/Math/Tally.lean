/-
# Tallies

A tally is a finite map that counts how often each key was recorded. Programs
keep tallies incrementally, one `bump` at a time; what a tally is for is said by
the multiset of everything recorded so far. `Counts` connects the two: a key is
stored exactly when it was recorded, with its multiplicity. A tally is determined
by the multiset it counts, so the order of the bumps never matters.
-/

import Mathlib.Data.Finmap
import Mathlib.Algebra.BigOperators.Group.Finset.Sigma
import Mathlib.Algebra.Order.BigOperators.Group.Finset

namespace ProtocolFuzzer.Math

universe u

/-- A finite map from keys to numbers of occurrences. -/
abbrev Tally (κ : Type u) := Finmap fun _ : κ => ℕ

namespace Tally

variable {κ : Type u}

/-- The number of stored keys. -/
def size (t : Tally κ) : ℕ := t.keys.card

/-- An order in which the stored keys can be gone through, with their counts. -/
structure Iteration (t : Tally κ) where
  order : List (Σ _ : κ, ℕ)
  complete : (order : Multiset (Σ _ : κ, ℕ)) = t.entries

theorem Iteration.mem {t : Tally κ} (i : t.Iteration) {entry : Σ _ : κ, ℕ} :
    entry ∈ i.order ↔ entry ∈ t.entries := by
  rw [← i.complete, Multiset.mem_coe]

theorem Iteration.nodup_keys {t : Tally κ} (i : t.Iteration) : (i.order.map Sigma.fst).Nodup := by
  rw [← Multiset.coe_nodup, ← Multiset.map_coe, i.complete]
  exact t.nodupKeys.nodup_keys

theorem Iteration.length {t : Tally κ} (i : t.Iteration) : i.order.length = t.size := by
  have hcard : t.entries.card = t.size := (Multiset.card_map Sigma.fst t.entries).symm
  rw [← hcard, ← i.complete, Multiset.coe_card]

/-- The stored counts. -/
def counts (t : Tally κ) : Multiset ℕ := t.entries.map Sigma.snd

theorem card_counts (t : Tally κ) : t.counts.card = t.size := by
  rw [counts, Multiset.card_map, size, Finmap.keys, Finset.card_mk, Multiset.keys,
    Multiset.card_map]

theorem Iteration.counts {t : Tally κ} (i : t.Iteration) :
    (i.order.map Sigma.snd : Multiset ℕ) = t.counts := by
  rw [← Multiset.map_coe, i.complete]
  rfl

variable [DecidableEq κ]

/-- Record one more occurrence of a key, starting from zero at a new key. -/
def bump (t : Tally κ) (k : κ) : Tally κ := t.insert k ((t.lookup k).getD 0 + 1)

/-- Record one more occurrence, and note when the key had none before. -/
def count (state : Tally κ × Bool) (k : κ) : Tally κ × Bool :=
  (state.1.bump k, if (state.1.lookup k).getD 0 = 0 then true else state.2)

/-- The number of keys with a positive count. -/
def covered (t : Tally κ) : ℕ := (t.keys.filter fun k => (t.lookup k).getD 0 > 0).card

/-- The sum of all stored counts. -/
def total (t : Tally κ) : ℕ := (t.entries.map Sigma.snd).sum

/-- The tally stores exactly the recorded keys, each with its multiplicity. -/
def Counts (t : Tally κ) (recorded : Multiset κ) : Prop :=
  ∀ k, t.lookup k = if k ∈ recorded then some (recorded.count k) else none

/-- How often each element of a collection occurs. -/
def frequencies (recorded : Multiset κ) : Multiset ℕ := recorded.dedup.map recorded.count

theorem lookup_bump_self (t : Tally κ) (k : κ) :
    (t.bump k).lookup k = some ((t.lookup k).getD 0 + 1) := by
  rw [bump, Finmap.lookup_insert]

theorem lookup_bump_of_ne (t : Tally κ) {k other : κ} (h : other ≠ k) :
    (t.bump k).lookup other = t.lookup other := by
  rw [bump, Finmap.lookup_insert_of_ne _ h]

/-- A tally is what it stores, in whatever order. -/
theorem Iteration.toFinmap {t : Tally κ} (i : t.Iteration) : i.order.toFinmap = t := by
  obtain ⟨entries, nodup⟩ := t
  obtain ⟨order, complete⟩ := i
  dsimp only at complete ⊢
  subst complete
  apply Finmap.ext_lookup
  intro k
  rw [Finmap.dlookup_list_toFinmap]
  rfl

/-- The tally itself does not depend on what is noted. -/
theorem foldl_count_fst (ks : List κ) (state : Tally κ × Bool) :
    (ks.foldl count state).1 = ks.foldl bump state.1 := by
  induction ks generalizing state with
  | nil => rfl
  | cons k ks ih => exact ih (count state k)

/-- Lists without repetitions contribute an element at most once each. -/
theorem count_flatMap_of_nodup {α : Type*} {f : α → List κ} {xs : List α}
    (h : ∀ x ∈ xs, (f x).Nodup) (k : κ) :
    (xs.flatMap f).count k = xs.countP fun x => k ∈ f x := by
  induction xs with
  | nil => rfl
  | cons x xs ih =>
      rw [List.forall_mem_cons] at h
      rw [List.flatMap_cons, List.count_append, ih h.2, List.countP_cons, h.1.count,
        Nat.add_comm]
      simp only [decide_eq_true_eq]

namespace Counts

variable {t first second : Tally κ} {recorded : Multiset κ}

theorem empty : Counts (∅ : Tally κ) 0 := fun k => by simp

/-- The count of a key, read with zero as the default. -/
theorem getD_lookup (h : Counts t recorded) (k : κ) :
    (t.lookup k).getD 0 = recorded.count k := by
  rw [h k]
  split_ifs with hk
  · rfl
  · exact (Multiset.count_eq_zero_of_notMem hk).symm

/-- A tally of the values of a function counts the arguments with that value. -/
theorem lookup_map {α : Type*} {f : α → κ} {xs : List α} (h : Counts t (xs.map f)) (k : κ) :
    t.lookup k = if k ∈ xs.map f then some (xs.countP fun x => f x = k) else none := by
  rw [h k]
  simp only [Multiset.mem_coe, Multiset.coe_count, List.count, List.countP_map]
  congr 2

/-- Where no argument yields a key twice, a tally of everything the arguments yield counts
the arguments that yield the key. -/
theorem lookup_flatMap {α : Type*} {f : α → List κ} {xs : List α}
    (h : Counts t (xs.flatMap f)) (hnodup : ∀ x ∈ xs, (f x).Nodup) (k : κ) :
    t.lookup k = if k ∈ xs.flatMap f then some (xs.countP fun x => k ∈ f x) else none := by
  rw [h k, Multiset.coe_count, count_flatMap_of_nodup hnodup]
  rfl

/-- One bump records one occurrence. -/
theorem bump (h : Counts t recorded) (k : κ) : Counts (t.bump k) (k ::ₘ recorded) := by
  intro other
  by_cases same : other = k
  · subst other
    rw [lookup_bump_self, h.getD_lookup, if_pos (Multiset.mem_cons_self k recorded),
      Multiset.count_cons_self]
  · rw [lookup_bump_of_ne t same, h other, Multiset.count_cons_of_ne same]
    simp only [Multiset.mem_cons, same, false_or]

/-- Bumping along a list records every element of the list. -/
theorem foldl_bump (h : Counts t recorded) (ks : List κ) :
    Counts (ks.foldl Tally.bump t) (recorded + ks) := by
  induction ks generalizing t recorded with
  | nil => simpa using h
  | cons k ks ih =>
      have step := ih (h.bump k)
      rwa [Multiset.cons_add, ← Multiset.add_cons, Multiset.cons_coe] at step

/-- Bumping from the empty tally counts the list itself. -/
theorem ofList (ks : List κ) : Counts (ks.foldl Tally.bump ∅) (ks : Multiset κ) := by
  simpa using empty.foldl_bump ks

/-- A tally is determined by what it counts. -/
theorem unique (hfirst : Counts first recorded) (hsecond : Counts second recorded) :
    first = second :=
  Finmap.ext_lookup fun k => (hfirst k).trans (hsecond k).symm

/-- The stored keys are the recorded ones. -/
theorem mem_keys (h : Counts t recorded) {k : κ} : k ∈ t.keys ↔ k ∈ recorded := by
  rw [Finmap.mem_keys, ← Finmap.lookup_isSome, h k]
  split_ifs with hk <;> simp [hk]

theorem keys_eq (h : Counts t recorded) : t.keys = recorded.toFinset := by
  ext k
  rw [h.mem_keys, Multiset.mem_toFinset]

theorem mem_entries (h : Counts t recorded) {k : κ} {n : ℕ} :
    ⟨k, n⟩ ∈ t.entries ↔ k ∈ recorded ∧ recorded.count k = n := by
  rw [← Finmap.lookup_eq_some_iff, h k]
  split_ifs with hk <;> simp [hk]

/-- Going through a tally finds the keys with a given property of their multiplicity. -/
theorem mem_iteration (h : Counts t recorded) (i : t.Iteration) (p : ℕ → Prop) [DecidablePred p]
    {k : κ} :
    k ∈ (i.order.filter fun entry => p entry.2).map Sigma.fst ↔
      k ∈ recorded ∧ p (recorded.count k) := by
  simp only [List.mem_map, List.mem_filter, i.mem, decide_eq_true_iff]
  constructor
  · rintro ⟨⟨k, n⟩, ⟨hmem, hn⟩, rfl⟩
    obtain ⟨hk, rfl⟩ := h.mem_entries.mp hmem
    exact ⟨hk, hn⟩
  · rintro ⟨hk, hn⟩
    exact ⟨⟨k, _⟩, ⟨h.mem_entries.mpr ⟨hk, rfl⟩, hn⟩, rfl⟩

theorem counts_eq (h : Counts t recorded) : t.counts = frequencies recorded := by
  have hkeys : t.entries.map Sigma.fst = recorded.dedup := congrArg Finset.val h.keys_eq
  have hcount : ∀ entry ∈ t.entries, entry.2 = recorded.count entry.1 :=
    fun entry hmem => (h.mem_entries.mp hmem).2.symm
  rw [Tally.counts, frequencies, ← hkeys, Multiset.map_map]
  exact Multiset.map_congr rfl hcount

theorem size_eq (h : Counts t recorded) : t.size = recorded.toFinset.card := by
  rw [size, h.keys_eq]

/-- Every stored key has a positive count. -/
theorem covered_eq_size (h : Counts t recorded) : t.covered = t.size := by
  rw [covered, size, Finset.filter_true_of_mem]
  intro k hk
  rw [h.getD_lookup]
  exact Multiset.count_pos.mpr (h.mem_keys.mp hk)

end Counts

/-- The tally of a collection. -/
def ofMultiset (recorded : Multiset κ) : Tally κ :=
  Quotient.liftOn recorded (fun ks => ks.foldl bump ∅) fun first second h =>
    (Counts.ofList first).unique (Multiset.coe_eq_coe.mpr h ▸ Counts.ofList second)

theorem counts_ofMultiset (recorded : Multiset κ) : Counts (ofMultiset recorded) recorded := by
  induction recorded using Quotient.inductionOn with
  | h ks => exact Counts.ofList ks

theorem Counts.eq_ofMultiset {t : Tally κ} {recorded : Multiset κ} (h : Counts t recorded) :
    t = ofMultiset recorded := h.unique (counts_ofMultiset recorded)

theorem frequencies_pos {recorded : Multiset κ} {n : ℕ} (h : n ∈ frequencies recorded) : 0 < n := by
  obtain ⟨k, hk, rfl⟩ := Multiset.mem_map.mp h
  exact Multiset.count_pos.mpr (Multiset.mem_dedup.mp hk)

theorem card_frequencies (recorded : Multiset κ) :
    (frequencies recorded).card = recorded.toFinset.card := by
  rw [frequencies, Multiset.card_map, Multiset.card_toFinset]

theorem sum_frequencies (recorded : Multiset κ) : (frequencies recorded).sum = recorded.card :=
  Multiset.toFinset_sum_count_eq recorded

/-- The sum of all counts, key by key. -/
theorem total_eq_sum (t : Tally κ) : t.total = ∑ k ∈ t.keys, (t.lookup k).getD 0 := by
  have entries : (⟨t.entries, t.nodup_entries⟩ : Finset (Σ _ : κ, ℕ)) =
      t.keys.sigma fun k => (t.lookup k).toFinset := t.sigma_keys_lookup.symm
  calc t.total = ∑ e ∈ (⟨t.entries, t.nodup_entries⟩ : Finset (Σ _ : κ, ℕ)), e.2 := rfl
    _ = ∑ k ∈ t.keys, ∑ n ∈ (t.lookup k).toFinset, n := by rw [entries, Finset.sum_sigma]
    _ = ∑ k ∈ t.keys, (t.lookup k).getD 0 := by
      refine Finset.sum_congr rfl fun k _ => ?_
      cases t.lookup k <;> simp

/-- The counts of a tally add up to the number of recorded occurrences. -/
theorem Counts.total_eq_card {t : Tally κ} {recorded : Multiset κ} (h : Counts t recorded) :
    t.total = recorded.card := by
  rw [total_eq_sum, h.keys_eq, ← Multiset.toFinset_sum_count_eq]
  exact Finset.sum_congr rfl fun k _ => h.getD_lookup k

end Tally

end ProtocolFuzzer.Math
