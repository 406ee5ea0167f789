/-
# What the searches for repetition decide

A window of four bytes that recurs contains one of two bytes that recurs at the same
distance. So where the feature extractor's search for repeated bytes has an answer, the
narrowest window has already given it. The edge extractor's search looks at every position
where a window of four bytes fits twice, and there is no position behind them at which one
could recur.
-/

import ProtocolFuzzer.Coverage.Safety

namespace ProtocolFuzzer.Coverage

open Math Platform

/-- Some window recurs exactly when two windows that do not overlap are equal. -/
theorem exists_recurs_iff {data : List UInt8} {width : ℕ} :
    (∃ i, Recurs data width i) ↔ ∃ i j, i + width ≤ j ∧ j + width ≤ data.length ∧
      window data width i = window data width j := by
  refine exists_congr fun i => exists_congr fun j => ?_
  rw [eq_comm (a := window data width j)]

/-- Where the search for repeated bytes returns, it decides whether two bytes recur without
overlap, and the search for two bytes alone returns the same. -/
theorem hasRepeatedBytes_iff_two_bytes_recur {data : List UInt8} {found : Bool}
    (returned : hasRepeatedBytes data = .ok found) :
    (found = true ↔ ∃ i j, i + 2 ≤ j ∧ j + 2 ≤ data.length ∧
      window data 2 i = window data 2 j) ∧
    (4 ≤ data.length → anyWindowRecurs data 2 = .ok found) := by
  rw [← exists_recurs_iff]
  by_cases short : data.length < 4
  · rw [hasRepeatedBytes, if_pos short] at returned
    cases returned
    refine ⟨iff_of_false Bool.false_ne_true ?_, fun long => absurd short (Nat.not_lt.mpr long)⟩
    intro recurs
    obtain ⟨i, j, hlow, hhigh, -⟩ := recurs
    omega
  · have long := Nat.not_lt.mp short
    obtain ⟨narrow, hrun, hiff⟩ := @anyWindowRecurs_spec data 2 long
    have same : narrow = found := by
      rcases hasRepeatedBytes_eq long with ⟨recurs, hfound⟩ | ⟨none, hfound⟩
      · rw [hfound] at returned
        cases returned
        exact hiff.mpr recurs
      · rw [hfound] at returned
        split_ifs at returned
        cases returned
        exact Bool.eq_false_iff.mpr fun h => none (hiff.mp h)
    subst same
    exact ⟨hiff, fun _ => hrun⟩

theorem hasRepeatedBytes_iff_two_bytes_recur_twice :
    (true = true ↔ ∃ i j, i + 2 ≤ j ∧ j + 2 ≤ [7, 9, 7, 9].length ∧
      window [7, 9, 7, 9] 2 i = window [7, 9, 7, 9] 2 j) ∧
    (4 ≤ [7, 9, 7, 9].length → anyWindowRecurs [7, 9, 7, 9] 2 = .ok true) :=
  @hasRepeatedBytes_iff_two_bytes_recur [7, 9, 7, 9] true (by decide +kernel)

theorem repeatedPatternEdge_eq {input : List UInt8} {i : ℕ} (fits : i + 4 ≤ input.length) :
    ∃ found : Bool, (found = true ↔ Recurs input 4 i) ∧
      repeatedPatternEdge input i =
        .ok (if found then [hashEdge "repeated_pattern" (window input 4 i)] else []) := by
  obtain ⟨found, hrun, hiff⟩ := windowRecurs_spec fits
  refine ⟨found, hiff, ?_⟩
  rw [repeatedPatternEdge, hrun, ok_bind, slice_of_le (Nat.le_add_right i 4) fits, readWhen]
  split_ifs <;> rfl

theorem flatten_map_ite {α β : Type} (found : α → Bool) (f : α → β) (xs : List α) :
    (xs.map fun x => if found x then [f x] else []).flatten = (xs.filter found).map f := by
  induction xs with
  | nil => rfl
  | cons x xs ih =>
      rw [List.map_cons, List.flatten_cons, ih, List.filter_cons]
      split_ifs <;> rfl

/-- The search returns one edge for every offset at which a window recurs, in order. -/
theorem repeatedPatternEdges_eq {input : List UInt8} (long : 10 < input.length) :
    ∃ offsets : List ℕ, offsets.Pairwise (· < ·) ∧ (∀ i, i ∈ offsets ↔ Recurs input 4 i) ∧
      repeatedPatternEdges input =
        .ok (offsets.map fun i => hashEdge "repeated_pattern" (window input 4 i)) := by
  have hprobe : ∀ i, ∃ found : Bool, i ≤ input.length - 4 * 2 →
      (found = true ↔ Recurs input 4 i) ∧ repeatedPatternEdge input i =
        .ok (if found then [hashEdge "repeated_pattern" (window input 4 i)] else []) := by
    intro i
    by_cases hi : i ≤ input.length - 4 * 2
    · obtain ⟨found, hfound⟩ := @repeatedPatternEdge_eq input i (by omega)
      exact ⟨found, fun _ => hfound⟩
    · exact ⟨false, fun h => absurd h hi⟩
  choose found hfound using hprobe
  refine ⟨(inclusive 0 (input.length - 4 * 2)).filter found, ?_, ?_, ?_⟩
  · apply List.Pairwise.filter
    exact List.pairwise_lt_range' 1
  · intro i
    rw [List.mem_filter, mem_inclusive]
    constructor
    · rintro ⟨⟨-, hi⟩, htrue⟩
      exact (hfound i hi).1.mp htrue
    · intro hrecurs
      have hi : i ≤ input.length - 4 * 2 := by
        obtain ⟨j, hlow, hhigh, -⟩ := hrecurs
        omega
      exact ⟨⟨Nat.zero_le i, hi⟩, (hfound i hi).1.mpr hrecurs⟩
  · rw [repeatedPatternEdges, readWhen, if_pos long, sub_of_le (by omega), ok_bind,
      mapM_eq_map fun i hi => (hfound i (mem_inclusive.mp hi).2).2, ok_bind, flatten_map_ite]
    rfl

/-- The edges in front of the repeated patterns. -/
theorem headerEdges_of_long {input : List UInt8} (long : 10 < input.length) :
    ∃ first header16 header32, headerEdges input = .ok [hashEdge "first_byte" first,
      hashEdge "header_u16" header16, hashEdge "header_u32" header32] := by
  refine ⟨[input[0]], [input[0], input[1]], [input[0], input[1], input[2], input[3]], ?_⟩
  have hat : ∀ i (inside : i < input.length), index input i = .ok input[i] :=
    fun i inside => index_of_lt inside
  rw [headerEdges, readWhen, if_pos (by omega), readWhen, if_pos (by omega), readWhen,
    if_pos (by omega)]
  simp only [hat 0 (by omega), hat 1 (by omega), hat 2 (by omega), hat 3 (by omega), ok_bind]
  rfl

/-- The edges of a longer input are six of other types and then those of the repeated
patterns: one for each offset whose window recurs, in order. Taking them never panics. -/
theorem extractInputEdges_repeatedPatterns {input : List UInt8} (long : 10 < input.length) :
    ∃ offsets : List ℕ, offsets.Pairwise (· < ·) ∧
      (∀ i, i ∈ offsets ↔ ∃ j, i + 4 ≤ j ∧ j + 4 ≤ input.length ∧
        window input 4 j = window input 4 i) ∧
      repeatedPatternEdges input =
        .ok (offsets.map fun i => hashEdge "repeated_pattern" (window input 4 i)) ∧
      (FewOfEachByte input → NoPanic (extractInputEdges input)) ∧
      ∀ edges, extractInputEdges input = .ok edges →
        ∃ front : List (String × List UInt8),
          front.map Prod.fst = ["input_size", "first_byte", "header_u16", "header_u32",
            "most_common_byte", "entropy"] ∧
          edges = front.map (fun e => hashEdge e.1 e.2) ++
            offsets.map fun i => hashEdge "repeated_pattern" (window input 4 i) := by
  obtain ⟨offsets, hordered, hmem, hrepeated⟩ := repeatedPatternEdges_eq long
  refine ⟨offsets, hordered, hmem, hrepeated, (extractInputEdges_returns_iff input).mpr, ?_⟩
  intro edges hrun
  obtain ⟨first, header16, header32, hheader⟩ := headerEdges_of_long long
  have hne : ¬ input.isEmpty = true := by
    rw [List.isEmpty_iff]
    exact List.ne_nil_of_length_pos (by omega)
  rw [extractInputEdges, if_neg hne, hheader] at hrun
  obtain ⟨header, hheader', hrun⟩ := bind_eq_ok.mp hrun
  cases hheader'
  obtain ⟨entropy, -, hrun⟩ := bind_eq_ok.mp hrun
  rw [hrepeated] at hrun
  cases hrun
  exact ⟨[("input_size", utf8 (categorizeSize input.length)), ("first_byte", first),
    ("header_u16", header16), ("header_u32", header32),
    ("most_common_byte", [mostCommonByte input]), ("entropy", utf8 (entropyCategory entropy))],
    rfl, by simp only [List.map_cons, List.map_nil, List.cons_append, List.nil_append]⟩

/-- The bytes 1 to 4 come twice. -/
theorem extractInputEdges_repeatedPatterns_twice :
    let input : List UInt8 := [1, 2, 3, 4, 5, 1, 2, 3, 4, 6, 7]
    ∃ offsets : List ℕ, offsets.Pairwise (· < ·) ∧
      (∀ i, i ∈ offsets ↔ ∃ j, i + 4 ≤ j ∧ j + 4 ≤ input.length ∧
        window input 4 j = window input 4 i) ∧
      repeatedPatternEdges input =
        .ok (offsets.map fun i => hashEdge "repeated_pattern" (window input 4 i)) ∧
      (FewOfEachByte input → NoPanic (extractInputEdges input)) ∧
      ∀ edges, extractInputEdges input = .ok edges →
        ∃ front : List (String × List UInt8),
          front.map Prod.fst = ["input_size", "first_byte", "header_u16", "header_u32",
            "most_common_byte", "entropy"] ∧
          edges = front.map (fun e => hashEdge e.1 e.2) ++
            offsets.map fun i => hashEdge "repeated_pattern" (window input 4 i) :=
  extractInputEdges_repeatedPatterns (by decide)

end ProtocolFuzzer.Coverage
