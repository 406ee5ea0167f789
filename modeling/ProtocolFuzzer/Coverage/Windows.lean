/-
# Recurring windows

Both coverage extractors look for a window of bytes that recurs later in the input
without overlapping itself. The search slices the input at computed positions; it
returns for every window that fits, and then it decides recurrence. What it does not
check is that a window fits twice, which is where `has_repeated_bytes` goes wrong.
-/

import ProtocolFuzzer.Platform.Checked

namespace ProtocolFuzzer.Coverage

open Platform

/-- The inner loop: does the window of the given width at `i` recur at some later
position it does not overlap? -/
def windowRecurs (data : List UInt8) (width i : ℕ) : Checked Bool := do
  let pattern ← slice data i (i + width)
  let last ← sub data.length width
  (inclusive (i + width) last).anyM fun j => do
    pure ((← slice data j (j + width)) == pattern)

/-- The outer loop: does any window of the given width recur? -/
def anyWindowRecurs (data : List UInt8) (width : ℕ) : Checked Bool := do
  let last ← sub data.length (width * 2)
  (inclusive 0 last).anyM fun i => windowRecurs data width i

/-- The bytes of a window. -/
def window (data : List UInt8) (width i : ℕ) : List UInt8 := (data.take (i + width)).drop i

/-- The window at `i` occurs again at some `j` behind it. -/
def Recurs (data : List UInt8) (width i : ℕ) : Prop :=
  ∃ j, i + width ≤ j ∧ j + width ≤ data.length ∧ window data width j = window data width i

theorem windowRecurs_spec {data : List UInt8} {width i : ℕ} (fits : i + width ≤ data.length) :
    ∃ found, windowRecurs data width i = .ok found ∧ (found = true ↔ Recurs data width i) := by
  have hprobe : ∀ j ∈ inclusive (i + width) (data.length - width),
      (do pure ((← slice data j (j + width)) == window data width i) : Checked Bool) =
        .ok (window data width j == window data width i) := by
    intro j hj
    rw [mem_inclusive] at hj
    rw [slice_of_le (Nat.le_add_right j width) (by omega)]
    rfl
  refine ⟨(inclusive (i + width) (data.length - width)).any fun j =>
    window data width j == window data width i, ?_, ?_⟩
  · rw [windowRecurs, slice_of_le (Nat.le_add_right i width) fits, ok_bind,
      sub_of_le (by omega), ok_bind]
    exact anyM_eq_any hprobe
  · rw [List.any_eq_true, Recurs]
    simp only [mem_inclusive, beq_iff_eq]
    constructor
    · rintro ⟨j, hj, heq⟩
      exact ⟨j, hj.1, by omega, heq⟩
    · rintro ⟨j, hlow, hhigh, heq⟩
      exact ⟨j, ⟨hlow, by omega⟩, heq⟩

/-- The outer loop returns whenever the window fits twice, and decides whether some
window recurs. -/
theorem anyWindowRecurs_spec {data : List UInt8} {width : ℕ} (fits : width * 2 ≤ data.length) :
    ∃ found, anyWindowRecurs data width = .ok found ∧
      (found = true ↔ ∃ i, Recurs data width i) := by
  have hprobe : ∀ i, ∃ found, i ≤ data.length - width * 2 →
      windowRecurs data width i = .ok found ∧ (found = true ↔ Recurs data width i) := by
    intro i
    by_cases hi : i ≤ data.length - width * 2
    · obtain ⟨found, hrun, hiff⟩ :=
        @windowRecurs_spec data width i (by omega)
      exact ⟨found, fun _ => ⟨hrun, hiff⟩⟩
    · exact ⟨false, fun h => absurd h hi⟩
  choose found hfound using hprobe
  refine ⟨(inclusive 0 (data.length - width * 2)).any found, ?_, ?_⟩
  · rw [anyWindowRecurs, sub_of_le fits, ok_bind]
    exact anyM_eq_any fun i hi => (hfound i (mem_inclusive.mp hi).2).1
  · rw [List.any_eq_true]
    simp only [mem_inclusive]
    constructor
    · rintro ⟨i, hi, htrue⟩
      exact ⟨i, (hfound i hi.2).2.mp htrue⟩
    · rintro ⟨i, hrecurs⟩
      have hi : i ≤ data.length - width * 2 := by
        obtain ⟨j, hlow, hhigh, -⟩ := hrecurs
        omega
      exact ⟨i, ⟨Nat.zero_le i, hi⟩, (hfound i hi).2.mpr hrecurs⟩

/-- A window that does not fit twice makes the outer loop panic. -/
theorem anyWindowRecurs_error {data : List UInt8} {width : ℕ} (short : data.length < width * 2) :
    anyWindowRecurs data width = .error .arithmeticOverflow := by
  rw [anyWindowRecurs, sub_of_lt short, error_bind]

end ProtocolFuzzer.Coverage
