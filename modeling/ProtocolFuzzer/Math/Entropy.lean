/-
# Entropy of counts

The Shannon entropy, in bits, of a collection of counts, each taken with its share of the
sum. It is a function of the multiset of counts, so a program that adds it up in one pass
gets the same value in whatever order it goes through them. Between its extremes, one
count that has everything and counts that are all equal, it is bounded by the logarithm
of how many counts there are.
-/

import Mathlib.Algebra.BigOperators.Field
import Mathlib.Algebra.BigOperators.Ring.Multiset
import Mathlib.Analysis.SpecialFunctions.Log.Base
import Mathlib.Analysis.SpecialFunctions.Log.NegMulLog
import ProtocolFuzzer.Math.Tally

namespace ProtocolFuzzer.Math

open Real (negMulLog log logb)

/-- The part of the sum that one count makes up. -/
noncomputable def share (counts : Multiset ℕ) (n : ℕ) : ℝ := n / counts.sum

noncomputable def entropy (counts : Multiset ℕ) : ℝ :=
  (counts.map fun n => negMulLog (share counts n)).sum / log 2

theorem log_two_pos : 0 < log 2 := Real.log_pos one_lt_two

theorem sum_map_eq_zero_iff {f : ℕ → ℝ} {counts : Multiset ℕ}
    (nonneg : ∀ n ∈ counts, 0 ≤ f n) :
    (counts.map f).sum = 0 ↔ ∀ n ∈ counts, f n = 0 := by
  constructor
  · intro hsum n hn
    apply Multiset.all_zero_of_le_zero_le_of_sum_eq_zero _ hsum
    · exact Multiset.mem_map_of_mem f hn
    · simpa using nonneg
  · intro hzero
    rw [Multiset.map_congr rfl hzero, Multiset.map_const', Multiset.sum_replicate, smul_zero]

theorem share_nonneg (counts : Multiset ℕ) (n : ℕ) : 0 ≤ share counts n := by
  unfold share
  positivity

theorem share_pos_iff {counts : Multiset ℕ} {n : ℕ} (hsum : counts.sum ≠ 0) :
    0 < share counts n ↔ 0 < n := by
  rw [share, div_pos_iff_of_pos_right (Nat.cast_pos.mpr (Nat.pos_of_ne_zero hsum)), Nat.cast_pos]

theorem share_le_one {counts : Multiset ℕ} {n : ℕ} (h : n ∈ counts) : share counts n ≤ 1 := by
  apply div_le_one_of_le₀ _ (Nat.cast_nonneg _)
  exact_mod_cast Multiset.single_le_sum (fun _ _ => Nat.zero_le _) n h

theorem sum_share {counts : Multiset ℕ} (hsum : counts.sum ≠ 0) :
    (counts.map (share counts)).sum = 1 := by
  have hdiv := Multiset.sum_map_div counts (fun n : ℕ => (n : ℝ)) counts.sum
  rw [← Nat.cast_multiset_sum, div_self (Nat.cast_ne_zero.mpr hsum)] at hdiv
  exact hdiv

theorem entropy_of_sum_eq_zero {counts : Multiset ℕ} (hsum : counts.sum = 0) :
    entropy counts = 0 := by
  simp [entropy, share, hsum]

theorem sum_filter_pos (counts : Multiset ℕ) : (counts.filter (0 < ·)).sum = counts.sum := by
  induction counts using Multiset.induction with
  | empty => rfl
  | cons n counts ih =>
      by_cases hn : 0 < n
      · rw [Multiset.filter_cons_of_pos _ hn, Multiset.sum_cons, Multiset.sum_cons, ih]
      · rw [Multiset.filter_cons_of_neg _ hn, Multiset.sum_cons, ih]
        omega

/-- A count of zero is as good as none. -/
theorem entropy_filter_pos (counts : Multiset ℕ) :
    entropy (counts.filter (0 < ·)) = entropy counts := by
  have hshare : share (counts.filter (0 < ·)) = share counts := by
    funext n
    rw [share, share, sum_filter_pos]
  have hzero : ∀ n ∈ counts.filter (¬ 0 < ·), negMulLog (share counts n) = 0 := by
    intro n hn
    obtain rfl := Nat.eq_zero_of_not_pos (Multiset.mem_filter.mp hn).2
    simp [share]
  have hsplit := congrArg (fun s => (s.map fun n => negMulLog (share counts n)).sum)
    (Multiset.filter_add_not (0 < ·) counts)
  simp only [Multiset.map_add, Multiset.sum_add] at hsplit
  rw [Multiset.map_congr rfl hzero, Multiset.map_const', Multiset.sum_replicate, smul_zero,
    add_zero] at hsplit
  rw [entropy, entropy, hshare, hsplit]

theorem entropy_nonneg (counts : Multiset ℕ) : 0 ≤ entropy counts := by
  apply div_nonneg _ log_two_pos.le
  apply Multiset.sum_nonneg
  simp only [Multiset.mem_map, forall_exists_index, and_imp, forall_apply_eq_imp_iff₂]
  exact fun n hn => Real.negMulLog_nonneg (share_nonneg counts n) (share_le_one hn)

/-- What a share of one among `k` falls short by, as a summand of the entropy. -/
noncomputable def shortfall (x : ℝ) : ℝ := 1 - x - negMulLog x

theorem shortfall_nonneg {x : ℝ} (nonneg : 0 ≤ x) : 0 ≤ shortfall x :=
  sub_nonneg.mpr (Real.negMulLog_le_one_sub_self nonneg)

theorem shortfall_eq_zero_iff {x : ℝ} (nonneg : 0 ≤ x) : shortfall x = 0 ↔ x = 1 := by
  constructor
  · intro hzero
    by_contra hne
    exact (sub_pos.mpr (Real.negMulLog_lt_one_sub_self nonneg hne)).ne' hzero
  · rintro rfl
    simp [shortfall]

/-- How far the entropy stays below the logarithm of the number of counts. -/
theorem card_mul_log_sub_entropy {counts : Multiset ℕ} (hsum : counts.sum ≠ 0) :
    counts.card * (log counts.card - entropy counts * log 2) =
      (counts.map fun n => shortfall (counts.card * share counts n)).sum := by
  have hentropy : entropy counts * log 2 =
      (counts.map fun n => negMulLog (share counts n)).sum :=
    div_mul_cancel₀ _ log_two_pos.ne'
  have hterm : ∀ n, shortfall (counts.card * share counts n) =
      1 - (counts.card + negMulLog counts.card) * share counts n -
        counts.card * negMulLog (share counts n) := by
    intro n
    rw [shortfall, Real.negMulLog_mul]
    ring
  rw [Multiset.map_congr rfl fun n _ => hterm n, Multiset.sum_map_sub, Multiset.sum_map_sub,
    Multiset.sum_map_mul_left, Multiset.sum_map_mul_left, sum_share hsum, hentropy]
  simp only [Multiset.map_const', Multiset.sum_replicate, nsmul_eq_mul, negMulLog]
  ring

section Positive

variable {counts : Multiset ℕ}

theorem sum_ne_zero (pos : ∀ n ∈ counts, 0 < n) (hne : counts ≠ 0) : counts.sum ≠ 0 := by
  obtain ⟨n, hn⟩ := Multiset.exists_mem_of_ne_zero hne
  exact ((pos n hn).trans_le
    (Multiset.single_le_sum (fun _ _ => Nat.zero_le _) n hn)).ne'

theorem entropy_le_logb_card (pos : ∀ n ∈ counts, 0 < n) :
    entropy counts ≤ logb 2 counts.card := by
  by_cases hempty : counts = 0
  · subst hempty
    simp [entropy]
  · have hsum := card_mul_log_sub_entropy (sum_ne_zero pos hempty)
    have hnonneg : 0 ≤ counts.card * (log counts.card - entropy counts * log 2) := by
      rw [hsum]
      apply Multiset.sum_nonneg
      simp only [Multiset.mem_map, forall_exists_index, and_imp, forall_apply_eq_imp_iff₂]
      exact fun n _ =>
        shortfall_nonneg (mul_nonneg (Nat.cast_nonneg _) (share_nonneg counts n))
    have hcard : (0 : ℝ) < counts.card := by exact_mod_cast Multiset.card_pos.mpr hempty
    rw [logb, le_div_iff₀ log_two_pos]
    exact sub_nonneg.mp (nonneg_of_mul_nonneg_right hnonneg hcard)

/-- The bound is reached exactly when all counts are equal. -/
theorem entropy_eq_logb_card_iff (pos : ∀ n ∈ counts, 0 < n) :
    entropy counts = logb 2 counts.card ↔ ∀ n ∈ counts, ∀ m ∈ counts, n = m := by
  by_cases hempty : counts = 0
  · subst hempty
    simp [entropy]
  have hsum := sum_ne_zero pos hempty
  have hcard : (counts.card : ℝ) ≠ 0 := by simpa using hempty
  have hcast : (counts.sum : ℝ) ≠ 0 := Nat.cast_ne_zero.mpr hsum
  have hfull : ∀ n, counts.card * share counts n = 1 ↔ counts.card * n = counts.sum := by
    intro n
    rw [share, ← mul_div_assoc, div_eq_one_iff_eq hcast]
    exact_mod_cast Iff.rfl
  calc entropy counts = logb 2 counts.card
      ↔ counts.card * (log counts.card - entropy counts * log 2) = 0 := by
        rw [mul_eq_zero, or_iff_right hcard, sub_eq_zero, logb, eq_div_iff log_two_pos.ne',
          eq_comm]
    _ ↔ ∀ n ∈ counts, shortfall (counts.card * share counts n) = 0 := by
        rw [card_mul_log_sub_entropy hsum, sum_map_eq_zero_iff]
        exact fun n _ =>
          shortfall_nonneg (mul_nonneg (Nat.cast_nonneg _) (share_nonneg counts n))
    _ ↔ ∀ n ∈ counts, counts.card * n = counts.sum := by
        refine forall₂_congr fun n _ => ?_
        rw [shortfall_eq_zero_iff (mul_nonneg (Nat.cast_nonneg _) (share_nonneg counts n)),
          hfull]
    _ ↔ ∀ n ∈ counts, ∀ m ∈ counts, n = m := by
        constructor
        · intro h n hn m hm
          exact Nat.eq_of_mul_eq_mul_left (Multiset.card_pos.mpr hempty)
            ((h n hn).trans (h m hm).symm)
        · intro h n hn
          rw [Multiset.eq_replicate_card.mpr fun m hm => h m hm n hn]
          simp

/-- The entropy is zero exactly when there is one count at most. -/
theorem entropy_eq_zero_iff (pos : ∀ n ∈ counts, 0 < n) :
    entropy counts = 0 ↔ counts.card ≤ 1 := by
  constructor
  · intro hzero
    by_contra hmany
    obtain ⟨n, hn⟩ := Multiset.card_pos_iff_exists_mem.mp (by omega : 0 < counts.card)
    obtain ⟨rest, hrest⟩ := Multiset.exists_cons_of_mem hn
    have hne : rest ≠ 0 := by
      rintro rfl
      simp [hrest] at hmany
    have hmore : n < counts.sum := by
      rw [hrest, Multiset.sum_cons]
      have := sum_ne_zero (fun m hm => pos m (hrest ▸ Multiset.mem_cons_of_mem hm)) hne
      omega
    have hlow : 0 < share counts n :=
      div_pos (Nat.cast_pos.mpr (pos n hn)) (Nat.cast_pos.mpr (Nat.zero_lt_of_lt hmore))
    have hhigh : share counts n < 1 :=
      (div_lt_one (Nat.cast_pos.mpr (Nat.zero_lt_of_lt hmore))).mpr (Nat.cast_lt.mpr hmore)
    rw [entropy, div_eq_zero_iff, or_iff_left log_two_pos.ne', sum_map_eq_zero_iff fun m hm =>
      Real.negMulLog_nonneg (share_nonneg counts m) (share_le_one hm)] at hzero
    have hterm := hzero n hn
    rw [Real.negMulLog_eq_neg, neg_eq_zero] at hterm
    exact (Real.mul_log_neg hlow hhigh).ne hterm
  · intro hcard
    have hlog : logb 2 counts.card = 0 := by
      obtain hnone | hone := Nat.le_one_iff_eq_zero_or_eq_one.mp hcard
      · simp [hnone]
      · simp [hone]
    exact ((entropy_le_logb_card pos).trans_eq hlog).antisymm (entropy_nonneg counts)

end Positive

/-- A number that says how evenly a collection is spread over its distinct elements. -/
structure MeasuresSpread {κ : Type*} [DecidableEq κ] (spread : ℝ) (recorded : Multiset κ) :
    Prop where
  nonneg : 0 ≤ spread
  le_logb : spread ≤ logb 2 recorded.toFinset.card
  eq_zero_iff : spread = 0 ↔ recorded.toFinset.card ≤ 1
  eq_logb_iff : spread = logb 2 recorded.toFinset.card ↔
    ∀ k ∈ recorded, ∀ other ∈ recorded, recorded.count k = recorded.count other

theorem measuresSpread_entropy {κ : Type*} [DecidableEq κ] (recorded : Multiset κ) :
    MeasuresSpread (entropy (Tally.frequencies recorded)) recorded := by
  have hpos : ∀ n ∈ Tally.frequencies recorded, 0 < n := fun n => Tally.frequencies_pos
  have hcard := Tally.card_frequencies recorded
  exact {
    nonneg := entropy_nonneg _
    le_logb := hcard ▸ entropy_le_logb_card hpos
    eq_zero_iff := hcard ▸ entropy_eq_zero_iff hpos
    eq_logb_iff := by
      rw [← hcard, entropy_eq_logb_card_iff hpos]
      simp [Tally.frequencies] }

theorem foldl_add_map {step : ℝ → ℕ → ℝ} {f : ℕ → ℝ} {counts : List ℕ}
    (hstep : ∀ e, ∀ n ∈ counts, step e n = e + f n) (start : ℝ) :
    counts.foldl step start = start + (counts.map f).sum := by
  induction counts generalizing start with
  | nil => simp
  | cons n counts ih =>
      have hhead := hstep start n List.mem_cons_self
      rw [List.foldl_cons, hhead, ih fun e m hm => hstep e m (List.mem_cons_of_mem n hm),
        List.map_cons, List.sum_cons, add_assoc]

/-- Subtracting `p * log2 p` for the share `p` of every count adds the entropy up. Counts of
zero contribute nothing, so a program may skip them. -/
theorem foldl_eq_entropy {counts : List ℕ} {step : ℝ → ℕ → ℝ}
    (hstep : ∀ e n, step e n = if 0 < share counts n then
      e - share counts n * logb 2 (share counts n) else e) :
    counts.foldl step 0 = entropy counts := by
  have hterm : ∀ e, ∀ n ∈ counts,
      step e n = e + negMulLog (share counts n) * (log 2)⁻¹ := by
    intro e n _
    rw [hstep]
    split_ifs with present
    · rw [logb, negMulLog]
      ring
    · rw [((share_nonneg counts n).eq_of_not_lt present).symm, Real.negMulLog_zero]
      ring
  rw [foldl_add_map hterm, zero_add, List.sum_map_mul_right, entropy, Multiset.map_coe,
    Multiset.sum_coe, div_eq_mul_inv]

end ProtocolFuzzer.Math
