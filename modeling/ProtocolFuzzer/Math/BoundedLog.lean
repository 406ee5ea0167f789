/-
# Logs with a bound

A log that is appended to forever is kept small by dropping old entries once it exceeds
a limit, either one at a time or in bulk. Such a log is always a final part of everything
that was ever appended, and how long a part is a function of the number of entries.
-/

import Mathlib.Data.List.DropRight

namespace ProtocolFuzzer.Math.BoundedLog

universe u

variable {α : Type u}

/-- Append an entry, and drop the oldest `bulk` entries beyond the limit. -/
def push (limit bulk : ℕ) (log : List α) (x : α) : List α :=
  let log := log ++ [x]
  if log.length > limit then log.drop bulk else log

/-- How many of `n` entries are kept. -/
def kept (limit bulk n : ℕ) : ℕ :=
  if n ≤ limit then n else limit + 1 - bulk + (n - (limit + 1)) % bulk

variable {limit bulk : ℕ}

theorem kept_le (hbulk : 0 < bulk) (hfits : bulk ≤ limit + 1) (n : ℕ) :
    kept limit bulk n ≤ limit ∧ kept limit bulk n ≤ n ∧
      min n (limit + 1 - bulk) ≤ kept limit bulk n := by
  have hmod := Nat.mod_lt (n - (limit + 1)) hbulk
  have hle := Nat.mod_le (n - (limit + 1)) bulk
  rw [kept]
  split_ifs with few
  · omega
  · omega

theorem kept_of_le {n : ℕ} (few : n ≤ limit) : kept limit bulk n = n := if_pos few

theorem kept_add (m : ℕ) : kept limit bulk (limit + 1 + m) = limit + 1 - bulk + m % bulk := by
  rw [kept, if_neg (by omega), Nat.add_sub_cancel_left]

/-- A remainder goes up by one, or wraps around. -/
theorem succ_mod_eq (hbulk : 0 < bulk) (m : ℕ) :
    (m + 1) % bulk = if m % bulk + 1 = bulk then 0 else m % bulk + 1 := by
  have hmod := Nat.mod_lt m hbulk
  have hparts : m + 1 = bulk * (m / bulk) + (m % bulk + 1) := by
    rw [← Nat.add_assoc, Nat.div_add_mod]
  rw [hparts, Nat.mul_add_mod]
  split_ifs with wraps
  · rw [wraps, Nat.mod_self]
  · exact Nat.mod_eq_of_lt (by omega)

/-- One more entry is kept, unless it is one too many. -/
theorem kept_succ (hbulk : 0 < bulk) (hfits : bulk ≤ limit + 1) (n : ℕ) :
    kept limit bulk (n + 1) =
      if kept limit bulk n + 1 > limit then kept limit bulk n + 1 - bulk
      else kept limit bulk n + 1 := by
  rcases Nat.lt_trichotomy n limit with few | rfl | many
  · rw [kept_of_le few, kept_of_le few.le, if_neg (Nat.not_lt.mpr few)]
  · rw [kept_of_le le_rfl, kept_add 0, if_pos (Nat.lt_succ_self n), Nat.zero_mod, Nat.add_zero]
  · obtain ⟨m, rfl⟩ : ∃ m, n = limit + 1 + m := ⟨n - (limit + 1), by omega⟩
    have hmod := Nat.mod_lt m hbulk
    rw [Nat.add_assoc, kept_add, kept_add, succ_mod_eq hbulk]
    by_cases wraps : m % bulk + 1 = bulk
    · rw [if_pos wraps, if_pos (by omega)]
      omega
    · rw [if_neg wraps, if_neg (by omega)]
      omega

theorem length_rtake_kept (hbulk : 0 < bulk) (hfits : bulk ≤ limit + 1) (all : List α) :
    (all.rtake (kept limit bulk all.length)).length = kept limit bulk all.length := by
  have hle := kept_le hbulk hfits all.length
  rw [List.rtake, List.length_drop]
  omega

/-- A bounded log stays a final part of everything appended. -/
theorem push_rtake (hbulk : 0 < bulk) (hfits : bulk ≤ limit + 1) (all : List α) (x : α) :
    push limit bulk (all.rtake (kept limit bulk all.length)) x =
      (all ++ [x]).rtake (kept limit bulk (all ++ [x]).length) := by
  have hle := kept_le hbulk hfits all.length
  have hlength : (all.rtake (kept limit bulk all.length) ++ [x]).length =
      kept limit bulk all.length + 1 := by
    rw [List.length_append, List.length_singleton, length_rtake_kept hbulk hfits]
  rw [push, hlength, List.length_append, List.length_singleton, kept_succ hbulk hfits,
    ← List.rtake_concat_succ]
  split_ifs with full
  · rw [List.rtake, List.rtake, List.drop_drop, List.length_append, List.length_singleton]
    congr 1
    omega
  · rfl

/-- A log that drops single entries keeps the last ones up to its limit. -/
theorem rtake_kept_one (all : List α) : all.rtake (kept limit 1 all.length) = all.rtake limit := by
  rw [kept, Nat.mod_one]
  split_ifs with few
  · rw [List.rtake, List.rtake, Nat.sub_self, Nat.sub_eq_zero_of_le few]
  · rfl

end ProtocolFuzzer.Math.BoundedLog
