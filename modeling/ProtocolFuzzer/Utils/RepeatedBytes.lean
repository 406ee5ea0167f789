/-
# Repeated bytes

The pass of the packet analyzer keeps the run it is in and counts it only when it is over,
in the loop or behind it. At any moment it has counted what belongs to longer runs in the
bytes before the current run.
-/

import ProtocolFuzzer.Math.Runs
import ProtocolFuzzer.Utils.PacketAnalyzer

namespace ProtocolFuzzer.PacketAnalyzer

open Math

/-- What is added for a run is its share of the count. -/
theorem addRun_eq {f : List UInt8 → ℕ} (counts : CountsRuns f) (count currentRun : ℕ)
    (byte : UInt8) :
    addRun count currentRun = count + f (List.replicate currentRun byte) := by
  rw [addRun, counts.replicate]
  split_ifs <;> rfl

/-- The pass counts the current run together with the bytes to come. -/
theorem countRuns_eq {f : List UInt8 → ℕ} (counts : CountsRuns f) (bytes : List UInt8)
    (prevByte : UInt8) (currentRun count : ℕ) :
    countRuns bytes prevByte currentRun count =
      count + f (List.replicate currentRun prevByte ++ bytes) := by
  induction bytes generalizing prevByte currentRun count with
  | nil => rw [countRuns, addRun_eq counts count currentRun prevByte, List.append_nil]
  | cons byte bytes ih =>
      rw [countRuns]
      split_ifs with same
      · subst same
        rw [ih, List.replicate_succ', List.append_assoc, List.singleton_append]
      · have apart := apart_replicate_cons (Ne.symm same) currentRun bytes
        rw [ih, addRun_eq counts count currentRun prevByte, counts.append apart, Nat.add_assoc,
          List.replicate_one, List.singleton_append]

theorem countRepeatedBytes_eq {f : List UInt8 → ℕ} (counts : CountsRuns f)
    (data : List UInt8) : countRepeatedBytes data = f data := by
  cases data with
  | nil => exact (counts.replicate 0 0).symm
  | cons first rest =>
      rw [countRepeatedBytes, countRuns_eq counts, Nat.zero_add, List.replicate_one,
        List.singleton_append]

/-- The count is the number of positions with an equal neighbour, and the total length of
the runs of at least two bytes, and so at most the length. -/
theorem countRepeatedBytes_counts (data : List UInt8) :
    countRepeatedBytes data =
      (List.range data.length).countP (fun i =>
        (0 < i ∧ data[i - 1]? = data[i]?) ∨ data[i]? = data[i + 1]?) ∧
    countRepeatedBytes data =
      (((data.splitBy (· == ·)).map List.length).filter (2 ≤ ·)).sum ∧
    countRepeatedBytes data ≤ data.length := by
  have htwins := countRepeatedBytes_eq countsRuns_countTwins data
  refine ⟨htwins, countRepeatedBytes_eq countsRuns_repeatedLength data, ?_⟩
  rw [htwins]
  exact countTwins_le data

example : countRepeatedBytes [7, 7, 1, 2, 2, 2] = 5 := rfl

end ProtocolFuzzer.PacketAnalyzer
