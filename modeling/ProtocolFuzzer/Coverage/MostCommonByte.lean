/-
# The most common byte

The counters behind `most_common_byte` have 16 bits and saturate. Bytes that occur more
often than a counter can say are tied, and of several maxima the search keeps the last. So
the hashed byte is the most common one as long as no byte fills its counter, and otherwise
the numerically greatest byte that does.
-/

import ProtocolFuzzer.Coverage.Edge
import ProtocolFuzzer.Math.LastMax

namespace ProtocolFuzzer.Coverage

open Math Platform

/-- A counter says how often its byte occurs, as far as it can. -/
theorem byteCounts_apply (input : List UInt8) (byte : UInt8) :
    byteCounts input byte = min (input.count byte) 65535 := by
  induction input using List.reverseRecOn with
  | nil => rfl
  | append_singleton input last ih =>
      rw [byteCounts, List.foldl_append, List.foldl_cons, List.foldl_nil, List.count_append,
        List.count_singleton]
      change Function.update (byteCounts input) last
        (min (byteCounts input last + 1) 65535) byte = _
      by_cases same : byte = last
      · subst same
        rw [Function.update_self, ih, if_pos (by simp)]
        omega
      · rw [Function.update_of_ne same, ih, if_neg (by simpa using Ne.symm same), Nat.add_zero]

/-- The counters in the order of the search. -/
def counted : List UInt8 := (List.range 256).map UInt8.ofNat

theorem mem_counted (byte : UInt8) : byte ∈ counted :=
  List.mem_map.mpr ⟨byte.toNat, List.mem_range.mpr byte.toNat_lt, UInt8.ofNat_toNat⟩

theorem counted_sorted : (0 :: counted).Pairwise fun a b : UInt8 => a.toNat ≤ b.toNat := by
  refine List.pairwise_cons.mpr ⟨fun b _ => Nat.zero_le _, List.pairwise_map.mpr ?_⟩
  refine (List.pairwise_lt_range (n := 256)).imp_of_mem fun {a b} ha hb hlt => ?_
  rw [List.mem_range] at ha hb
  rw [UInt8.toNat_ofNat', UInt8.toNat_ofNat']
  omega

theorem mostCommonByte_isLastMax (input : List UInt8) :
    IsLastMax (byteCounts input) (0 :: counted) (mostCommonByte input) :=
  lastMax_isLastMax _ 0 counted

/-- No counter is larger than that of the hashed byte. -/
theorem min_count_le (input : List UInt8) (byte : UInt8) :
    min (input.count byte) 65535 ≤ min (input.count (mostCommonByte input)) 65535 := by
  have hle := (mostCommonByte_isLastMax input).le (List.mem_cons_of_mem 0 (mem_counted byte))
  rwa [byteCounts_apply, byteCounts_apply] at hle

/-- Counters of greater bytes are smaller. -/
theorem min_count_lt {input : List UInt8} {byte : UInt8}
    (greater : (mostCommonByte input).toNat < byte.toNat) :
    min (input.count byte) 65535 < min (input.count (mostCommonByte input)) 65535 := by
  have hlt := (mostCommonByte_isLastMax input).lt_of_rank counted_sorted
    (List.mem_cons_of_mem 0 (mem_counted byte)) greater
  rwa [byteCounts_apply, byteCounts_apply] at hlt

/-- Of the bytes that fill their counters, the greatest is hashed. -/
theorem mostCommonByte_of_full {input : List UInt8} {byte : UInt8}
    (full : 65535 ≤ input.count byte)
    (greatest : ∀ other : UInt8, byte.toNat < other.toNat → input.count other < 65535) :
    mostCommonByte input = byte := by
  have hle := min_count_le input byte
  rcases Nat.lt_trichotomy (mostCommonByte input).toNat byte.toNat with hlt | heq | hgt
  · have := min_count_lt hlt
    omega
  · exact UInt8.toNat_inj.mp heq
  · have := greatest _ hgt
    omega

theorem mem_extractInputEdges {input : List UInt8} {edges : List UInt64} (hne : input ≠ [])
    (hrun : extractInputEdges input = .ok edges) :
    hashEdge "most_common_byte" [mostCommonByte input] ∈ edges := by
  rw [extractInputEdges, if_neg (by simpa using hne)] at hrun
  obtain ⟨header, -, hrun⟩ := bind_eq_ok.mp hrun
  obtain ⟨entropy, -, hrun⟩ := bind_eq_ok.mp hrun
  obtain ⟨repeated, -, hrun⟩ := bind_eq_ok.mp hrun
  cases hrun
  simp

/-- The byte hashed for an input occurs in it at least as often as every other byte exactly
when the greatest of the bytes that fill their counters does, if there is any. -/
theorem mostCommonByte_iff (input : List UInt8) :
    (∀ edges, input ≠ [] → extractInputEdges input = .ok edges →
        hashEdge "most_common_byte" [mostCommonByte input] ∈ edges) ∧
      ((∀ byte, input.count byte ≤ input.count (mostCommonByte input)) ↔
        ∀ full : UInt8, 65535 ≤ input.count full →
          (∀ other : UInt8, full.toNat < other.toNat → input.count other < 65535) →
          ∀ byte, input.count byte ≤ input.count full) := by
  refine ⟨fun edges => mem_extractInputEdges, ?_, ?_⟩
  · intro hmost full hfull hgreatest
    rwa [mostCommonByte_of_full hfull hgreatest] at hmost
  · intro hgreatest byte
    by_cases full : 65535 ≤ input.count (mostCommonByte input)
    · refine hgreatest _ full (fun other greater => ?_) byte
      have hlt := min_count_lt greater
      omega
    · have hle := min_count_le input byte
      omega

/-- One byte more of 0 than the counters can say, and as many of 1 as they can. -/
def floodedInput : List UInt8 := List.replicate 65536 0 ++ List.replicate 65535 1

/-- The byte 1 is hashed, though 0 occurs more often. -/
theorem mostCommonByte_flooded :
    mostCommonByte floodedInput = 1 ∧ floodedInput.count 1 = 65535 ∧
      floodedInput.count 0 = 65536 := by
  have hcount : ∀ byte : UInt8, floodedInput.count byte =
      (if byte = 0 then 65536 else 0) + if byte = 1 then 65535 else 0 := by
    intro byte
    rw [floodedInput, List.count_append, List.count_replicate, List.count_replicate]
    simp only [beq_iff_eq, @eq_comm _ byte]
  have hone : floodedInput.count 1 = 65535 := by rw [hcount]; rfl
  refine ⟨mostCommonByte_of_full hone.ge fun other greater => ?_, hone, by rw [hcount]; rfl⟩
  have hother : other ≠ 0 ∧ other ≠ 1 := by
    constructor
    · rintro rfl
      exact absurd greater (by decide)
    · rintro rfl
      exact absurd greater (by decide)
  rw [hcount, if_neg hother.1, if_neg hother.2]
  decide

end ProtocolFuzzer.Coverage
