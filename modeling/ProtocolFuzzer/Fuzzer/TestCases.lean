/-
# Generating test cases

The `generate` command writes up to two files for every index below the requested count:
the valid and the malformed packet generated from a seed buffer that counts up from the
index. A byte of the buffer keeps the index modulo 256 only. So there are 256 buffers,
and from the index 256 on the files of a case repeat those of an earlier one under
another name.
-/

import ProtocolFuzzer.Fuzzer.Campaign
import ProtocolFuzzer.Platform.Text

namespace ProtocolFuzzer.Fuzzer

open Math Platform

variable {σ : Type}

/-- The name of the file for a packet of a test case. -/
def testCaseName (i packetIdx : ℕ) : String :=
  "testcase_" ++ formatPadded 10 6 i ++ "_" ++ formatPadded 10 1 packetIdx ++ ".bin"

/-- The packets generated from one source, valid and malformed; `none` is an error. -/
def PacketFuzzer.generatePackets (fuzzer : PacketFuzzer σ) (s : σ) :
    Checked (List (Option (List UInt8))) := do
  let (valid, s) ← fuzzer.generateValidPacket.run s
  let (malformed, _) ← fuzzer.generateMalformedPacket.run s
  pure [valid, malformed]

/-- The files written for the packets of a test case, by name; an error writes nothing. -/
def testCaseFiles (i : ℕ) (packets : List (Option (List UInt8))) : List (String × List UInt8) :=
  packets.zipIdx.filterMap fun (packet, packetIdx) =>
    packet.map fun bytes => (testCaseName i packetIdx, bytes)

/-- The source from which the packets of a test case are drawn. -/
def testCaseSeed (random : ℕ → ℕ → UInt32) (i : ℕ) : Unstructured :=
  { data := seedData 1024 i, random := random i }

/-- The files that `generate_test_cases` writes. -/
def generateTestCases (fuzzer : PacketFuzzer Unstructured) (random : ℕ → ℕ → UInt32)
    (count : ℕ) : Checked (List (String × List UInt8)) := do
  let files ← (List.range count).mapM fun i => do
    let packets ← fuzzer.generatePackets (testCaseSeed random i)
    pure (testCaseFiles i packets)
  pure files.flatten

/-- Two seed buffers are equal exactly when they start with the same byte. -/
theorem seedData_eq_iff {length i k : ℕ} (nonempty : 0 < length) :
    seedData length i = seedData length k ↔ i % 256 = k % 256 := by
  constructor
  · intro same
    obtain ⟨rest, rfl⟩ := Nat.exists_eq_succ_of_ne_zero nonempty.ne'
    rw [seedData_succ, seedData_succ, List.cons.injEq] at same
    have hbyte := congrArg UInt8.toNat same.1
    rw [UInt8.toNat_ofNat', UInt8.toNat_ofNat'] at hbyte
    omega
  · intro same
    rw [← seedData_mod length i, same, seedData_mod]

/-- The seed buffers of the requested test cases are pairwise different exactly when at most
256 are requested. -/
theorem testCaseSeeds_distinct_iff (random : ℕ → ℕ → UInt32) (count : ℕ) :
    (∀ i k, i < k → k < count → (testCaseSeed random i).data ≠ (testCaseSeed random k).data) ↔
      count ≤ 256 := by
  simp only [testCaseSeed, ne_eq, seedData_eq_iff (show 0 < 1024 by decide)]
  constructor
  · intro distinct
    by_contra many
    exact distinct 0 256 (by decide) (Nat.not_le.mp many) (by decide)
  · intro few i k hik hk same
    omega

/-- The test cases 0 and 256 are generated from the same buffer. -/
theorem testCaseSeeds_collide : ¬ ∀ i k, i < k → k < 257 →
    (testCaseSeed (fun _ _ => 0) i).data ≠ (testCaseSeed (fun _ _ => 0) k).data := by
  intro distinct
  simp only [testCaseSeed, ne_eq, seedData_eq_iff (show 0 < 1024 by decide)] at distinct
  exact distinct 0 256 (by decide) (by decide) (by decide)

/-- Where the random number generator of the thread repeats itself or is not asked, a test
case repeats the packets of the one 256 before it. -/
theorem generatePackets_repeat (fuzzer : PacketFuzzer Unstructured) {random : ℕ → ℕ → UInt32}
    {i k : ℕ} (congruent : i % 256 = k % 256) (repeated : random i = random k) :
    fuzzer.generatePackets (testCaseSeed random i) =
      fuzzer.generatePackets (testCaseSeed random k) := by
  rw [testCaseSeed, testCaseSeed, (seedData_eq_iff (by decide)).mpr congruent, repeated]

theorem mem_of_mem_testCaseFiles {i : ℕ} {packets : List (Option (List UInt8))}
    {file : String × List UInt8} (written : file ∈ testCaseFiles i packets) :
    some file.2 ∈ packets := by
  obtain ⟨⟨packet, packetIdx⟩, hzip, hname⟩ := List.mem_filterMap.mp written
  obtain ⟨bytes, hpacket, hfile⟩ := Option.map_eq_some_iff.mp hname
  subst hpacket hfile
  exact List.fst_mem_of_mem_zipIdx hzip

/-- So however many test cases are requested, every file holds a packet of one of the first
256 of them. -/
theorem generateTestCases_repeat {fuzzer : PacketFuzzer Unstructured} {random : ℕ → ℕ → UInt32}
    (repeated : ∀ i k, random i = random k) {count : ℕ} {files : List (String × List UInt8)}
    (generated : generateTestCases fuzzer random count = .ok files) :
    ∀ file ∈ files, ∃ i < min count 256, ∃ packets,
      fuzzer.generatePackets (testCaseSeed random i) = .ok packets ∧ some file.2 ∈ packets := by
  intro file hfile
  obtain ⟨cases, hcases, hflat⟩ := bind_eq_ok.mp generated
  cases hflat
  obtain ⟨written, hwritten, hmem⟩ := List.mem_flatten.mp hfile
  obtain ⟨k, hk, hcase⟩ := exists_of_mem_mapM hcases hwritten
  obtain ⟨packets, hpackets, hnames⟩ := bind_eq_ok.mp hcase
  cases hnames
  have bound : k % 256 < min count 256 := by
    rw [List.mem_range] at hk
    omega
  refine ⟨k % 256, bound, packets, ?_, mem_of_mem_testCaseFiles hmem⟩
  rw [generatePackets_repeat fuzzer (Nat.mod_mod k 256) (repeated (k % 256) k), hpackets]

end ProtocolFuzzer.Fuzzer
