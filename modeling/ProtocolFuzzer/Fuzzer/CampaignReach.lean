/-
# How many inputs a campaign can reach

A DNS mutation never asks the generator of the thread, and its buffer counts up from a byte
of the clock. So a case has at most 256 mutations, whatever the clock says. A target that
stays silent adds nothing to the corpus, and then the initial cases and their mutations are
all there is: a campaign of any length tries at most 256 inputs for every initial case.
-/

import ProtocolFuzzer.Coverage.Snapshots
import ProtocolFuzzer.Fuzzer.TargetOutcomes
import ProtocolFuzzer.Platform.SeedBuffer

namespace ProtocolFuzzer

open Math Platform

namespace Common

theorem readsBuffer_flipBits (rounds : ℕ) (output : List UInt8) :
    ReadsBuffer (flipBits rounds output) := by
  induction rounds generalizing output with
  | zero => exact .pure _
  | succ rounds ih =>
      refine .bind (.usizeOr 0) fun drawn => .bind (.lift _) fun byteIdx => ?_
      refine .bind (.u8Or 0) fun bitIdx => .bind (.lift _) fun byte => ?_
      exact .bind (.lift _) fun next => ih next

theorem readsBuffer_bitFlipMutation (input : List UInt8) :
    ReadsBuffer (bitFlipMutation input) := by
  rw [bitFlipMutation]
  split_ifs
  · exact .pure _
  · exact .bind (.usizeOr 1) fun _ => readsBuffer_flipBits _ input

theorem readsBuffer_byteInsertMutation (input : List UInt8) :
    ReadsBuffer (byteInsertMutation input) :=
  .bind (.usizeOr 0) fun _ => .bind (.lift _) fun _ => .bind (.u8Or 0) fun _ => .lift _

theorem readsBuffer_byteDeleteMutation (input : List UInt8) :
    ReadsBuffer (byteDeleteMutation input) := by
  rw [byteDeleteMutation]
  split_ifs
  · exact .pure _
  · exact .bind (.usizeOr 0) fun _ => .bind (.lift _) fun _ => .lift _

theorem readsBuffer_arithmeticMutation (input : List UInt8) :
    ReadsBuffer (arithmeticMutation input) := by
  rw [arithmeticMutation]
  split_ifs
  · exact .pure _
  · refine .bind (.usizeOr 0) fun _ => .bind (.lift _) fun _ => .bind (.lift _) fun _ => ?_
    refine .bind (.lift _) fun _ => .bind (.i16Or 1) fun _ => .bind (.lift _) fun _ => ?_
    exact .bind (.lift _) fun _ => .bind (.lift _) fun _ => .lift _

end Common

namespace DNS

open Common

/-- Two assignments in a row, the second with a draw before it. -/
theorem readsBuffer_assignTwo (packet : List UInt8) (i j : ℕ) (first : UInt8)
    {second : Fallible Unstructured UInt8} (h : ReadsBuffer second) :
    ReadsBuffer (do
      let packet ← liftM (assign packet i first)
      let drawn ← second
      liftM (assign packet j drawn)) :=
  .bind (.lift _) fun _ => .bind h fun _ => .lift _

theorem readsBuffer_corruptAfterName (offset : ℕ) (searched : List ℕ) (packet : List UInt8) :
    ReadsBuffer (corruptAfterName offset searched packet) := by
  induction searched with
  | nil => exact .pure _
  | cons i searched ih =>
      rw [corruptAfterName]
      refine .bind (.lift _) fun byte => ?_
      split_ifs
      · exact .bind (.u8Or 0xFF) fun _ => readsBuffer_assignTwo packet _ _ _ (.u8Or 0xFF)
      · exact ih

/-- A position after the header. -/
theorem readsBuffer_position {α : Type} {packet : List UInt8} {margin : ℕ}
    {f : ℕ → Fallible Unstructured α} (h : ∀ r, ReadsBuffer (f r)) :
    ReadsBuffer (do
      let drawn ← draw (usizeOr 1)
      let room ← liftM (sub packet.length margin)
      let r ← liftM (rem drawn room)
      f r) :=
  .bind (.usizeOr 1) fun _ => .bind (.lift _) fun _ => .bind (.lift _) h

theorem readsBuffer_applyMalformedPattern (packet : List UInt8) (pattern : MalformedPattern) :
    ReadsBuffer (applyMalformedPattern packet pattern) := by
  cases pattern with
  | invalidHeader =>
      rw [applyMalformedPattern]
      split_ifs
      · exact .bind (.u8Or 0xFF) fun _ => readsBuffer_assignTwo packet 2 3 _ (.u8Or 0xFF)
      · exact .pure _
  | truncatedQuery =>
      rw [applyMalformedPattern]
      split_ifs
      · exact readsBuffer_position fun _ => .pure _
      · exact .pure _
  | oversizedQuery => exact .bind (.usizeOr 1000) fun _ => .pure _
  | invalidQType =>
      rw [applyMalformedPattern]
      split_ifs
      · exact .bind (.lift _) fun _ => readsBuffer_corruptAfterName _ _ _
      · exact .pure _
  | invalidQClass =>
      rw [applyMalformedPattern]
      split_ifs
      · exact .bind (.lift _) fun _ => readsBuffer_corruptAfterName _ _ _
      · exact .pure _
  | pointerLoop =>
      rw [applyMalformedPattern, injectPointerLoop]
      split_ifs
      · refine readsBuffer_position fun r => ?_
        dsimp only
        split_ifs
        · exact .bind (.lift _) fun _ => .lift _
        · exact .pure _
      · exact .pure _
  | oversizedLabels =>
      rw [applyMalformedPattern, injectOversizedLabels]
      split_ifs
      · exact .bind (.u8Or 64) fun _ => .bind (.lift _) fun _ => .pure _
      · exact .pure _
  | invalidCompression =>
      rw [applyMalformedPattern, injectInvalidCompression]
      split_ifs
      · refine readsBuffer_position fun r => ?_
        dsimp only
        split_ifs
        · exact readsBuffer_assignTwo packet _ _ _ (.u8Or 0xFF)
        · exact .pure _
      · exact .pure _

theorem readsBuffer_drawMalformedPattern : ReadsBuffer (draw drawMalformedPattern) :=
  fun _ _ _ => rfl

theorem readsBuffer_mutatePacket (packet : List UInt8) : ReadsBuffer (mutatePacket packet) := by
  rw [mutatePacket]
  refine .bind (.u8Or 0) fun drawn => ?_
  dsimp only
  split
  · exact readsBuffer_bitFlipMutation packet
  · exact readsBuffer_byteInsertMutation packet
  · exact readsBuffer_byteDeleteMutation packet
  · exact readsBuffer_arithmeticMutation packet
  · exact .bind readsBuffer_drawMalformedPattern fun pattern =>
      readsBuffer_applyMalformedPattern packet pattern
  · exact .pure _

end DNS

namespace Fuzzer

open Coverage

variable (build : DNS.Builder) (parse : DNS.Parser) (testCases : List (List UInt8))

/-- The mutation of a case under a byte of the clock. -/
def mutant (baseCase : List UInt8) (byte : ℕ) : Checked (List UInt8) :=
  mutateTestCase (dnsFuzzer build) baseCase (mutationDraws (fun _ => 0) byte) byte

/-- Only a byte of the clock matters. -/
theorem mutateTestCase_eq_mutant (baseCase : List UInt8) (random : ℕ → UInt32) (randSeed : ℕ) :
    mutateTestCase (dnsFuzzer build) baseCase (mutationDraws random randSeed) randSeed =
      mutant build baseCase (randSeed % 256) := by
  rw [mutant, mutateTestCase_of_some rfl, mutateTestCase_of_some rfl, mutationDraws,
    mutationDraws, seedData_mod]
  exact (DNS.readsBuffer_mutatePacket baseCase).value_eq _ _ _

/-- The draws of every iteration come from a clock reading. -/
def FromClock (iterations : List (Iteration Unstructured)) : Prop :=
  ∀ it ∈ iterations, ∃ random, it.draws = mutationDraws random it.randSeed

/-- All mutations of some cases. -/
def mutants : List (List UInt8) :=
  testCases.flatMap fun baseCase =>
    (List.range 256).filterMap fun byte => (mutant build baseCase byte).toOption

theorem length_mutants_le : (mutants build testCases).length ≤ 256 * testCases.length := by
  rw [mutants, List.flatMap_def]
  refine (length_flatten_le (n := 256) fun cases hcases => ?_).trans_eq (by rw [List.length_map])
  obtain ⟨baseCase, -, rfl⟩ := List.mem_map.mp hcases
  exact (List.length_filterMap_le _ _).trans_eq List.length_range

theorem mem_mutants {baseCase testCase : List UInt8} (hbase : baseCase ∈ testCases)
    {random : ℕ → UInt32} {randSeed : ℕ}
    (h : mutateTestCase (dnsFuzzer build) baseCase (mutationDraws random randSeed) randSeed =
      .ok testCase) : testCase ∈ mutants build testCases := by
  rw [mutateTestCase_eq_mutant] at h
  refine List.mem_flatMap.mpr ⟨baseCase, hbase, List.mem_filterMap.mpr ⟨randSeed % 256, ?_, ?_⟩⟩
  · exact List.mem_range.mpr (Nat.mod_lt _ (by decide))
  · rw [h]
    rfl

/-- Timings of all categories. -/
def timings : List ℕ := [0, 11, 101, 1001, 5001]

theorem exists_timing (ms : ℕ) :
    ∃ timing ∈ timings, categorizeTiming timing = categorizeTiming ms := by
  have hcategory : categorizeTiming ms ∈ timings.map categorizeTiming := by
    rw [categorizeTiming]
    split_ifs <;> decide
  obtain ⟨timing, htiming, hsame⟩ := List.mem_map.mp hcategory
  exact ⟨timing, htiming, hsame⟩

/-- Of a silent execution the edges show the input and the category of the timing. -/
theorem edgesOf_silent (input : List UInt8) {ms ms' : ℕ}
    (h : categorizeTiming ms = categorizeTiming ms') :
    edgesOf (input, executeUdpTestCase .receiveTimeout ms) =
      edgesOf (input, executeUdpTestCase .receiveTimeout ms') := by
  rw [edgesOf, edgesOf, extractEdges, extractEdges]
  simp only [executeUdpTestCase, extractExecutionEdges, h]

/-- The edge lists that silent executions of some cases can have. -/
def silentPaths (cases : List (List UInt8)) : List (List UInt64) :=
  (cases ×ˢ timings).map fun (input, timing) =>
    edgesOf (input, executeUdpTestCase .receiveTimeout timing)

theorem length_silentPaths (cases : List (List UInt8)) :
    (silentPaths cases).length = cases.length * 5 := by
  rw [silentPaths, List.length_map, List.length_product]
  rfl

theorem edgesOf_mem_silentPaths {cases : List (List UInt8)} {input : List UInt8}
    (h : input ∈ cases) (ms : ℕ) :
    edgesOf (input, executeUdpTestCase .receiveTimeout ms) ∈ silentPaths cases := by
  obtain ⟨timing, htiming, hsame⟩ := exists_timing ms
  refine List.mem_map.mpr ⟨(input, timing), List.mem_product.mpr ⟨h, htiming⟩, ?_⟩
  exact edgesOf_silent input hsame

/-- A set whose members are all in a list has at most as many elements. -/
theorem card_toFinset_le {α : Type} [DecidableEq α] {xs ys : List α} (h : ∀ x ∈ xs, x ∈ ys) :
    xs.toFinset.card ≤ ys.length :=
  (Finset.card_le_card fun x hx => List.mem_toFinset.mpr (h x (List.mem_toFinset.mp hx))).trans
    ys.toFinset_card_le

/-- However long a DNS campaign on a silent target runs, it executes at most 256 different cases
for every initial one, all of them mutations of initial cases, and its coverage knows at most
1280 paths for every initial case. -/
theorem runFuzzingCampaign_dns_reach (hcases : testCases ≠ [] ∧ ∀ packet ∈ testCases,
      9 ≤ packet.length ∧ packet.length + 10999 < 2 ^ 32)
    (iterations : List (Iteration Unstructured))
    (htarget : FromClock iterations ∧ ∀ it ∈ iterations, it.Silent) :
    ∃ c cases, runFuzzingCampaign (dnsEngine build parse) testCases iterations = .ok c ∧
      executedCases (dnsEngine build parse) testCases iterations = .ok cases ∧
      cases.length = iterations.length ∧
      (∀ testCase ∈ cases, ∃ baseCase ∈ testCases, ∃ byte < 256,
        mutant build baseCase byte = .ok testCase) ∧
      cases.toFinset.card ≤ 256 * testCases.length ∧
      c.coverageCollector.edgeCollector.uniquePaths.card ≤ 1280 * testCases.length := by
  obtain ⟨log, hlog, hiterations, hquiet, hmutations⟩ :=
    selectCases_dns_silent build parse testCases hcases.1 htarget.2
  obtain ⟨c, hreplay⟩ := replay_dns_silent build parse testCases hcases.2 hmutations
  have hreached : ∀ e ∈ log, ∃ baseCase ∈ testCases, ∃ random,
      mutateTestCase (dnsFuzzer build) baseCase (mutationDraws random e.iteration.randSeed)
        e.iteration.randSeed = .ok e.testCase := by
    intro e he
    obtain ⟨i, hi⟩ := List.mem_iff_getElem?.mp he
    obtain ⟨baseCase, hbase, hmutated⟩ := hmutations i e hi
    obtain ⟨random, hdraws⟩ := htarget.1 e.iteration (hiterations ▸ List.mem_map_of_mem he)
    exact ⟨baseCase, List.mem_of_getElem? hbase, random, hdraws ▸ hmutated⟩
  have hmem : ∀ e ∈ log, e.testCase ∈ mutants build testCases := by
    intro e he
    obtain ⟨baseCase, hbase, random, hmutated⟩ := hreached e he
    exact mem_mutants build testCases hbase hmutated
  refine ⟨c, log.map Executed.testCase, (runFuzzingCampaign_eq_ok_iff iterations c).mpr
    ⟨log, hlog, hreplay⟩, bind_eq_ok.mpr ⟨log, hlog, rfl⟩, ?_, ?_, ?_, ?_⟩
  · rw [← hiterations, List.length_map, List.length_map]
  · intro testCase hcase
    obtain ⟨e, he, rfl⟩ := List.mem_map.mp hcase
    obtain ⟨baseCase, hbase, random, hmutated⟩ := hreached e he
    refine ⟨baseCase, hbase, e.iteration.randSeed % 256, Nat.mod_lt _ (by decide), ?_⟩
    rw [← mutateTestCase_eq_mutant build baseCase random, hmutated]
  · refine (card_toFinset_le fun testCase hcase => ?_).trans (length_mutants_le build testCases)
    obtain ⟨e, he, rfl⟩ := List.mem_map.mp hcase
    exact hmem e he
  · obtain ⟨coverageCollector, hcollector, hc⟩ := bind_eq_ok.mp hreplay
    cases hc
    have hevents : log.map Executed.event =
        recordings (log.map fun e => (e.testCase, e.result)) := by
      rw [recordings, List.map_map]
      rfl
    rw [hevents] at hcollector
    have hunique := (accounted_runEvents hcollector).edges.unique
    rw [executionsSinceReset_recordings, List.map_map] at hunique
    change coverageCollector.edgeCollector.uniquePaths.card ≤ _
    rw [hunique]
    have hpaths := length_silentPaths (mutants build testCases)
    have hmutants := length_mutants_le build testCases
    have hsilent : ∀ e ∈ log, edgesOf (e.testCase, e.result) ∈
        silentPaths (mutants build testCases) := by
      intro e he
      obtain ⟨ms, hresult⟩ := hquiet e he
      rw [Executed.result, hresult]
      exact edgesOf_mem_silentPaths (hmem e he) ms
    exact (card_toFinset_le (List.forall_mem_map.mpr hsilent)).trans (by omega)

/-- A header without questions has at most 256 mutations. -/
theorem runFuzzingCampaign_dns_reach_header : ∃ cases,
    executedCases (dnsEngine (fun _ _ _ => .ok none) fun _ => none) [List.replicate 12 0]
      [timeoutAt 2, timeoutAt 258] = .ok cases ∧ cases.toFinset.card ≤ 256 := by
  have htarget : FromClock [timeoutAt 2, timeoutAt 258] ∧
      ∀ it ∈ [timeoutAt 2, timeoutAt 258], it.Silent := by
    constructor
    · intro it hmem
      rcases List.mem_pair.mp hmem with rfl | rfl
      · exact ⟨_, rfl⟩
      · exact ⟨_, rfl⟩
    · intro it hmem
      rcases List.mem_pair.mp hmem with rfl | rfl
      · exact ⟨2000, rfl⟩
      · exact ⟨2000, rfl⟩
  obtain ⟨c, cases, -, hexecuted, -, -, hfew, -⟩ := runFuzzingCampaign_dns_reach
    (fun _ _ _ => .ok none) (fun _ => none) [List.replicate 12 0] (by decide)
    [timeoutAt 2, timeoutAt 258] htarget
  exact ⟨cases, hexecuted, hfew⟩

end Fuzzer

end ProtocolFuzzer
