/-
# What a campaign keeps

The corpus of a campaign only ever grows at its end and is cut at its front, so it is the
newest part of all test cases there have been. `CorpusAccounted` says so with the list of
all interesting cases, kept beside the run and never cut, and says what the counters of
the loop amount to. A corpus that starts nonempty stays nonempty, so the index of the base
case is always defined.
-/

import ProtocolFuzzer.Fuzzer.CampaignSafety
import ProtocolFuzzer.Fuzzer.CrashAccounting
import ProtocolFuzzer.Math.BoundedLog

namespace ProtocolFuzzer.Fuzzer

open Math Platform Coverage

variable {σ : Type}

/-- The case the next iteration executes; `none` where selecting or mutating it panics. -/
def Campaign.mutatedCase? (engine : FuzzingEngine σ) (c : Campaign) (it : Iteration σ) :
    Option (List UInt8) :=
  c.baseCase?.bind fun baseCase =>
    (mutateTestCase engine.protocolFuzzer baseCase it.draws it.randSeed).toOption

/-- The cases found interesting, after one more iteration. -/
def noteInteresting (engine : FuzzingEngine σ) (found : List (List UInt8)) (c : Campaign)
    (it : Iteration σ) (_ : Campaign) : List (List UInt8) :=
  if isInteresting it.result then found ++ (c.mutatedCase? engine it).toList else found

/-- A campaign beside the list of all interesting mutated cases, in the order found. -/
def runFindingInteresting (engine : FuzzingEngine σ) (testCases : List (List UInt8))
    (iterations : List (Iteration σ)) : Checked (Campaign × List (List UInt8)) :=
  iterations.foldlM (ghostStep (Campaign.step engine) (noteInteresting engine))
    (Campaign.start engine.protocolType testCases, [])

/-- Adding a test case to the newest thousand leaves the newest thousand. -/
theorem addTestCase_rtake (all : List (List UInt8)) (testCase : List UInt8) :
    addTestCase (all.rtake 1000) testCase = (all ++ [testCase]).rtake 1000 := by
  rw [← BoundedLog.rtake_kept_one all, ← BoundedLog.rtake_kept_one (all ++ [testCase])]
  exact BoundedLog.push_rtake (by decide) (by decide) all testCase

/-- A report stores one crash at most. -/
theorem CrashDetector.length_recordCrash_le (d : CrashDetector) (report : Report) :
    (d.recordCrash report).crashes.length ≤ d.crashes.length + 1 := by
  by_cases known : calculateHash report.inputData ∈ d.crashHashes
  · rw [CrashDetector.recordCrash, if_pos known]
    omega
  · rw [CrashDetector.crashes_recordCrash known, List.length_append, List.length_singleton]

/-- The counter of crashes is read from the detector whenever the detector is used. -/
theorem Campaign.checkForCrash_spec {c : Campaign}
    (h : c.crashesFound = c.crashDetector.crashes.length) (protocolType : ProtocolType)
    (mutatedCase : List UInt8) (it : Iteration σ) :
    (c.checkForCrash protocolType mutatedCase it).1 =
        (c.checkForCrash protocolType mutatedCase it).2.crashes.length ∧
      (c.checkForCrash protocolType mutatedCase it).1 ≤ c.crashesFound + 1 := by
  rw [Campaign.checkForCrash]
  split_ifs
  · exact ⟨h, Nat.le_succ _⟩
  · rw [h]
    exact ⟨rfl, CrashDetector.length_recordCrash_le _ _⟩

/-- The campaign accounts for the iterations so far and the cases found interesting. -/
structure CorpusAccounted (testCases : List (List UInt8)) (history : List (Iteration σ))
    (c : Campaign) (found : List (List UInt8)) : Prop where
  corpus : c.testCases = (testCases ++ found).rtake 1000
  iteration : c.iteration = history.length
  executions : c.totalExecutions = history.length
  crashes : c.crashesFound = c.crashDetector.crashes.length
  bound : c.crashesFound ≤ history.length

theorem CorpusAccounted.start {engine : FuzzingEngine σ} {testCases : List (List UInt8)}
    (few : testCases.length ≤ 1000) :
    CorpusAccounted testCases ([] : List (Iteration σ))
      (Campaign.start engine.protocolType testCases) [] where
  corpus := by
    rw [List.append_nil, List.rtake, Nat.sub_eq_zero_of_le few]
    rfl
  iteration := rfl
  executions := rfl
  crashes := rfl
  bound := le_rfl

theorem CorpusAccounted.step {engine : FuzzingEngine σ} {testCases found : List (List UInt8)}
    {history : List (Iteration σ)} {c c' : Campaign} {it : Iteration σ}
    (h : CorpusAccounted testCases history c found) (hstep : c.step engine it = .ok c') :
    CorpusAccounted testCases (history ++ [it]) c' (noteInteresting engine found c it c') := by
  obtain ⟨baseCase, mutatedCase, coverageCollector, hbase, hmutate, -, rfl⟩ :=
    Campaign.step_eq_ok_iff.mp hstep
  have hcase : c.mutatedCase? engine it = some mutatedCase := by
    rw [Campaign.mutatedCase?, hbase, Option.bind_some, hmutate]
    rfl
  obtain ⟨hcount, hbound⟩ :=
    Campaign.checkForCrash_spec h.crashes engine.protocolType mutatedCase it
  have hlength : (history ++ [it]).length = history.length + 1 := List.length_append
  exact {
    corpus := by
      change (if isInteresting it.result then addTestCase c.testCases mutatedCase
        else c.testCases) = _
      rw [noteInteresting, hcase]
      split_ifs
      · rw [h.corpus, addTestCase_rtake, List.append_assoc]
        rfl
      · exact h.corpus
    iteration := (congrArg (· + 1) h.iteration).trans hlength.symm
    executions := (congrArg (· + 1) h.executions).trans hlength.symm
    crashes := hcount
    bound := by
      rw [hlength]
      exact hbound.trans (Nat.succ_le_succ h.bound) }

/-- After any run, the corpus, the counters and the detector agree with the iterations. The
run is any prefix of a longer one, so this describes the start of every iteration. -/
theorem runFuzzingCampaign_accounting (engine : FuzzingEngine σ)
    (testCases : List (List UInt8)) (hcases : 1 ≤ testCases.length ∧ testCases.length ≤ 100)
    (iterations : List (Iteration σ)) (c : Campaign)
    (hrun : runFuzzingCampaign engine testCases iterations = .ok c) :
    ∃ found, runFindingInteresting engine testCases iterations = .ok (c, found) ∧
      (1 ≤ c.testCases.length ∧ c.testCases.length ≤ 1000) ∧
      (∃ baseCaseIdx, rem c.iteration c.testCases.length = .ok baseCaseIdx ∧
        baseCaseIdx = iterations.length % c.testCases.length ∧
        baseCaseIdx < c.testCases.length) ∧
      c.testCases = (testCases ++ found).rtake 1000 ∧
      c.totalExecutions = iterations.length ∧
      c.crashesFound = c.crashDetector.crashes.length ∧ c.crashesFound ≤ iterations.length := by
  obtain ⟨found, hfound⟩ := exists_foldlM_ghostStep (noteInteresting engine) hrun []
  have h : CorpusAccounted testCases iterations c found :=
    foldlM_ghostStep_run (CorpusAccounted testCases) (fun _ _ _ _ _ h hstep => h.step hstep)
      (CorpusAccounted.start (hcases.2.trans (by decide))) hfound
  have hlength : c.testCases.length = min (testCases.length + found.length) 1000 := by
    rw [h.corpus, List.rtake, List.length_drop, List.length_append]
    omega
  have hpos : 0 < c.testCases.length := by omega
  refine ⟨found, hfound, ⟨hpos, by omega⟩, ?_, h.corpus, h.executions, h.crashes, h.bound⟩
  exact ⟨_, rem_of_pos hpos, by rw [h.iteration], Nat.mod_lt _ hpos⟩

/-- The campaign that shortens a PINGREQ packet keeps both packets and counts one
execution. -/
theorem runFuzzingCampaign_accounting_shortens : ∃ c found,
    runFindingInteresting (mqttEngine fun _ => none) [[0xC0, 0x00]] [iterationAt 2] =
        .ok (c, found) ∧
      c.testCases.length = 2 ∧ c.testCases = ([[0xC0, 0x00]] ++ found).rtake 1000 ∧
      c.totalExecutions = 1 := by
  obtain ⟨c, byte, hrun, -, hcases⟩ := runFuzzingCampaign_shortens
  obtain ⟨found, hfound, -, -, hcorpus, hexecutions, -⟩ :=
    runFuzzingCampaign_accounting _ _ (by decide) _ c hrun
  exact ⟨c, found, hfound, by rw [hcases]; rfl, hcorpus, hexecutions⟩

end ProtocolFuzzer.Fuzzer
