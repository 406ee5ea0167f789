/-
# The fuzzing campaign

`FuzzingEngine` runs a loop: it mutates a test case of the corpus, executes the mutated
case, records the execution for coverage, reports it to the crash detector when it failed,
and adds it to the corpus when the outcome is interesting. The outcome of an execution
comes from the network, so an iteration carries it, together with the draws of the
mutation and the readings of the clock. Logging, the output files and the configuration
of the connection are left out.
-/

import ProtocolFuzzer.Coverage.Composite
import ProtocolFuzzer.Fuzzer.CrashDetector

namespace ProtocolFuzzer.Fuzzer

open Math Platform Coverage

variable {σ : Type}

/-- The trait of the protocol fuzzers, as far as a campaign uses it; `none` is an error. -/
structure PacketFuzzer (σ : Type) where
  generateValidPacket : Fallible σ (Option (List UInt8))
  generateMalformedPacket : Fallible σ (Option (List UInt8))
  mutatePacket : List UInt8 → Fallible σ (Option (List UInt8))

/-- The parts of the engine that stay the same during a campaign. -/
structure FuzzingEngine (σ : Type) where
  protocolType : ProtocolType
  protocolFuzzer : PacketFuzzer σ
  /-- The parser the DNS fuzzer uses to extract features. -/
  parse : DNS.Parser

/-- The MQTT fuzzer never returns an error. -/
def mqttFuzzer [DrawSource σ] : PacketFuzzer σ where
  generateValidPacket := some <$> draw MQTT.generateValidPacket
  generateMalformedPacket := some <$> MQTT.generateMalformedPacket
  mutatePacket packet := some <$> MQTT.mutatePacket packet

def mqttEngine [DrawSource σ] (parse : DNS.Parser) : FuzzingEngine σ where
  protocolType := .MQTT
  protocolFuzzer := mqttFuzzer
  parse

/-- The DNS fuzzer returns an error where its builder does. -/
def dnsFuzzer [DrawSource σ] (build : DNS.Builder) : PacketFuzzer σ where
  generateValidPacket := DNS.generateValidPacket build
  generateMalformedPacket := DNS.generateMalformedPacket build
  mutatePacket packet := some <$> DNS.mutatePacket packet

/-- The seed buffers of the engine count up from their first byte. -/
def seedData (length start : ℕ) : List UInt8 :=
  (List.range length).map fun i => UInt8.ofNat ((start + i) % 256)

theorem seedData_succ (length start : ℕ) :
    seedData (length + 1) start = UInt8.ofNat (start % 256) :: seedData length (start + 1) := by
  rw [seedData, seedData, List.range_succ_eq_map, List.map_cons, List.map_map]
  refine congrArg₂ List.cons rfl (List.map_congr_left fun i _ => ?_)
  rw [Function.comp_apply, Nat.succ_eq_add_one, Nat.add_right_comm, Nat.add_assoc]

theorem take_seedData {k length : ℕ} (h : k ≤ length) (start : ℕ) :
    (seedData length start).take k = seedData k start := by
  rw [seedData, seedData, ← List.map_take, List.take_range, Nat.min_eq_left h]

/-- A buffer depends on one byte of its start only. -/
theorem seedData_mod (length start : ℕ) :
    seedData length (start % 256) = seedData length start := by
  refine List.map_congr_left fun i _ => ?_
  rw [Nat.mod_add_mod]

/-- Both packets generated from one source. -/
def PacketFuzzer.generateCases (fuzzer : PacketFuzzer σ) (s : σ) :
    Checked (List (List UInt8)) := do
  let (valid, s) ← fuzzer.generateValidPacket.run s
  let (malformed, _) ← fuzzer.generateMalformedPacket.run s
  pure (valid.toList ++ malformed.toList)

def generateInitialTestCases (fuzzer : PacketFuzzer Unstructured) (random : ℕ → ℕ → UInt32) :
    Checked (List (List UInt8)) := do
  let cases ← (List.range 50).mapM fun i =>
    fuzzer.generateCases { data := seedData 1024 i, random := random i }
  pure cases.flatten

/-- The bit flip that replaces a mutation that returned an error. -/
def flipBit (baseCase : List UInt8) (randSeed : ℕ) : Checked (List UInt8) :=
  if baseCase.isEmpty then .ok baseCase
  else do
    let byteIdx ← rem randSeed baseCase.length
    let bitIdx := (randSeed / baseCase.length) % 8
    assign baseCase byteIdx ((← index baseCase byteIdx) ^^^ (1 <<< UInt8.ofNat bitIdx))

/-- The draws of a mutation come from the buffer `seedData 512 randSeed`. -/
def mutateTestCase (fuzzer : PacketFuzzer σ) (baseCase : List UInt8) (draws : σ)
    (randSeed : ℕ) : Checked (List UInt8) := do
  let (mutated, _) ← (fuzzer.mutatePacket baseCase).run draws
  mutated.elim (flipBit baseCase randSeed) pure

/-- Consider test cases interesting if they produce responses or unique errors. -/
def isInteresting (result : ExecutionResult) : Bool :=
  result.responseData.isSome || result.errorMessage.any (· ≠ "UDP timeout")

/-- Add a test case, and keep the corpus size manageable. -/
def addTestCase (testCases : List (List UInt8)) (testCase : List UInt8) : List (List UInt8) :=
  let testCases := testCases ++ [testCase]
  if testCases.length > 1000 then testCases.drop 1 else testCases

/-! ## The loop -/

structure Campaign where
  testCases : List (List UInt8)
  coverageCollector : CompositeCoverageCollector
  crashDetector : CrashDetector
  iteration : ℕ
  totalExecutions : ℕ
  crashesFound : ℕ

/-- What one iteration takes from outside: the draws of the mutation, the clock reading
behind them, the outcome of the execution, and the identity of a crash. -/
structure Iteration (σ : Type) where
  draws : σ
  randSeed : ℕ := 0
  result : ExecutionResult
  id : String := ""
  timestamp : ℕ := 0

namespace Campaign

def start (protocolType : ProtocolType) (testCases : List (List UInt8)) : Campaign where
  testCases
  coverageCollector := CompositeCoverageCollector.new protocolType
  crashDetector := {}
  iteration := 0
  totalExecutions := 0
  crashesFound := 0

/-- Check for crashes. -/
def checkForCrash (c : Campaign) (protocolType : ProtocolType) (mutatedCase : List UInt8)
    (it : Iteration σ) : ℕ × CrashDetector :=
  if it.result.success then (c.crashesFound, c.crashDetector)
  else
    (c.crashDetector.recordCrash {
      inputData := mutatedCase
      errorMessage := it.result.errorMessage
      executionTime := Duration.fromMillis it.result.executionTimeMs
      protocol := protocolType
      id := it.id
      timestamp := it.timestamp }).crashCount

/-- The state after the execution of a mutated case. -/
def advance (c : Campaign) (protocolType : ProtocolType) (mutatedCase : List UInt8)
    (coverageCollector : CompositeCoverageCollector) (it : Iteration σ) : Campaign :=
  let (crashesFound, crashDetector) := c.checkForCrash protocolType mutatedCase it
  { testCases :=
      if isInteresting it.result then addTestCase c.testCases mutatedCase else c.testCases
    coverageCollector
    crashDetector
    iteration := c.iteration + 1
    totalExecutions := c.totalExecutions + 1
    crashesFound }

/-- One iteration of the main fuzzing loop. -/
def step (engine : FuzzingEngine σ) (c : Campaign) (it : Iteration σ) : Checked Campaign := do
  let baseCaseIdx ← rem c.iteration c.testCases.length
  let baseCase ← index c.testCases baseCaseIdx
  let mutatedCase ← mutateTestCase engine.protocolFuzzer baseCase it.draws it.randSeed
  let coverageCollector ←
    c.coverageCollector.recordExecution engine.parse mutatedCase it.result
  pure (c.advance engine.protocolType mutatedCase coverageCollector it)

end Campaign

/-- The main fuzzing loop over a sequence of iterations. -/
def runFuzzingCampaign (engine : FuzzingEngine σ) (testCases : List (List UInt8))
    (iterations : List (Iteration σ)) : Checked Campaign :=
  iterations.foldlM (Campaign.step engine) (Campaign.start engine.protocolType testCases)

end ProtocolFuzzer.Fuzzer
