/-
# Edge coverage

`EdgeCoverageCollector` derives a list of hashed edges from an input and the outcome
of executing it, and keeps how often each edge and each whole list occurred. Edges are
extracted in a checked monad, since the extractors index and slice the input.
-/

import ProtocolFuzzer.Coverage.Execution
import ProtocolFuzzer.Coverage.Windows
import ProtocolFuzzer.Math.Tally
import ProtocolFuzzer.Platform.DefaultHasher
import ProtocolFuzzer.Platform.Text

namespace ProtocolFuzzer.Coverage

open Math Platform

def hashEdge (edgeType : String) (data : List UInt8) : UInt64 :=
  (((DefaultHasher.mk []).hashStr edgeType).hashBytes data).finish

/-- The loop over `byte_counts`, whose 16-bit counters saturate. -/
def byteCounts (input : List UInt8) : UInt8 → ℕ :=
  input.foldl (fun counts byte => Function.update counts byte (min (counts byte + 1) 65535))
    fun _ => 0

/-- `max_by_key` over the 256 counters: of several maxima it returns the last. -/
def mostCommonByte (input : List UInt8) : UInt8 :=
  let counts := byteCounts input
  ((List.range 256).map UInt8.ofNat).foldl
    (fun best byte => if counts best > counts byte then best else byte) 0

/-- The counting loop of `calculate_entropy`, whose 32-bit counters are checked. -/
def countBytes : List UInt8 → (UInt8 → ℕ) → Checked (UInt8 → ℕ)
  | [], counts => .ok counts
  | byte :: bytes, counts => do
    let count ← addU32 (counts byte) 1
    countBytes bytes (Function.update counts byte count)

/-- The Shannon entropy of a byte string, in bits per byte. -/
def calculateEntropy (data : List UInt8) : Checked Float :=
  if data.isEmpty then .ok 0.0
  else do
    let counts ← countBytes data fun _ => 0
    let length := Float.ofNat data.length
    pure (((List.range 256).map fun n => counts (UInt8.ofNat n)).foldl (fun entropy count =>
      if count > 0 then
        let probability := Float.ofNat count / length
        entropy - probability * probability.log2
      else entropy) 0.0)

def entropyCategory (entropy : Float) : String :=
  if entropy < 1.0 then "very_low_entropy"
  else if entropy < 2.0 then "low_entropy"
  else if entropy < 4.0 then "medium_entropy"
  else if entropy < 6.0 then "high_entropy"
  else "very_high_entropy"

/-- The edge for the four-byte window at `i`, if the window recurs. -/
def repeatedPatternEdge (input : List UInt8) (i : ℕ) : Checked (List UInt64) := do
  let recurs ← windowRecurs input 4 i
  readWhen (recurs = true) do
    pure [hashEdge "repeated_pattern" (← slice input i (i + 4))]

/-- One edge for every four-byte window that recurs. -/
def repeatedPatternEdges (input : List UInt8) : Checked (List UInt64) :=
  readWhen (input.length > 10) do
    let last ← sub input.length (4 * 2)
    let edges ← (inclusive 0 last).mapM (repeatedPatternEdge input)
    pure edges.flatten

/-- The header edges. The 16-bit and 32-bit headers are read and written in big-endian
order, so their bytes are the bytes of the input. -/
def headerEdges (input : List UInt8) : Checked (List UInt64) := do
  let firstByte ← readWhen (input.length ≥ 1) do
    pure [hashEdge "first_byte" [← index input 0]]
  let header16 ← readWhen (input.length ≥ 2) do
    pure [hashEdge "header_u16" [← index input 0, ← index input 1]]
  let header32 ← readWhen (input.length ≥ 4) do
    pure [hashEdge "header_u32"
      [← index input 0, ← index input 1, ← index input 2, ← index input 3]]
  pure (firstByte ++ header16 ++ header32)

def extractInputEdges (input : List UInt8) : Checked (List UInt64) :=
  if input.isEmpty then .ok [hashEdge "empty_input" [0]]
  else do
    let size := hashEdge "input_size" (utf8 (categorizeSize input.length))
    let header ← headerEdges input
    let mostCommon := hashEdge "most_common_byte" [mostCommonByte input]
    let entropy ← calculateEntropy input
    let entropyEdge := hashEdge "entropy" (utf8 (entropyCategory entropy))
    let repeated ← repeatedPatternEdges input
    pure ([size] ++ header ++ [mostCommon, entropyEdge] ++ repeated)

def classifyError (message : String) : String :=
  let lower := toLowercase message
  if contains lower "connection" then "connection_error"
  else if contains lower "timeout" then "timeout_error"
  else if contains lower "parse" || contains lower "invalid" then "parse_error"
  else if contains lower "network" then "network_error"
  else if contains lower "protocol" then "protocol_error"
  else "unknown_error"

def extractExecutionEdges (result : ExecutionResult) : List UInt64 :=
  [hashEdge "execution" (utf8 (if result.success then "success" else "failure")),
    hashEdge "execution_time" (utf8 (categorizeTiming result.executionTimeMs))] ++
  match result.errorMessage with
  | some message => [hashEdge "error_type" (utf8 (classifyError message))]
  | none => []

/-- What the response looks like. -/
def responseProtocol (response : List UInt8) : String :=
  if (utf8 "HTTP").isPrefixOf response then "http"
  else if [0x00, 0x00].isPrefixOf response then "binary"
  else if response.all isAscii then "ascii"
  else "binary"

def extractResponseEdges (response : List UInt8) : Checked (List UInt64) :=
  if response.isEmpty then .ok [hashEdge "response" (utf8 "empty")]
  else do
    let size := hashEdge "response_size" (utf8 (categorizeSize response.length ++ "_response"))
    let firstByte ← readWhen (response.length ≥ 1) do
      pure [hashEdge "response_first_byte" [← index response 0]]
    let header ← readWhen (response.length ≥ 2) do
      pure [hashEdge "response_header" [← index response 0, ← index response 1]]
    let protocol := hashEdge "response_protocol" (utf8 (responseProtocol response))
    pure ([size] ++ firstByte ++ header ++ [protocol])

/-- Extract execution edges from input data and execution result. -/
def extractEdges (input : List UInt8) (result : ExecutionResult) : Checked (List UInt64) := do
  let inputEdges ← extractInputEdges input
  let responseEdges ← result.responseData.elim (pure []) extractResponseEdges
  pure (inputEdges ++ extractExecutionEdges result ++ responseEdges)

structure EdgeCoverageCollector where
  /-- Edge hashes and their hit counts. -/
  edgeMap : Tally UInt64 := ∅
  uniquePaths : Finset (List UInt64) := ∅
  pathFrequencies : Tally (List UInt64) := ∅
  totalExecutions : ℕ := 0
  newCoverageFound : Bool := false
  lastCoverageCount : ℕ := 0

namespace EdgeCoverageCollector

/-- Record the edges of one execution. -/
def recordEdges (c : EdgeCoverageCollector) (edges : List UInt64) : EdgeCoverageCollector :=
  let (edgeMap, newEdges) := edges.foldl Tally.count (c.edgeMap, false)
  let newPath := edges ≠ [] ∧ edges ∉ c.uniquePaths
  { c with
    edgeMap
    uniquePaths := if edges ≠ [] then insert edges c.uniquePaths else c.uniquePaths
    pathFrequencies := if edges ≠ [] then c.pathFrequencies.bump edges else c.pathFrequencies
    totalExecutions := c.totalExecutions + 1
    newCoverageFound := c.newCoverageFound || newEdges || newPath }

def recordExecution (c : EdgeCoverageCollector) (input : List UInt8) (result : ExecutionResult) :
    Checked EdgeCoverageCollector := do
  let edges ← extractEdges input result
  pure (c.recordEdges edges)

def getTotalEdges (c : EdgeCoverageCollector) : ℕ := c.edgeMap.size

def getCoveredEdges (c : EdgeCoverageCollector) : ℕ := c.edgeMap.covered

/-- The coverage percentage of the statistics, in exact arithmetic. -/
def coveragePercentage (c : EdgeCoverageCollector) : ℚ :=
  if c.getTotalEdges > 0 then (c.getCoveredEdges / c.getTotalEdges : ℚ) * 100 else 0

def hasNewCoverage (c : EdgeCoverageCollector) : Bool := c.uniquePaths.card > c.lastCoverageCount

def reset (_ : EdgeCoverageCollector) : EdgeCoverageCollector := {}

end EdgeCoverageCollector

end ProtocolFuzzer.Coverage
