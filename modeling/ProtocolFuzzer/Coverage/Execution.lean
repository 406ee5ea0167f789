/-
# Executions

The outcome of sending one test case, and the categories into which both coverage
collectors sort sizes and times.
-/

import ProtocolFuzzer.Math.Bytes

namespace ProtocolFuzzer.Coverage

structure ExecutionResult where
  success : Bool
  responseData : Option (List UInt8)
  executionTimeMs : ℕ
  errorMessage : Option String

def categorizeSize (size : ℕ) : String :=
  if size = 0 then "empty"
  else if size ≤ 10 then "tiny"
  else if size ≤ 100 then "small"
  else if size ≤ 1000 then "medium"
  else if size ≤ 10000 then "large"
  else "huge"

def categorizeTiming (ms : ℕ) : String :=
  if ms ≤ 10 then "very_fast"
  else if ms ≤ 100 then "fast"
  else if ms ≤ 1000 then "medium"
  else if ms ≤ 5000 then "slow"
  else "very_slow"

/-- `byte.is_ascii()` -/
def isAscii (byte : UInt8) : Bool := byte < 128

end ProtocolFuzzer.Coverage
