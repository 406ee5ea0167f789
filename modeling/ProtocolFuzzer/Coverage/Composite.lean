/-
# The composite coverage collector

`CompositeCoverageCollector` feeds every execution to the edge collector and to the
feature collector, and takes a snapshot of both coverage percentages every fifty
executions. Runs are sequences of events, since a collector can be reset between
executions. Percentages are exact, and the clock readings of snapshots are left out.
-/

import ProtocolFuzzer.Coverage.Edge
import ProtocolFuzzer.Coverage.Feature

namespace ProtocolFuzzer.Coverage

open Math Platform

structure CoverageSnapshot where
  executionCount : ℕ
  edgeCoverage : ℚ
  featureCoverage : ℚ

structure CompositeCoverageCollector where
  edgeCollector : EdgeCoverageCollector
  featureCollector : FeatureCoverageCollector
  protocolType : ProtocolType
  executionCount : ℕ
  coverageHistory : List CoverageSnapshot

namespace CompositeCoverageCollector

def new (protocolType : ProtocolType) : CompositeCoverageCollector where
  edgeCollector := {}
  featureCollector := { protocolType }
  protocolType
  executionCount := 0
  coverageHistory := []

/-- Only the recent history is kept, to prevent unbounded growth. -/
def takeSnapshot (c : CompositeCoverageCollector) : CompositeCoverageCollector :=
  let snapshot := {
    executionCount := c.executionCount
    edgeCoverage := c.edgeCollector.coveragePercentage
    featureCoverage := c.featureCollector.coveragePercentage }
  let history := c.coverageHistory ++ [snapshot]
  { c with coverageHistory := if history.length > 10000 then history.drop 1000 else history }

def recordExecution (parse : DNS.Parser) (c : CompositeCoverageCollector) (input : List UInt8)
    (result : ExecutionResult) : Checked CompositeCoverageCollector := do
  let executionCount := c.executionCount + 1
  let edgeCollector ← c.edgeCollector.recordExecution input result
  let featureCollector ← c.featureCollector.recordExecution parse input result
  let c := { c with executionCount, edgeCollector, featureCollector }
  pure (if c.executionCount % 50 = 0 then c.takeSnapshot else c)

def hasNewCoverage (c : CompositeCoverageCollector) : Bool :=
  c.edgeCollector.hasNewCoverage || c.featureCollector.hasNewCoverage

def reset (c : CompositeCoverageCollector) : CompositeCoverageCollector :=
  { c with
    edgeCollector := c.edgeCollector.reset
    featureCollector := c.featureCollector.reset
    executionCount := 0
    coverageHistory := [] }

/-- The coverage gained per execution over the last hundred snapshots. -/
def calculateDiscoveryRate (c : CompositeCoverageCollector) : Checked ℚ :=
  if c.coverageHistory.length < 2 then .ok 0
  else do
    let recentSnapshots ←
      slice c.coverageHistory (c.coverageHistory.length - 100) c.coverageHistory.length
    if recentSnapshots.length < 2 then pure 0
    else
      -- `first().unwrap()` and `last().unwrap()`
      let first ← index recentSnapshots 0
      let last ← index recentSnapshots (recentSnapshots.length - 1)
      let coverageIncrease := last.edgeCoverage - first.edgeCoverage
      let executionDelta ← sub last.executionCount first.executionCount
      pure (if executionDelta > 0 then coverageIncrease / executionDelta else 0)

end CompositeCoverageCollector

/-- A call on a collector. -/
inductive Event
  | record (input : List UInt8) (result : ExecutionResult)
  | reset

/-- One recorded execution. -/
abbrev Execution := List UInt8 × ExecutionResult

def CompositeCoverageCollector.step (parse : DNS.Parser) (c : CompositeCoverageCollector) :
    Event → Checked CompositeCoverageCollector
  | .record input result => c.recordExecution parse input result
  | .reset => .ok c.reset

/-- The collector after a sequence of calls on a new one. -/
def runEvents (parse : DNS.Parser) (protocol : ProtocolType) (events : List Event) :
    Checked CompositeCoverageCollector :=
  events.foldlM (CompositeCoverageCollector.step parse) (CompositeCoverageCollector.new protocol)

/-- The executions recorded since the last reset. -/
def executionsSinceReset (events : List Event) : List Execution :=
  events.foldl (fun executions event =>
    match event with
    | .record input result => executions ++ [(input, result)]
    | .reset => []) []

end ProtocolFuzzer.Coverage
