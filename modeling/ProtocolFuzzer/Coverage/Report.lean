/-
# The coverage report

`generate_report` sums up a composite collector: how many edges and features it stores,
which features are rare, how the coverage developed over the snapshots, and how evenly the
executions are spread over paths and features. The two entropies go through a hash map in
whatever order it has; their arithmetic is a parameter, the percentages and rates are exact.
Time stamps, the text form of the report and the files it is written to are left out.
-/

import Mathlib.Data.List.Sort
import Mathlib.Data.String.Basic
import ProtocolFuzzer.Coverage.Composite

namespace ProtocolFuzzer.Coverage

open Math Platform

/-- `slice::windows`: all runs of `width` consecutive elements. -/
def windows {α : Type} (width : ℕ) (xs : List α) : List (List α) :=
  (List.range (xs.length + 1 - width)).map fun i => (xs.drop i).take width

structure EdgeCoverageData where
  totalEdges : ℕ
  coveredEdges : ℕ
  coveragePercentage : ℚ
  newEdgesPerExecution : List ℚ

structure FeatureCoverageData where
  totalFeatures : ℕ
  coveredFeatures : ℕ
  featureFrequency : Tally String
  rareFeatures : List String

structure CoverageMetrics (K : Type) where
  pathDiversity : K
  featureEntropy : K
  discoveryRate : ℚ
  coverageGrowthRate : ℚ

structure CoverageReport (K : Type) where
  protocol : ProtocolType
  totalExecutions : ℕ
  uniquePaths : ℕ
  edgeCoverage : EdgeCoverageData
  featureCoverage : FeatureCoverageData
  coverageMetrics : CoverageMetrics K

structure CoverageStats where
  totalExecutions : ℕ
  uniquePaths : ℕ
  coveragePercentage : ℚ
  newCoverageFound : Bool

variable {K : Type} [Field K] [LinearOrder K]

namespace EdgeCoverageCollector

def getCoverageStats (c : EdgeCoverageCollector) : CoverageStats where
  totalExecutions := c.totalExecutions
  uniquePaths := c.uniquePaths.card
  coveragePercentage := c.coveragePercentage
  newCoverageFound := c.newCoverageFound

end EdgeCoverageCollector

namespace FeatureCoverageCollector

/-- Covered features stand in for unique paths. -/
def getCoverageStats (c : FeatureCoverageCollector) : CoverageStats where
  totalExecutions := c.totalExecutions
  uniquePaths := c.getCoveredFeatures
  coveragePercentage := c.coveragePercentage
  newCoverageFound := c.newFeaturesFound

/-- Features seen five times or less, in alphabetical order. -/
def getRareFeatures (c : FeatureCoverageCollector) (features : c.featureMap.Iteration) :
    List String :=
  ((features.order.filter fun entry => entry.2 ≤ 5).map Sigma.fst).mergeSort (· ≤ ·)

def calculateEntropy (log2 : K → K) (c : FeatureCoverageCollector)
    (features : c.featureMap.Iteration) : K :=
  if c.featureMap.size = 0 then 0
  else
    let counts : List ℕ := features.order.map Sigma.snd
    let totalCount := counts.sum
    if totalCount = 0 then 0
    else counts.foldl (fun entropy (count : ℕ) =>
      if count > 0 then
        let probability : K := count / totalCount
        entropy - probability * log2 probability
      else entropy) 0

end FeatureCoverageCollector

namespace CompositeCoverageCollector

/-- The orders in which the maps of a collector are gone through. -/
structure MapOrders (c : CompositeCoverageCollector) where
  paths : c.edgeCollector.pathFrequencies.Iteration
  features : c.featureCollector.featureMap.Iteration

def getCoverageStats (c : CompositeCoverageCollector) : CoverageStats :=
  let edgeStats := c.edgeCollector.getCoverageStats
  let featureStats := c.featureCollector.getCoverageStats
  { totalExecutions := c.executionCount
    uniquePaths := edgeStats.uniquePaths
    coveragePercentage := (edgeStats.coveragePercentage + featureStats.coveragePercentage) / 2
    newCoverageFound := edgeStats.newCoverageFound || featureStats.newCoverageFound }

/-- The rate of one window of a hundred snapshots. -/
def windowRate (window : List CoverageSnapshot) : Checked (List ℚ) :=
  readWhen (window.length ≥ 2) do
    let first ← index window 0
    let last ← index window (window.length - 1)
    let rate := (last.edgeCoverage - first.edgeCoverage) / 100
    pure [max rate 0]

/-- New edges discovered per execution window. -/
def calculateEdgeDiscoveryRate (c : CompositeCoverageCollector) : Checked (List ℚ) := do
  let rates ← (windows 100 c.coverageHistory).mapM windowRate
  pure rates.flatten

/-- The Shannon entropy of the path frequencies. -/
def calculatePathDiversity (log2 : K → K) (c : CompositeCoverageCollector)
    (paths : c.edgeCollector.pathFrequencies.Iteration) : K :=
  let pathCounts : List ℕ := paths.order.map Sigma.snd
  let totalPaths : K := (pathCounts.sum : ℕ)
  if totalPaths = 0 then 0
  else pathCounts.foldl (fun entropy (count : ℕ) =>
    let probability := count / totalPaths
    if probability > 0 then entropy - probability * log2 probability else entropy) 0

/-- The growth between two snapshots, with smoothing factor 0.1. -/
def smoothGrowth (ema : ℚ) (window : List CoverageSnapshot) : Checked ℚ := do
  let growth := (← index window 1).edgeCoverage - (← index window 0).edgeCoverage
  pure (0.1 * growth + (1 - 0.1) * ema)

/-- The exponential moving average of the coverage growth. -/
def calculateCoverageGrowthRate (c : CompositeCoverageCollector) : Checked ℚ :=
  if c.coverageHistory.length < 10 then .ok 0
  else (windows 2 c.coverageHistory).foldlM smoothGrowth 0

def calculateMetrics (log2 : K → K) (c : CompositeCoverageCollector) (orders : c.MapOrders) :
    Checked (CoverageMetrics K) := do
  let discoveryRate ← c.calculateDiscoveryRate
  let coverageGrowthRate ← c.calculateCoverageGrowthRate
  pure {
    pathDiversity := c.calculatePathDiversity log2 orders.paths
    featureEntropy := c.featureCollector.calculateEntropy log2 orders.features
    discoveryRate
    coverageGrowthRate }

/-- The report without its time stamp. -/
def generateReport (log2 : K → K) (c : CompositeCoverageCollector) (orders : c.MapOrders) :
    Checked (CoverageReport K) := do
  let newEdgesPerExecution ← c.calculateEdgeDiscoveryRate
  let coverageMetrics ← c.calculateMetrics log2 orders
  pure {
    protocol := c.protocolType
    totalExecutions := c.executionCount
    uniquePaths := c.edgeCollector.getCoverageStats.uniquePaths
    edgeCoverage := {
      totalEdges := c.edgeCollector.getTotalEdges
      coveredEdges := c.edgeCollector.getCoveredEdges
      coveragePercentage := c.edgeCollector.getCoverageStats.coveragePercentage
      newEdgesPerExecution }
    featureCoverage := {
      totalFeatures := c.featureCollector.getTotalFeatures
      coveredFeatures := c.featureCollector.getCoveredFeatures
      featureFrequency := c.featureCollector.featureMap
      rareFeatures := c.featureCollector.getRareFeatures orders.features }
    coverageMetrics }

end CompositeCoverageCollector

end ProtocolFuzzer.Coverage
