/-
# The exported coverage data

The edge collector exports its map as a counted list of pairs of little-endian words, in
whatever order the map is gone through, and two counters behind it. The order is lost in
the map, so the bytes of one state are not unique; but the count in front says where the
list ends, and a reader of the format gets back the whole map.
-/

import ProtocolFuzzer.Coverage.Accounting
import ProtocolFuzzer.Math.Reader

namespace ProtocolFuzzer.Coverage

open Math Platform

namespace EdgeCoverageCollector

/-- The bytes of one edge and its count. -/
def exportEdge (entry : Σ _ : UInt64, ℕ) : List UInt8 :=
  toLE 8 entry.1.toNat ++ toLE 8 entry.2

def exportCoverageData (c : EdgeCoverageCollector) (i : c.edgeMap.Iteration) : List UInt8 :=
  toLE 8 c.edgeMap.size ++ i.order.flatMap exportEdge ++ toLE 8 c.uniquePaths.card ++
    toLE 8 c.totalExecutions

/-- The counters of the collector and the sizes of its maps are 64-bit numbers. -/
structure FitsU64 (c : EdgeCoverageCollector) : Prop where
  counts : ∀ entry ∈ c.edgeMap.entries, entry.2 < 2 ^ 64
  edges : c.edgeMap.size < 2 ^ 64
  paths : c.uniquePaths.card < 2 ^ 64
  executions : c.totalExecutions < 2 ^ 64

/-- The states of a collector that records and is reset, as long as its counters have not
left their type. -/
inductive Reachable : EdgeCoverageCollector → Prop
  | new : Reachable {}
  | record {c c' : EdgeCoverageCollector} {input : List UInt8} {result : ExecutionResult}
      (reached : Reachable c) (recorded : c.recordExecution input result = .ok c')
      (fits : c'.FitsU64) : Reachable c'
  | reset {c : EdgeCoverageCollector} (reached : Reachable c) : Reachable c.reset

theorem fitsU64_empty : FitsU64 {} where
  counts entry stored := absurd stored (Multiset.notMem_zero entry)
  edges := by decide
  paths := by decide
  executions := by decide

theorem Reachable.fitsU64 {c : EdgeCoverageCollector} (reached : c.Reachable) : c.FitsU64 := by
  cases reached with
  | new => exact fitsU64_empty
  | record _ _ fits => exact fits
  | reset _ => exact fitsU64_empty

/-- What is counted bounds every counter, so a collector that has seen few enough edges and
executions has not left its type. -/
theorem fitsU64_of_few {executions : List Execution} {c : EdgeCoverageCollector}
    (accounted : EdgesAccounted executions c) (few : executions.length < 2 ^ 64)
    (fewEdges : (executions.flatMap edgesOf).length < 2 ^ 64) : c.FitsU64 where
  counts entry stored := by
    have hlookup : c.edgeMap.lookup entry.1 = some entry.2 :=
      Finmap.mem_lookup_iff.mpr stored
    have hcount := accounted.edges.getD_lookup entry.1
    rw [hlookup, Option.getD_some, Multiset.coe_count] at hcount
    exact hcount ▸ List.count_le_length.trans_lt fewEdges
  edges := by
    rw [Tally.size, accounted.edges.keys_eq]
    exact (Multiset.toFinset_card_le _).trans_lt fewEdges
  paths := by
    rw [accounted.unique]
    exact ((List.toFinset_card_le _).trans_eq (List.length_map _)).trans_lt few
  executions := accounted.total ▸ few

def readEdge : Reader (Σ _ : UInt64, ℕ) := do
  let edge ← readLE 8
  let count ← readLE 8
  pure ⟨UInt64.ofNat edge, count⟩

/-- The format of the exported data: a count, as many pairs, and two words. -/
def readCoverageData : Reader (Tally UInt64 × ℕ × ℕ) := do
  let edges ← readLE 8
  let entries ← readTimes readEdge edges
  let paths ← readLE 8
  let executions ← readLE 8
  pure (entries.toFinmap, paths, executions)

/-- A 64-bit word is read back. -/
theorem reads_word {n : ℕ} (fits : n < 2 ^ 64) : Reads (readLE 8) (toLE 8 n) n := by
  have hrange : (256 : ℕ) ^ 8 = 2 ^ 64 := by decide
  apply reads_readLE
  rwa [hrange]

theorem length_exportEdge (entry : Σ _ : UInt64, ℕ) : (exportEdge entry).length = 16 := by
  rw [exportEdge, List.length_append, length_toLE, length_toLE]

theorem reads_readEdge {entry : Σ _ : UInt64, ℕ} (fits : entry.2 < 2 ^ 64) :
    Reads readEdge (exportEdge entry) entry := by
  obtain ⟨edge, count⟩ := entry
  apply (reads_word edge.toNat_lt).bind
  apply (reads_word fits).bind_pure
  rw [UInt64.ofNat_toNat]

/-- The exported data is what the format describes. -/
theorem reads_exportCoverageData {c : EdgeCoverageCollector} (fits : c.FitsU64)
    (i : c.edgeMap.Iteration) :
    Reads readCoverageData (c.exportCoverageData i)
      (c.edgeMap, c.uniquePaths.card, c.totalExecutions) := by
  have hentries : Reads (readTimes readEdge i.order.length) (i.order.flatMap exportEdge) i.order :=
    reads_readTimes fun entry stored => reads_readEdge (fits.counts entry (i.mem.mp stored))
  rw [i.length] at hentries
  rw [exportCoverageData, List.append_assoc, List.append_assoc]
  apply (reads_word fits.edges).bind
  apply hentries.bind
  apply (reads_word fits.paths).bind
  apply (reads_word fits.executions).bind_pure
  rw [i.toFinmap]

/-- The data exported in any state of a collector has the length of the format, gives back
the map and both counters with nothing left over, and so tells states with different
maps apart. -/
theorem exportCoverageData_decodes {c : EdgeCoverageCollector} (reached : c.Reachable)
    (i : c.edgeMap.Iteration) :
    (c.exportCoverageData i).length = 24 + 16 * c.edgeMap.size ∧
    exactly readCoverageData (c.exportCoverageData i) =
      some (c.edgeMap, c.uniquePaths.card, c.totalExecutions) ∧
    ∀ c' : EdgeCoverageCollector, c'.Reachable → ∀ i' : c'.edgeMap.Iteration,
      c'.edgeMap ≠ c.edgeMap → c'.exportCoverageData i' ≠ c.exportCoverageData i := by
  have hdecode := (reads_exportCoverageData reached.fitsU64 i).exactly_eq
  refine ⟨?_, hdecode, ?_⟩
  · rw [exportCoverageData, List.length_append, List.length_append, List.length_append,
      length_toLE, length_toLE, length_toLE, List.length_flatMap]
    simp [length_exportEdge, i.length]
    omega
  · intro c' reached' i' different same
    have hdecode' := (reads_exportCoverageData reached'.fitsU64 i').exactly_eq
    rw [same, hdecode] at hdecode'
    exact different (congrArg Prod.fst (Option.some.inj hdecode')).symm

theorem exportCoverageData_decodes_after_execution :
    ∃ c : EdgeCoverageCollector, c.totalExecutions = 1 ∧ ∃ i : c.edgeMap.Iteration,
      (c.exportCoverageData i).length = 24 + 16 * c.edgeMap.size ∧
      exactly readCoverageData (c.exportCoverageData i) =
        some (c.edgeMap, c.uniquePaths.card, c.totalExecutions) ∧
      ∀ c' : EdgeCoverageCollector, c'.Reachable → ∀ i' : c'.edgeMap.Iteration,
        c'.edgeMap ≠ c.edgeMap → c'.exportCoverageData i' ≠ c.exportCoverageData i := by
  have recorded : recordExecution {} [] ⟨true, none, 0, none⟩ =
      .ok (recordEdges {} (edgesOf ([], ⟨true, none, 0, none⟩))) := rfl
  have accounted := EdgesAccounted.empty.recordExecution recorded
  have reached : Reachable (recordEdges {} (edgesOf ([], ⟨true, none, 0, none⟩))) :=
    .record .new recorded (fitsU64_of_few accounted (by decide) (by decide))
  exact ⟨_, rfl, ⟨_, Multiset.coe_toList _⟩, exportCoverageData_decodes reached _⟩

end EdgeCoverageCollector

end ProtocolFuzzer.Coverage
