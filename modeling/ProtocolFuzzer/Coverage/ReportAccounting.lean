/-
# What a coverage report shows

After any run the report shows how many distinct paths, edges and features there were
since the last reset, how often each feature occurred and which ones are rare. Everything
stored was hit, so the percentages are zero or a hundred and all rates are zero; the two
entropies depend on the frequencies alone. So the order of the executions, the executions
before the last reset and the orders of the hash maps leave no trace in a report.
-/

import ProtocolFuzzer.Coverage.Novelty
import ProtocolFuzzer.Coverage.Report
import ProtocolFuzzer.Coverage.Snapshots
import ProtocolFuzzer.Math.Entropy

namespace ProtocolFuzzer.Coverage

open Math Platform

theorem mem_of_mem_windows {α : Type} {width : ℕ} {xs window : List α}
    (h : window ∈ windows width xs) : window.length = width ∧ ∀ x ∈ window, x ∈ xs := by
  simp only [windows, List.mem_map, List.mem_range] at h
  obtain ⟨i, hi, rfl⟩ := h
  constructor
  · rw [List.length_take, List.length_drop]
    omega
  · exact fun x hx => List.mem_of_mem_drop (List.mem_of_mem_take hx)

theorem length_windows {α : Type} (width : ℕ) (xs : List α) :
    (windows width xs).length = xs.length + 1 - width := by
  rw [windows, List.length_map, List.length_range]

section Constant

variable {c : CompositeCoverageCollector} {coverage : ℚ}

/-- Where all snapshots show the same coverage, no window shows a discovery. -/
theorem calculateEdgeDiscoveryRate_eq (h : ∀ s ∈ c.coverageHistory, s.edgeCoverage = coverage) :
    c.calculateEdgeDiscoveryRate = .ok (List.replicate (c.coverageHistory.length - 99) 0) := by
  have hwindow : ∀ window ∈ windows 100 c.coverageHistory,
      CompositeCoverageCollector.windowRate window = .ok [0] := by
    intro window hmem
    obtain ⟨hlength, hsub⟩ := mem_of_mem_windows hmem
    have hfirst : 0 < window.length := by omega
    have hlast : window.length - 1 < window.length := by omega
    rw [CompositeCoverageCollector.windowRate, readWhen, if_pos (by omega), index_of_lt hfirst,
      ok_bind, index_of_lt hlast, ok_bind, h _ (hsub _ (List.getElem_mem hfirst)),
      h _ (hsub _ (List.getElem_mem hlast)), sub_self, zero_div]
    dsimp only
    rw [max_self]
    rfl
  rw [CompositeCoverageCollector.calculateEdgeDiscoveryRate, mapM_eq_map hwindow, ok_bind,
    List.map_const', List.flatten_replicate_singleton, length_windows]
  rfl

/-- Nor does the moving average leave zero. -/
theorem calculateCoverageGrowthRate_eq (h : ∀ s ∈ c.coverageHistory, s.edgeCoverage = coverage) :
    c.calculateCoverageGrowthRate = .ok 0 := by
  rw [CompositeCoverageCollector.calculateCoverageGrowthRate]
  split_ifs
  · rfl
  · apply foldlM_eq_self
    intro window hmem
    obtain ⟨hlength, hsub⟩ := mem_of_mem_windows hmem
    obtain ⟨first, second, rfl⟩ := List.length_eq_two.mp hlength
    have hgrowth : second.edgeCoverage - first.edgeCoverage = 0 := by
      rw [h second (hsub _ (by simp)), h first (hsub _ (by simp)), sub_self]
    rw [CompositeCoverageCollector.smoothGrowth, index_of_lt (by simp), ok_bind,
      index_of_lt (by simp), ok_bind]
    dsimp only [List.getElem_cons_succ, List.getElem_cons_zero]
    rw [hgrowth, mul_zero, mul_zero, add_zero]
    rfl

end Constant

theorem edgeCoverage_of_history {parse : DNS.Parser} {protocol : ProtocolType}
    {events : List Event} {c : CompositeCoverageCollector}
    (hrun : runEvents parse protocol events = .ok c) :
    ∀ snapshot ∈ c.coverageHistory, snapshot.edgeCoverage = 100 := by
  obtain ⟨taken, htaken, h⟩ := snapshotsKept_runEvents hrun
  intro snapshot hmem
  rw [h.history] at hmem
  exact edgeCoverage_of_taken htaken snapshot (List.mem_of_mem_drop hmem)

theorem length_coverageHistory {parse : DNS.Parser} {protocol : ProtocolType}
    {events : List Event} {c : CompositeCoverageCollector}
    (hrun : runEvents parse protocol events = .ok c) :
    c.coverageHistory.length =
      BoundedLog.kept 10000 1000 ((executionsSinceReset events).length / 50) := by
  obtain ⟨taken, -, h⟩ := snapshotsKept_runEvents hrun
  rw [h.length_history, h.length_taken, (accounted_runEvents hrun).count]

theorem protocolType_runEvents {parse : DNS.Parser} {protocol : ProtocolType}
    {events : List Event} {c : CompositeCoverageCollector}
    (hrun : runEvents parse protocol events = .ok c) : c.protocolType = protocol := by
  refine foldlM_run (fun _ c => c.protocolType = protocol) ?_ rfl hrun
  intro history c event c' h hstep
  cases event with
  | record input result =>
      obtain ⟨edgeCollector, -, hrest⟩ := bind_eq_ok.mp hstep
      obtain ⟨featureCollector, -, hrecord⟩ := bind_eq_ok.mp hrest
      cases hrecord
      dsimp only
      split_ifs <;> exact h
  | reset =>
      cases hstep
      exact h

/-- Every execution of a run contributed edges. -/
theorem edgesOf_ne_nil_of_run {parse : DNS.Parser} {protocol : ProtocolType}
    {events : List Event} {c : CompositeCoverageCollector}
    (hrun : runEvents parse protocol events = .ok c) :
    ∀ e ∈ executionsSinceReset events, edgesOf e ≠ [] := by
  refine foldlM_run (fun history (_ : CompositeCoverageCollector) =>
    ∀ e ∈ executionsSinceReset history, edgesOf e ≠ []) ?_ (by simp [executionsSinceReset]) hrun
  intro history c event c' h hstep
  rw [executionsSinceReset, List.foldl_append]
  cases event with
  | record input result =>
      obtain ⟨-, hedge, -⟩ := CompositeCoverageCollector.recordExecution_spec hstep
      rw [List.foldl_cons, List.foldl_nil, List.forall_mem_append, List.forall_mem_singleton]
      exact ⟨h, edgesOf_ne_nil hedge⟩
  | reset => simp

theorem coveragePercentage_of_run {parse : DNS.Parser} {protocol : ProtocolType}
    {events : List Event} {c : CompositeCoverageCollector}
    (hrun : runEvents parse protocol events = .ok c) :
    c.edgeCollector.coveragePercentage =
      if (executionsSinceReset events).length = 0 then 0 else 100 := by
  have h := (accounted_runEvents hrun).edges
  split_ifs with hzero
  · have hnone := List.length_eq_zero_iff.mp hzero
    have hempty : ¬ c.edgeCollector.getTotalEdges > 0 := by
      rw [EdgeCoverageCollector.getTotalEdges, Tally.size, h.edges.keys_eq, hnone]
      simp
    rw [EdgeCoverageCollector.coveragePercentage, if_neg hempty]
  · obtain ⟨e, he⟩ := List.exists_mem_of_ne_nil _ (mt List.length_eq_zero_iff.mpr hzero)
    apply h.coveragePercentage_eq
    rw [ne_eq, List.flatMap_eq_nil_iff]
    exact fun hnil => edgesOf_ne_nil_of_run hrun e he (hnil e he)

/-- The rare features are found in any order of the map, and come sorted. -/
theorem getRareFeatures_eq {c : FeatureCoverageCollector} {features : Multiset String}
    (h : Tally.Counts c.featureMap features) (i : c.featureMap.Iteration) :
    c.getRareFeatures i = (features.toFinset.filter fun f => features.count f ≤ 5).sort := by
  have hnodup : ((i.order.filter fun entry => entry.2 ≤ 5).map Sigma.fst).Nodup :=
    i.nodup_keys.sublist (List.filter_sublist.map Sigma.fst)
  have hmem : ∀ f, f ∈ (i.order.filter fun entry => entry.2 ≤ 5).map Sigma.fst ↔
      f ∈ (features.toFinset.filter fun f => features.count f ≤ 5).sort := by
    intro f
    rw [h.mem_iteration i (· ≤ 5), Finset.mem_sort, Finset.mem_filter, Multiset.mem_toFinset]
  have hperm := (List.perm_ext_iff_of_nodup hnodup (Finset.sort_nodup _ _)).mpr hmem
  exact ((List.mergeSort_perm _ _).trans hperm).eq_of_pairwise'
    (List.pairwise_mergeSort' (· ≤ ·) _) (Finset.pairwise_sort _ _)

theorem calculatePathDiversity_eq (c : CompositeCoverageCollector)
    (i : c.edgeCollector.pathFrequencies.Iteration) :
    c.calculatePathDiversity (Real.logb 2) i = entropy c.edgeCollector.pathFrequencies.counts := by
  rw [← i.counts, CompositeCoverageCollector.calculatePathDiversity]
  split_ifs with hsum
  · rw [entropy_of_sum_eq_zero]
    exact Nat.cast_eq_zero.mp hsum
  · exact foldl_eq_entropy fun _ _ => rfl

theorem calculateEntropy_eq (c : FeatureCoverageCollector) (i : c.featureMap.Iteration) :
    c.calculateEntropy (Real.logb 2) i = entropy c.featureMap.counts := by
  rw [← i.counts, FeatureCoverageCollector.calculateEntropy]
  dsimp only
  split_ifs with hempty hsum
  · rw [i.counts, Multiset.card_eq_zero.mp (c.featureMap.card_counts.trans hempty)]
    exact (entropy_of_sum_eq_zero rfl).symm
  · rw [entropy_of_sum_eq_zero]
    exact hsum
  · have hshare : ∀ n, 0 < share (i.order.map Sigma.snd : List ℕ) n ↔ n > 0 :=
      fun n => share_pos_iff (by rwa [Multiset.sum_coe])
    apply foldl_eq_entropy
    intro e n
    simp only [hshare]
    rfl

/-- The report on a collection of executions, whatever a collector keeps of them. -/
noncomputable def reportOf (parse : DNS.Parser) (protocol : ProtocolType)
    (executions : Multiset Execution) : CoverageReport ℝ :=
  let paths := executions.map edgesOf
  let edges := executions.bind fun e => (edgesOf e : Multiset UInt64)
  let features := executions.bind fun e => (featuresOf parse protocol e : Multiset String)
  { protocol
    totalExecutions := executions.card
    uniquePaths := paths.toFinset.card
    edgeCoverage := {
      totalEdges := edges.toFinset.card
      coveredEdges := edges.toFinset.card
      coveragePercentage := if executions.card = 0 then 0 else 100
      newEdgesPerExecution :=
        List.replicate (BoundedLog.kept 10000 1000 (executions.card / 50) - 99) 0 }
    featureCoverage := {
      totalFeatures := features.toFinset.card
      coveredFeatures := features.toFinset.card
      featureFrequency := Tally.ofMultiset features
      rareFeatures := (features.toFinset.filter fun f => features.count f ≤ 5).sort }
    coverageMetrics := {
      pathDiversity := entropy (Tally.frequencies paths)
      featureEntropy := entropy (Tally.frequencies features)
      discoveryRate := 0
      coverageGrowthRate := 0 } }

/-- The feature collector counts the features of the executions since the last reset. -/
theorem counts_featureMap {parse : DNS.Parser} {protocol : ProtocolType} {events : List Event}
    {c : CompositeCoverageCollector} (hrun : runEvents parse protocol events = .ok c) :
    Tally.Counts c.featureCollector.featureMap
      ((executionsSinceReset events : Multiset Execution).bind fun e =>
        (featuresOf parse protocol e : Multiset String)) := by
  have h := accounted_runEvents hrun
  rw [Multiset.coe_bind, ← h.protocolType]
  exact h.features.features

/-- The figures of the report that are calculated. -/
theorem calculateMetrics_eq {parse : DNS.Parser} {protocol : ProtocolType} {events : List Event}
    {c : CompositeCoverageCollector} (hrun : runEvents parse protocol events = .ok c)
    (orders : c.MapOrders) :
    c.calculateMetrics (Real.logb 2) orders =
      .ok (reportOf parse protocol (executionsSinceReset events)).coverageMetrics := by
  have h := accounted_runEvents hrun
  have hfeatures := counts_featureMap hrun
  rw [CompositeCoverageCollector.calculateMetrics, calculateDiscoveryRate_eq_zero hrun, ok_bind,
    calculateCoverageGrowthRate_eq (edgeCoverage_of_history hrun), ok_bind,
    calculatePathDiversity_eq, calculateEntropy_eq, h.edges.paths.counts_eq, hfeatures.counts_eq]
  rfl

/-- After every run the report is that of the executions since the last reset, whatever order
they came in and the maps are gone through in. -/
theorem generateReport_reportOf (parse : DNS.Parser) (protocol : ProtocolType)
    (events : List Event) (c : CompositeCoverageCollector)
    (hrun : runEvents parse protocol events = .ok c) (orders : c.MapOrders) :
    c.generateReport (Real.logb 2) orders =
      .ok (reportOf parse protocol (executionsSinceReset events)) := by
  have h := accounted_runEvents hrun
  have hfeatures := counts_featureMap hrun
  have hcovered : c.featureCollector.getCoveredFeatures = c.featureCollector.getTotalFeatures :=
    hfeatures.covered_eq_size
  have hcoveredEdges : c.edgeCollector.getCoveredEdges = c.edgeCollector.getTotalEdges :=
    h.edges.edges.covered_eq_size
  rw [CompositeCoverageCollector.generateReport,
    calculateEdgeDiscoveryRate_eq (edgeCoverage_of_history hrun), ok_bind,
    calculateMetrics_eq hrun, ok_bind]
  refine congrArg Except.ok ?_
  rw [protocolType_runEvents hrun, h.count, EdgeCoverageCollector.getCoverageStats,
    coveragePercentage_of_run hrun, h.edges.unique, hcoveredEdges, hcovered,
    EdgeCoverageCollector.getTotalEdges, FeatureCoverageCollector.getTotalFeatures,
    h.edges.edges.size_eq, hfeatures.size_eq, getRareFeatures_eq hfeatures,
    length_coverageHistory hrun, hfeatures.eq_ofMultiset, reportOf, Multiset.coe_bind,
    Multiset.coe_bind]
  rfl

/-- Every map can be gone through. -/
noncomputable def someOrders (c : CompositeCoverageCollector) : c.MapOrders where
  paths := ⟨_, Multiset.coe_toList _⟩
  features := ⟨_, Multiset.coe_toList _⟩

theorem generateReport_reportOf_slowingDown : ∃ c,
    runEvents (fun _ => none) .MQTT (recordings slowingDown) = .ok c ∧
      c.generateReport (Real.logb 2) (someOrders c) =
        .ok (reportOf (fun _ => none) .MQTT slowingDown) := by
  obtain ⟨c, first, last, hrun, -⟩ := runEvents_slowingDown
  have hreport := generateReport_reportOf (fun _ => none) .MQTT _ c hrun (someOrders c)
  rw [executionsSinceReset_recordings] at hreport
  exact ⟨c, hrun, hreport⟩

/-! ## How evenly executions are spread -/

/-- The two entropies of a report lie between zero, where everything took one path, and the
logarithm of the number of paths, where all paths were equally frequent; so for features. -/
theorem generateReport_measuresSpread (parse : DNS.Parser) (protocol : ProtocolType)
    (events : List Event) (c : CompositeCoverageCollector)
    (hrun : runEvents parse protocol events = .ok c) (orders : c.MapOrders) :
    ∃ report, c.generateReport (Real.logb 2) orders = .ok report ∧
      MeasuresSpread report.coverageMetrics.pathDiversity
        ((executionsSinceReset events).map edgesOf : Multiset (List UInt64)) ∧
      MeasuresSpread report.coverageMetrics.featureEntropy
        ((executionsSinceReset events).flatMap (featuresOf parse protocol) : Multiset String) := by
  rw [CompositeCoverageCollector.generateReport,
    calculateEdgeDiscoveryRate_eq (edgeCoverage_of_history hrun), ok_bind,
    calculateMetrics_eq hrun, ok_bind]
  refine ⟨_, rfl, measuresSpread_entropy _, ?_⟩
  rw [← Multiset.coe_bind]
  exact measuresSpread_entropy _

theorem generateReport_measuresSpread_slowingDown : ∃ c report,
    runEvents (fun _ => none) .MQTT (recordings slowingDown) = .ok c ∧
      c.generateReport (Real.logb 2) (someOrders c) = .ok report ∧
      MeasuresSpread report.coverageMetrics.pathDiversity
        (slowingDown.map edgesOf : Multiset (List UInt64)) := by
  obtain ⟨c, first, last, hrun, -⟩ := runEvents_slowingDown
  obtain ⟨report, hreport, hpaths, -⟩ :=
    generateReport_measuresSpread (fun _ => none) .MQTT _ c hrun (someOrders c)
  rw [executionsSinceReset_recordings] at hpaths
  exact ⟨c, report, hrun, hreport, hpaths⟩

/-- What the flags of the collectors say of the executions. -/
structure FlagsAccounted (parse : DNS.Parser) (protocol : ProtocolType)
    (executions : List Execution) (c : CompositeCoverageCollector) : Prop where
  accounted : Accounted parse protocol executions c
  edges : c.edgeCollector.newCoverageFound = true ↔ executions ≠ []
  features : c.featureCollector.newFeaturesFound = true → executions ≠ []
  contributes : ∀ e ∈ executions, featuresOf parse protocol e ≠ []

/-- The first execution takes a new path, and the flag is not taken back. -/
theorem EdgeCoverageCollector.newCoverageFound_recordExecution {executions : List Execution}
    {c c' : EdgeCoverageCollector} {input : List UInt8} {result : ExecutionResult}
    (h : EdgesAccounted executions c) (flagged : c.newCoverageFound = true ↔ executions ≠ [])
    (hrun : c.recordExecution input result = .ok c') : c'.newCoverageFound = true := by
  obtain ⟨edges, hextract, hrecord⟩ := bind_eq_ok.mp hrun
  cases hrecord
  rw [EdgeCoverageCollector.recordEdges]
  by_cases hnone : executions = []
  · have hnew : edges ∉ c.uniquePaths := by simp [h.unique, hnone]
    simp [extractEdges_ne_nil hextract, hnew]
  · simp [flagged.mpr hnone]

theorem FlagsAccounted.step {parse : DNS.Parser} {protocol : ProtocolType}
    {history : List Event} {c c' : CompositeCoverageCollector} {event : Event}
    (h : FlagsAccounted parse protocol (executionsSinceReset history) c)
    (hrun : c.step parse event = .ok c') :
    FlagsAccounted parse protocol (executionsSinceReset (history ++ [event])) c' := by
  have haccounted := h.accounted.step hrun
  rw [executionsSinceReset, List.foldl_append] at haccounted ⊢
  cases event with
  | record input result =>
      obtain ⟨-, hedge, hfeature⟩ := CompositeCoverageCollector.recordExecution_spec hrun
      have hsome : executionsSinceReset history ++ [(input, result)] ≠ [] := by simp
      have hflag := EdgeCoverageCollector.newCoverageFound_recordExecution h.accounted.edges
        h.edges hedge
      obtain ⟨features, hextract, -⟩ := bind_eq_ok.mp hfeature
      rw [h.accounted.protocolType] at hextract
      exact {
        accounted := haccounted
        edges := ⟨fun _ => hsome, fun _ => hflag⟩
        features := fun _ => hsome
        contributes := by
          rw [List.foldl_cons, List.foldl_nil, List.forall_mem_append, List.forall_mem_singleton,
            featuresOf, hextract]
          exact ⟨h.contributes, extractAllFeatures_ne_nil hextract⟩ }
  | reset =>
      cases hrun
      exact {
        accounted := haccounted
        edges := by simp [CompositeCoverageCollector.reset, EdgeCoverageCollector.reset]
        features := by simp [CompositeCoverageCollector.reset, FeatureCoverageCollector.reset]
        contributes := by simp }

theorem flagsAccounted_runEvents {parse : DNS.Parser} {protocol : ProtocolType}
    {events : List Event} {c : CompositeCoverageCollector}
    (hrun : runEvents parse protocol events = .ok c) :
    FlagsAccounted parse protocol (executionsSinceReset events) c := by
  refine foldlM_run (fun history c => FlagsAccounted parse protocol
    (executionsSinceReset history) c) (fun _ _ _ _ h hstep => h.step hstep) ?_ hrun
  exact {
    accounted := Accounted.new parse protocol
    edges := by simp [CompositeCoverageCollector.new, executionsSinceReset]
    features := by simp [CompositeCoverageCollector.new]
    contributes := by simp [executionsSinceReset] }

theorem featurePercentage_of_run {parse : DNS.Parser} {protocol : ProtocolType}
    {events : List Event} {c : CompositeCoverageCollector}
    (hrun : runEvents parse protocol events = .ok c) :
    c.featureCollector.coveragePercentage =
      if (executionsSinceReset events).length = 0 then 0 else 100 := by
  have h := flagsAccounted_runEvents hrun
  have hfeatures := counts_featureMap hrun
  have hcovered : c.featureCollector.getCoveredFeatures = c.featureCollector.getTotalFeatures :=
    hfeatures.covered_eq_size
  rw [FeatureCoverageCollector.coveragePercentage, hcovered]
  have htotal : c.featureCollector.getTotalFeatures = 0 ↔
      (executionsSinceReset events).length = 0 := by
    rw [FeatureCoverageCollector.getTotalFeatures, hfeatures.size_eq, Finset.card_eq_zero,
      Multiset.toFinset_eq_empty, Multiset.coe_bind, Multiset.coe_eq_zero,
      List.flatMap_eq_nil_iff, List.length_eq_zero_iff]
    constructor
    · exact fun hnil => List.eq_nil_iff_forall_not_mem.mpr fun e he =>
        h.contributes e he (hnil e he)
    · rintro hnone e he
      rw [hnone] at he
      cases he
  split_ifs with hpos hzero hzero
  · omega
  · rw [div_self (Nat.cast_ne_zero.mpr hpos.ne'), one_mul]
  · rfl
  · omega

/-- From the first execution on, the statistics show full and new coverage. -/
theorem getCoverageStats_runEvents (parse : DNS.Parser) (protocol : ProtocolType)
    (events : List Event) (c : CompositeCoverageCollector)
    (hrun : runEvents parse protocol events = .ok c) :
    c.getCoverageStats = {
      totalExecutions := (executionsSinceReset events).length
      uniquePaths := ((executionsSinceReset events).map edgesOf).toFinset.card
      coveragePercentage := if (executionsSinceReset events).length = 0 then 0 else 100
      newCoverageFound := (executionsSinceReset events).length ≠ 0 } := by
  have h := flagsAccounted_runEvents hrun
  have hflag : (c.edgeCollector.newCoverageFound || c.featureCollector.newFeaturesFound) =
      decide ((executionsSinceReset events).length ≠ 0) := by
    rw [Bool.eq_iff_iff, Bool.or_eq_true, h.edges, decide_eq_true_iff, ne_eq, ne_eq,
      List.length_eq_zero_iff]
    exact or_iff_left_of_imp h.features
  rw [CompositeCoverageCollector.getCoverageStats, EdgeCoverageCollector.getCoverageStats,
    FeatureCoverageCollector.getCoverageStats, h.accounted.count, h.accounted.edges.unique,
    coveragePercentage_of_run hrun, featurePercentage_of_run hrun, hflag]
  split_ifs <;> norm_num

theorem getCoverageStats_runEvents_slowingDown : ∃ c,
    runEvents (fun _ => none) .MQTT (recordings slowingDown) = .ok c ∧
      c.getCoverageStats.totalExecutions = 100 ∧ c.getCoverageStats.coveragePercentage = 100 ∧
      c.getCoverageStats.newCoverageFound = true := by
  obtain ⟨c, first, last, hrun, -⟩ := runEvents_slowingDown
  have hstats := getCoverageStats_runEvents (fun _ => none) .MQTT _ c hrun
  rw [executionsSinceReset_recordings] at hstats
  refine ⟨c, hrun, ?_⟩
  rw [hstats]
  exact ⟨rfl, rfl, rfl⟩

end ProtocolFuzzer.Coverage
