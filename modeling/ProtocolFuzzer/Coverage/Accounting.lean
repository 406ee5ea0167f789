/-
# What the collectors count

The collectors keep counters and maps incrementally. `Accounted` says what they amount
to: with the executions since the last reset, every counter is their number, and every
map is the tally of the edges, edge lists or features these executions produce. It is an
invariant of every run, and a tally is determined by what it counts, so the order of the
executions is immaterial.
-/

import ProtocolFuzzer.Coverage.Safety

namespace ProtocolFuzzer.Coverage

open Math Platform

/-- The edge list of an execution, empty where extracting it panics. -/
def edgesOf (e : Execution) : List UInt64 := (extractEdges e.1 e.2).toOption.getD []

/-- The feature list of an execution, empty where extracting it panics. -/
def featuresOf (parse : DNS.Parser) (protocol : ProtocolType) (e : Execution) : List String :=
  (extractAllFeatures parse protocol e.1 e.2).toOption.getD []

/-- The outcome of an execution always contributes edges. -/
theorem extractEdges_ne_nil {input : List UInt8} {result : ExecutionResult}
    {edges : List UInt64} (h : extractEdges input result = .ok edges) : edges ≠ [] := by
  obtain ⟨inputEdges, -, hrest⟩ := bind_eq_ok.mp h
  obtain ⟨responseEdges, -, hedges⟩ := bind_eq_ok.mp hrest
  cases hedges
  simp [extractExecutionEdges]

theorem edgesOf_eq {input : List UInt8} {result : ExecutionResult} {edges : List UInt64}
    (h : extractEdges input result = .ok edges) : edgesOf (input, result) = edges := by
  rw [edgesOf, h]
  rfl

/-- Every execution that was recorded contributes edges. -/
theorem edgesOf_ne_nil {c c' : EdgeCoverageCollector} {input : List UInt8}
    {result : ExecutionResult} (hrun : c.recordExecution input result = .ok c') :
    edgesOf (input, result) ≠ [] := by
  obtain ⟨edges, hextract, -⟩ := bind_eq_ok.mp hrun
  rw [edgesOf_eq hextract]
  exact extractEdges_ne_nil hextract

/-- The edge collector accounts for the executions. -/
structure EdgesAccounted (executions : List Execution) (c : EdgeCoverageCollector) : Prop where
  total : c.totalExecutions = executions.length
  edges : Tally.Counts c.edgeMap (executions.flatMap edgesOf)
  paths : Tally.Counts c.pathFrequencies (executions.map edgesOf)
  unique : c.uniquePaths = (executions.map edgesOf).toFinset

/-- The feature collector accounts for the executions. -/
structure FeaturesAccounted (parse : DNS.Parser) (executions : List Execution)
    (c : FeatureCoverageCollector) : Prop where
  total : c.totalExecutions = executions.length
  features : Tally.Counts c.featureMap (executions.flatMap (featuresOf parse c.protocolType))

theorem EdgesAccounted.empty : EdgesAccounted [] {} where
  total := rfl
  edges := Tally.Counts.empty
  paths := Tally.Counts.empty
  unique := rfl

theorem FeaturesAccounted.empty (parse : DNS.Parser) (protocolType : ProtocolType) :
    FeaturesAccounted parse [] { protocolType } where
  total := rfl
  features := Tally.Counts.empty

theorem EdgesAccounted.recordExecution {executions : List Execution}
    {c c' : EdgeCoverageCollector} {input : List UInt8} {result : ExecutionResult}
    (h : EdgesAccounted executions c) (hrun : c.recordExecution input result = .ok c') :
    EdgesAccounted (executions ++ [(input, result)]) c' := by
  obtain ⟨edges, hextract, hrecord⟩ := bind_eq_ok.mp hrun
  cases hrecord
  have hne := extractEdges_ne_nil hextract
  have hedges := edgesOf_eq hextract
  exact {
    total := by
      rw [List.length_append]
      exact congrArg (· + 1) h.total
    edges := by
      rw [List.flatMap_append, ← Multiset.coe_add, List.flatMap_singleton, hedges]
      change Tally.Counts (edges.foldl Tally.count (c.edgeMap, false)).1 _
      rw [Tally.foldl_count_fst]
      exact h.edges.foldl_bump edges
    paths := by
      change Tally.Counts (if edges ≠ [] then c.pathFrequencies.bump edges else _) _
      rw [if_pos hne, List.map_append, List.map_singleton, hedges, ← Multiset.coe_add]
      exact h.paths.foldl_bump [edges]
    unique := by
      change (if edges ≠ [] then insert edges c.uniquePaths else _) = _
      rw [if_pos hne, h.unique, List.map_append, List.map_singleton, hedges]
      ext path
      simp }

theorem FeaturesAccounted.recordExecution {parse : DNS.Parser} {executions : List Execution}
    {c c' : FeatureCoverageCollector} {input : List UInt8} {result : ExecutionResult}
    (h : FeaturesAccounted parse executions c)
    (hrun : c.recordExecution parse input result = .ok c') :
    c'.protocolType = c.protocolType ∧
      FeaturesAccounted parse (executions ++ [(input, result)]) c' := by
  obtain ⟨features, hextract, hrecord⟩ := bind_eq_ok.mp hrun
  cases hrecord
  have hfeatures : featuresOf parse c.protocolType (input, result) = features := by
    rw [featuresOf, hextract]
    rfl
  refine ⟨rfl, ?_, ?_⟩
  · rw [List.length_append]
    exact congrArg (· + 1) h.total
  · change Tally.Counts (features.foldl Tally.count (c.featureMap, false)).1
      ((executions ++ [(input, result)]).flatMap (featuresOf parse c.protocolType))
    rw [List.flatMap_append, ← Multiset.coe_add, List.flatMap_singleton, hfeatures,
      Tally.foldl_count_fst]
    exact h.features.foldl_bump features

/-- The composite collector accounts for the executions. -/
structure Accounted (parse : DNS.Parser) (protocol : ProtocolType) (executions : List Execution)
    (c : CompositeCoverageCollector) : Prop where
  count : c.executionCount = executions.length
  edges : EdgesAccounted executions c.edgeCollector
  protocolType : c.featureCollector.protocolType = protocol
  features : FeaturesAccounted parse executions c.featureCollector

/-- A recorded execution is counted and recorded by both collectors. -/
theorem CompositeCoverageCollector.recordExecution_spec {parse : DNS.Parser}
    {c c' : CompositeCoverageCollector} {input : List UInt8} {result : ExecutionResult}
    (hrun : c.recordExecution parse input result = .ok c') :
    c'.executionCount = c.executionCount + 1 ∧
      c.edgeCollector.recordExecution input result = .ok c'.edgeCollector ∧
      c.featureCollector.recordExecution parse input result = .ok c'.featureCollector := by
  obtain ⟨edgeCollector, hedge, hrest⟩ := bind_eq_ok.mp hrun
  obtain ⟨featureCollector, hfeature, hrecord⟩ := bind_eq_ok.mp hrest
  cases hrecord
  dsimp only
  split_ifs
  · exact ⟨rfl, hedge, hfeature⟩
  · exact ⟨rfl, hedge, hfeature⟩

theorem Accounted.step {parse : DNS.Parser} {protocol : ProtocolType} {history : List Event}
    {c c' : CompositeCoverageCollector} {event : Event}
    (h : Accounted parse protocol (executionsSinceReset history) c)
    (hrun : c.step parse event = .ok c') :
    Accounted parse protocol (executionsSinceReset (history ++ [event])) c' := by
  rw [executionsSinceReset, List.foldl_append]
  cases event with
  | record input result =>
      obtain ⟨hcount, hedge, hfeature⟩ := CompositeCoverageCollector.recordExecution_spec hrun
      obtain ⟨hprotocol, hfeatures⟩ := h.features.recordExecution hfeature
      exact {
        count := by
          rw [hcount, h.count, List.foldl_cons, List.foldl_nil, List.length_append]
          rfl
        edges := h.edges.recordExecution hedge
        protocolType := hprotocol.trans h.protocolType
        features := hfeatures }
  | reset =>
      cases hrun
      exact {
        count := rfl
        edges := EdgesAccounted.empty
        protocolType := h.protocolType
        features := FeaturesAccounted.empty parse _ }

theorem Accounted.new (parse : DNS.Parser) (protocol : ProtocolType) :
    Accounted parse protocol [] (CompositeCoverageCollector.new protocol) where
  count := rfl
  edges := EdgesAccounted.empty
  protocolType := rfl
  features := FeaturesAccounted.empty parse protocol

/-- Every run keeps the account. -/
theorem accounted_runEvents {parse : DNS.Parser} {protocol : ProtocolType} {events : List Event}
    {c : CompositeCoverageCollector} (hrun : runEvents parse protocol events = .ok c) :
    Accounted parse protocol (executionsSinceReset events) c :=
  foldlM_run (fun history c => Accounted parse protocol (executionsSinceReset history) c)
    (fun _ _ _ _ h hstep => h.step hstep) (Accounted.new parse protocol) hrun

/-- Reordering the executions changes none of the edge collector's maps. -/
theorem EdgesAccounted.maps_eq_of_perm {executions executions' : List Execution}
    {c c' : EdgeCoverageCollector} (h : EdgesAccounted executions c)
    (h' : EdgesAccounted executions' c') (hperm : executions'.Perm executions) :
    c'.edgeMap = c.edgeMap ∧ c'.pathFrequencies = c.pathFrequencies ∧
      c'.uniquePaths = c.uniquePaths := by
  have hedges : (↑(executions'.flatMap edgesOf) : Multiset UInt64) =
      ↑(executions.flatMap edgesOf) := Multiset.coe_eq_coe.mpr (hperm.flatMap_right edgesOf)
  have hpaths : (↑(executions'.map edgesOf) : Multiset (List UInt64)) =
      ↑(executions.map edgesOf) := Multiset.coe_eq_coe.mpr (hperm.map edgesOf)
  refine ⟨?_, ?_, ?_⟩
  · exact Tally.Counts.unique (hedges ▸ h'.edges) h.edges
  · exact Tally.Counts.unique (hpaths ▸ h'.paths) h.paths
  · rw [h'.unique, h.unique]
    exact List.toFinset_eq_of_perm _ _ (hperm.map edgesOf)

/-- After any run of recordings and resets, the counters and maps are those of the
executions since the last reset, in whatever order these came. -/
theorem runEvents_accounting (parse : DNS.Parser) (protocol : ProtocolType)
    (events : List Event) (c : CompositeCoverageCollector)
    (hrun : runEvents parse protocol events = .ok c) :
    let executions := executionsSinceReset events
    (c.executionCount = executions.length ∧
        c.edgeCollector.totalExecutions = executions.length ∧
        c.featureCollector.totalExecutions = executions.length) ∧
      (∀ edge, c.edgeCollector.edgeMap.lookup edge =
        if edge ∈ executions.flatMap edgesOf then
          some ((executions.flatMap edgesOf).count edge)
        else none) ∧
      (∀ path, c.edgeCollector.pathFrequencies.lookup path =
        if path ∈ executions.map edgesOf then
          some (executions.countP fun e => edgesOf e = path)
        else none) ∧
      c.edgeCollector.pathFrequencies.keys = c.edgeCollector.uniquePaths ∧
      c.edgeCollector.pathFrequencies.total = executions.length ∧
      ∀ events' c', runEvents parse protocol events' = .ok c' →
        (executionsSinceReset events').Perm executions →
        c'.edgeCollector.edgeMap = c.edgeCollector.edgeMap ∧
          c'.edgeCollector.pathFrequencies = c.edgeCollector.pathFrequencies ∧
          c'.edgeCollector.uniquePaths = c.edgeCollector.uniquePaths := by
  have h := accounted_runEvents hrun
  refine ⟨⟨h.count, h.edges.total, h.features.total⟩, ?_, ?_, ?_, ?_, ?_⟩
  · intro edge
    simpa only [Multiset.mem_coe, Multiset.coe_count] using h.edges.edges edge
  · intro path
    rw [h.edges.paths.lookup_map path]
    congr
  · rw [h.edges.paths.keys_eq, h.edges.unique]
    rfl
  · rw [h.edges.paths.total_eq_card, Multiset.coe_card, List.length_map]
  · exact fun events' c' hrun' hperm =>
      h.edges.maps_eq_of_perm (accounted_runEvents hrun').edges hperm

/-- An empty packet, a reset, and a PINGREQ packet. -/
theorem runEvents_accounting_reset :
    let result : ExecutionResult :=
      { success := true, responseData := none, executionTimeMs := 0, errorMessage := none }
    ∃ c, runEvents (fun _ => none) .MQTT
        [.record [] result, .reset, .record [0xC0, 0x00] result] = .ok c ∧
      c.executionCount = 1 ∧ c.edgeCollector.pathFrequencies.total = 1 := by
  intro result
  have hempty : Recordable [] := recordable_of_short (by decide)
  have hping : Recordable [0xC0, 0x00] := recordable_of_short (by decide)
  obtain ⟨first, hfirst⟩ := (recordExecution_returns_iff (fun _ => none)
    (CompositeCoverageCollector.new .MQTT) [] result).mpr hempty
  obtain ⟨c, hlast⟩ := (recordExecution_returns_iff (fun _ => none)
    first.reset [0xC0, 0x00] result).mpr hping
  have hrun : runEvents (fun _ => none) .MQTT
      [.record [] result, .reset, .record [0xC0, 0x00] result] = .ok c := by
    change (CompositeCoverageCollector.new .MQTT).recordExecution (fun _ => none) [] result >>=
      _ = _
    rw [hfirst, ok_bind]
    change first.reset.recordExecution (fun _ => none) [0xC0, 0x00] result >>= _ = _
    rw [hlast, ok_bind]
    rfl
  obtain ⟨⟨hcount, -, -⟩, -, -, -, htotal, -⟩ :=
    runEvents_accounting (fun _ => none) .MQTT _ c hrun
  exact ⟨c, hrun, hcount, htotal⟩

end ProtocolFuzzer.Coverage
