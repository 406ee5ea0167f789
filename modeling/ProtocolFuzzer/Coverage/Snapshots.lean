/-
# What the snapshots show

The composite collector takes a snapshot every fifty executions and drops old ones in
bulk. Beside the history that is kept, a run keeps here every snapshot taken since the
last reset; the history is a final part of that list, and the execution counts of the
list are the multiples of fifty. So the window of the discovery rate is in range and its
counts increase. The coverages in it do not: every stored edge was hit, so the share of
the stored edges that were hit is the whole, and the discovery rate is zero in every run.
-/

import ProtocolFuzzer.Coverage.Accounting
import ProtocolFuzzer.Math.BoundedLog

namespace ProtocolFuzzer.Coverage

open Math Platform

/-- The snapshot a collector would take. -/
def CompositeCoverageCollector.snapshot (c : CompositeCoverageCollector) : CoverageSnapshot where
  executionCount := c.executionCount
  edgeCoverage := c.edgeCollector.coveragePercentage
  featureCoverage := c.featureCollector.coveragePercentage

/-- The snapshots taken since the last reset, after one more call. -/
def noteSnapshot (taken : List CoverageSnapshot) (_ : CompositeCoverageCollector) (event : Event)
    (c : CompositeCoverageCollector) : List CoverageSnapshot :=
  match event with
  | .record _ _ => if c.executionCount % 50 = 0 then taken ++ [c.snapshot] else taken
  | .reset => []

/-- A run beside the list of all snapshots taken since the last reset. -/
def runTakingSnapshots (parse : DNS.Parser) (protocol : ProtocolType) (events : List Event) :
    Checked (CompositeCoverageCollector × List CoverageSnapshot) :=
  events.foldlM (ghostStep (CompositeCoverageCollector.step parse) noteSnapshot)
    (CompositeCoverageCollector.new protocol, [])

/-- What a recorded execution does to the history. -/
theorem CompositeCoverageCollector.coverageHistory_recordExecution {parse : DNS.Parser}
    {c c' : CompositeCoverageCollector} {input : List UInt8} {result : ExecutionResult}
    (hrun : c.recordExecution parse input result = .ok c') :
    c'.coverageHistory = if c'.executionCount % 50 = 0 then
      BoundedLog.push 10000 1000 c.coverageHistory c'.snapshot else c.coverageHistory := by
  obtain ⟨edgeCollector, -, hrest⟩ := bind_eq_ok.mp hrun
  obtain ⟨featureCollector, -, hrecord⟩ := bind_eq_ok.mp hrest
  cases hrecord
  dsimp only
  by_cases due : (c.executionCount + 1) % 50 = 0
  · rw [if_pos due]
    exact (if_pos due).symm
  · rw [if_neg due]
    exact (if_neg due).symm

/-- From the first execution on, the coverage percentage is constant. -/
theorem EdgesAccounted.coveragePercentage_eq {executions : List Execution}
    {c : EdgeCoverageCollector} (h : EdgesAccounted executions c)
    (hedges : executions.flatMap edgesOf ≠ []) : c.coveragePercentage = 100 := by
  have hpos : 0 < c.getTotalEdges := by
    obtain ⟨edge, hedge⟩ := List.exists_mem_of_ne_nil _ hedges
    rw [EdgeCoverageCollector.getTotalEdges, Tally.size]
    exact Finset.card_pos.mpr ⟨edge, h.edges.mem_keys.mpr hedge⟩
  have hne : (c.getTotalEdges : ℚ) ≠ 0 := by exact_mod_cast hpos.ne'
  -- every stored edge was hit
  have hcovered : c.getCoveredEdges = c.getTotalEdges := h.edges.covered_eq_size
  rw [EdgeCoverageCollector.coveragePercentage, if_pos hpos, hcovered, div_self hne, one_mul]

/-- The history is the newest part of the snapshots taken, one for every fifty executions. -/
structure SnapshotsKept (c : CompositeCoverageCollector) (taken : List CoverageSnapshot) :
    Prop where
  counts : taken.map CoverageSnapshot.executionCount =
    (List.range' 1 (c.executionCount / 50)).map (50 * ·)
  history : c.coverageHistory = taken.rtake (BoundedLog.kept 10000 1000 taken.length)

theorem SnapshotsKept.empty {c : CompositeCoverageCollector} (hcount : c.executionCount = 0)
    (hhistory : c.coverageHistory = []) : SnapshotsKept c [] where
  counts := by rw [hcount]; rfl
  history := by rw [hhistory, List.rtake_nil]

theorem SnapshotsKept.step {parse : DNS.Parser} {c c' : CompositeCoverageCollector}
    {taken : List CoverageSnapshot} {event : Event} (h : SnapshotsKept c taken)
    (hrun : c.step parse event = .ok c') : SnapshotsKept c' (noteSnapshot taken c event c') := by
  cases event with
  | record input result =>
      obtain ⟨hcount, -, -⟩ := CompositeCoverageCollector.recordExecution_spec hrun
      have hhistory := CompositeCoverageCollector.coverageHistory_recordExecution hrun
      rw [noteSnapshot]
      by_cases due : c'.executionCount % 50 = 0
      · rw [if_pos due] at hhistory ⊢
        have hblocks : c'.executionCount / 50 = c.executionCount / 50 + 1 := by omega
        have hnew : c'.snapshot.executionCount = 50 * (1 + 1 * (c.executionCount / 50)) := by
          change c'.executionCount = _
          omega
        exact {
          counts := by
            rw [hblocks, List.range'_concat, List.map_append, List.map_append, h.counts,
              List.map_singleton, List.map_singleton, hnew]
          history := by
            rw [hhistory, h.history]
            exact BoundedLog.push_rtake (by decide) (by decide) taken c'.snapshot }
      · rw [if_neg due] at hhistory ⊢
        have hblocks : c'.executionCount / 50 = c.executionCount / 50 := by omega
        exact ⟨by rw [hblocks, h.counts], hhistory.trans h.history⟩
  | reset =>
      cases hrun
      exact SnapshotsKept.empty rfl rfl

/-- Every run keeps the snapshots. -/
theorem snapshotsKept_runEvents {parse : DNS.Parser} {protocol : ProtocolType}
    {events : List Event} {c : CompositeCoverageCollector}
    (hrun : runEvents parse protocol events = .ok c) :
    ∃ taken, runTakingSnapshots parse protocol events = .ok (c, taken) ∧
      SnapshotsKept c taken := by
  obtain ⟨taken, htaken⟩ := exists_foldlM_ghostStep noteSnapshot hrun []
  refine ⟨taken, htaken, ?_⟩
  refine foldlM_ghostStep_run (fun _ => SnapshotsKept) ?_ (SnapshotsKept.empty rfl rfl) htaken
  exact fun _ _ _ _ _ h hstep => h.step hstep

/-! ## The window of the discovery rate -/

/-- The hundred newest snapshots. -/
def CompositeCoverageCollector.recentSnapshots (c : CompositeCoverageCollector) :
    List CoverageSnapshot :=
  c.coverageHistory.rtake 100

theorem slice_recentSnapshots (c : CompositeCoverageCollector) :
    slice c.coverageHistory (c.coverageHistory.length - 100) c.coverageHistory.length =
      .ok c.recentSnapshots := by
  rw [slice_of_le (Nat.sub_le _ _) le_rfl, List.take_length]
  rfl

namespace SnapshotsKept

variable {c : CompositeCoverageCollector} {taken : List CoverageSnapshot}

theorem length_taken (h : SnapshotsKept c taken) : taken.length = c.executionCount / 50 := by
  have hlength := congrArg List.length h.counts
  rwa [List.length_map, List.length_map, List.length_range'] at hlength

theorem length_history (h : SnapshotsKept c taken) :
    c.coverageHistory.length = BoundedLog.kept 10000 1000 taken.length := by
  rw [h.history, BoundedLog.length_rtake_kept (by decide) (by decide)]

/-- The execution counts of the history are consecutive multiples of fifty. -/
theorem counts_history (h : SnapshotsKept c taken) :
    c.coverageHistory.map CoverageSnapshot.executionCount =
      (List.range' (c.executionCount / 50 - c.coverageHistory.length + 1)
        c.coverageHistory.length).map (50 * ·) := by
  have hkept := @BoundedLog.kept_le 10000 1000 (by decide) (by decide) taken.length
  have hlength := h.length_history
  rw [h.history, List.rtake, List.map_drop, h.counts, ← List.map_drop, List.drop_range',
    ← List.rtake, ← h.history, hlength, ← h.length_taken, Nat.mul_one, Nat.add_comm 1]
  congr 2
  omega

theorem executionCount_getElem (h : SnapshotsKept c taken) {i : ℕ}
    (hi : i < c.coverageHistory.length) :
    c.coverageHistory[i].executionCount =
      50 * (c.executionCount / 50 - c.coverageHistory.length + 1 + i) := by
  have hget := congrArg (·[i]?) h.counts_history
  simpa [hi] using hget

/-- The discovery rate compares the two ends of the window, whose counts differ. -/
theorem calculateDiscoveryRate_eq (h : SnapshotsKept c taken)
    (two : 2 ≤ c.coverageHistory.length) :
    ∃ first last, c.recentSnapshots.head? = some first ∧
      c.recentSnapshots.getLast? = some last ∧ first.executionCount < last.executionCount ∧
      c.calculateDiscoveryRate = .ok ((last.edgeCoverage - first.edgeCoverage) /
        (last.executionCount - first.executionCount : ℕ)) := by
  have hlength : c.recentSnapshots.length = min c.coverageHistory.length 100 := by
    rw [CompositeCoverageCollector.recentSnapshots, List.rtake, List.length_drop]
    omega
  have hfirst : 0 < c.recentSnapshots.length := by omega
  have hlast : c.recentSnapshots.length - 1 < c.recentSnapshots.length := by omega
  have hcount : ∀ i (hi : i < c.recentSnapshots.length), c.recentSnapshots[i].executionCount =
      50 * (c.executionCount / 50 - c.coverageHistory.length + 1 +
        (c.coverageHistory.length - 100 + i)) := by
    intro i hi
    simp only [CompositeCoverageCollector.recentSnapshots, List.rtake, List.getElem_drop]
    exact h.executionCount_getElem (by omega)
  have hless : c.recentSnapshots[0].executionCount <
      c.recentSnapshots[c.recentSnapshots.length - 1].executionCount := by
    rw [hcount 0 hfirst, hcount _ hlast]
    omega
  refine ⟨_, _, List.head?_eq_getElem?.trans (List.getElem?_eq_getElem hfirst),
    List.getLast?_eq_getElem?.trans (List.getElem?_eq_getElem hlast), hless, ?_⟩
  rw [CompositeCoverageCollector.calculateDiscoveryRate, if_neg (by omega),
    slice_recentSnapshots, ok_bind, if_neg (by omega), index_of_lt hfirst, ok_bind,
    index_of_lt hlast, ok_bind, sub_of_le hless.le, ok_bind, if_pos (by omega)]
  rfl

theorem calculateDiscoveryRate_returns (h : SnapshotsKept c taken) :
    NoPanic c.calculateDiscoveryRate := by
  by_cases two : 2 ≤ c.coverageHistory.length
  · obtain ⟨first, last, -, -, -, hrate⟩ := h.calculateDiscoveryRate_eq two
    exact ⟨_, hrate⟩
  · rw [CompositeCoverageCollector.calculateDiscoveryRate, if_pos (by omega)]
    exact noPanic_ok 0

end SnapshotsKept

/-- After any run, the history consists of the newest snapshots, whose counts are
consecutive multiples of fifty up to the current count, and the discovery rate subtracts
counts in order. -/
theorem coverageHistory_mostRecent (parse : DNS.Parser) (protocol : ProtocolType)
    (events : List Event) (c : CompositeCoverageCollector)
    (hrun : runEvents parse protocol events = .ok c) :
    ∃ taken, runTakingSnapshots parse protocol events = .ok (c, taken) ∧
      c.coverageHistory.length ≤ 10000 ∧
      (taken.length = c.executionCount / 50 ∧ c.coverageHistory <:+ taken ∧
        min taken.length 9001 ≤ c.coverageHistory.length) ∧
      c.coverageHistory.map CoverageSnapshot.executionCount =
        (List.range' (c.executionCount / 50 - c.coverageHistory.length + 1)
          c.coverageHistory.length).map (50 * ·) ∧
      slice c.coverageHistory (c.coverageHistory.length - 100) c.coverageHistory.length =
        .ok c.recentSnapshots ∧
      (2 ≤ c.coverageHistory.length → ∃ first last delta,
        c.recentSnapshots.head? = some first ∧ c.recentSnapshots.getLast? = some last ∧
          sub last.executionCount first.executionCount = .ok delta ∧ 0 < delta) ∧
      NoPanic c.calculateDiscoveryRate := by
  obtain ⟨taken, htaken, h⟩ := snapshotsKept_runEvents hrun
  have hkept := @BoundedLog.kept_le 10000 1000 (by decide) (by decide) taken.length
  rw [← h.length_history] at hkept
  refine ⟨taken, htaken, hkept.1, ⟨h.length_taken, ?_, hkept.2.2⟩, h.counts_history,
    slice_recentSnapshots c, ?_, h.calculateDiscoveryRate_returns⟩
  · rw [h.history]
    exact List.drop_suffix _ _
  · intro two
    obtain ⟨first, last, hfirst, hlast, hless, -⟩ := h.calculateDiscoveryRate_eq two
    exact ⟨first, last, _, hfirst, hlast, sub_of_le hless.le, by omega⟩

/-- The collector accounts for the executions, and its snapshots show full coverage. -/
structure FullCoverage (parse : DNS.Parser) (protocol : ProtocolType)
    (executions : List Execution) (c : CompositeCoverageCollector)
    (taken : List CoverageSnapshot) : Prop where
  accounted : Accounted parse protocol executions c
  full : ∀ snapshot ∈ taken, snapshot.edgeCoverage = 100

theorem FullCoverage.new (parse : DNS.Parser) (protocol : ProtocolType) :
    FullCoverage parse protocol [] (CompositeCoverageCollector.new protocol) [] where
  accounted := Accounted.new parse protocol
  full := by simp

theorem FullCoverage.step {parse : DNS.Parser} {protocol : ProtocolType} {history : List Event}
    {c c' : CompositeCoverageCollector} {taken : List CoverageSnapshot} {event : Event}
    (h : FullCoverage parse protocol (executionsSinceReset history) c taken)
    (hrun : c.step parse event = .ok c') :
    FullCoverage parse protocol (executionsSinceReset (history ++ [event])) c'
      (noteSnapshot taken c event c') where
  accounted := h.accounted.step hrun
  full := by
    cases event with
    | record input result =>
        have hedges : (executionsSinceReset (history ++ [.record input result])).flatMap
            edgesOf ≠ [] := by
          obtain ⟨-, hedge, -⟩ := CompositeCoverageCollector.recordExecution_spec hrun
          rw [executionsSinceReset, List.foldl_append, List.foldl_cons, List.foldl_nil,
            List.flatMap_append]
          exact List.append_ne_nil_of_right_ne_nil _ (by simpa using edgesOf_ne_nil hedge)
        have hnew : c'.snapshot.edgeCoverage = 100 :=
          (h.accounted.step hrun).edges.coveragePercentage_eq hedges
        rw [noteSnapshot]
        split_ifs with due
        · simpa [or_imp, forall_and, hnew] using h.full
        · exact h.full
    | reset => simp [noteSnapshot]

/-- Every snapshot is taken at full coverage. -/
theorem edgeCoverage_of_taken {parse : DNS.Parser} {protocol : ProtocolType}
    {events : List Event} {c : CompositeCoverageCollector} {taken : List CoverageSnapshot}
    (hrun : runTakingSnapshots parse protocol events = .ok (c, taken)) :
    ∀ snapshot ∈ taken, snapshot.edgeCoverage = 100 := by
  refine (foldlM_ghostStep_run
    (fun history => FullCoverage parse protocol (executionsSinceReset history)) ?_
    (FullCoverage.new parse protocol) hrun).full
  exact fun _ _ _ _ _ h hstep => h.step hstep

/-- Some edge was first recorded after the first snapshot of the window and not later than
its last one. -/
def CompositeCoverageCollector.DiscoversInWindow (c : CompositeCoverageCollector)
    (executions : List Execution) : Prop :=
  ∃ first last edge, c.recentSnapshots.head? = some first ∧
    c.recentSnapshots.getLast? = some last ∧
    edge ∉ (executions.take first.executionCount).flatMap edgesOf ∧
    edge ∈ (executions.take last.executionCount).flatMap edgesOf

/-- The two ends of the window have the same coverage. -/
theorem calculateDiscoveryRate_eq_zero {parse : DNS.Parser} {protocol : ProtocolType}
    {events : List Event} {c : CompositeCoverageCollector}
    (hrun : runEvents parse protocol events = .ok c) : c.calculateDiscoveryRate = .ok 0 := by
  obtain ⟨taken, htaken, h⟩ := snapshotsKept_runEvents hrun
  have hwindow : ∀ snapshot ∈ c.recentSnapshots, snapshot.edgeCoverage = 100 := by
    intro snapshot hmem
    have hhistory : snapshot ∈ c.coverageHistory := List.mem_of_mem_drop hmem
    rw [h.history] at hhistory
    exact edgeCoverage_of_taken htaken snapshot (List.mem_of_mem_drop hhistory)
  by_cases two : 2 ≤ c.coverageHistory.length
  · obtain ⟨first, last, hfirst, hlast, -, hrate⟩ := h.calculateDiscoveryRate_eq two
    rw [hrate, hwindow first (List.mem_of_mem_head? hfirst),
      hwindow last (List.mem_of_getLast? hlast), sub_self, zero_div]
  · rw [CompositeCoverageCollector.calculateDiscoveryRate, if_pos (by omega)]

/-- The discovery rate is zero after every run, so it shows a discovery only in the runs
that have none to show. -/
theorem calculateDiscoveryRate_reflects_iff (parse : DNS.Parser) (protocol : ProtocolType)
    (events : List Event) (c : CompositeCoverageCollector)
    (hrun : runEvents parse protocol events = .ok c) :
    c.calculateDiscoveryRate = .ok 0 ∧
      ((2 ≤ c.coverageHistory.length → c.DiscoversInWindow (executionsSinceReset events) →
          ∃ rate, c.calculateDiscoveryRate = .ok rate ∧ 0 < rate) ↔
        ¬ (2 ≤ c.coverageHistory.length ∧
          c.DiscoversInWindow (executionsSinceReset events))) := by
  have hzero := calculateDiscoveryRate_eq_zero hrun
  refine ⟨hzero, ?_⟩
  rw [not_and]
  apply forall_congr'
  intro two
  apply forall_congr'
  intro hdiscovers
  simp [hzero]

/-- An empty input with an answer after some time. -/
def answeredAfter (executionTimeMs : ℕ) : Execution :=
  ([], { success := true, responseData := none, executionTimeMs, errorMessage := none })

/-- Fifty quick answers and then fifty slow ones. -/
def slowingDown : List Execution :=
  List.replicate 50 (answeredAfter 0) ++ List.replicate 50 (answeredAfter 6000)

def recordings (executions : List Execution) : List Event :=
  executions.map fun e => .record e.1 e.2

theorem executionsSinceReset_recordings (executions : List Execution) :
    executionsSinceReset (recordings executions) = executions := by
  induction executions using List.reverseRecOn with
  | nil => rfl
  | append_singleton executions e ih =>
      rw [recordings, executionsSinceReset, List.map_append, List.foldl_append, ← recordings,
        ← executionsSinceReset, ih]
      rfl

/-- The run returns with one snapshot after each half. -/
theorem runEvents_slowingDown : ∃ c first last,
    runEvents (fun _ => none) .MQTT (recordings slowingDown) = .ok c ∧
      c.coverageHistory = [first, last] ∧ first.executionCount = 50 ∧
      last.executionCount = 100 := by
  obtain ⟨c, hrun⟩ := (noPanic_foldlM_iff (step_returns_iff fun _ => none)
      (recordings slowingDown) (CompositeCoverageCollector.new .MQTT)).mpr (by
    intro event hmem
    obtain ⟨e, he, rfl⟩ := List.mem_map.mp hmem
    have hempty : e.1 = [] := by
      rcases List.mem_append.mp he with he | he <;> rw [List.eq_of_mem_replicate he] <;> rfl
    rintro _ _ ⟨⟩
    rw [hempty]
    exact recordable_of_short (by decide))
  obtain ⟨taken, htaken, h⟩ := snapshotsKept_runEvents hrun
  have hcount : c.executionCount = 100 := by
    rw [(accounted_runEvents hrun).count, executionsSinceReset_recordings]
    rfl
  have hlength : c.coverageHistory.length = 2 := by
    rw [h.length_history, h.length_taken, hcount]
    rfl
  obtain ⟨first, last, hhistory⟩ := List.length_eq_two.mp hlength
  have hcounts := h.counts_history
  rw [hlength, hcount, hhistory] at hcounts
  obtain ⟨hfirst, hlast⟩ : first.executionCount = 50 ∧ last.executionCount = 100 := by
    simpa [List.range'] using hcounts
  exact ⟨c, first, last, hrun, hhistory, hfirst, hlast⟩

theorem coverageHistory_mostRecent_slowingDown : ∃ c taken,
    runTakingSnapshots (fun _ => none) .MQTT (recordings slowingDown) = .ok (c, taken) ∧
      c.coverageHistory <:+ taken ∧
      c.coverageHistory.map CoverageSnapshot.executionCount = [50, 100] ∧
      NoPanic c.calculateDiscoveryRate := by
  obtain ⟨c, first, last, hrun, hhistory, hfirst, hlast⟩ := runEvents_slowingDown
  obtain ⟨taken, htaken, -, ⟨-, hsuffix, -⟩, -, -, -, hreturns⟩ :=
    coverageHistory_mostRecent (fun _ => none) .MQTT (recordings slowingDown) c hrun
  refine ⟨c, taken, htaken, hsuffix, ?_, hreturns⟩
  rw [hhistory, List.map_cons, List.map_singleton, hfirst, hlast]

theorem edge_not_mem_quick :
    hashEdge "execution_time" (utf8 "very_slow") ∉ edgesOf (answeredAfter 0) := by
  decide +kernel

theorem edge_mem_slow :
    hashEdge "execution_time" (utf8 "very_slow") ∈ edgesOf (answeredAfter 6000) := by
  decide +kernel

/-- The edge of the slow answers is discovered in the window. -/
theorem discoversInWindow_slowingDown : ∃ c,
    runEvents (fun _ => none) .MQTT (recordings slowingDown) = .ok c ∧
      2 ≤ c.coverageHistory.length ∧
      c.DiscoversInWindow (executionsSinceReset (recordings slowingDown)) := by
  obtain ⟨c, first, last, hrun, hhistory, hfirst, hlast⟩ := runEvents_slowingDown
  have hrecent : c.recentSnapshots = [first, last] := by
    rw [CompositeCoverageCollector.recentSnapshots, hhistory]
    rfl
  have hquick : slowingDown.take 50 = List.replicate 50 (answeredAfter 0) :=
    List.take_left' List.length_replicate
  have hall : slowingDown.take 100 = slowingDown := List.take_of_length_le (by decide)
  refine ⟨c, hrun, by rw [hhistory]; rfl, ⟨first, last,
    hashEdge "execution_time" (utf8 "very_slow"), by rw [hrecent]; rfl, by rw [hrecent]; rfl,
    ?_, ?_⟩⟩
  · rw [executionsSinceReset_recordings, hfirst, hquick]
    simpa [List.mem_flatMap, List.mem_replicate] using edge_not_mem_quick
  · rw [executionsSinceReset_recordings, hlast, hall, slowingDown, List.flatMap_append]
    refine List.mem_append_right _ (List.mem_flatMap.mpr ⟨_, ?_, edge_mem_slow⟩)
    exact List.mem_replicate.mpr ⟨by decide, rfl⟩

/-- The rate stays zero all the same. -/
theorem calculateDiscoveryRate_misses : ∃ c,
    runEvents (fun _ => none) .MQTT (recordings slowingDown) = .ok c ∧
      2 ≤ c.coverageHistory.length ∧
      c.DiscoversInWindow (executionsSinceReset (recordings slowingDown)) ∧
      ¬ ∃ rate, c.calculateDiscoveryRate = .ok rate ∧ 0 < rate := by
  obtain ⟨c, hrun, two, hdiscovers⟩ := discoversInWindow_slowingDown
  refine ⟨c, hrun, two, hdiscovers, ?_⟩
  rw [calculateDiscoveryRate_eq_zero hrun]
  simp

theorem calculateDiscoveryRate_reflects_iff_slowingDown : ∃ c,
    runEvents (fun _ => none) .MQTT (recordings slowingDown) = .ok c ∧
      ¬ (2 ≤ c.coverageHistory.length →
        c.DiscoversInWindow (executionsSinceReset (recordings slowingDown)) →
          ∃ rate, c.calculateDiscoveryRate = .ok rate ∧ 0 < rate) := by
  obtain ⟨c, hrun, hdiscovers⟩ := discoversInWindow_slowingDown
  refine ⟨c, hrun, ?_⟩
  rw [(calculateDiscoveryRate_reflects_iff (fun _ => none) .MQTT (recordings slowingDown) c
    hrun).2]
  exact not_not_intro hdiscovers

end ProtocolFuzzer.Coverage
