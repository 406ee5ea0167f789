/-
# News since the last check

Each collector answers whether it found new coverage, and remembers a count for the
purpose. Nothing ever writes that count: a check reads the collector only, and a
recording leaves the count alone. So a collector that has recorded anything at all has
news for ever, and a check reports what came after the check before it only where
something new did come. This holds of all three collectors, which are compared with the
edges, paths and features that their executions produce.
-/

import ProtocolFuzzer.Coverage.Accounting

namespace ProtocolFuzzer.Coverage

open Math Platform

/-- The part of the collector trait that a history uses. -/
structure CoverageCollector where
  State : Type
  new : State
  recordExecution : State → List UInt8 → ExecutionResult → Checked State
  hasNewCoverage : State → Bool

/-- A call of a history. -/
inductive Call
  | record (e : Execution)
  | check

namespace CoverageCollector

/-- A check reads the collector and leaves it as it is. -/
def step (collector : CoverageCollector) (c : collector.State) : Call → Checked collector.State
  | .record e => collector.recordExecution c e.1 e.2
  | .check => .ok c

/-- The collector after a history of calls on a new one. -/
def run (collector : CoverageCollector) (calls : List Call) : Checked collector.State :=
  calls.foldlM collector.step collector.new

end CoverageCollector

/-- The executions that a history records. -/
def executionsOf (calls : List Call) : List Execution :=
  calls.filterMap fun
    | .record e => some e
    | .check => none

/-- What an execution can add to a coverage. -/
inductive Item
  | edge (hash : UInt64)
  | path (edges : List UInt64)
  | feature (name : String)

def Item.IsPathOrFeature : Item → Prop
  | .edge _ => False
  | .path _ | .feature _ => True

inductive CollectorKind
  | edge
  | feature
  | composite

def edgeItems (e : Execution) : List Item := (edgesOf e).map .edge ++ [.path (edgesOf e)]

def featureItems (parse : DNS.Parser) (protocol : ProtocolType) (e : Execution) : List Item :=
  (featuresOf parse protocol e).map .feature

namespace CollectorKind

/-- The implementations of the trait. -/
def collector (parse : DNS.Parser) (protocol : ProtocolType) : CollectorKind → CoverageCollector
  | .edge =>
    { State := EdgeCoverageCollector
      new := {}
      recordExecution := EdgeCoverageCollector.recordExecution
      hasNewCoverage := EdgeCoverageCollector.hasNewCoverage }
  | .feature =>
    { State := FeatureCoverageCollector
      new := { protocolType := protocol }
      recordExecution := FeatureCoverageCollector.recordExecution parse
      hasNewCoverage := FeatureCoverageCollector.hasNewCoverage }
  | .composite =>
    { State := CompositeCoverageCollector
      new := CompositeCoverageCollector.new protocol
      recordExecution := CompositeCoverageCollector.recordExecution parse
      hasNewCoverage := CompositeCoverageCollector.hasNewCoverage }

/-- The items that a collector keeps of an execution. -/
def items (parse : DNS.Parser) (protocol : ProtocolType) : CollectorKind → Execution → List Item
  | .edge, e => edgeItems e
  | .feature, e => featureItems parse protocol e
  | .composite, e => edgeItems e ++ featureItems parse protocol e

end CollectorKind

/-- The history goes through a check after `earlier`, the executions `between`, and the
next check. -/
def ChecksAround (calls earlier : List Call) (between : List Execution) : Prop :=
  earlier ++ [.check] ++ between.map .record ++ [.check] <+: calls

/-- The later check answers whether the executions between the two added to what had been
recorded at the earlier one. -/
def ReportsNews (collector : CoverageCollector) (items : Execution → List Item)
    (calls : List Call) : Prop :=
  ∀ earlier between c, ChecksAround calls earlier between →
    collector.run (earlier ++ [.check] ++ between.map .record) = .ok c →
    ((∀ e ∈ between, ∀ item ∈ items e, item ∈ (executionsOf earlier).flatMap items) →
        collector.hasNewCoverage c = false) ∧
      ((∃ e ∈ between, ∃ item ∈ items e, item.IsPathOrFeature ∧
          item ∉ (executionsOf earlier).flatMap items) →
        collector.hasNewCoverage c = true)

/-- Between two checks in a row something new was found, unless nothing had been executed
before the later one at all. -/
def AlwaysNews (items : Execution → List Item) (calls : List Call) : Prop :=
  ∀ earlier between, ChecksAround calls earlier between →
    executionsOf earlier ++ between = [] ∨
      ∃ e ∈ between, ∃ item ∈ items e, item ∉ (executionsOf earlier).flatMap items

/-- The edge collector accounts for the executions, and remembers no count. -/
structure EdgesUnreported (executions : List Execution) (c : EdgeCoverageCollector) : Prop where
  accounted : EdgesAccounted executions c
  unreported : c.lastCoverageCount = 0

/-- The feature collector accounts for the executions, and remembers no count. -/
structure FeaturesUnreported (parse : DNS.Parser) (executions : List Execution)
    (c : FeatureCoverageCollector) : Prop where
  accounted : FeaturesAccounted parse executions c
  contributes : ∀ e ∈ executions, featuresOf parse c.protocolType e ≠ []
  unreported : c.lastFeatureCount = 0

theorem EdgesUnreported.recordExecution {executions : List Execution}
    {c c' : EdgeCoverageCollector} {e : Execution} (h : EdgesUnreported executions c)
    (hrun : c.recordExecution e.1 e.2 = .ok c') : EdgesUnreported (executions ++ [e]) c' where
  accounted := h.accounted.recordExecution hrun
  unreported := by
    obtain ⟨edges, -, hrecord⟩ := bind_eq_ok.mp hrun
    cases hrecord
    exact h.unreported

/-- A path is stored from the first execution on. -/
theorem EdgesUnreported.hasNewCoverage_iff {executions : List Execution}
    {c : EdgeCoverageCollector} (h : EdgesUnreported executions c) :
    c.hasNewCoverage = true ↔ executions ≠ [] := by
  rw [EdgeCoverageCollector.hasNewCoverage, h.unreported, h.accounted.unique, decide_eq_true_iff,
    gt_iff_lt, Finset.card_pos, List.toFinset_nonempty_iff, ne_eq, List.map_eq_nil_iff]

/-- The generic extractor notes whether an execution succeeded. -/
theorem genericFeatures_ne_nil {input : List UInt8} {result : ExecutionResult}
    {features : List String}
    (h : extractorFeatures input result genericProtocolFeatureExtractor = .ok features) :
    features ≠ [] := by
  obtain ⟨inputFeatures, -, hrest⟩ := bind_eq_ok.mp h
  obtain ⟨executionFeatures, hexecution, hfeatures⟩ := bind_eq_ok.mp hrest
  obtain ⟨response, -, hnames⟩ := bind_eq_ok.mp hexecution
  cases hfeatures
  cases hnames
  simp

/-- Every execution has features. -/
theorem extractAllFeatures_ne_nil {parse : DNS.Parser} {protocol : ProtocolType}
    {input : List UInt8} {result : ExecutionResult} {features : List String}
    (h : extractAllFeatures parse protocol input result = .ok features) : features ≠ [] := by
  obtain ⟨extracted, hextracted, hrest⟩ := bind_eq_ok.mp h
  obtain ⟨values, -, hfeatures⟩ := bind_eq_ok.mp hrest
  cases hfeatures
  obtain ⟨extractors, hfirst⟩ : ∃ extractors, createFeatureExtractors protocol =
      genericProtocolFeatureExtractor :: extractors := by
    cases protocol <;> exact ⟨_, rfl⟩
  rw [hfirst, List.mapM_cons] at hextracted
  obtain ⟨generic, hgeneric, htail⟩ := bind_eq_ok.mp hextracted
  obtain ⟨others, -, hlist⟩ := bind_eq_ok.mp htail
  cases hlist
  simp [genericFeatures_ne_nil hgeneric]

theorem FeaturesUnreported.recordExecution {parse : DNS.Parser} {executions : List Execution}
    {c c' : FeatureCoverageCollector} {e : Execution}
    (h : FeaturesUnreported parse executions c)
    (hrun : c.recordExecution parse e.1 e.2 = .ok c') :
    FeaturesUnreported parse (executions ++ [e]) c' := by
  obtain ⟨hprotocol, haccounted⟩ := h.accounted.recordExecution hrun
  obtain ⟨features, hextract, hrecord⟩ := bind_eq_ok.mp hrun
  refine ⟨haccounted, ?_, ?_⟩
  · rw [hprotocol, List.forall_mem_append, List.forall_mem_singleton, featuresOf, hextract]
    exact ⟨h.contributes, extractAllFeatures_ne_nil hextract⟩
  · cases hrecord
    exact h.unreported

/-- A feature is stored from the first execution on. -/
theorem FeaturesUnreported.hasNewCoverage_iff {parse : DNS.Parser} {executions : List Execution}
    {c : FeatureCoverageCollector} (h : FeaturesUnreported parse executions c) :
    c.hasNewCoverage = true ↔ executions ≠ [] := by
  rw [FeatureCoverageCollector.hasNewCoverage, h.unreported, decide_eq_true_iff, gt_iff_lt,
    Tally.size, h.accounted.features.keys_eq, Finset.card_pos, Multiset.toFinset_nonempty]
  constructor
  · rintro hfeatures rfl
    exact hfeatures rfl
  · intro hsome
    obtain ⟨e, he⟩ := List.exists_mem_of_ne_nil _ hsome
    rw [ne_eq, Multiset.coe_eq_zero, List.flatMap_eq_nil_iff]
    exact fun hnone => h.contributes e he (hnone e he)

theorem executionsOf_concat (calls : List Call) (call : Call) :
    executionsOf (calls ++ [call]) = executionsOf calls ++ executionsOf [call] :=
  List.filterMap_append

theorem executionsOf_recordings (executions : List Execution) :
    executionsOf (executions.map .record) = executions := by
  induction executions with
  | nil => rfl
  | cons e executions ih => exact congrArg (e :: ·) ih

/-- What holds of a new collector, and of the recorded executions after each recording,
holds after every history. -/
theorem CoverageCollector.run_spec {collector : CoverageCollector}
    (inv : List Execution → collector.State → Prop) (hnew : inv [] collector.new)
    (hrecord : ∀ executions c e c', inv executions c →
      collector.recordExecution c e.1 e.2 = .ok c' → inv (executions ++ [e]) c')
    {calls : List Call} {c : collector.State} (hrun : collector.run calls = .ok c) :
    inv (executionsOf calls) c := by
  refine foldlM_run (fun history c => inv (executionsOf history) c) ?_ hnew hrun
  intro history c call c' h hstep
  rw [executionsOf_concat]
  cases call with
  | record e => exact hrecord _ c e c' h hstep
  | check =>
      cases hstep
      simpa [executionsOf] using h

/-- Whatever was checked before, a collector has news from the first execution on. -/
theorem hasNewCoverage_iff {parse : DNS.Parser} {protocol : ProtocolType} (kind : CollectorKind)
    {calls : List Call} {c : (kind.collector parse protocol).State}
    (hrun : (kind.collector parse protocol).run calls = .ok c) :
    (kind.collector parse protocol).hasNewCoverage c = true ↔ executionsOf calls ≠ [] := by
  cases kind with
  | edge =>
      have h : EdgesUnreported (executionsOf calls) c :=
        CoverageCollector.run_spec EdgesUnreported ⟨EdgesAccounted.empty, rfl⟩
          (fun _ _ _ _ h hstep => h.recordExecution hstep) hrun
      exact h.hasNewCoverage_iff
  | feature =>
      have h : FeaturesUnreported parse (executionsOf calls) c :=
        CoverageCollector.run_spec (FeaturesUnreported parse)
          ⟨FeaturesAccounted.empty parse protocol, by simp, rfl⟩
          (fun _ _ _ _ h hstep => h.recordExecution hstep) hrun
      exact h.hasNewCoverage_iff
  | composite =>
      have h : EdgesUnreported (executionsOf calls) c.edgeCollector ∧
          FeaturesUnreported parse (executionsOf calls) c.featureCollector := by
        refine CoverageCollector.run_spec (fun executions (c : CompositeCoverageCollector) =>
          EdgesUnreported executions c.edgeCollector ∧
            FeaturesUnreported parse executions c.featureCollector)
          ⟨⟨EdgesAccounted.empty, rfl⟩, FeaturesAccounted.empty parse protocol, by simp, rfl⟩
          ?_ hrun
        intro executions c e c' h hstep
        obtain ⟨-, hedge, hfeature⟩ := CompositeCoverageCollector.recordExecution_spec hstep
        exact ⟨h.1.recordExecution hedge, h.2.recordExecution hfeature⟩
      change (c.edgeCollector.hasNewCoverage || c.featureCollector.hasNewCoverage) = true ↔ _
      rw [Bool.or_eq_true, h.1.hasNewCoverage_iff, h.2.hasNewCoverage_iff, or_self]

/-- A run that goes through two checks reaches the later one. -/
theorem ChecksAround.run {collector : CoverageCollector} {calls earlier : List Call}
    {between : List Execution} (h : ChecksAround calls earlier between)
    (hreturns : NoPanic (collector.run calls)) :
    NoPanic (collector.run (earlier ++ [.check] ++ between.map .record)) := by
  obtain ⟨later, rfl⟩ := h
  obtain ⟨c, hrun⟩ := hreturns
  rw [CoverageCollector.run, List.append_assoc, List.foldlM_append] at hrun
  obtain ⟨c', hfirst, -⟩ := bind_eq_ok.mp hrun
  exact ⟨c', hfirst⟩

/-- In a history that returns, the checks report what came since the last check exactly
when something new came between any two of them. -/
theorem hasNewCoverage_reportsNews_iff (parse : DNS.Parser) (protocol : ProtocolType)
    (kind : CollectorKind) (calls : List Call)
    (hreturns : NoPanic ((kind.collector parse protocol).run calls)) :
    ReportsNews (kind.collector parse protocol) (kind.items parse protocol) calls ↔
      AlwaysNews (kind.items parse protocol) calls := by
  have hexecutions : ∀ earlier between, executionsOf (earlier ++ [.check] ++ between.map .record) =
      executionsOf earlier ++ between := by
    intro earlier between
    rw [executionsOf, List.filterMap_append, ← executionsOf, ← executionsOf, executionsOf_concat,
      executionsOf_recordings]
    simp [executionsOf]
  constructor
  · intro h earlier between haround
    obtain ⟨c, hrun⟩ := haround.run hreturns
    have hanswer := hasNewCoverage_iff kind hrun
    rw [hexecutions] at hanswer
    by_contra hstale
    push Not at hstale
    have hfalse := (h earlier between c haround hrun).1 hstale.2
    rw [hanswer.mpr hstale.1] at hfalse
    contradiction
  · intro h earlier between c haround hrun
    have hanswer := hasNewCoverage_iff kind hrun
    rw [hexecutions] at hanswer
    constructor
    · intro hstale
      rcases h earlier between haround with hnone | ⟨e, he, item, hitem, hnew⟩
      · rw [Bool.eq_false_iff, ne_eq, hanswer]
        exact not_not_intro hnone
      · exact absurd (hstale e he item hitem) hnew
    · rintro ⟨e, he, -⟩
      rw [hanswer]
      exact List.append_ne_nil_of_right_ne_nil _ (List.ne_nil_of_mem he)

/-- An empty input is recorded, and the collector is checked twice. -/
def checkedTwice : List Call :=
  [.record ([], {
      success := true, responseData := none, executionTimeMs := 0, errorMessage := none }),
    .check, .check]

theorem run_checkedTwice_returns (kind : CollectorKind) :
    NoPanic ((kind.collector (fun _ => none) .MQTT).run checkedTwice) := by
  have hempty : Recordable [] := recordable_of_short (by decide)
  refine NoPanic.bind ?_ noPanic_ok
  cases kind with
  | edge => exact ((extractEdges_returns_iff [] _).mpr hempty.1).bind fun _ => noPanic_ok _
  | feature =>
      exact ((extractAllFeatures_returns_iff _ _ [] _).mpr hempty.2).bind fun _ => noPanic_ok _
  | composite => exact (recordExecution_returns_iff _ _ [] _).mpr hempty

theorem checksAround_checkedTwice : ChecksAround checkedTwice (checkedTwice.take 1) [] :=
  List.prefix_rfl

/-- Nothing was executed between the two checks. -/
theorem not_alwaysNews_checkedTwice (items : Execution → List Item) :
    ¬ AlwaysNews items checkedTwice := by
  intro h
  rcases h _ _ checksAround_checkedTwice with hnone | ⟨e, he, -⟩
  · simp [checkedTwice, executionsOf] at hnone
  · simp at he

/-- The second check reports the news of the first once more. -/
theorem not_reportsNews_checkedTwice (kind : CollectorKind) :
    ¬ ReportsNews (kind.collector (fun _ => none) .MQTT) (kind.items (fun _ => none) .MQTT)
      checkedTwice := by
  intro h
  obtain ⟨c, hrun⟩ := checksAround_checkedTwice.run (run_checkedTwice_returns kind)
  have hfalse := (h _ _ c checksAround_checkedTwice hrun).1 (by simp)
  rw [(hasNewCoverage_iff kind hrun).mpr (by simp [checkedTwice, executionsOf])] at hfalse
  contradiction

/-- It does so in all three collectors. -/
theorem hasNewCoverage_repeats :
    ¬ ReportsNews (CollectorKind.edge.collector (fun _ => none) .MQTT)
        (CollectorKind.edge.items (fun _ => none) .MQTT) checkedTwice ∧
      ¬ ReportsNews (CollectorKind.feature.collector (fun _ => none) .MQTT)
        (CollectorKind.feature.items (fun _ => none) .MQTT) checkedTwice ∧
      ¬ ReportsNews (CollectorKind.composite.collector (fun _ => none) .MQTT)
        (CollectorKind.composite.items (fun _ => none) .MQTT) checkedTwice :=
  ⟨not_reportsNews_checkedTwice .edge, not_reportsNews_checkedTwice .feature,
    not_reportsNews_checkedTwice .composite⟩

theorem hasNewCoverage_reportsNews_iff_checkedTwice :
    ¬ ReportsNews (CollectorKind.composite.collector (fun _ => none) .MQTT)
      (CollectorKind.composite.items (fun _ => none) .MQTT) checkedTwice :=
  fun h => not_alwaysNews_checkedTwice _ ((hasNewCoverage_reportsNews_iff (fun _ => none) .MQTT
    .composite checkedTwice (run_checkedTwice_returns .composite)).mp h)

end ProtocolFuzzer.Coverage
