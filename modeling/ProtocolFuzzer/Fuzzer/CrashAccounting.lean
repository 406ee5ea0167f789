/-
# What the crash detector counts

The detector keeps a list of crashes, a set of digests and counters per protocol, and
`Accounted` says what they amount to after any calls: the list holds the first report of
every digest, the set holds the digests of the list, and the counters of a protocol are a
recount of its crashes. One figure is different. The number of unique crashes in the
statistics of a protocol is the size of the set that all protocols share, taken when the
protocol last had a crash, so it counts the crashes of the other protocols up to then.
-/

import ProtocolFuzzer.Fuzzer.CrashDetector
import ProtocolFuzzer.Math.FirstBy
import ProtocolFuzzer.Math.Groups

namespace ProtocolFuzzer.Fuzzer

open Math Platform

/-- The crashes of a protocol, in their order. -/
def crashesOf (protocol : ProtocolType) (crashes : List CrashInfo) : List CrashInfo :=
  crashes.filter fun crash => crash.protocol = protocol

/-- The crashes up to the last one of a protocol. -/
def throughLast (protocol : ProtocolType) (crashes : List CrashInfo) : List CrashInfo :=
  crashes.rdropWhile fun crash => !decide (crash.protocol = protocol)

section Concat

variable (crashes : List CrashInfo) (crash : CrashInfo)

theorem crashesOf_concat_self : crashesOf crash.protocol (crashes ++ [crash]) =
    crashesOf crash.protocol crashes ++ [crash] := by
  rw [crashesOf, List.filter_append, List.filter_cons_of_pos (by simp), List.filter_nil]
  rfl

theorem crashesOf_concat_of_ne {protocol : ProtocolType} (other : protocol ≠ crash.protocol) :
    crashesOf protocol (crashes ++ [crash]) = crashesOf protocol crashes := by
  rw [crashesOf, List.filter_append, List.filter_cons_of_neg (by simpa using other.symm),
    List.filter_nil, List.append_nil]
  rfl

theorem throughLast_concat_self :
    throughLast crash.protocol (crashes ++ [crash]) = crashes ++ [crash] := by
  rw [throughLast, List.rdropWhile_concat, if_neg (by simp)]

theorem throughLast_concat_of_ne {protocol : ProtocolType} (other : protocol ≠ crash.protocol) :
    throughLast protocol (crashes ++ [crash]) = throughLast protocol crashes := by
  rw [throughLast, List.rdropWhile_concat, if_pos (by simpa using other.symm)]
  rfl

end Concat

/-- The statistics of a protocol, all zero before its first crash. -/
def CrashDetector.statsOf (d : CrashDetector) (protocol : ProtocolType) : ProtocolCrashStats :=
  (d.protocolStats.lookup protocol).getD {}

/-- The statistics are a recount of the crashes. -/
structure Recount (crashes : List CrashInfo) (stats : ProtocolCrashStats) : Prop where
  total : stats.totalCrashes = crashes.length
  types : Tally.Counts stats.crashTypes (crashes.map CrashInfo.crashType)
  severities : Tally.Counts stats.severityCounts (crashes.map CrashInfo.severity)

theorem Recount.empty : Recount [] {} where
  total := rfl
  types := Tally.Counts.empty
  severities := Tally.Counts.empty

theorem Recount.update {crashes : List CrashInfo} {stats : ProtocolCrashStats}
    (h : Recount crashes stats) (crash : CrashInfo) (hashCount : ℕ) :
    Recount (crashes ++ [crash]) (stats.update crash hashCount) where
  total := by
    rw [List.length_append]
    exact congrArg (· + 1) h.total
  types := by
    rw [List.map_append, ← Multiset.coe_add]
    exact h.types.foldl_bump [crash.crashType]
  severities := by
    rw [List.map_append, ← Multiset.coe_add]
    exact h.severities.foldl_bump [crash.severity]

theorem breakdown_counts {κ : Type} [DecidableEq κ] (aspect : CrashInfo → κ)
    (crashes : List CrashInfo) :
    Tally.Counts (CrashDetector.breakdown aspect crashes) (crashes.map aspect) := by
  rw [CrashDetector.breakdown, ← List.foldl_map (f := aspect) (g := Tally.bump)]
  exact Tally.Counts.ofList _

namespace CrashDetector

variable {d : CrashDetector} {report : Report}

theorem crashes_recordCrash (fresh : calculateHash report.inputData ∉ d.crashHashes) :
    (d.recordCrash report).crashes = d.crashes ++ [report.crash] := by
  rw [recordCrash, if_neg fresh]

/-- What is stored was stored before, or is the report of a new input. -/
theorem mem_crashes_recordCrash {crash : CrashInfo} :
    crash ∈ (d.recordCrash report).crashes ↔
      (calculateHash report.inputData ∉ d.crashHashes ∧ crash = report.crash) ∨
        crash ∈ d.crashes := by
  by_cases known : calculateHash report.inputData ∈ d.crashHashes
  · rw [recordCrash, if_pos known]
    simp [known]
  · rw [crashes_recordCrash known, List.mem_append, List.mem_singleton, or_comm]
    simp [known]

theorem crashHashes_recordCrash (fresh : calculateHash report.inputData ∉ d.crashHashes) :
    (d.recordCrash report).crashHashes =
      insert (calculateHash report.inputData) d.crashHashes := by
  rw [recordCrash, if_neg fresh]
  rfl

/-- The statistics store the size of the shared set, the new digest included. -/
theorem protocolStats_recordCrash (fresh : calculateHash report.inputData ∉ d.crashHashes) :
    (d.recordCrash report).protocolStats = d.protocolStats.insert report.protocol
      ((d.statsOf report.protocol).update report.crash (d.crashHashes.card + 1)) := by
  rw [← Finset.card_insert_of_notMem fresh, recordCrash, if_neg fresh]
  rfl

theorem statsOf_recordCrash_self (fresh : calculateHash report.inputData ∉ d.crashHashes) :
    (d.recordCrash report).statsOf report.protocol =
      (d.statsOf report.protocol).update report.crash (d.crashHashes.card + 1) := by
  rw [statsOf, protocolStats_recordCrash fresh, Finmap.lookup_insert, Option.getD_some]

theorem statsOf_recordCrash_of_ne (fresh : calculateHash report.inputData ∉ d.crashHashes)
    {protocol : ProtocolType} (other : protocol ≠ report.protocol) :
    (d.recordCrash report).statsOf protocol = d.statsOf protocol := by
  rw [statsOf, protocolStats_recordCrash fresh, Finmap.lookup_insert_of_ne _ other]
  rfl

end CrashDetector

/-- The detector accounts for the reported crashes. -/
structure Accounted (reports : List CrashInfo) (d : CrashDetector) : Prop where
  crashes : d.crashes = firstBy CrashInfo.inputHash reports
  hashes : d.crashHashes = (d.crashes.map CrashInfo.inputHash).toFinset
  protocols : d.protocolStats.keys = (d.crashes.map CrashInfo.protocol).toFinset
  recount : ∀ protocol, Recount (crashesOf protocol d.crashes) (d.statsOf protocol)
  unique : ∀ protocol,
    (d.statsOf protocol).uniqueCrashes = (throughLast protocol d.crashes).length

namespace Accounted

variable {reports : List CrashInfo} {d : CrashDetector}

theorem empty : Accounted [] {} where
  crashes := rfl
  hashes := rfl
  protocols := rfl
  recount := fun _ => Recount.empty
  unique := fun _ => rfl

theorem nodup_hashes (h : Accounted reports d) :
    (d.crashes.map CrashInfo.inputHash).Nodup := by
  rw [h.crashes]
  exact nodup_map_firstBy _ _

theorem card_hashes (h : Accounted reports d) : d.crashHashes.card = d.crashes.length := by
  rw [h.hashes, List.toFinset_card_of_nodup h.nodup_hashes, List.length_map]

/-- A digest is stored exactly when it was reported. -/
theorem mem_crashHashes (h : Accounted reports d) {hash : String} :
    hash ∈ d.crashHashes ↔ ∃ crash ∈ reports, crash.inputHash = hash := by
  rw [h.hashes, List.mem_toFinset, List.mem_map, h.crashes]
  constructor
  · rintro ⟨crash, hmem, rfl⟩
    exact ⟨crash, mem_of_mem_firstBy _ hmem, rfl⟩
  · rintro ⟨crash, hmem, rfl⟩
    exact exists_mem_firstBy _ hmem

/-- A report of a known input changes nothing. -/
theorem recordCrash_known (h : Accounted reports d) {report : Report}
    (known : calculateHash report.inputData ∈ d.crashHashes) :
    Accounted (reports ++ [report.crash]) (d.recordCrash report) := by
  have hsame : firstBy CrashInfo.inputHash (reports ++ [report.crash]) =
      firstBy CrashInfo.inputHash reports := by
    have hknown : ∃ crash ∈ reports, crash.inputHash = report.crash.inputHash :=
      h.mem_crashHashes.mp known
    rw [firstBy_concat, if_pos hknown]
  rw [CrashDetector.recordCrash, if_pos known]
  exact { h with crashes := h.crashes.trans hsame.symm }

/-- A report of a new input extends the list, the set and the counters of its protocol. -/
theorem recordCrash_new (h : Accounted reports d) {report : Report}
    (fresh : calculateHash report.inputData ∉ d.crashHashes) :
    Accounted (reports ++ [report.crash]) (d.recordCrash report) where
  crashes := by
    have hnew : ¬ ∃ crash ∈ reports, crash.inputHash = report.crash.inputHash :=
      fun known => fresh (h.mem_crashHashes.mpr known)
    rw [CrashDetector.crashes_recordCrash fresh, firstBy_concat, if_neg hnew, h.crashes]
  hashes := by
    rw [CrashDetector.crashHashes_recordCrash fresh, CrashDetector.crashes_recordCrash fresh,
      h.hashes, List.map_append, List.toFinset_append, Finset.union_comm]
    rfl
  protocols := by
    have hprotocol : report.crash.protocol = report.protocol := rfl
    ext protocol
    rw [CrashDetector.protocolStats_recordCrash fresh, CrashDetector.crashes_recordCrash fresh,
      Finmap.mem_keys, Finmap.mem_insert, ← Finmap.mem_keys, h.protocols]
    simp [hprotocol, eq_comm]
  recount := by
    intro protocol
    rw [CrashDetector.crashes_recordCrash fresh]
    by_cases same : protocol = report.crash.protocol
    · rw [same, crashesOf_concat_self]
      change Recount _ ((d.recordCrash report).statsOf report.protocol)
      rw [CrashDetector.statsOf_recordCrash_self fresh]
      exact (h.recount report.protocol).update _ _
    · rw [crashesOf_concat_of_ne _ _ same, CrashDetector.statsOf_recordCrash_of_ne fresh same]
      exact h.recount protocol
  unique := by
    intro protocol
    rw [CrashDetector.crashes_recordCrash fresh]
    by_cases same : protocol = report.crash.protocol
    · rw [same, throughLast_concat_self, List.length_append, ← h.card_hashes]
      change ((d.recordCrash report).statsOf report.protocol).uniqueCrashes = _
      rw [CrashDetector.statsOf_recordCrash_self fresh]
      rfl
    · rw [throughLast_concat_of_ne _ _ same, CrashDetector.statsOf_recordCrash_of_ne fresh same]
      exact h.unique protocol

theorem step (h : Accounted reports d) (call : Call) :
    Accounted (reports ++ reported [call]) (d.step call) := by
  cases call with
  | recordCrash report =>
      by_cases known : calculateHash report.inputData ∈ d.crashHashes
      · exact h.recordCrash_known known
      · exact h.recordCrash_new known
  | crashCount =>
      change Accounted (reports ++ []) d.crashCount.2
      rw [List.append_nil]
      exact ⟨h.crashes, h.hashes, h.protocols, h.recount, h.unique⟩

end Accounted

/-- Every run keeps the account. -/
theorem accounted_runCalls (calls : List Call) : Accounted (reported calls) (runCalls calls) := by
  induction calls using List.reverseRecOn with
  | nil => exact Accounted.empty
  | append_singleton calls call ih =>
      rw [reported, List.filterMap_append, runCalls, List.foldl_append]
      exact ih.step call

/-- A figure of the statistics, summed over the protocols that have any. -/
def CrashDetector.sumOverProtocols (d : CrashDetector) (figure : ProtocolCrashStats → ℕ) : ℕ :=
  ∑ protocol ∈ d.protocolStats.keys, figure (d.statsOf protocol)

namespace Accounted

variable {reports : List CrashInfo} {d : CrashDetector}

theorem lookup_none (h : Accounted reports d) {protocol : ProtocolType}
    (absent : d.protocolStats.lookup protocol = none) : crashesOf protocol d.crashes = [] := by
  apply List.filter_eq_nil_iff.mpr
  intro crash hmem hsame
  have hkey : protocol ∈ d.protocolStats.keys := by
    rw [h.protocols, List.mem_toFinset]
    exact List.mem_map.mpr ⟨crash, hmem, of_decide_eq_true hsame⟩
  rw [Finmap.mem_keys, ← Finmap.lookup_isSome, absent] at hkey
  exact absurd hkey (by simp)

/-- A figure that counts the crashes of each protocol counts all crashes in sum. -/
theorem sumOverProtocols_eq (h : Accounted reports d) {figure : ProtocolCrashStats → ℕ}
    {p : CrashInfo → Bool}
    (hfigure : ∀ protocol, figure (d.statsOf protocol) = (crashesOf protocol d.crashes).countP p) :
    d.sumOverProtocols figure = d.crashes.countP p := by
  have hgroups : ∀ crash ∈ d.crashes, crash.protocol ∈ d.protocolStats.keys := by
    intro crash hmem
    rw [h.protocols, List.mem_toFinset]
    exact List.mem_map_of_mem hmem
  rw [← sum_countP_groups hgroups p, CrashDetector.sumOverProtocols]
  exact Finset.sum_congr rfl fun protocol _ => hfigure protocol

theorem sum_totalCrashes (h : Accounted reports d) :
    d.sumOverProtocols ProtocolCrashStats.totalCrashes = d.crashes.length := by
  rw [h.sumOverProtocols_eq (p := fun _ => true) fun protocol => ?_, List.countP_true]
  rw [List.countP_true, (h.recount protocol).total]

/-- What a tally of an aspect of the crashes stores. -/
theorem getD_lookup_eq_countP {κ : Type} [DecidableEq κ] {counts : Tally κ}
    {aspect : CrashInfo → κ} {crashes : List CrashInfo}
    (h : Tally.Counts counts (crashes.map aspect)) (k : κ) :
    (counts.lookup k).getD 0 = crashes.countP fun crash => aspect crash == k := by
  rw [h.getD_lookup, Multiset.coe_count, List.count, List.countP_map]
  rfl

theorem sum_crashTypes (h : Accounted reports d) (crashType : CrashType) :
    (d.sumOverProtocols fun stats => (stats.crashTypes.lookup crashType).getD 0) =
      ((CrashDetector.breakdown CrashInfo.crashType d.crashes).lookup crashType).getD 0 := by
  rw [getD_lookup_eq_countP (breakdown_counts _ _)]
  exact h.sumOverProtocols_eq fun protocol => getD_lookup_eq_countP (h.recount protocol).types _

theorem sum_severityCounts (h : Accounted reports d) (severity : CrashSeverity) :
    (d.sumOverProtocols fun stats => (stats.severityCounts.lookup severity).getD 0) =
      ((CrashDetector.breakdown CrashInfo.severity d.crashes).lookup severity).getD 0 := by
  rw [getD_lookup_eq_countP (breakdown_counts _ _)]
  exact h.sumOverProtocols_eq fun protocol =>
    getD_lookup_eq_countP (h.recount protocol).severities _

theorem totalCrashes_eq_breakdown (h : Accounted reports d) (protocol : ProtocolType) :
    (d.statsOf protocol).totalCrashes =
      ((CrashDetector.breakdown CrashInfo.protocol d.crashes).lookup protocol).getD 0 := by
  rw [getD_lookup_eq_countP (breakdown_counts _ _), (h.recount protocol).total, crashesOf,
    ← List.countP_eq_length_filter]
  rfl

end Accounted

/-- After any calls, the list of crashes, the set of digests, the statistics and the
summary all describe the first reports. -/
theorem runCalls_accounting (calls : List Call) :
    let d := runCalls calls
    let summary := d.generateCrashSummary
    d.crashes = firstBy CrashInfo.inputHash (reported calls) ∧
      (d.crashHashes = (d.crashes.map CrashInfo.inputHash).toFinset ∧
        d.crashHashes.card = d.crashes.length ∧
        (d.crashes.map CrashInfo.inputHash).Nodup) ∧
      (∀ protocol, match d.protocolStats.lookup protocol with
        | none => crashesOf protocol d.crashes = []
        | some stats => Recount (crashesOf protocol d.crashes) stats) ∧
      d.sumOverProtocols ProtocolCrashStats.totalCrashes = d.crashes.length ∧
      summary.totalCrashes = d.sumOverProtocols ProtocolCrashStats.totalCrashes ∧
      (∀ protocol, (summary.protocolBreakdown.lookup protocol).getD 0 =
        (d.statsOf protocol).totalCrashes) ∧
      (∀ crashType, (summary.crashTypeBreakdown.lookup crashType).getD 0 =
        d.sumOverProtocols fun stats => (stats.crashTypes.lookup crashType).getD 0) ∧
      ∀ severity, (summary.severityBreakdown.lookup severity).getD 0 =
        d.sumOverProtocols fun stats => (stats.severityCounts.lookup severity).getD 0 := by
  intro d summary
  have h : Accounted (reported calls) d := accounted_runCalls calls
  refine ⟨h.crashes, ⟨h.hashes, h.card_hashes, h.nodup_hashes⟩, fun protocol => ?_,
    h.sum_totalCrashes, h.sum_totalCrashes.symm, fun protocol =>
      (h.totalCrashes_eq_breakdown protocol).symm, fun crashType =>
      (h.sum_crashTypes crashType).symm, fun severity => (h.sum_severityCounts severity).symm⟩
  have hrecount := h.recount protocol
  rw [CrashDetector.statsOf] at hrecount
  cases hlookup : d.protocolStats.lookup protocol with
  | none => exact h.lookup_none hlookup
  | some stats => rwa [hlookup, Option.getD_some] at hrecount

/-! ## Unique crashes -/

/-- The number of different inputs among the crashes of a protocol. -/
def CrashDetector.distinctInputs (d : CrashDetector) (protocol : ProtocolType) : ℕ :=
  ((crashesOf protocol d.crashes).map CrashInfo.inputData).toFinset.card

/-- What the report says about a protocol matches its crashes. -/
def CrashDetector.ReportsUnique (d : CrashDetector) (protocol : ProtocolType) : Prop :=
  ∀ stats, d.generateDetailedReport.protocolStatistics.lookup protocol = some stats →
    stats.uniqueCrashes = d.distinctInputs protocol ∧ stats.uniqueCrashes ≤ stats.totalCrashes

theorem inputHash_of_mem_reported {calls : List Call} {crash : CrashInfo}
    (h : crash ∈ reported calls) : crash.inputHash = calculateHash crash.inputData := by
  obtain ⟨call, -, hcrash⟩ := List.mem_filterMap.mp h
  cases call with
  | recordCrash report =>
      cases hcrash
      rfl
  | crashCount => cases hcrash

/-- Crashes with different digests have different inputs. -/
theorem distinctInputs_eq (calls : List Call) (protocol : ProtocolType) :
    (runCalls calls).distinctInputs protocol =
      (crashesOf protocol (runCalls calls).crashes).length := by
  have h := accounted_runCalls calls
  have hhashes : (runCalls calls).crashes.map CrashInfo.inputHash =
      ((runCalls calls).crashes.map CrashInfo.inputData).map calculateHash := by
    rw [List.map_map]
    apply List.map_congr_left
    intro crash hmem
    rw [h.crashes] at hmem
    exact inputHash_of_mem_reported (mem_of_mem_firstBy _ hmem)
  have hinputs : ((runCalls calls).crashes.map CrashInfo.inputData).Nodup :=
    List.Nodup.of_map _ (hhashes ▸ h.nodup_hashes)
  have hgroup : ((crashesOf protocol (runCalls calls).crashes).map CrashInfo.inputData).Nodup :=
    hinputs.sublist (List.filter_sublist.map CrashInfo.inputData)
  rw [CrashDetector.distinctInputs, List.toFinset_card_of_nodup hgroup, List.length_map]

/-- The report is right about a protocol exactly when none of its crashes was preceded by
one of another protocol. -/
theorem reportsUnique_iff (calls : List Call) (protocol : ProtocolType) :
    (runCalls calls).ReportsUnique protocol ↔
      (firstBy CrashInfo.inputHash (reported calls)).Pairwise fun earlier later =>
        later.protocol = protocol → earlier.protocol = protocol := by
  have h := accounted_runCalls calls
  have hunique := h.unique protocol
  have htotal := (h.recount protocol).total
  have hiff := length_rdropWhile_eq_iff
    (fun crash : CrashInfo => decide (crash.protocol = protocol)) (runCalls calls).crashes
  simp only [decide_eq_true_eq] at hiff
  rw [← h.crashes, ← hiff]
  rw [CrashDetector.statsOf] at hunique htotal
  cases hlookup : (runCalls calls).protocolStats.lookup protocol with
  | none =>
      have hnone := h.lookup_none hlookup
      rw [hlookup, Option.getD_none] at hunique
      constructor
      · intro _
        exact hunique.symm.trans (congrArg List.length hnone).symm
      · intro _ stats hstats
        rw [CrashDetector.generateDetailedReport, hlookup] at hstats
        cases hstats
  | some stats =>
      rw [hlookup, Option.getD_some] at hunique htotal
      have hdistinct := distinctInputs_eq calls protocol
      constructor
      · intro hreport
        exact hunique.symm.trans ((hreport stats hlookup).1.trans hdistinct)
      · intro hlength stats' hstats'
        obtain rfl := Option.some.inj (hlookup.symm.trans hstats')
        have heq := hunique.trans hlength
        exact ⟨heq.trans hdistinct.symm, (heq.trans htotal.symm).le⟩

/-- The report is right about a protocol exactly when none of its crashes was preceded by
one of another protocol; so it is right throughout exactly when all crashes are of one
protocol. -/
theorem uniqueCrashes_iff (calls : List Call) :
    let crashes := firstBy CrashInfo.inputHash (reported calls)
    (∀ protocol, (runCalls calls).ReportsUnique protocol ↔
        crashes.Pairwise fun earlier later =>
          later.protocol = protocol → earlier.protocol = protocol) ∧
      ((∀ history, history <+: calls → ∀ protocol, (runCalls history).ReportsUnique protocol) ↔
        crashes.Pairwise fun earlier later => earlier.protocol = later.protocol) := by
  intro crashes
  refine ⟨reportsUnique_iff calls, fun h => ?_, ?_⟩
  · have hall := fun protocol =>
      (reportsUnique_iff calls protocol).mp (h calls List.prefix_rfl protocol)
    simp only [List.pairwise_iff_getElem] at hall
    exact List.pairwise_iff_getElem.mpr fun i j hi hj hlt => hall _ i j hi hj hlt rfl
  · rintro h history ⟨rest, rfl⟩ protocol
    apply (reportsUnique_iff history protocol).mpr
    have hbegins : firstBy CrashInfo.inputHash (reported history) <+: crashes := by
      change _ <+: firstBy CrashInfo.inputHash (reported (history ++ rest))
      rw [reported, reported, List.filterMap_append]
      exact firstBy_prefix _ _ _
    exact (h.sublist hbegins.sublist).imp fun same hlater => same.trans hlater

/-- A crash of one protocol, then a crash of the other on another input: the report lists
two unique crashes of the second protocol, more than all it had. -/
theorem uniqueCrashes_exceeds_total :
    let first : Report := { inputData := [1], errorMessage := none, executionTime := 0,
                            protocol := .DNS, id := "", timestamp := 0 }
    let second : Report := { first with inputData := [2], protocol := .MQTT }
    let d := runCalls [.recordCrash first, .recordCrash second]
    ((d.generateDetailedReport.protocolStatistics.lookup .MQTT).map fun stats =>
        (stats.uniqueCrashes, stats.totalCrashes)) = some (2, 1) ∧
      d.distinctInputs .MQTT = 1 ∧ ¬ d.ReportsUnique .MQTT := by
  intro first second d
  have hfigures : ((d.generateDetailedReport.protocolStatistics.lookup .MQTT).map fun stats =>
      (stats.uniqueCrashes, stats.totalCrashes)) = some (2, 1) := by decide +kernel
  refine ⟨hfigures, by decide +kernel, fun hreport => ?_⟩
  obtain ⟨stats, hstats, hvalues⟩ := Option.map_eq_some_iff.mp hfigures
  have hle := (hreport stats hstats).2
  rw [(Prod.mk.inj hvalues).1, (Prod.mk.inj hvalues).2] at hle
  exact absurd hle (by decide)

end ProtocolFuzzer.Fuzzer
