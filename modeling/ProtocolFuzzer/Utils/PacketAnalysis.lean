/-
# The analysis of a packet

`analyze_packet` puts the guess of the protocol together with general features and
anomalies. Two anomalies speak of the entropy of the bytes; its arithmetic is a parameter,
as is the text of a number with two decimals, and it is judged here in the real numbers.
A high entropy takes many different bytes, so it is never found in a short packet.
-/

import ProtocolFuzzer.Coverage.MostCommonByte
import ProtocolFuzzer.Coverage.Safety
import ProtocolFuzzer.Math.Entropy
import ProtocolFuzzer.Protocols.MQTT.RemainingLength
import ProtocolFuzzer.Utils.Detection
import ProtocolFuzzer.Utils.RepeatedBytes

namespace ProtocolFuzzer.PacketAnalyzer

open Math Platform Coverage

structure PacketAnalysis where
  likelyProtocol : Option String
  confidence : ℚ
  features : List String
  anomalies : List String

section Analysis

variable {K : Type} [Field K] [LinearOrder K]

def calculateEntropy (log2 : K → K) (data : List UInt8) : Checked K :=
  if data.isEmpty then .ok 0
  else do
    let counts ← countBytes data fun _ => 0
    let length : K := (data.length : ℕ)
    pure (((List.range 256).map fun n => counts (UInt8.ofNat n)).foldl
      (fun entropy (count : ℕ) =>
        if count > 0 then
          let probability := count / length
          entropy - probability * log2 probability
        else entropy) 0)

/-- `format` writes a number with two decimals. -/
def extractGeneralFeatures (log2 : K → K) (format : K → String) (data : List UInt8) :
    Checked (List String) := do
  let firstByte ← readWhen (¬ data.isEmpty) do
    pure ["first_byte:0x" ++ formatPadded 16 2 (← index data 0).toNat]
  let entropy ← calculateEntropy log2 data
  pure (["size:" ++ toString data.length] ++ firstByte ++ ["entropy:" ++ format entropy]
    ++ emitIf (0 ∈ data) "contains_nulls" ++ emitIf (data.all isAscii = true) "ascii_content")

def detectAnomalies (log2 : K → K) (data : List UInt8) : Checked (List String) := do
  let entropy ← calculateEntropy log2 data
  pure (emitIf (data.length > 65536) "Unusually large packet"
    ++ emitIf (data.length > 100 ∧ countRepeatedBytes data > data.length / 2)
      "High repeated byte count"
    ++ (if entropy < 1 then ["Very low entropy"]
      else if entropy > 7.5 then ["Very high entropy"]
      else []))

def analyzePacket (log2 : K → K) (format : K → String) (data : List UInt8) :
    Checked PacketAnalysis :=
  if data.isEmpty then
    .ok { likelyProtocol := none, confidence := 0, features := [], anomalies := ["Empty packet"] }
  else do
    let guess ← detectProtocol data
    let features ← extractGeneralFeatures log2 format data
    let anomalies ← detectAnomalies log2 data
    pure {
      likelyProtocol := guess.map Prod.fst
      confidence := (guess.map Prod.snd).getD 0
      features
      anomalies }

end Analysis

theorem countBytes_eq {bytes : List UInt8} {counts result : UInt8 → ℕ}
    (h : countBytes bytes counts = .ok result) (byte : UInt8) :
    result byte = counts byte + bytes.count byte := by
  induction bytes generalizing counts with
  | nil =>
      cases h
      rfl
  | cons head bytes ih =>
      obtain ⟨count, hcount, hrest⟩ := bind_eq_ok.mp h
      rw [addU32] at hcount
      split_ifs at hcount
      cases hcount
      rw [ih hrest, Function.update_apply, List.count_cons]
      by_cases same : byte = head
      · subst same
        rw [if_pos rfl, if_pos (beq_self_eq_true byte)]
        omega
      · rw [if_neg same, if_neg (by simpa using Ne.symm same)]
        omega

theorem nodup_counted : counted.Nodup := by
  refine List.Nodup.map_on ?_ List.nodup_range
  intro a ha b hb heq
  rw [List.mem_range] at ha hb
  have hnat := congrArg UInt8.toNat heq
  rwa [UInt8.toNat_ofNat', UInt8.toNat_ofNat', Nat.mod_eq_of_lt ha, Nat.mod_eq_of_lt hb] at hnat

/-- The positive counters are the frequencies of the bytes. -/
theorem filter_counters (data : List UInt8) :
    ((counted.map data.count : List ℕ) : Multiset ℕ).filter (0 < ·) =
      Tally.frequencies (data : Multiset UInt8) := by
  have hbytes : (counted : Multiset UInt8).filter (fun byte => 0 < data.count byte) =
      (data : Multiset UInt8).dedup := by
    apply Multiset.Nodup.ext _ (Multiset.nodup_dedup _) |>.mpr
    · intro byte
      simp [mem_counted]
    · exact (Multiset.coe_nodup.mpr nodup_counted).filter _
  rw [← Multiset.map_coe, Multiset.filter_map, Tally.frequencies, ← hbytes]
  exact Multiset.map_congr rfl fun byte _ => (Multiset.coe_count byte data).symm

/-- Every byte is counted once. -/
theorem sum_counters (data : List UInt8) : (counted.map data.count).sum = data.length := by
  rw [← Multiset.sum_coe, ← sum_filter_pos, filter_counters, Tally.sum_frequencies,
    Multiset.coe_card]

theorem calculateEntropy_eq {data : List UInt8} (few : FewOfEachByte data) :
    calculateEntropy (Real.logb 2) data =
      .ok (entropy (Tally.frequencies (data : Multiset UInt8))) := by
  rw [calculateEntropy]
  split_ifs with hempty
  · rw [List.isEmpty_iff.mp hempty]
    exact congrArg Except.ok (entropy_of_sum_eq_zero rfl).symm
  · obtain ⟨counts, hcounts⟩ := (countBytes_returns_iff fun _ => by decide).mpr
      (by simpa [FewOfEachByte] using few : ∀ byte, 0 + data.count byte < 2 ^ 32)
    have hvalues : (List.range 256).map (fun n => counts (UInt8.ofNat n)) =
        counted.map data.count := by
      rw [counted, List.map_map]
      exact List.map_congr_left fun n _ => (countBytes_eq hcounts _).trans (Nat.zero_add _)
    rw [hcounts, ok_bind, hvalues, ← filter_counters, entropy_filter_pos]
    refine congrArg Except.ok (foldl_eq_entropy fun e n => ?_)
    have hsum : ((counted.map data.count : List ℕ) : Multiset ℕ).sum ≠ 0 := by
      rw [Multiset.sum_coe, sum_counters]
      simpa using hempty
    simp only [share_pos_iff hsum]
    rw [share, Multiset.sum_coe, sum_counters]

/-- A logarithm is above seven and a half from the square root of `2 ^ 15` on. -/
theorem high_logb_iff {n : ℕ} (pos : 0 < n) : 7.5 < Real.logb 2 n ↔ 182 ≤ n := by
  have hcast : (0 : ℝ) < n := Nat.cast_pos.mpr pos
  have hlog : Real.logb 2 ((n : ℝ) ^ 2) = 2 * Real.logb 2 n := by
    rw [Real.logb_pow]
    norm_num
  have hsquare : (2 : ℝ) ^ (15 : ℝ) < (n : ℝ) ^ 2 ↔ 2 ^ 15 < n ^ 2 := by
    rw [show (15 : ℝ) = (15 : ℕ) by norm_num, Real.rpow_natCast]
    exact_mod_cast Iff.rfl
  calc 7.5 < Real.logb 2 n
      ↔ 15 < Real.logb 2 ((n : ℝ) ^ 2) := by
        rw [hlog]
        constructor <;> intro h <;> linarith
    _ ↔ 2 ^ 15 < n ^ 2 := by
        rw [Real.lt_logb_iff_rpow_lt one_lt_two (by positivity), hsquare]
    _ ↔ 182 ≤ n := by
        constructor
        · intro h
          by_contra hless
          have : n ^ 2 ≤ 181 ^ 2 := Nat.pow_le_pow_left (by omega) 2
          omega
        · intro h
          have : 182 ^ 2 ≤ n ^ 2 := Nat.pow_le_pow_left h 2
          omega

/-- No byte occurs more often than another. -/
def Uniform (data : List UInt8) : Prop :=
  ∀ byte ∈ data, ∀ other ∈ data, data.count byte = data.count other

/-- What the anomalies say of the bytes of a packet. -/
structure Judges (anomalies : List String) (data : List UInt8) : Prop where
  large : "Unusually large packet" ∈ anomalies ↔ 65536 < data.length
  repeated : "High repeated byte count" ∈ anomalies ↔
    100 < data.length ∧ data.length / 2 < countTwins data
  high : "Very high entropy" ∈ anomalies → 182 ≤ data.toFinset.card
  high_of_uniform : Uniform data → 182 ≤ data.toFinset.card → "Very high entropy" ∈ anomalies
  low : data.toFinset.card ≤ 2 →
    ("Very low entropy" ∈ anomalies ↔ ¬ (data.toFinset.card = 2 ∧ Uniform data))
  apart : ¬ ("Very high entropy" ∈ anomalies ∧ "Very low entropy" ∈ anomalies)
  short : data.length ≤ 100 → anomalies ⊆ ["Very low entropy"]

section Members

variable {large repeated : Prop} [Decidable large] [Decidable repeated] {bits : ℝ}

/-- The anomalies by what they are about. -/
noncomputable def anomalyList (large repeated : Prop) [Decidable large] [Decidable repeated]
    (bits : ℝ) : List String :=
  emitIf large "Unusually large packet" ++ emitIf repeated "High repeated byte count"
    ++ (if bits < 1 then ["Very low entropy"]
      else if bits > 7.5 then ["Very high entropy"]
      else [])

theorem mem_emitIf {present : Prop} [Decidable present] {name feature : String} :
    feature ∈ emitIf present name ↔ present ∧ feature = name := by
  rw [emitIf]
  split_ifs with h <;> simp [h]

theorem mem_anomalyList (anomaly : String) : anomaly ∈ anomalyList large repeated bits ↔
    (large ∧ anomaly = "Unusually large packet") ∨
      (repeated ∧ anomaly = "High repeated byte count") ∨
      (bits < 1 ∧ anomaly = "Very low entropy") ∨
      (7.5 < bits ∧ anomaly = "Very high entropy") := by
  rw [anomalyList, List.mem_append, List.mem_append, mem_emitIf, mem_emitIf, or_assoc]
  refine or_congr_right (or_congr_right ?_)
  split_ifs with hlow hhigh
  · have hmiss : ¬ 7.5 < bits := by linarith
    simp [hlow, hmiss]
  · have hfound : 7.5 < bits := hhigh
    simp [hlow, hfound]
  · have hmiss : ¬ 7.5 < bits := hhigh
    simp [hlow, hmiss]

end Members

theorem detectAnomalies_judges {data : List UInt8} (hne : data ≠ []) (few : FewOfEachByte data) :
    ∃ anomalies, detectAnomalies (Real.logb 2) data = .ok anomalies ∧ Judges anomalies data := by
  have hspread := measuresSpread_entropy (data : Multiset UInt8)
  rw [detectAnomalies, calculateEntropy_eq few, ok_bind]
  generalize entropy (Tally.frequencies (data : Multiset UInt8)) = bits at hspread ⊢
  have huniform : bits = Real.logb 2 data.toFinset.card ↔ Uniform data := by
    simpa [Uniform] using hspread.eq_logb_iff
  have hpos : 0 < data.toFinset.card := by simpa [Finset.card_pos] using hne
  have hhigh : 7.5 < bits → 182 ≤ data.toFinset.card :=
    fun h => (high_logb_iff hpos).mp (h.trans_le hspread.le_logb)
  refine ⟨anomalyList _ _ bits, rfl, ?_⟩
  exact {
    large := by simp [mem_anomalyList]
    repeated := by
      simp [mem_anomalyList, countRepeatedBytes_eq countsRuns_countTwins]
    high := by simpa [mem_anomalyList] using hhigh
    high_of_uniform := by
      intro uniform many
      rw [mem_anomalyList, huniform.mpr uniform]
      simpa using (high_logb_iff hpos).mpr many
    low := by
      intro hfew
      rw [show "Very low entropy" ∈ anomalyList _ _ bits ↔ bits < 1 by simp [mem_anomalyList]]
      rcases (by omega : data.toFinset.card = 1 ∨ data.toFinset.card = 2) with hone | htwo
      · rw [hspread.eq_zero_iff.mpr hone.le, hone]
        simp
      · rw [htwo, Nat.cast_ofNat, Real.logb_self_eq_one one_lt_two] at huniform
        have hle : bits ≤ 1 := by simpa [htwo] using hspread.le_logb
        rw [lt_iff_le_and_ne, and_iff_right hle, ne_eq, huniform, and_iff_right htwo]
    apart := by
      rw [mem_anomalyList, mem_anomalyList]
      rintro ⟨hhigh, hlow⟩
      have hover : 7.5 < bits := by simpa using hhigh
      have hunder : bits < 1 := by simpa using hlow
      linarith
    short := by
      intro hshort anomaly hmem
      have hdistinct := data.toFinset_card_le
      rcases (mem_anomalyList anomaly).mp hmem with
        ⟨hlarge, -⟩ | ⟨⟨hlong, -⟩, -⟩ | ⟨-, rfl⟩ | ⟨hover, -⟩
      · omega
      · omega
      · exact List.mem_singleton_self _
      · have := hhigh hover
        omega }

theorem detectProtocol_returns (data : List UInt8) : NoPanic (detectProtocol data) := by
  have hdns : NoPanic (testWhen (data.length ≥ 12) (looksLikeDns data)) := by
    rw [testWhen, looksLikeDns_eq]
    split_ifs <;> exact noPanic_ok _
  have hmqtt : NoPanic (testWhen (data.length ≥ 2) (looksLikeMqtt data)) := by
    rw [testWhen]
    split_ifs with long
    · cases data with
      | nil => simp at long
      | cons first rest =>
          have hrest : rest ≠ [] := by
            rintro rfl
            simp at long
          exact ⟨_, MQTT.looksLikeMqtt_cons hrest⟩
    · exact noPanic_ok _
  have htls : NoPanic (testWhen (data.length ≥ 6) (startsLikeTls data)) := by
    rw [testWhen]
    split_ifs with long
    · exact (noPanic_index (by omega)).bind fun _ => (noPanic_index (by omega)).bind fun _ =>
        noPanic_ok _
    · exact noPanic_ok _
  refine hdns.bind fun dns => ?_
  cases dns with
  | true => exact noPanic_ok _
  | false =>
      refine hmqtt.bind fun mqtt => ?_
      cases mqtt with
      | true => exact noPanic_ok _
      | false =>
          rw [if_neg Bool.false_ne_true]
          split_ifs
          · exact noPanic_ok _
          · exact htls.bind fun tls => by cases tls <;> exact noPanic_ok _

theorem extractGeneralFeatures_returns {data : List UInt8} (few : FewOfEachByte data)
    (format : ℝ → String) : NoPanic (extractGeneralFeatures (Real.logb 2) format data) := by
  refine (NoPanic.readWhen fun hne => ?_).bind fun firstByte =>
    NoPanic.bind ⟨_, calculateEntropy_eq few⟩ fun _ => noPanic_ok _
  exact (noPanic_first hne).bind fun _ => noPanic_ok _

/-- The analysis of a packet guesses its protocol and judges its bytes. -/
theorem analyzePacket_judges (format : ℝ → String) (data : List UInt8) (hne : data ≠ [])
    (few : FewOfEachByte data) :
    ∃ analysis guess, analyzePacket (Real.logb 2) format data = .ok analysis ∧
      detectProtocol data = .ok guess ∧ analysis.likelyProtocol = guess.map Prod.fst ∧
      Judges analysis.anomalies data := by
  obtain ⟨guess, hguess⟩ := detectProtocol_returns data
  obtain ⟨features, hfeatures⟩ := extractGeneralFeatures_returns few format
  obtain ⟨anomalies, hanomalies, hjudges⟩ := detectAnomalies_judges hne few
  have hrun : analyzePacket (Real.logb 2) format data = .ok {
      likelyProtocol := guess.map Prod.fst
      confidence := (guess.map Prod.snd).getD 0
      features
      anomalies } := by
    rw [analyzePacket, if_neg (by simpa using hne), hguess, ok_bind, hfeatures, ok_bind,
      hanomalies]
    rfl
  exact ⟨_, guess, hrun, hguess, rfl, hjudges⟩

/-- In a PINGREQ packet two bytes are equally frequent; one bit tells them apart. -/
theorem analyzePacket_judges_pingreq :
    ∃ analysis, analyzePacket (Real.logb 2) (fun _ => "1.00") [0xC0, 0x00] = .ok analysis ∧
      analysis.anomalies = [] := by
  obtain ⟨analysis, guess, hrun, -, -, hjudges⟩ :=
    analyzePacket_judges (fun _ => "1.00") [0xC0, 0x00] (by decide)
      (fewOfEachByte_of_length (by decide))
  refine ⟨analysis, hrun, List.eq_nil_iff_forall_not_mem.mpr fun anomaly hmem => ?_⟩
  have hlow := hjudges.low (by decide)
  obtain rfl := List.mem_singleton.mp (hjudges.short (by decide) hmem)
  exact hlow.mp hmem ⟨by decide, by simp [Uniform]⟩

end ProtocolFuzzer.PacketAnalyzer
