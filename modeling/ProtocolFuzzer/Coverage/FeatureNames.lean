/-
# Feature names

The extractors name the features of one execution independently of each other, and the
collector counts names. The names are told apart by how they begin: every extractor
emits the tags listed here, in their order and each at most once, and no tag begins
another. The numbers of the protocol fuzzer share one tag and are told apart by their
position. So a stored frequency is a number of executions.
-/

import ProtocolFuzzer.Coverage.Accounting
import ProtocolFuzzer.Math.Prefixes

namespace ProtocolFuzzer.Coverage

open Math Platform

/-- A name with its end marked, so that a whole name can serve as a tag. -/
def spell (name : String) : List Char := name.toList ++ ['\n']

theorem toList_prefix_spell (tag rest : String) : tag.toList <+: spell (tag ++ rest) := by
  rw [spell, String.toList_append, List.append_assoc]
  exact List.prefix_append _ _

/-- A name that is a tag followed by a variable part. -/
theorem emits_tagged (tag rest : String) : Emits spell [tag.toList] [tag ++ rest] :=
  Emits.single (toList_prefix_spell tag rest)

/-- A name that is a tag of its own. -/
theorem emits_name (name : String) : Emits spell [spell name] [name] :=
  Emits.single List.prefix_rfl

theorem emits_emitIf {present : Prop} {_ : Decidable present} (name : String) :
    Emits spell [spell name] (emitIf present name) := by
  rw [emitIf]
  split_ifs
  · exact emits_name name
  · exact Emits.nil _

theorem emits_choice {c : Prop} {_ : Decidable c} (name name' : String) :
    Emits spell [spell name, spell name'] [if c then name else name'] :=
  Emits.choice List.prefix_rfl List.prefix_rfl

namespace GenericProtocolFeatureExtractor

def inputTags : List (List Char) :=
  [spell "empty_input", "input_size_".toList, "first_byte_".toList, "first_two_bytes_".toList,
    spell "contains_null_bytes", spell "ascii_content", spell "binary_content",
    spell "has_repeated_patterns"]

def executionTags : List (List Char) :=
  [spell "execution_success", spell "execution_failure", "timing_".toList,
    "response_size_".toList, "response_first_byte_".toList, spell "no_response",
    "error_".toList]

theorem extractInputFeatures_emits (input : List UInt8) :
    Yields (extractInputFeatures input) (Emits spell inputTags) := by
  rw [extractInputFeatures]
  by_cases empty : input.isEmpty
  · rw [if_pos empty]
    exact yields_ok ((emits_name "empty_input").weaken (by decide +kernel))
  · rw [if_neg empty]
    refine Yields.bind (show Yields _ (Emits spell ["first_byte_".toList]) from
      Yields.readWhen (fun _ => ?_) (Emits.nil _)) fun firstByte hfirst =>
        Yields.bind (show Yields _ (Emits spell ["first_two_bytes_".toList]) from
          Yields.readWhen (fun _ => ?_) (Emits.nil _)) fun firstTwoBytes hsecond =>
            (yields_true _).bind fun repeated _ => yields_ok ?_
    · exact (yields_true _).bind fun _ _ => yields_ok (emits_tagged _ _)
    · exact (yields_true _).bind fun _ _ => (yields_true _).bind fun _ _ =>
        yields_ok (emits_tagged _ _)
    · exact ((((((emits_tagged "input_size_" _).append hfirst).append hsecond).append
        (emits_emitIf _)).append (emits_choice _ _)).append (emits_emitIf _)).weaken
          (List.sublist_cons_self _ _)

theorem responseFeatures_emits (response : List UInt8) :
    Yields (responseFeatures response)
      (Emits spell ["response_size_".toList, "response_first_byte_".toList]) := by
  refine Yields.bind (show Yields _ (Emits spell ["response_first_byte_".toList]) from
    Yields.readWhen (fun _ => ?_) (Emits.nil _)) fun firstByte hfirst => yields_ok ?_
  · exact (yields_true _).bind fun _ _ => yields_ok (emits_tagged _ _)
  · exact (emits_tagged "response_size_" _).append hfirst

theorem extractExecutionFeatures_emits (result : ExecutionResult) :
    Yields (extractExecutionFeatures result) (Emits spell executionTags) := by
  refine Yields.bind (show Yields _ (Emits spell ["response_size_".toList,
    "response_first_byte_".toList, spell "no_response"]) from ?_) fun response hresponse =>
      yields_ok ?_
  · cases result.responseData with
    | none => exact yields_ok ((emits_name "no_response").weaken (by decide +kernel))
    | some response =>
        exact (responseFeatures_emits response).mono fun _ h => h.weaken (by decide +kernel)
  · have herror : Emits spell ["error_".toList] (result.errorMessage.elim [] fun message =>
        ["error_" ++ categorizeError message]) := by
      cases result.errorMessage with
      | none => exact Emits.nil _
      | some message => exact emits_tagged _ _
    exact (((emits_choice _ _).append (emits_tagged "timing_" _)).append hresponse).append
      herror

end GenericProtocolFeatureExtractor

namespace DNSFeatureExtractor

def inputTags : List (List Char) :=
  [spell "dns_too_short", spell "dns_response", spell "dns_query", "dns_opcode_".toList,
    spell "dns_authoritative", spell "dns_truncated", spell "dns_recursion_desired",
    spell "dns_recursion_available", "dns_rcode_".toList, "dns_questions_".toList,
    "dns_answers_".toList]

def executionTags : List (List Char) :=
  ["dns_response_rcode_".toList, spell "valid_dns_response", spell "invalid_dns_response"]

theorem extractInputFeatures_emits (input : List UInt8) :
    Yields (extractInputFeatures input) (Emits spell inputTags) := by
  rw [extractInputFeatures]
  split_ifs
  · exact yields_ok ((emits_name "dns_too_short").weaken (by decide +kernel))
  · refine (yields_true _).bind fun _ _ => (yields_true _).bind fun _ _ =>
      (yields_true _).bind fun _ _ => (yields_true _).bind fun _ _ =>
        (yields_true _).bind fun _ _ => (yields_true _).bind fun _ _ => yields_ok ?_
    exact (((((((((emits_choice "dns_response" "dns_query").append
      (emits_tagged "dns_opcode_" _)).append (emits_emitIf _)).append
      (emits_emitIf _)).append (emits_emitIf _)).append (emits_emitIf _)).append
      (emits_tagged "dns_rcode_" _)).append (emits_tagged "dns_questions_" _)).append
      (emits_tagged "dns_answers_" _)).weaken (List.sublist_cons_self _ _)

theorem extractExecutionFeatures_emits (result : ExecutionResult) :
    Yields (extractExecutionFeatures result) (Emits spell executionTags) := by
  rw [extractExecutionFeatures]
  cases result.responseData with
  | none => exact yields_ok (Emits.nil _)
  | some response =>
      refine Yields.readWhen (fun _ => ?_) (Emits.nil _)
      exact (yields_true _).bind fun _ _ => (yields_true _).bind fun _ _ =>
        yields_ok ((emits_tagged "dns_response_rcode_" _).append (emits_choice _ _))

end DNSFeatureExtractor

namespace MQTTFeatureExtractor

def inputTags : List (List Char) :=
  [spell "mqtt_empty", "mqtt_packet_type_".toList, "mqtt_flags_".toList, "mqtt_qos_".toList,
    spell "mqtt_retain", spell "mqtt_dup", "mqtt_remaining_length_bytes_".toList]

def responseNames : List (List Char) :=
  [spell "mqtt_connack_received", spell "mqtt_puback_received", spell "mqtt_suback_received",
    spell "mqtt_pingresp_received", spell "mqtt_unknown_response"]

def executionTags : List (List Char) := "mqtt_response_type_".toList :: responseNames

theorem emits_publish {publish : Prop} {_ : Decidable publish} {retain dup : Prop}
    {_ : Decidable retain} {_ : Decidable dup} (qos : String) :
    Emits spell ["mqtt_qos_".toList, spell "mqtt_retain", spell "mqtt_dup"]
      (if publish then
        ["mqtt_qos_" ++ qos] ++ emitIf retain "mqtt_retain" ++ emitIf dup "mqtt_dup"
      else []) := by
  split_ifs
  · exact ((emits_tagged _ _).append (emits_emitIf _)).append (emits_emitIf _)
  · exact Emits.nil _

theorem extractInputFeatures_emits (input : List UInt8) :
    Yields (extractInputFeatures input) (Emits spell inputTags) := by
  rw [extractInputFeatures]
  split_ifs
  · exact yields_ok ((emits_name "mqtt_empty").weaken (by decide +kernel))
  · refine (yields_true _).bind fun first _ => (yields_true _).bind fun second _ =>
      Yields.bind (show Yields _ (Emits spell ["mqtt_remaining_length_bytes_".toList]) from
        Yields.readWhen (fun _ => ?_) (Emits.nil _)) fun remaining hremaining => yields_ok ?_
    · exact (yields_true _).bind fun _ _ => yields_ok (emits_tagged _ _)
    · exact ((((emits_tagged "mqtt_packet_type_" _).append (emits_tagged "mqtt_flags_" _)).append
        (emits_publish _)).append hremaining).weaken (List.sublist_cons_self _ _)

theorem responseName_emits (packetType : UInt8) :
    Emits spell responseNames [responseName packetType] := by
  unfold responseName
  split <;> exact (emits_name _).weaken (by decide +kernel)

theorem extractExecutionFeatures_emits (result : ExecutionResult) :
    Yields (extractExecutionFeatures result) (Emits spell executionTags) := by
  rw [extractExecutionFeatures]
  cases result.responseData with
  | none => exact yields_ok (Emits.nil _)
  | some response =>
      refine Yields.readWhen (fun _ => (yields_true _).bind fun _ _ => ?_) (Emits.nil _)
      exact yields_ok ((emits_tagged "mqtt_response_type_" _).append (responseName_emits _))

end MQTTFeatureExtractor

theorem toDigits_injective {m n : ℕ} (h : Nat.toDigits 10 m = Nat.toDigits 10 n) : m = n := by
  have hvalue := congrArg (fun digits => Nat.ofDigitChars 10 digits 0) h
  simpa only [Nat.ofDigitChars_ten_toDigits] using hvalue

theorem toList_prefix_positioned (tag : String) (i value : ℕ) :
    tag.toList <+: spell (tag ++ toString i ++ "_" ++ toString value) := by
  rw [String.append_assoc, String.append_assoc]
  exact toList_prefix_spell _ _

/-- Names that continue a tag with a position and a number determine the position. -/
theorem position_unique {tag : String} {i j value value' : ℕ}
    (h : tag ++ toString i ++ "_" ++ toString value = tag ++ toString j ++ "_" ++ toString value') :
    i = j := by
  have hseparator : "_".toList = ['_'] := by decide
  have hchars := congrArg String.toList h
  simp only [String.toList_append, List.append_assoc, Nat.toString_eq_repr, Nat.toList_repr,
    hseparator, List.append_cancel_left_eq, List.singleton_append] at hchars
  have hdigits := (List.append_cons_inj_of_notMem Nat.underscore_not_in_toDigits
    Nat.underscore_not_in_toDigits).mp hchars
  exact toDigits_injective hdigits.1

/-- Numbers at different positions have different names. -/
theorem indexedFeature_position {i j value value' : ℕ}
    (h : indexedFeature i value = indexedFeature j value') : i = j :=
  position_unique h

theorem nodup_mapIdx_indexedFeature (values : List ℕ) :
    (values.mapIdx indexedFeature).Nodup := by
  apply List.pairwise_iff_getElem.mpr
  intro i j hi hj hlt heq
  rw [List.getElem_mapIdx, List.getElem_mapIdx] at heq
  exact hlt.ne (indexedFeature_position heq)

/-- The tag of the numbers the protocol fuzzer reports. -/
def indexedTag : List Char := "protocol_feature_".toList

theorem indexedTag_prefix (i value : ℕ) : indexedTag <+: spell (indexedFeature i value) :=
  toList_prefix_positioned "protocol_feature_" i value

/-- The tags of all extractors of a protocol, in their order. -/
def extractorTags : ProtocolType → List (List Char)
  | .DNS => GenericProtocolFeatureExtractor.inputTags ++
      GenericProtocolFeatureExtractor.executionTags ++
        (DNSFeatureExtractor.inputTags ++ DNSFeatureExtractor.executionTags)
  | .MQTT => GenericProtocolFeatureExtractor.inputTags ++
      GenericProtocolFeatureExtractor.executionTags ++
        (MQTTFeatureExtractor.inputTags ++ MQTTFeatureExtractor.executionTags)

theorem incomparable_tags (protocol : ProtocolType) :
    (indexedTag :: extractorTags protocol).Pairwise Incomparable := by
  cases protocol with
  | DNS => decide +kernel
  | MQTT => decide +kernel

/-- Two extractors, one after the other. -/
theorem mapM_extractorFeatures_emits {input : List UInt8} {result : ExecutionResult}
    {first second : FeatureExtractor} {tags tags' : List (List Char)}
    (hfirst : Yields (extractorFeatures input result first) (Emits spell tags))
    (hsecond : Yields (extractorFeatures input result second) (Emits spell tags')) :
    Yields ([first, second].mapM (extractorFeatures input result))
      fun extracted => Emits spell (tags ++ tags') extracted.flatten := by
  rw [List.mapM_cons, List.mapM_cons, List.mapM_nil]
  refine hfirst.bind fun names hnames => Yields.bind (show Yields _ fun rest => ∃ names',
    rest = [names'] ∧ Emits spell tags' names' from hsecond.bind fun names' hnames' =>
      yields_ok ⟨names', rfl, hnames'⟩) ?_
  rintro _ ⟨names', rfl, hnames'⟩
  apply yields_ok
  rw [List.flatten_cons, List.flatten_singleton]
  exact hnames.append hnames'

theorem createFeatureExtractors_emits (protocol : ProtocolType) (input : List UInt8)
    (result : ExecutionResult) :
    Yields ((createFeatureExtractors protocol).mapM (extractorFeatures input result))
      fun extracted => Emits spell (extractorTags protocol) extracted.flatten := by
  have hboth : ∀ (extractor : FeatureExtractor) {inputTags executionTags : List (List Char)},
      Yields (extractor.extractInputFeatures input) (Emits spell inputTags) →
      Yields (extractor.extractExecutionFeatures result) (Emits spell executionTags) →
      Yields (extractorFeatures input result extractor)
        (Emits spell (inputTags ++ executionTags)) :=
    fun _ _ _ hinput hexecution => hinput.bind fun _ h => hexecution.bind fun _ h' =>
      yields_ok (h.append h')
  have hgeneric := hboth genericProtocolFeatureExtractor
    (GenericProtocolFeatureExtractor.extractInputFeatures_emits input)
    (GenericProtocolFeatureExtractor.extractExecutionFeatures_emits result)
  cases protocol with
  | DNS =>
      exact mapM_extractorFeatures_emits hgeneric
        (hboth dnsFeatureExtractor
          (DNSFeatureExtractor.extractInputFeatures_emits input)
          (DNSFeatureExtractor.extractExecutionFeatures_emits result))
  | MQTT =>
      exact mapM_extractorFeatures_emits hgeneric
        (hboth mqttFeatureExtractor
          (MQTTFeatureExtractor.extractInputFeatures_emits input)
          (MQTTFeatureExtractor.extractExecutionFeatures_emits result))

/-- No execution has a feature twice. -/
theorem extractAllFeatures_nodup (parse : DNS.Parser) (protocol : ProtocolType)
    (input : List UInt8) (result : ExecutionResult) :
    Yields (extractAllFeatures parse protocol input result) List.Nodup := by
  refine (createFeatureExtractors_emits protocol input result).bind fun extracted hemits =>
    (yields_true _).bind fun values _ => yields_ok ?_
  have hindexed : ∀ name ∈ values.mapIdx indexedFeature, indexedTag <+: spell name := by
    intro name hname
    obtain ⟨i, hi, rfl⟩ := List.mem_mapIdx.mp hname
    exact indexedTag_prefix i _
  exact hemits.nodup_append hindexed (nodup_mapIdx_indexedFeature values)
    (incomparable_tags protocol)

theorem featuresOf_nodup (parse : DNS.Parser) (protocol : ProtocolType) (e : Execution) :
    (featuresOf parse protocol e).Nodup := by
  rw [featuresOf]
  cases hrun : extractAllFeatures parse protocol e.1 e.2 with
  | error p => exact List.nodup_nil
  | ok features => exact extractAllFeatures_nodup parse protocol e.1 e.2 features hrun

/-- A feature collector of a protocol after a sequence of recordings. -/
def recordExecutions (parse : DNS.Parser) (protocol : ProtocolType)
    (executions : List Execution) : Checked FeatureCoverageCollector :=
  executions.foldlM (fun c e => c.recordExecution parse e.1 e.2) { protocolType := protocol }

/-- The collector of a run accounts for its executions. -/
theorem recordExecutions_accounted {parse : DNS.Parser} {protocol : ProtocolType}
    {executions : List Execution} {c : FeatureCoverageCollector}
    (hrun : recordExecutions parse protocol executions = .ok c) :
    c.protocolType = protocol ∧ FeaturesAccounted parse executions c ∧
      ∀ e ∈ executions, NoPanic (extractAllFeatures parse protocol e.1 e.2) := by
  have hstart : ∀ e ∈ ([] : List Execution),
      NoPanic (extractAllFeatures parse protocol e.1 e.2) := by simp
  refine foldlM_run (fun history c =>
    c.protocolType = protocol ∧ FeaturesAccounted parse history c ∧
      ∀ e ∈ history, NoPanic (extractAllFeatures parse protocol e.1 e.2)) ?_
    ⟨rfl, FeaturesAccounted.empty parse protocol, hstart⟩ hrun
  rintro history c e c' ⟨rfl, haccounted, hreturned⟩ hstep
  obtain ⟨hprotocol, hnext⟩ := haccounted.recordExecution hstep
  obtain ⟨features, hfeatures, -⟩ := bind_eq_ok.mp hstep
  refine ⟨hprotocol, hnext, ?_⟩
  simp only [List.mem_append, List.mem_singleton]
  rintro e' (hmem | rfl)
  · exact hreturned e' hmem
  · exact ⟨features, hfeatures⟩

/-- Every execution of a run has each of its features once, and the frequency stored for a
feature is the number of executions that have it. -/
theorem recordExecutions_frequency (parse : DNS.Parser) (protocol : ProtocolType)
    (executions : List Execution) (c : FeatureCoverageCollector)
    (hrun : recordExecutions parse protocol executions = .ok c) :
    (∀ e ∈ executions, ∃ features,
        extractAllFeatures parse protocol e.1 e.2 = .ok features ∧
          featuresOf parse protocol e = features ∧ features.Nodup) ∧
      ∀ feature, c.featureMap.lookup feature =
          (if feature ∈ executions.flatMap (featuresOf parse protocol) then
            some (executions.countP fun e => feature ∈ featuresOf parse protocol e)
          else none) ∧
        (c.featureMap.lookup feature).getD 0 =
          executions.countP (fun e => feature ∈ featuresOf parse protocol e) ∧
        (c.featureMap.lookup feature).getD 0 ≤ c.totalExecutions := by
  obtain ⟨rfl, haccounted, hreturned⟩ := recordExecutions_accounted hrun
  refine ⟨fun e he => ?_, fun feature => ?_⟩
  · obtain ⟨features, hfeatures⟩ := hreturned e he
    have heq : featuresOf parse c.protocolType e = features := by
      rw [featuresOf, hfeatures]
      rfl
    exact ⟨features, hfeatures, heq, extractAllFeatures_nodup parse _ _ _ features hfeatures⟩
  · have hlookup := haccounted.features.lookup_flatMap
      (fun e _ => featuresOf_nodup parse c.protocolType e) feature
    have hcount : (c.featureMap.lookup feature).getD 0 =
        executions.countP fun e => feature ∈ featuresOf parse c.protocolType e := by
      rw [haccounted.features.getD_lookup, Multiset.coe_count]
      exact Tally.count_flatMap_of_nodup (fun e _ => featuresOf_nodup parse _ e) feature
    refine ⟨hlookup, hcount, ?_⟩
    rw [hcount, haccounted.total]
    exact List.countP_le_length

/-- Two empty packets and a PINGREQ packet. -/
theorem recordExecutions_frequency_pings :
    let result : ExecutionResult :=
      { success := true, responseData := none, executionTimeMs := 0, errorMessage := none }
    ∃ c, recordExecutions (fun _ => none) .MQTT
        [([], result), ([0xC0, 0x00], result), ([], result)] = .ok c ∧
      (c.featureMap.lookup "no_response").getD 0 = 3 ∧
      (c.featureMap.lookup "empty_input").getD 0 = 2 ∧
      (c.featureMap.lookup "mqtt_packet_type_12").getD 0 = 1 := by
  intro result
  have hreturns : NoPanic (recordExecutions (fun _ => none) .MQTT
      [([], result), ([0xC0, 0x00], result), ([], result)]) := by
    have hstep : ∀ (c : FeatureCoverageCollector) (e : Execution),
        NoPanic (c.recordExecution (fun _ => none) e.1 e.2) ↔
          e.1.length < 4 ∨ 8 ≤ e.1.length ∨ ∃ i, Recurs e.1 2 i := fun c e =>
      (noPanic_bind_iff fun _ => noPanic_ok _).trans (extractAllFeatures_returns_iff _ _ _ _)
    exact (noPanic_foldlM_iff hstep _ _).mpr (by simp)
  obtain ⟨c, hrun⟩ := hreturns
  obtain ⟨-, hfrequency⟩ := recordExecutions_frequency (fun _ => none) .MQTT _ c hrun
  refine ⟨c, hrun, ?_, ?_, ?_⟩
  · rw [(hfrequency "no_response").2.1]
    decide +kernel
  · rw [(hfrequency "empty_input").2.1]
    decide +kernel
  · rw [(hfrequency "mqtt_packet_type_12").2.1]
    decide +kernel

end ProtocolFuzzer.Coverage
