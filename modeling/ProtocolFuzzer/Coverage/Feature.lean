/-
# Feature coverage

`FeatureCoverageCollector` names what it notices about an execution and counts the
names. Each extractor looks at the input and at the outcome; the generic extractor runs
for every protocol, followed by the one of the protocol, and the numbers the protocol
fuzzer reports are appended with their positions.
-/

import ProtocolFuzzer.Coverage.Execution
import ProtocolFuzzer.Coverage.Windows
import ProtocolFuzzer.Math.Tally
import ProtocolFuzzer.Platform.Text
import ProtocolFuzzer.Protocols.DNS.Fuzzer
import ProtocolFuzzer.Protocols.MQTT.Fuzzer

namespace ProtocolFuzzer.Coverage

open Math Platform

def categorizeCount (count : UInt16) : String :=
  if count.toNat = 0 then "zero"
  else if count.toNat = 1 then "one"
  else if count.toNat ≤ 5 then "few"
  else if count.toNat ≤ 20 then "some"
  else if count.toNat ≤ 100 then "many"
  else "too_many"

def categorizeError (message : String) : String :=
  let lower := toLowercase message
  if contains lower "connection" then "connection"
  else if contains lower "timeout" then "timeout"
  else if contains lower "parse" then "parse"
  else if contains lower "protocol" then "protocol"
  else "unknown"

/-- Does a window of two, three or four bytes recur? -/
def hasRepeatedBytes (data : List UInt8) : Checked Bool :=
  if data.length < 4 then .ok false
  else (inclusive 2 4).anyM (anyWindowRecurs data)

/-- A feature that is there when a condition holds. -/
def emitIf (present : Prop) [Decidable present] (feature : String) : List String :=
  if present then [feature] else []

/-- What an extractor sees in the input and in the outcome. -/
structure FeatureExtractor where
  extractInputFeatures : List UInt8 → Checked (List String)
  extractExecutionFeatures : ExecutionResult → Checked (List String)

namespace GenericProtocolFeatureExtractor

def extractInputFeatures (input : List UInt8) : Checked (List String) :=
  if input.isEmpty then .ok ["empty_input"]
  else do
    let firstByte ← readWhen (input.length ≥ 1) do
      pure ["first_byte_" ++ formatPadded 16 2 (← index input 0).toNat]
    let firstTwoBytes ← readWhen (input.length ≥ 2) do
      pure ["first_two_bytes_" ++
        formatPadded 16 4 (fromBE16 (← index input 0) (← index input 1)).toNat]
    let repeated ← hasRepeatedBytes input
    pure (["input_size_" ++ categorizeSize input.length] ++ firstByte ++ firstTwoBytes
      ++ emitIf (0 ∈ input) "contains_null_bytes"
      ++ [if input.all isAscii then "ascii_content" else "binary_content"]
      ++ emitIf (repeated = true) "has_repeated_patterns")

def responseFeatures (response : List UInt8) : Checked (List String) := do
  let firstByte ← readWhen (¬ response.isEmpty) do
    pure ["response_first_byte_" ++ formatPadded 16 2 (← index response 0).toNat]
  pure (["response_size_" ++ categorizeSize response.length] ++ firstByte)

def extractExecutionFeatures (result : ExecutionResult) : Checked (List String) := do
  let response ← result.responseData.elim (pure ["no_response"]) responseFeatures
  let error := result.errorMessage.elim [] fun message => ["error_" ++ categorizeError message]
  pure ([if result.success then "execution_success" else "execution_failure"]
    ++ ["timing_" ++ categorizeTiming result.executionTimeMs] ++ response ++ error)

end GenericProtocolFeatureExtractor

namespace DNSFeatureExtractor

def extractInputFeatures (input : List UInt8) : Checked (List String) :=
  if input.length < 12 then .ok ["dns_too_short"]
  else do
    let flags := fromBE16 (← index input 2) (← index input 3)
    let opcode := (flags >>> 11) &&& 0x0F
    let rcode := flags &&& 0x000F
    let qdcount := fromBE16 (← index input 4) (← index input 5)
    let ancount := fromBE16 (← index input 6) (← index input 7)
    pure ([if flags &&& 0x8000 ≠ 0 then "dns_response" else "dns_query"]
      ++ ["dns_opcode_" ++ toString opcode.toNat]
      ++ emitIf (flags &&& 0x0400 ≠ 0) "dns_authoritative"
      ++ emitIf (flags &&& 0x0200 ≠ 0) "dns_truncated"
      ++ emitIf (flags &&& 0x0100 ≠ 0) "dns_recursion_desired"
      ++ emitIf (flags &&& 0x0080 ≠ 0) "dns_recursion_available"
      ++ ["dns_rcode_" ++ toString rcode.toNat]
      ++ ["dns_questions_" ++ categorizeCount qdcount]
      ++ ["dns_answers_" ++ categorizeCount ancount])

def responseFeatures (response : List UInt8) : Checked (List String) :=
  readWhen (response.length ≥ 12) do
    let flags := fromBE16 (← index response 2) (← index response 3)
    let rcode := flags &&& 0x000F
    pure (["dns_response_rcode_" ++ toString rcode.toNat]
      ++ [if flags &&& 0x8000 ≠ 0 then "valid_dns_response" else "invalid_dns_response"])

def extractExecutionFeatures (result : ExecutionResult) : Checked (List String) :=
  result.responseData.elim (pure []) responseFeatures

end DNSFeatureExtractor

namespace MQTTFeatureExtractor

/-- The loop of `count_remaining_length_bytes`, over at most `bound` bytes. -/
def countRemainingLengthBytes : ℕ → List UInt8 → ℕ
  | 0, _ => 0
  | _, [] => 0
  | bound + 1, byte :: bytes =>
    if byte &&& 0x80 = 0 then 1 else countRemainingLengthBytes bound bytes + 1

def extractInputFeatures (input : List UInt8) : Checked (List String) :=
  if input.isEmpty then .ok ["mqtt_empty"]
  else do
    let packetType := ((← index input 0) &&& 0xF0) >>> 4
    let flags := (← index input 0) &&& 0x0F
    let qos := (flags >>> 1) &&& 0x03
    let publish := if packetType = 3 then
        ["mqtt_qos_" ++ toString qos.toNat] ++ emitIf (flags &&& 0x01 ≠ 0) "mqtt_retain"
          ++ emitIf (flags &&& 0x08 ≠ 0) "mqtt_dup"
      else []
    let remaining ← readWhen (input.length > 1) do
      let rest ← slice input 1 input.length
      pure ["mqtt_remaining_length_bytes_" ++ toString (countRemainingLengthBytes 4 rest)]
    pure (["mqtt_packet_type_" ++ toString packetType.toNat]
      ++ ["mqtt_flags_" ++ formatPadded 2 4 flags.toNat] ++ publish ++ remaining)

/-- The name of a response type. -/
def responseName (packetType : UInt8) : String :=
  match packetType with
  | 2 => "mqtt_connack_received"
  | 4 => "mqtt_puback_received"
  | 9 => "mqtt_suback_received"
  | 13 => "mqtt_pingresp_received"
  | _ => "mqtt_unknown_response"

def responseFeatures (response : List UInt8) : Checked (List String) :=
  readWhen (¬ response.isEmpty) do
    let packetType := ((← index response 0) &&& 0xF0) >>> 4
    pure (["mqtt_response_type_" ++ toString packetType.toNat] ++ [responseName packetType])

def extractExecutionFeatures (result : ExecutionResult) : Checked (List String) :=
  result.responseData.elim (pure []) responseFeatures

end MQTTFeatureExtractor

def genericProtocolFeatureExtractor : FeatureExtractor where
  extractInputFeatures := GenericProtocolFeatureExtractor.extractInputFeatures
  extractExecutionFeatures := GenericProtocolFeatureExtractor.extractExecutionFeatures

def dnsFeatureExtractor : FeatureExtractor where
  extractInputFeatures := DNSFeatureExtractor.extractInputFeatures
  extractExecutionFeatures := DNSFeatureExtractor.extractExecutionFeatures

def mqttFeatureExtractor : FeatureExtractor where
  extractInputFeatures := MQTTFeatureExtractor.extractInputFeatures
  extractExecutionFeatures := MQTTFeatureExtractor.extractExecutionFeatures

def createFeatureExtractors : ProtocolType → List FeatureExtractor
  | .DNS => [genericProtocolFeatureExtractor, dnsFeatureExtractor]
  | .MQTT => [genericProtocolFeatureExtractor, mqttFeatureExtractor]

/-- `create_protocol_fuzzer(protocol).extract_features(packet)` -/
def protocolFeatures (parse : DNS.Parser) : ProtocolType → List UInt8 → Checked (List ℕ)
  | .DNS => DNS.extractFeatures parse
  | .MQTT => MQTT.extractFeatures

/-- The feature for the number at position `i` of the protocol fuzzer's list. -/
def indexedFeature (i value : ℕ) : String :=
  "protocol_feature_" ++ toString i ++ "_" ++ toString value

/-- The extractors of the collector are those of its protocol. -/
structure FeatureCoverageCollector where
  protocolType : ProtocolType
  /-- Features discovered and their frequency. -/
  featureMap : Tally String := ∅
  totalExecutions : ℕ := 0
  newFeaturesFound : Bool := false
  lastFeatureCount : ℕ := 0

/-- The features of an execution that the extractors of a protocol find. -/
def extractorFeatures (input : List UInt8) (result : ExecutionResult)
    (extractor : FeatureExtractor) : Checked (List String) := do
  let inputFeatures ← extractor.extractInputFeatures input
  let executionFeatures ← extractor.extractExecutionFeatures result
  pure (inputFeatures ++ executionFeatures)

def extractAllFeatures (parse : DNS.Parser) (protocol : ProtocolType) (input : List UInt8)
    (result : ExecutionResult) : Checked (List String) := do
  let extracted ← (createFeatureExtractors protocol).mapM (extractorFeatures input result)
  let values ← protocolFeatures parse protocol input
  pure (extracted.flatten ++ values.mapIdx indexedFeature)

namespace FeatureCoverageCollector

/-- Record the features of one execution. -/
def recordFeatures (c : FeatureCoverageCollector) (features : List String) :
    FeatureCoverageCollector :=
  let (featureMap, newFeatures) := features.foldl Tally.count (c.featureMap, false)
  { c with
    featureMap
    totalExecutions := c.totalExecutions + 1
    newFeaturesFound := c.newFeaturesFound || newFeatures }

def recordExecution (parse : DNS.Parser) (c : FeatureCoverageCollector) (input : List UInt8)
    (result : ExecutionResult) : Checked FeatureCoverageCollector := do
  let features ← extractAllFeatures parse c.protocolType input result
  pure (c.recordFeatures features)

def getTotalFeatures (c : FeatureCoverageCollector) : ℕ := c.featureMap.size

def getCoveredFeatures (c : FeatureCoverageCollector) : ℕ := c.featureMap.covered

/-- The coverage percentage of the statistics, in exact arithmetic. -/
def coveragePercentage (c : FeatureCoverageCollector) : ℚ :=
  if c.getTotalFeatures > 0 then (c.getCoveredFeatures / c.getTotalFeatures : ℚ) * 100 else 0

def hasNewCoverage (c : FeatureCoverageCollector) : Bool := c.featureMap.size > c.lastFeatureCount

def reset (c : FeatureCoverageCollector) : FeatureCoverageCollector :=
  { protocolType := c.protocolType }

end FeatureCoverageCollector

end ProtocolFuzzer.Coverage
