/-
# The MQTT fuzzer

The functions of `MQTTFuzzer`, as the source computes them: the corpora and the
drawn values, the three packet writers, the ten malformed patterns, mutation,
validation and feature extraction. Texts are their UTF-8 bytes, since the source
only ever asks for their length and their bytes. Functions that index a packet run
in a checked monad; the others draw and return.
-/

import ProtocolFuzzer.Protocols.Common

namespace ProtocolFuzzer.MQTT

open Math Platform Common

/-- The malformed patterns specific to MQTT. -/
inductive MalformedMQTTPattern
  | invalidFixedHeader
  | oversizedRemainingLength
  | invalidPacketType
  | truncatedPayload
  | oversizedPayload
  | invalidQoS
  | malformedUtf8
  | invalidTopicFilter
  | excessiveSubscriptions
  | protocolViolation
  deriving DecidableEq, Repr

/-- The quality-of-service levels of the `mqttrs` crate. -/
inductive QoS
  | atMostOnce
  | atLeastOnce
  | exactlyOnce
  deriving DecidableEq, Repr

/-- `qos as u8` -/
def QoS.toU8 : QoS → UInt8
  | .atMostOnce => 0
  | .atLeastOnce => 1
  | .exactlyOnce => 2

/-- The level a drawn byte selects. -/
def QoS.ofDraw (d : UInt8) : QoS :=
  match d % 3 with
  | 0 => .atMostOnce
  | 1 => .atLeastOnce
  | _ => .exactlyOnce

def topicCorpus : List (List UInt8) :=
  ["sensor/temperature", "device/status", "home/living-room/light", "factory/machine1/alerts",
    "$SYS/broker/load/messages/received", "iot/+/telemetry", "building/floor/+/room/+/sensor/+",
    "/", ""].map utf8

def clientIdCorpus : List (List UInt8) :=
  ["sensor001", "gateway-12345", "mobile-app-user123", "",
    "very-long-client-id-that-exceeds-normal-limits-and-might-cause-buffer-overflows-in-" ++
      "poorly-implemented-brokers"].map utf8

def payloadCorpus : List (List UInt8) :=
  [utf8 "Hello, MQTT!", utf8 "\x7b\"temperature\": 23.5, \"humidity\": 60.2\x7d", utf8 "ON",
    utf8 "OFF", List.replicate 1000 0, List.replicate 100 0xFF, []]

def malformedPatterns : List MalformedMQTTPattern :=
  [.invalidFixedHeader, .oversizedRemainingLength, .invalidPacketType, .truncatedPayload,
    .oversizedPayload, .invalidQoS, .malformedUtf8, .invalidTopicFilter,
    .excessiveSubscriptions, .protocolViolation]

/-- The characters of a random topic segment. -/
def topicCharset : List UInt8 := utf8 "abcdefghijklmnopqrstuvwxyz0123456789_-+#"

/-- The characters of a random client id. -/
def clientIdCharset : List UInt8 :=
  utf8 "abcdefghijklmnopqrstuvwxyzABCDEFGHIJKLMNOPQRSTUVWXYZ0123456789_-"

/-! None of these is empty, so picking from them at a drawn index is in range. -/

theorem topicCorpus_pos : 0 < topicCorpus.length := by decide

theorem clientIdCorpus_pos : 0 < clientIdCorpus.length := by decide

theorem payloadCorpus_pos : 0 < payloadCorpus.length := by decide

theorem malformedPatterns_pos : 0 < malformedPatterns.length := by decide

theorem topicCharset_pos : 0 < topicCharset.length := by decide

theorem clientIdCharset_pos : 0 < clientIdCharset.length := by decide

variable {σ : Type} [DrawSource σ]

/-- One segment of a random topic. -/
def generateTopicSegment : Gen σ (List UInt8) := do
  let segmentLen := (← usizeOr 5) % 50 + 1
  replicateDraw segmentLen do
    let idx ← usizeOr 0
    pure (pick topicCharset topicCharset_pos idx)

def generateRandomTopic : Gen σ (List UInt8) := do
  let segmentCount := (← usizeOr 2) % 10 + 1
  let segments ← replicateDraw segmentCount generateTopicSegment
  pure ((utf8 "/").intercalate segments)

def selectTopic : Gen σ (List UInt8) := do
  if (← boolOr false) && !topicCorpus.isEmpty then
    let idx ← usizeOr 0
    pure (pick topicCorpus topicCorpus_pos idx)
  else
    generateRandomTopic

def generateRandomClientId : Gen σ (List UInt8) := do
  let len := (← usizeOr 10) % 100 + 1
  replicateDraw len do
    let idx ← usizeOr 0
    pure (pick clientIdCharset clientIdCharset_pos idx)

def selectClientId : Gen σ (List UInt8) := do
  if (← boolOr false) && !clientIdCorpus.isEmpty then
    let idx ← usizeOr 0
    pure (pick clientIdCorpus clientIdCorpus_pos idx)
  else
    generateRandomClientId

def generateRandomPayload : Gen σ (List UInt8) := do
  let len := (← usizeOr 100) % 10000
  replicateDraw len u8OrRandom

def selectPayload : Gen σ (List UInt8) := do
  if (← boolOr false) && !payloadCorpus.isEmpty then
    let idx ← usizeOr 0
    pure (pick payloadCorpus payloadCorpus_pos idx)
  else
    generateRandomPayload

/-- Append the remaining-length field, seven bits per byte, lowest bits first. -/
def encodeRemainingLength (packet : List UInt8) (length : ℕ) : List UInt8 :=
  let byte := UInt8.ofNat (length % 128)
  if length / 128 > 0 then encodeRemainingLength (packet ++ [byte ||| 0x80]) (length / 128)
  else packet ++ [byte]
termination_by length
decreasing_by omega

def generateConnectPacket : Gen σ (List UInt8) := do
  let clientId ← selectClientId
  let keepAlive ← u16Or 60
  let cleanSession ← boolOr true
  let protocolName := utf8 "MQTT"
  let protocolLevel : UInt8 := 4
  let connectFlags : UInt8 := if cleanSession then 0x02 else 0x00
  let variableHeaderLen := 2 + protocolName.length + 1 + 1 + 2
  let payloadLen := 2 + clientId.length
  let packet := encodeRemainingLength [0x10] (variableHeaderLen + payloadLen)
  pure (packet ++ toBE16 (UInt16.ofNat protocolName.length) ++ protocolName ++ [protocolLevel]
    ++ [connectFlags] ++ toBE16 keepAlive ++ toBE16 (UInt16.ofNat clientId.length) ++ clientId)

def generatePublishPacket : Gen σ (List UInt8) := do
  let topic ← selectTopic
  let payload ← selectPayload
  let qos := QoS.ofDraw (← u8Or 0)
  let retain ← boolOr false
  let dup ← boolOr false
  let flags : UInt8 := 0x30
  let flags := if dup then flags ||| 0x08 else flags
  let flags := flags ||| (qos.toU8 <<< 1)
  let flags := if retain then flags ||| 0x01 else flags
  let remainingLength := 2 + topic.length + payload.length
  let remainingLength := if qos ≠ .atMostOnce then remainingLength + 2 else remainingLength
  let packet := encodeRemainingLength [flags] remainingLength
  let packet := packet ++ toBE16 (UInt16.ofNat topic.length) ++ topic
  if qos ≠ .atMostOnce then
    let packetId ← u16Or 1
    pure (packet ++ toBE16 packetId ++ payload)
  else
    pure (packet ++ payload)

/-- The subscriptions of a SUBSCRIBE payload: each topic filter with its length,
and a drawn QoS byte. -/
def writeSubscriptions : List (List UInt8) → List UInt8 → Gen σ (List UInt8)
  | [], packet => pure packet
  | topic :: topics, packet => do
    let qos := (← u8Or 0) % 3
    writeSubscriptions topics
      (packet ++ toBE16 (UInt16.ofNat topic.length) ++ topic ++ [qos])

def generateSubscribePacket : Gen σ (List UInt8) := do
  let packetId ← u16Or 1
  let subscriptionCount := (← usizeOr 1) % 10 + 1
  let topics ← replicateDraw subscriptionCount selectTopic
  let remainingLength := topics.foldl (fun len topic => len + (2 + topic.length + 1)) 2
  let packet := encodeRemainingLength [0x82] remainingLength
  writeSubscriptions topics (packet ++ toBE16 packetId)

/-- Generate a valid protocol packet. -/
def generateValidPacket : Gen σ (List UInt8) := do
  let packetType := (← u8Or 0) % 4
  match packetType with
  | 0 => generateConnectPacket
  | 1 => generatePublishPacket
  | 2 => generateSubscribePacket
  | _ => pure [0xC0, 0x00]

/-! ## Malformed patterns -/

def injectInvalidUtf8 (packet : List UInt8) : Fallible σ (List UInt8) :=
  if packet.length > 10 then do
    let pos := 10 + (← rem (← draw (usizeOr 1)) (packet.length - 10))
    if pos < packet.length then
      let packet ← assign packet pos 0xFF
      if pos + 1 < packet.length then assign packet (pos + 1) 0xFE else pure packet
    else
      pure packet
  else
    pure packet

/-- The loop of `inject_invalid_topic_filter`, at the length field of one filter. -/
def corruptTopicFilters (packet : List UInt8) (pos : ℕ) : Fallible σ (List UInt8) :=
  if more : pos + 2 < packet.length then do
    let topicLen := (fromBE16 (← index packet pos) (← index packet (pos + 1))).toNat
    if pos + 2 + topicLen < packet.length then
      let corruptPos := pos + 2 + (← rem (← draw (usizeOr 1)) (max topicLen 1))
      -- `set` is the guarded assignment: it writes exactly when the position is in range
      corruptTopicFilters (packet.set corruptPos 0x00) (pos + (2 + topicLen + 1))
    else
      pure packet
  else
    pure packet
termination_by packet.length - pos
decreasing_by
  rw [List.length_set]
  omega

def injectInvalidTopicFilter (packet : List UInt8) : Fallible σ (List UInt8) :=
  if packet.length > 4 then do
    if (← index packet 0) &&& 0xF0 = 0x80 then corruptTopicFilters packet 4 else pure packet
  else
    pure packet

/-- One additional subscription: a numbered topic and a drawn QoS byte. -/
def additionalSubscription : Gen σ (List UInt8) := do
  let topic := utf8 ("topic" ++ toString (← randomU32).toNat)
  let qos := (← u8Or 0) % 3
  pure (toBE16 (UInt16.ofNat topic.length) ++ topic ++ [qos])

def injectExcessiveSubscriptions (packet : List UInt8) : Gen σ (List UInt8) := do
  let additionalCount := (← usizeOr 100) % 1000 + 100
  let additional ← replicateDraw additionalCount additionalSubscription
  pure (packet ++ additional.flatten)

/-- The loop over potential length fields of violation type 3. -/
def corruptEverySeventh : List ℕ → List UInt8 → Fallible σ (List UInt8)
  | [], packet => pure packet
  | i :: rest, packet =>
    if i % 7 = 0 then do
      let packet ← assign packet i (← draw (u8Or 0xFF))
      corruptEverySeventh rest packet
    else
      corruptEverySeventh rest packet

def injectProtocolViolation (packet : List UInt8) : Fallible σ (List UInt8) := do
  let violationType := (← draw (u8Or 0)) % 4
  match violationType with
  | 0 =>
    -- CONNECT with invalid protocol name
    if packet.length > 10 then
      if (← index packet 0) = 0x10 then
        if (← index packet 9) = 77 ∧ (← index packet 10) = 81 then
          let packet ← assign packet 9 88
          assign packet 10 88
        else
          pure packet
      else
        pure packet
    else
      pure packet
  | 1 => pure packet
  | 2 =>
    -- invalid reserved flags
    if packet.isEmpty then pure packet
    else
      let flags := (← draw (u8Or 1)) &&& 0x0F
      assign packet 0 ((← index packet 0) ||| flags)
  | 3 =>
    -- string length mismatches
    if packet.length > 4 then
      let stop ← sub packet.length 2
      corruptEverySeventh (List.range' 2 (stop - 2)) packet
    else
      pure packet
  | _ => pure packet

/-- Apply one malformed pattern to a packet. -/
def applyMalformedPattern (packet : List UInt8) (pattern : MalformedMQTTPattern) :
    Fallible σ (List UInt8) :=
  match pattern with
  | .invalidFixedHeader =>
    if packet.isEmpty then pure packet
    else do assign packet 0 (← draw (u8Or 0xFF))
  | .oversizedRemainingLength =>
    if packet.length > 1 then do
      let packet ← assign packet 1 0xFF
      let packet ← insertAt packet 2 0xFF
      let packet ← insertAt packet 3 0xFF
      let packet ← insertAt packet 4 0xFF
      insertAt packet 5 0x7F
    else
      pure packet
  | .invalidPacketType =>
    if packet.isEmpty then pure packet
    else do assign packet 0 (((← index packet 0) &&& 0x0F) ||| 0xF0)
  | .truncatedPayload =>
    if packet.length > 5 then pure (packet.take (packet.length / 2)) else pure packet
  | .oversizedPayload => do
    let extraSize := (← draw (usizeOr 10000)) % 100000
    pure (packet ++ List.replicate extraSize 0x41)
  | .invalidQoS =>
    if packet.isEmpty then pure packet
    else do
      if (← index packet 0) &&& 0xF0 = 0x30 then
        assign packet 0 (((← index packet 0) &&& 0xF9) ||| 0x06)
      else
        pure packet
  | .malformedUtf8 => injectInvalidUtf8 packet
  | .invalidTopicFilter => injectInvalidTopicFilter packet
  | .excessiveSubscriptions => do
    -- the source reads the type byte here without asking whether there is one
    if (← index packet 0) &&& 0xF0 = 0x80 then draw (injectExcessiveSubscriptions packet)
    else pure packet
  | .protocolViolation => injectProtocolViolation packet

/-- `&self.malformed_patterns[idx]` at a drawn index. -/
def drawMalformedPattern : Gen σ MalformedMQTTPattern := do
  let patternIdx ← usizeOr 0
  pure (pick malformedPatterns malformedPatterns_pos patternIdx)

/-- The loop of `generate_malformed_packet`. -/
def applyMalformedPatterns : ℕ → List UInt8 → Fallible σ (List UInt8)
  | 0, packet => pure packet
  | count + 1, packet => do
    let pattern ← draw drawMalformedPattern
    let packet ← applyMalformedPattern packet pattern
    applyMalformedPatterns count packet

/-- Generate a malformed protocol packet for fuzzing. -/
def generateMalformedPacket : Fallible σ (List UInt8) := do
  let basePacket ← draw generateValidPacket
  let patternCount := (← draw (usizeOr 1)) % 3 + 1
  applyMalformedPatterns patternCount basePacket

/-- Mutate an existing packet. -/
def mutatePacket (packet : List UInt8) : Fallible σ (List UInt8) := do
  let mutationType := (← draw (u8Or 0)) % 5
  match mutationType with
  | 0 => bitFlipMutation packet
  | 1 => byteInsertMutation packet
  | 2 => byteDeleteMutation packet
  | 3 => arithmeticMutation packet
  | 4 => do
    let pattern ← draw drawMalformedPattern
    applyMalformedPattern packet pattern
  | _ => pure packet

/-! ## Validation and features -/

/-- The decoding loop of `validate_packet`: `none` is `return false`, and `some`
carries the position of the last length byte and the decoded length. -/
def decodeRemainingLength (packet : List UInt8) (pos multiplier remainingLength : ℕ) :
    Checked (Option (ℕ × ℕ)) :=
  if past : pos ≥ packet.length then .ok none
  else do
    let byte ← index packet pos
    let remainingLength ← add remainingLength (← mul (byte &&& 0x7F).toNat multiplier)
    if byte &&& 0x80 = 0 then pure (some (pos, remainingLength))
    else
      let multiplier ← mul multiplier 128
      if multiplier > 128 * 128 * 128 then pure none
      else
        let next ← add pos 1
        if next - 1 > 4 then pure none
        else decodeRemainingLength packet (pos + 1) multiplier remainingLength
termination_by packet.length - pos

/-- Validate if a packet is well-formed. -/
def validatePacket (packet : List UInt8) : Checked Bool :=
  if packet.isEmpty then .ok false
  else do
    let packetType := ((← index packet 0) &&& 0xF0) >>> 4
    if packetType = 0 ∨ packetType = 15 then pure false
    else if packet.length < 2 then pure false
    else
      match ← decodeRemainingLength packet 1 1 0 with
      | none => pure false
      | some (pos, remainingLength) =>
        let expectedTotalLength ← add (← add pos 1) remainingLength
        pure (expectedTotalLength = packet.length)

/-- The length loop of `extract_features`, which stops at the end of the packet and
after the fourth byte without complaint. -/
def scanRemainingLength (packet : List UInt8) (pos multiplier remainingLength : ℕ) :
    Checked ℕ :=
  if more : pos < packet.length then do
    let byte ← index packet pos
    let remainingLength := remainingLength + (byte &&& 0x7F).toNat * multiplier
    if byte &&& 0x80 = 0 then pure remainingLength
    else if pos + 1 > 5 ∨ multiplier * 128 > 128 * 128 * 128 then pure remainingLength
    else scanRemainingLength packet (pos + 1) (multiplier * 128) remainingLength
  else
    pure remainingLength
termination_by packet.length - pos

/-- The features of single packet types. -/
def typeFeatures (packet : List UInt8) (packetType flags : UInt8) : Checked (List ℕ) :=
  match packetType with
  | 1 =>
    readWhen (packet.length > 10) do
      readWhen (packet.length ≥ 12) do
        pure [(fromBE16 (← index packet 10) (← index packet 11)).toNat]
  | 3 =>
    let qos := (flags >>> 1) &&& 0x03
    pure [qos.toNat, (flags &&& 0x01).toNat, ((flags >>> 3) &&& 0x01).toNat]
  | _ => pure []

/-- Extract interesting features from packets for coverage guidance. -/
def extractFeatures (packet : List UInt8) : Checked (List ℕ) :=
  if packet.isEmpty then .ok [0]
  else do
    let packetType := ((← index packet 0) &&& 0xF0) >>> 4
    let flags := (← index packet 0) &&& 0x0F
    let header := [packetType.toNat, flags.toNat, packet.length]
    let length ← readWhen (packet.length > 1) do
      pure [← scanRemainingLength packet 1 1 0]
    let specific ← typeFeatures packet packetType flags
    pure (header ++ length ++ specific)

end ProtocolFuzzer.MQTT
