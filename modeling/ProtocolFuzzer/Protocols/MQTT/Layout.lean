/-
# The MQTT 3.1.1 field layout

A reference decoder for the packet kinds the fuzzer generates, written from the
protocol's layout and not from the generator: fixed header, remaining length, then
the fields of the packet type in order. It checks where fields begin and end and
nothing about their contents. `Packet.written` is the byte form of a packet, and
the round trip says that the decoder recovers every packet from it and leaves no
byte over. The types of client ids and topics are parameters, so that the same
packet can later be looked at before its texts are rendered.
-/

import ProtocolFuzzer.Math.Reader
import ProtocolFuzzer.Protocols.MQTT.Validation

namespace ProtocolFuzzer.MQTT

open Math Platform

/-- The fields of a CONNECT packet. -/
structure ConnectFields (ν : Type) where
  protocolName : List UInt8
  protocolLevel : UInt8
  cleanSession : Bool
  keepAlive : UInt16
  clientId : ν
  /-- Will topic and will message. -/
  will : Option (List UInt8 × List UInt8)
  userName : Option (List UInt8)
  password : Option (List UInt8)
  deriving DecidableEq

/-- The fields of a PUBLISH packet, flags included. -/
structure PublishFields (τ : Type) where
  topic : τ
  qos : UInt8
  dup : Bool
  retain : Bool
  packetId : Option UInt16
  payload : List UInt8
  deriving DecidableEq

/-- The control packets the generator writes. -/
inductive Packet (ν τ : Type)
  | connect (fields : ConnectFields ν)
  | publish (fields : PublishFields τ)
  | subscribe (packetId : UInt16) (filters : List (τ × UInt8))
  | pingreq
  deriving DecidableEq

/-- A packet whose texts are byte strings. -/
abbrev TextPacket := Packet (List UInt8) (List UInt8)

/-- A PUBLISH packet has a packet identifier exactly for QoS 1 and above. -/
def Packet.IdentifierMatchesQoS {ν τ : Type} : Packet ν τ → Prop
  | .publish fields => fields.packetId.isSome ↔ fields.qos ≠ 0
  | _ => True

def readConnect : Reader TextPacket := do
  let protocolName ← readText
  let protocolLevel ← readByte
  let flags ← readByte
  let keepAlive ← readU16
  let clientId ← readText
  let will ← readIf (flags &&& 0x04 ≠ 0) do
    let topic ← readText
    let message ← readText
    pure (topic, message)
  let userName ← readIf (flags &&& 0x80 ≠ 0) readText
  let password ← readIf (flags &&& 0x40 ≠ 0) readText
  pure (.connect {
    protocolName, protocolLevel, keepAlive, clientId, will, userName, password
    cleanSession := flags &&& 0x02 ≠ 0 })

/-- Topic and packet identifier, which is there for QoS 1 and above. -/
def readPublishHead (qos : UInt8) : Reader (List UInt8 × Option UInt16) := do
  let topic ← readText
  let packetId ← readIf (qos ≠ 0) readU16
  pure (topic, packetId)

/-- The flags of a PUBLISH packet are in its first byte. -/
def readPublish (first : UInt8) : Reader TextPacket :=
  readPublishHead ((first >>> 1) &&& 0x03) >>= fun head =>
    (fun payload => .publish {
      topic := head.1
      qos := (first >>> 1) &&& 0x03
      dup := first &&& 0x08 ≠ 0
      retain := first &&& 0x01 ≠ 0
      packetId := head.2
      payload }) <$> readRest

def readSubscription : Reader (List UInt8 × UInt8) := do
  let filter ← readText
  let qos ← readByte
  pure (filter, qos)

def readSubscribe (fuel : ℕ) : Reader TextPacket := do
  let packetId ← readU16
  let filters ← readItems readSubscription fuel
  pure (.subscribe packetId filters)

/-- Decode the fields of one packet from its body, all of which has to be used. -/
def decodeBody (first : UInt8) (body : List UInt8) : Option TextPacket :=
  match highNibble first with
  | 1 => exactly readConnect body
  | 3 => exactly (readPublish first) body
  | 8 => exactly (readSubscribe body.length) body
  | 12 => if body = [] then some .pingreq else none
  | _ => none

/-- Decode the packet at the front of a byte string, and return what follows it. -/
def decode : List UInt8 → Option (TextPacket × List UInt8)
  | [] => none
  | first :: rest => do
    let (field, after) ← Base128.split 4 rest
    let length := Base128.value field
    if after.length < length then none
    else
      let packet ← decodeBody first (after.take length)
      pure (packet, after.drop length)

/-- Fixed header, remaining length and body. -/
def frame (first : UInt8) (body : List UInt8) : List UInt8 :=
  [first] ++ Base128.encode body.length ++ body

/-- A text with its length in front. -/
def writeText (text : List UInt8) : List UInt8 :=
  toBE16 (UInt16.ofNat text.length) ++ text

/-- One entry of a SUBSCRIBE payload. -/
def writeSubscription (entry : List UInt8 × UInt8) : List UInt8 :=
  writeText entry.1 ++ [entry.2]

def connectBody (fields : ConnectFields (List UInt8)) : List UInt8 :=
  writeText fields.protocolName ++ [fields.protocolLevel]
    ++ [if fields.cleanSession then 0x02 else 0x00] ++ toBE16 fields.keepAlive
    ++ writeText fields.clientId

def publishFirst {τ : Type} (fields : PublishFields τ) : UInt8 :=
  let flags : UInt8 := 0x30
  let flags := if fields.dup then flags ||| 0x08 else flags
  let flags := flags ||| (fields.qos <<< 1)
  if fields.retain then flags ||| 0x01 else flags

def publishBody (fields : PublishFields (List UInt8)) : List UInt8 :=
  writeText fields.topic ++ (fields.packetId.elim [] toBE16) ++ fields.payload

def subscribeBody (packetId : UInt16) (filters : List (List UInt8 × UInt8)) : List UInt8 :=
  toBE16 packetId ++ filters.flatMap writeSubscription

/-- Packet type and flags. -/
def Packet.first {ν τ : Type} : Packet ν τ → UInt8
  | .connect _ => 0x10
  | .publish fields => publishFirst fields
  | .subscribe _ _ => 0x82
  | .pingreq => 0xC0

/-- The fields of a packet without will and credentials. -/
def Packet.body : TextPacket → List UInt8
  | .connect fields => connectBody fields
  | .publish fields => publishBody fields
  | .subscribe packetId filters => subscribeBody packetId filters
  | .pingreq => []

/-- The byte form of a packet. -/
def Packet.written (packet : TextPacket) : List UInt8 := frame packet.first packet.body

/-- The limits a packet must respect for its byte form to be faithful: texts fit their
16-bit lengths, the body fits the length field, and the flags describe the fields. -/
structure Packet.Writable (packet : TextPacket) : Prop where
  short : packet.body.length < 128 ^ 4
  faithful : match packet with
    | .connect fields =>
      fields.protocolName.length < 65536 ∧ fields.clientId.length < 65536 ∧
        fields.will = none ∧ fields.userName = none ∧ fields.password = none
    | .publish fields =>
      fields.topic.length < 65536 ∧ fields.qos.toNat < 3 ∧
        (fields.packetId.isSome ↔ fields.qos ≠ 0)
    | .subscribe _ filters => ∀ entry ∈ filters, entry.1.length < 65536
    | .pingreq => True

/-- The validator accepts a frame of a defined packet type. -/
theorem validatePacket_frame {first : UInt8} {body : List UInt8}
    (htype : 1 ≤ highNibble first ∧ highNibble first ≤ 14) (fits : body.length < 128 ^ 4) :
    validatePacket (frame first body) = .ok true :=
  validatePacket_eq_true.mpr ⟨_, body, Base128.split_encode (by decide) fits body, htype,
    Base128.value_encode _⟩

/-- Decoding a frame decodes its body and leaves nothing. -/
theorem decode_frame {first : UInt8} {body : List UInt8} {packet : TextPacket}
    (fits : body.length < 128 ^ 4) (hbody : decodeBody first body = some packet) :
    decode (frame first body) = some (packet, []) := by
  change (Base128.split 4 (Base128.encode body.length ++ body)).bind _ = _
  rw [Base128.split_encode (by decide) fits, Option.bind_some]
  simp [Base128.value_encode, hbody]

theorem reads_writeText {text : List UInt8} (short : text.length < 65536) :
    Reads readText (writeText text) text := reads_readText short

theorem length_connectBody (fields : ConnectFields (List UInt8)) :
    (connectBody fields).length =
      fields.protocolName.length + fields.clientId.length + 8 := by
  simp only [connectBody, writeText, List.length_append, length_toBE16, List.length_singleton]
  omega

theorem decodeBody_connect {fields : ConnectFields (List UInt8)}
    (h : (Packet.connect fields : TextPacket).Writable) :
    decodeBody 0x10 (connectBody fields) = some (.connect fields) := by
  obtain ⟨hname, hclient, hwill, huser, hpassword⟩ := h.faithful
  obtain ⟨name, level, clean, keepAlive, clientId, will, user, password⟩ := fields
  subst hwill huser hpassword
  have hflags : ∀ clean : Bool, let flags : UInt8 := if clean then 0x02 else 0x00
      decide (flags &&& 0x04 ≠ 0) = false ∧ decide (flags &&& 0x80 ≠ 0) = false ∧
        decide (flags &&& 0x40 ≠ 0) = false ∧ decide (flags &&& 0x02 ≠ 0) = clean := by
    decide
  obtain ⟨noWill, noUser, noPassword, hclean⟩ := hflags clean
  refine Reads.exactly_eq (?_ : Reads readConnect _ _)
  have hbytes : connectBody ⟨name, level, clean, keepAlive, clientId, none, none, none⟩ =
      writeText name ++ ([level] ++ ([if clean then 0x02 else 0x00] ++ (toBE16 keepAlive ++
        (writeText clientId ++ ([] ++ ([] ++ ([] ++ []))))))) := by
    simp [connectBody]
  rw [hbytes, readConnect]
  refine Reads.bind (reads_writeText hname) (Reads.bind (reads_readByte _)
    (Reads.bind (reads_readByte _) (Reads.bind (reads_readU16 _)
      (Reads.bind (reads_writeText hclient) ?_))))
  rw [noWill, noUser, noPassword, hclean]
  exact Reads.bind (reads_readIf_false _) (Reads.bind (reads_readIf_false _)
    (Reads.bind (reads_readIf_false _) (reads_pure _)))

/-- The first byte of a PUBLISH packet holds its type and its flags. -/
theorem publishFirst_flags {τ : Type} (fields : PublishFields τ) (hqos : fields.qos.toNat < 3) :
    highNibble (publishFirst fields) = 3 ∧
      (publishFirst fields >>> 1) &&& 0x03 = fields.qos ∧
      decide (publishFirst fields &&& 0x08 ≠ 0) = fields.dup ∧
      decide (publishFirst fields &&& 0x01 ≠ 0) = fields.retain := by
  obtain ⟨topic, qos, dup, retain, packetId, payload⟩ := fields
  have checked : ∀ (dup retain : Bool) (q : Fin 3),
      let flags : UInt8 := if dup then 0x30 ||| 0x08 else 0x30
      let flags := flags ||| (UInt8.ofNat q <<< 1)
      let flags := if retain then flags ||| 0x01 else flags
      highNibble flags = 3 ∧ (flags >>> 1) &&& 0x03 = UInt8.ofNat q ∧
        decide (flags &&& 0x08 ≠ 0) = dup ∧ decide (flags &&& 0x01 ≠ 0) = retain := by
    decide
  have h := checked dup retain ⟨qos.toNat, hqos⟩
  simp only [UInt8.ofNat_toNat] at h
  exact h

theorem decodeBody_publish {fields : PublishFields (List UInt8)}
    (h : (Packet.publish fields : TextPacket).Writable) :
    decodeBody (publishFirst fields) (publishBody fields) = some (.publish fields) := by
  obtain ⟨htopic, hqos, hid⟩ := h.faithful
  obtain ⟨htype, hlevel, hdup, hretain⟩ := publishFirst_flags fields hqos
  have hhead : Reads (readPublishHead fields.qos)
      (writeText fields.topic ++ (fields.packetId.elim [] toBE16 ++ []))
      (fields.topic, fields.packetId) := by
    refine Reads.bind (reads_writeText htopic) (Reads.bind ?_ (reads_pure _))
    cases hpresent : fields.packetId with
    | none =>
        have hzero : fields.qos = 0 := by
          by_contra hne
          simpa [hpresent] using hid.mpr hne
        rw [hzero]
        exact reads_readIf_false _
    | some packetId =>
        have hne : fields.qos ≠ 0 := hid.mp (by rw [hpresent]; rfl)
        rw [decide_eq_true hne]
        exact reads_readIf_true (reads_readU16 packetId)
  have hdecode := exactly_bind_readRest hhead
    (fun head payload => (Packet.publish {
      topic := head.1, qos := fields.qos, dup := fields.dup, retain := fields.retain
      packetId := head.2, payload } : TextPacket)) fields.payload
  rw [decodeBody, htype]
  simp only [readPublish, hlevel, hdup, hretain, publishBody]
  rw [List.append_nil] at hdecode
  exact hdecode

theorem decodeBody_subscribe {packetId : UInt16} {filters : List (List UInt8 × UInt8)}
    (h : (Packet.subscribe packetId filters : TextPacket).Writable) :
    decodeBody 0x82 (subscribeBody packetId filters) = some (.subscribe packetId filters) := by
  have hitem : ∀ entry ∈ filters, Reads readSubscription (writeSubscription entry) entry := by
    rintro ⟨filter, qos⟩ hmem
    have hread : Reads readSubscription (writeText filter ++ ([qos] ++ [])) (filter, qos) :=
      Reads.bind (reads_writeText (h.faithful _ hmem))
        (Reads.bind (reads_readByte qos) (reads_pure (filter, qos)))
    exact hread
  have hne : ∀ entry ∈ filters, writeSubscription entry ≠ [] := by simp [writeSubscription]
  have enough : filters.length ≤ (subscribeBody packetId filters).length := by
    have hle := length_le_length_flatMap hne
    rw [subscribeBody, List.length_append]
    omega
  have hitems := readItems_flatMap hne hitem enough
  have hid := reads_readU16 packetId (filters.flatMap writeSubscription)
  change exactly (readSubscribe (subscribeBody packetId filters).length) _ = _
  generalize (subscribeBody packetId filters).length = fuel at hitems
  have hrun : (readSubscribe fuel).run (subscribeBody packetId filters) =
      some (.subscribe packetId filters, []) := by
    rw [readSubscribe, StateT.run_bind, subscribeBody, hid]
    simp [hitems]
  rw [exactly, hrun]

/-- The number of a packet type. -/
def Packet.kind {ν τ : Type} : Packet ν τ → ℕ
  | .connect _ => 1
  | .publish _ => 3
  | .subscribe _ _ => 8
  | .pingreq => 12

theorem highNibble_first {packet : TextPacket} (h : packet.Writable) :
    highNibble packet.first = packet.kind := by
  cases packet with
  | connect fields => exact (by decide : highNibble 0x10 = 1)
  | publish fields => exact (publishFirst_flags fields h.faithful.2.1).1
  | subscribe packetId filters => exact (by decide : highNibble 0x82 = 8)
  | pingreq => exact (by decide : highNibble 0xC0 = 12)

theorem Packet.kind_defined {ν τ : Type} (packet : Packet ν τ) :
    1 ≤ packet.kind ∧ packet.kind ≤ 14 := by
  cases packet <;> simp [Packet.kind]

/-- The decoder recovers every writable packet and leaves no byte over. -/
theorem decode_written {packet : TextPacket} (h : packet.Writable) :
    decode packet.written = some (packet, []) := by
  apply decode_frame h.short
  cases packet with
  | connect fields => exact decodeBody_connect h
  | publish fields => exact decodeBody_publish h
  | subscribe packetId filters => exact decodeBody_subscribe h
  | pingreq => rfl

/-- Writable packets with the same byte form are the same. -/
theorem Packet.Writable.written_inj {packet packet' : TextPacket} (h : packet.Writable)
    (h' : packet'.Writable) (same : packet.written = packet'.written) : packet = packet' := by
  have hdecode := decode_written h
  rw [same, decode_written h'] at hdecode
  simpa using hdecode.symm

/-- The validator accepts every writable packet. -/
theorem validatePacket_written {packet : TextPacket} (h : packet.Writable) :
    validatePacket packet.written = .ok true :=
  validatePacket_frame (by rw [highNibble_first h]; exact packet.kind_defined) h.short

end ProtocolFuzzer.MQTT
