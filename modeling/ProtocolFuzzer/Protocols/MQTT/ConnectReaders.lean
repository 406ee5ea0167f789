/-
# The readers of CONNECT packets

Two functions look into CONNECT packets at fixed offsets: the feature extraction takes
bytes 10 and 11 for the length of the protocol name, and the first protocol violation looks
for the name itself at byte 9. No generated client id is long enough for a second length
byte, so in every generated packet the name begins at byte 4 with its length in front,
byte 9 holds the flags, and bytes 10 and 11 hold the keep-alive time.
-/

import ProtocolFuzzer.Protocols.MQTT.RemainingLength

namespace ProtocolFuzzer.MQTT

open Math Platform Coverage

/-- What the generator guarantees of a CONNECT packet. -/
structure ConnectFields.Generated (fields : ConnectFields (List UInt8)) : Prop where
  protocolName : fields.protocolName = utf8 "MQTT"
  clientId : fields.clientId.length ≤ 109
  plain : fields.will = none ∧ fields.userName = none ∧ fields.password = none

section Generated

variable {σ : Type} [DrawSource σ]

theorem connectDraws_generated :
    Always (connectDraws : Gen σ DrawnPacket) fun drawn =>
      ∃ fields, Packet.render drawn = .connect fields ∧ fields.Generated :=
  Always.bind clientIdDraw_drawn fun _ h => Always.bind (always_true _) fun _ _ =>
    Always.bind (always_true _) fun _ _ =>
      always_pure ⟨_, rfl, rfl, h.text_short, rfl, rfl, rfl⟩

theorem generateConnectPacket_written (s : σ) :
    ∃ fields : ConnectFields (List UInt8), fields.Generated ∧
      (generateConnectPacket.run s).1 = (Packet.connect fields : TextPacket).written := by
  obtain ⟨fields, hrender, hgenerated⟩ := connectDraws_generated s
  refine ⟨fields, hgenerated, ?_⟩
  rw [generateConnectPacket_eq, ← hrender]
  rfl

end Generated

variable {fields : ConnectFields (List UInt8)}

/-- A generated packet byte by byte, as far as the readers look. -/
theorem ConnectFields.Generated.written_eq (h : fields.Generated) :
    (Packet.connect fields : TextPacket).written =
      0x10 :: UInt8.ofNat (fields.clientId.length + 12) :: 0 :: 4 :: 77 :: 81 :: 84 :: 84 ::
        fields.protocolLevel :: (if fields.cleanSession then 0x02 else 0x00) ::
        (toBE16 fields.keepAlive ++ writeText fields.clientId) := by
  have hname : writeText fields.protocolName = [0, 4, 77, 81, 84, 84] := by
    rw [h.protocolName]
    decide
  have hlength : (connectBody fields).length = fields.clientId.length + 12 := by
    rw [length_connectBody, h.protocolName, show (utf8 "MQTT").length = 4 by decide]
    omega
  have hshort := h.clientId
  change frame 0x10 (connectBody fields) = _
  rw [frame, hlength, Base128.encode_of_lt (by omega), connectBody, hname]
  simp

/-- The feature meant to be the length of the protocol name is the keep-alive time. -/
theorem ConnectFields.Generated.extractFeatures_eq (h : fields.Generated) :
    ∃ features, extractFeatures (Packet.connect fields : TextPacket).written = .ok features ∧
      features[4]? = some fields.keepAlive.toNat := by
  rw [h.written_eq]
  obtain ⟨remaining, hscan⟩ := scanRemainingLength_returns
    (0x10 :: UInt8.ofNat (fields.clientId.length + 12) :: 0 :: 4 :: 77 :: 81 :: 84 :: 84 ::
      fields.protocolLevel :: (if fields.cleanSession then 0x02 else 0x00) ::
      (toBE16 fields.keepAlive ++ writeText fields.clientId)) 1 1 0
  refine ⟨_, extractFeatures_cons (by simp) hscan
    (show typeFeatures _ 1 _ = .ok [fields.keepAlive.toNat] from ?_), rfl⟩
  rw [typeFeatures, readWhen, if_pos (by simp), readWhen, if_pos (by simp)]
  conv_rhs => rw [← fromBE16_toBE16 fields.keepAlive]
  rfl

variable {τ : Type} [DrawSource τ]

/-- The violation of the protocol name does not find the name. -/
theorem ConnectFields.Generated.injectProtocolViolation_eq (h : fields.Generated) {t : τ}
    (violation : ((u8Or 0).run t).1 % 4 = 0) :
    CompletesFrom t (injectProtocolViolation (Packet.connect fields : TextPacket).written)
      (· = (Packet.connect fields : TextPacket).written) := by
  rw [h.written_eq, injectProtocolViolation]
  apply CompletesFrom.draw_bind
  rw [violation]
  dsimp only
  rw [if_pos (by simp)]
  apply CompletesFrom.lift_bind (a := 0x10) rfl
  rw [if_pos rfl]
  refine CompletesFrom.lift_bind (a := if fields.cleanSession then 0x02 else 0x00) rfl
    (CompletesFrom.lift_bind (index_of_lt (by simp)) ?_)
  rw [if_neg]
  · refine completes_pure ?_ _
    rfl
  · rintro ⟨hflags, -⟩
    revert hflags
    cases fields.cleanSession <;> decide

/-- The result is the packet with another protocol name of the same length, in which two
bytes are different. -/
def ConnectFields.Renamed (fields : ConnectFields (List UInt8)) (result : List UInt8) : Prop :=
  ∃ name : List UInt8, name.length = fields.protocolName.length ∧
    (name.zip fields.protocolName).countP (fun pair => pair.1 ≠ pair.2) = 2 ∧
    result = (Packet.connect { fields with protocolName := name } : TextPacket).written

/-- Both readers agree with the writer: the feature extraction reports the length of the
protocol name, and the violation from this source changes two bytes of the name. -/
structure ConnectFields.ReadersAgree (fields : ConnectFields (List UInt8)) (t : τ) : Prop where
  feature : ∃ features,
    extractFeatures (Packet.connect fields : TextPacket).written = .ok features ∧
      features[4]? = some fields.protocolName.length
  violation : CompletesFrom t
    (injectProtocolViolation (Packet.connect fields : TextPacket).written) fields.Renamed

theorem ConnectFields.Generated.writable (h : fields.Generated) {name : List UInt8}
    (hname : name.length = fields.protocolName.length) :
    (Packet.connect { fields with protocolName := name } : TextPacket).Writable where
  short := by
    have hclient := h.clientId
    apply (length_connectBody { fields with protocolName := name }).trans_lt
    rw [hname, h.protocolName, show (utf8 "MQTT").length = 4 by decide]
    dsimp only
    omega
  faithful := by
    refine ⟨?_, h.clientId.trans_lt (by decide), h.plain⟩
    dsimp only
    rw [hname, h.protocolName]
    decide

/-- A packet is no renamed form of itself. -/
theorem ConnectFields.Generated.not_renamed (h : fields.Generated) :
    ¬ fields.Renamed (Packet.connect fields : TextPacket).written := by
  rintro ⟨name, hname, hdifferent, same⟩
  have hself : (Packet.connect fields : TextPacket).Writable := h.writable rfl
  obtain rfl : fields.protocolName = name := by
    injection hself.written_inj (h.writable hname) same with hfields
    exact congrArg ConnectFields.protocolName hfields
  rw [h.protocolName] at hdifferent
  revert hdifferent
  decide

/-- For no draws do the readers agree with the writer. The reported feature is the keep-alive
time, so it is the length of the name only where the keep-alive time is 4; and the violation
of the protocol name never changes anything. -/
theorem connectReaders_disagree {σ : Type} [DrawSource σ] (s : σ) {t : τ}
    (violation : ((u8Or 0).run t).1 % 4 = 0) :
    ∃ fields : ConnectFields (List UInt8), fields.protocolName = utf8 "MQTT" ∧
      (generateConnectPacket.run s).1 = (Packet.connect fields : TextPacket).written ∧
      (∃ features,
        extractFeatures (Packet.connect fields : TextPacket).written = .ok features ∧
          features[4]? = some fields.keepAlive.toNat) ∧
      CompletesFrom t (injectProtocolViolation (Packet.connect fields : TextPacket).written)
        (· = (Packet.connect fields : TextPacket).written) ∧
      ¬ fields.ReadersAgree t := by
  obtain ⟨fields, hgenerated, hwritten⟩ := generateConnectPacket_written s
  have hviolation := hgenerated.injectProtocolViolation_eq violation
  refine ⟨fields, hgenerated.protocolName, hwritten, hgenerated.extractFeatures_eq, hviolation, ?_⟩
  exact fun agree => hgenerated.not_renamed (hviolation.iff_of_eq.mp agree.violation)

/-- The seed of zeros draws the client id `a` and the keep-alive time 0. -/
theorem connectReaders_disagree_zeros :
    ∃ fields : ConnectFields (List UInt8), fields.protocolName = utf8 "MQTT" ∧
      ¬ fields.ReadersAgree ({ data := [] } : Unstructured) := by
  obtain ⟨fields, hname, -, -, -, hdisagree⟩ :=
    connectReaders_disagree ({ data := [] } : Unstructured)
      (show ((u8Or 0).run ({ data := [] } : Unstructured)).1 % 4 = 0 by decide +kernel)
  exact ⟨fields, hname, hdisagree⟩

/-- The generated packet of the seed of zeros: the name is at bytes 4 to 7. -/
def zerosConnect : List UInt8 := [0x10, 13, 0, 4, 77, 81, 84, 84, 4, 0, 0, 0, 0, 1, 97]

/-- The feature extraction reports 0 for the length of the name, and the violation changes
nothing. -/
theorem connectReaders_zeros :
    (generateConnectPacket.run ({ data := [] } : Unstructured)).1 = zerosConnect ∧
      ((extractFeatures zerosConnect).map fun features => features[4]?) = .ok (some 0) ∧
      ((injectProtocolViolation zerosConnect).run ({ data := [] } : Unstructured)).map Prod.fst =
        .ok zerosConnect := by
  refine ⟨by decide +kernel, by decide +kernel, by decide +kernel⟩

end ProtocolFuzzer.MQTT
