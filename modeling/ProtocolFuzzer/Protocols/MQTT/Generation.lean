/-
# What the MQTT generator chooses

The generators draw and write in one pass. This module separates the two: `packetDraws`
makes the draws of `generateValidPacket`, in the same order, and returns them as a packet
whose texts are still draws; writing the rendered packet gives the generator's bytes.
Every rendered packet respects the limits of its byte form, so the reference decoder
recovers exactly what was chosen.
-/

import ProtocolFuzzer.Protocols.MQTT.Layout

namespace ProtocolFuzzer.MQTT

open Math Platform

/-- How a client id was chosen: a corpus entry, or drawn characters. -/
inductive ClientIdDraw
  | corpus (idx : ℕ)
  | random (chars : List ℕ)

/-- How a topic was chosen: a corpus entry, or segments of drawn characters. -/
inductive TopicDraw
  | corpus (idx : ℕ)
  | random (segments : List (List ℕ))

def ClientIdDraw.text : ClientIdDraw → List UInt8
  | .corpus idx => pick clientIdCorpus clientIdCorpus_pos idx
  | .random chars => chars.map (pick clientIdCharset clientIdCharset_pos)

/-- The characters of one random segment. -/
def segmentText (chars : List ℕ) : List UInt8 := chars.map (pick topicCharset topicCharset_pos)

def TopicDraw.text : TopicDraw → List UInt8
  | .corpus idx => pick topicCorpus topicCorpus_pos idx
  | .random segments => (utf8 "/").intercalate (segments.map segmentText)

/-- A packet before its texts are rendered. -/
abbrev DrawnPacket := Packet ClientIdDraw TopicDraw

def renderFilter (entry : TopicDraw × UInt8) : List UInt8 × UInt8 := (entry.1.text, entry.2)

/-- Render the texts of a drawn packet. -/
def Packet.render : DrawnPacket → TextPacket
  | .connect fields => .connect { fields with clientId := fields.clientId.text }
  | .publish fields => .publish { fields with topic := fields.topic.text }
  | .subscribe packetId filters =>
    .subscribe packetId (filters.map renderFilter)
  | .pingreq => .pingreq

variable {σ : Type} [DrawSource σ]

def segmentDraw : Gen σ (List ℕ) := do
  let segmentLen := (← usizeOr 5) % 50 + 1
  replicateDraw segmentLen (usizeOr 0)

def randomTopicDraw : Gen σ TopicDraw := do
  let segmentCount := (← usizeOr 2) % 10 + 1
  let segments ← replicateDraw segmentCount segmentDraw
  pure (.random segments)

def topicDraw : Gen σ TopicDraw := do
  if (← boolOr false) && !topicCorpus.isEmpty then
    let idx ← usizeOr 0
    pure (.corpus idx)
  else
    randomTopicDraw

def randomClientIdDraw : Gen σ ClientIdDraw := do
  let len := (← usizeOr 10) % 100 + 1
  let chars ← replicateDraw len (usizeOr 0)
  pure (.random chars)

def clientIdDraw : Gen σ ClientIdDraw := do
  if (← boolOr false) && !clientIdCorpus.isEmpty then
    let idx ← usizeOr 0
    pure (.corpus idx)
  else
    randomClientIdDraw

def connectDraws : Gen σ DrawnPacket := do
  let clientId ← clientIdDraw
  let keepAlive ← u16Or 60
  let cleanSession ← boolOr true
  pure (.connect {
    protocolName := utf8 "MQTT", protocolLevel := 4, cleanSession, keepAlive, clientId
    will := none, userName := none, password := none })

def publishDraws : Gen σ DrawnPacket := do
  let topic ← topicDraw
  let payload ← selectPayload
  let qos := QoS.ofDraw (← u8Or 0)
  let retain ← boolOr false
  let dup ← boolOr false
  if qos ≠ .atMostOnce then
    let packetId ← u16Or 1
    pure (.publish { topic, qos := qos.toU8, dup, retain, packetId := some packetId, payload })
  else
    pure (.publish { topic, qos := qos.toU8, dup, retain, packetId := none, payload })

/-- Each chosen filter gets its own drawn QoS, after all filters were chosen. -/
def subscriptionDraw (topic : TopicDraw) : Gen σ (TopicDraw × UInt8) := do
  let qos := (← u8Or 0) % 3
  pure (topic, qos)

def subscribeDraws : Gen σ DrawnPacket := do
  let packetId ← u16Or 1
  let subscriptionCount := (← usizeOr 1) % 10 + 1
  let topics ← replicateDraw subscriptionCount topicDraw
  let filters ← drawAlong subscriptionDraw topics
  pure (.subscribe packetId filters)

/-- The choices of `generateValidPacket`. -/
def packetDraws : Gen σ DrawnPacket := do
  let packetType := (← u8Or 0) % 4
  match packetType with
  | 0 => connectDraws
  | 1 => publishDraws
  | 2 => subscribeDraws
  | _ => pure .pingreq

theorem encodeRemainingLength_eq (packet : List UInt8) (n : ℕ) :
    encodeRemainingLength packet n = packet ++ Base128.encode n := by
  induction n using Nat.strongRecOn generalizing packet with
  | ind n ih =>
      rw [encodeRemainingLength, Base128.encode]
      by_cases more : n / 128 > 0
      · rw [if_pos more, if_neg (Nat.pos_iff_ne_zero.mp more), ih (n / 128) (by omega)]
        simp
      · rw [if_neg more, if_pos (Nat.eq_zero_of_not_pos more)]

/-- A frame, with the length of its body computed in another way. -/
theorem frame_of_length {first : UInt8} {body : List UInt8} {n : ℕ} (h : body.length = n) :
    frame first body = encodeRemainingLength [first] n ++ body := by
  rw [frame, encodeRemainingLength_eq, h]

theorem selectTopic_eq : (selectTopic : Gen σ (List UInt8)) = TopicDraw.text <$> topicDraw := by
  have hsegment : (generateTopicSegment : Gen σ (List UInt8)) = segmentText <$> segmentDraw := by
    rw [generateTopicSegment, segmentDraw, map_bind]
    apply bind_congr
    intro len
    exact replicateDraw_map (pick topicCharset topicCharset_pos) (usizeOr 0) _
  have hrandom : (generateRandomTopic : Gen σ (List UInt8)) =
      TopicDraw.text <$> randomTopicDraw := by
    rw [generateRandomTopic, randomTopicDraw, map_bind]
    apply bind_congr
    intro count
    simp only [hsegment, replicateDraw_map]
    simp only [map_eq_pure_bind, bind_assoc, pure_bind, TopicDraw.text]
  rw [selectTopic, topicDraw]
  exact corpusOr_eq_map (fun idx => rfl) hrandom

theorem selectClientId_eq :
    (selectClientId : Gen σ (List UInt8)) = ClientIdDraw.text <$> clientIdDraw := by
  have hrandom : (generateRandomClientId : Gen σ (List UInt8)) =
      ClientIdDraw.text <$> randomClientIdDraw := by
    rw [generateRandomClientId, randomClientIdDraw, map_bind]
    apply bind_congr
    intro len
    apply (replicateDraw_map (pick clientIdCharset clientIdCharset_pos) (usizeOr 0) _).trans
    simp only [map_eq_pure_bind, bind_assoc, pure_bind, ClientIdDraw.text]
  rw [selectClientId, clientIdDraw]
  exact corpusOr_eq_map (fun idx => rfl) hrandom

theorem generateConnectPacket_eq :
    (generateConnectPacket : Gen σ (List UInt8)) =
      (fun drawn => (Packet.render drawn).written) <$> connectDraws := by
  rw [generateConnectPacket, connectDraws, selectClientId_eq, map_bind, bind_map_left]
  apply bind_congr
  intro clientId
  rw [map_bind]
  apply bind_congr
  intro keepAlive
  rw [map_bind]
  apply bind_congr
  intro cleanSession
  rw [map_pure]
  refine congrArg pure (Eq.symm ?_)
  refine (frame_of_length (n := 2 + (utf8 "MQTT").length + 1 + 1 + 2 +
    (2 + clientId.text.length)) ?_).trans ?_
  · apply (length_connectBody _).trans
    change (utf8 "MQTT").length + clientId.text.length + 8 = _
    omega
  · simp only [Packet.render, Packet.first, Packet.body, connectBody, writeText,
      List.append_assoc]

theorem generatePublishPacket_eq :
    (generatePublishPacket : Gen σ (List UInt8)) =
      (fun drawn => (Packet.render drawn).written) <$> publishDraws := by
  rw [generatePublishPacket, publishDraws, selectTopic_eq, map_bind, bind_map_left]
  apply bind_congr
  intro topic
  rw [map_bind]
  apply bind_congr
  intro payload
  rw [map_bind]
  apply bind_congr
  intro level
  rw [map_bind]
  apply bind_congr
  intro retain
  rw [map_bind]
  apply bind_congr
  intro dup
  by_cases hqos : QoS.ofDraw level ≠ .atMostOnce
  · simp only [if_pos hqos]
    rw [map_bind]
    apply bind_congr
    intro packetId
    rw [map_pure]
    refine congrArg pure (Eq.symm ?_)
    refine (frame_of_length (n := 2 + topic.text.length + payload.length + 2) ?_).trans ?_
    · simp only [Packet.render, Packet.body, publishBody, Option.elim, writeText,
        List.length_append, length_toBE16]
      omega
    · simp only [Packet.render, Packet.first, Packet.body, publishBody, publishFirst,
        Option.elim, writeText, List.append_assoc]
  · simp only [if_neg hqos]
    rw [map_pure]
    refine congrArg pure (Eq.symm ?_)
    refine (frame_of_length (n := 2 + topic.text.length + payload.length) ?_).trans ?_
    · simp only [Packet.render, Packet.body, publishBody, Option.elim, writeText,
        List.length_append, length_toBE16, List.length_nil]
      omega
    · simp only [Packet.render, Packet.first, Packet.body, publishBody, publishFirst,
        Option.elim, writeText, List.append_assoc, List.nil_append]

/-- Writing the subscriptions while drawing their QoS bytes is drawing all QoS bytes
and then writing. -/
theorem writeSubscriptions_eq (topics : List TopicDraw) (packet : List UInt8) :
    (writeSubscriptions (topics.map TopicDraw.text) packet : Gen σ (List UInt8)) =
      (fun filters => packet ++ (filters.map renderFilter).flatMap writeSubscription) <$>
        drawAlong subscriptionDraw topics := by
  induction topics generalizing packet with
  | nil => simp [writeSubscriptions, drawAlong]
  | cons topic topics ih =>
      rw [List.map_cons, writeSubscriptions, drawAlong, subscriptionDraw]
      simp only [bind_assoc, pure_bind, ih, map_eq_pure_bind]
      apply bind_congr
      intro level
      apply bind_congr
      intro filters
      simp only [List.map_cons, List.flatMap_cons, renderFilter, writeSubscription, writeText,
        List.append_assoc]

theorem drawAlong_subscriptionDraw (topics : List TopicDraw) :
    Always (drawAlong subscriptionDraw topics : Gen σ _) fun filters =>
      filters.map Prod.fst = topics ∧ ∀ entry ∈ filters, entry.2.toNat < 3 := by
  have hentry : ∀ topic, Always (subscriptionDraw topic : Gen σ _) fun entry =>
      entry.1 = topic ∧ entry.2.toNat < 3 := fun topic =>
    Always.bind (always_true _) fun level _ => always_pure ⟨rfl, by
      rw [UInt8.toNat_mod]
      exact Nat.mod_lt _ (by decide)⟩
  refine (Always.along hentry topics).mono fun filters h => ?_
  induction h with
  | nil => simp
  | cons hhead _ ih => simpa [hhead.1, hhead.2] using ih

/-- The length a SUBSCRIBE packet announces is the length of its body. -/
theorem length_subscribeBody (packetId : UInt16) (filters : List (List UInt8 × UInt8)) :
    (subscribeBody packetId filters).length =
      (filters.map Prod.fst).foldl (fun len topic => len + (2 + topic.length + 1)) 2 := by
  have hfold : ∀ start, start + (filters.flatMap writeSubscription).length =
      (filters.map Prod.fst).foldl (fun len topic => len + (2 + topic.length + 1)) start := by
    induction filters with
    | nil => exact fun start => rfl
    | cons entry filters ih =>
        intro start
        rw [List.map_cons, List.foldl_cons, ← ih, List.flatMap_cons]
        simp only [writeSubscription, writeText, List.length_append, length_toBE16,
          List.length_singleton]
        omega
  rw [subscribeBody, List.length_append, length_toBE16, hfold]

theorem generateSubscribePacket_eq :
    (generateSubscribePacket : Gen σ (List UInt8)) =
      (fun drawn => (Packet.render drawn).written) <$> subscribeDraws := by
  rw [generateSubscribePacket, subscribeDraws, map_bind]
  apply bind_congr
  intro packetId
  rw [map_bind]
  apply bind_congr
  intro count
  simp only [selectTopic_eq, replicateDraw_map, bind_map_left, map_bind, map_pure,
    writeSubscriptions_eq]
  apply bind_congr
  intro topics
  rw [bind_pure_comp]
  refine ((drawAlong_subscriptionDraw topics).mono fun filters h => ?_).map_congr
  have hlength : (subscribeBody packetId (filters.map renderFilter)).length =
      (topics.map TopicDraw.text).foldl (fun len topic => len + (2 + topic.length + 1)) 2 := by
    rw [length_subscribeBody, ← h.1, List.map_map, List.map_map]
    rfl
  refine (Eq.trans (frame_of_length hlength) ?_).symm
  rw [subscribeBody, List.append_assoc]
  rfl

/-- Generating a packet is making its choices and writing it. -/
theorem generateValidPacket_eq :
    (generateValidPacket : Gen σ (List UInt8)) =
      (fun drawn => (Packet.render drawn).written) <$> packetDraws := by
  rw [generateValidPacket, packetDraws, map_bind]
  apply bind_congr
  intro packetType
  dsimp only
  generalize packetType % 4 = kind
  have hpingreq : (pure [0xC0, 0x00] : Gen σ (List UInt8)) =
      (fun drawn => (Packet.render drawn).written) <$> pure .pingreq := by
    rw [map_pure, Packet.render, Packet.written, Packet.body, frame, List.length_nil,
      Base128.encode]
    rfl
  by_cases connect : kind = 0
  · subst connect
    exact generateConnectPacket_eq
  by_cases publish : kind = 1
  · subst publish
    exact generatePublishPacket_eq
  by_cases subscribe : kind = 2
  · subst subscribe
    exact generateSubscribePacket_eq
  simpa [connect, publish, subscribe] using hpingreq

/-! ## The limits hold whatever is drawn -/

theorem length_intercalate_le {sep : List UInt8} {bound : ℕ} {segments : List (List UInt8)}
    (hsep : sep.length ≤ 1) (h : ∀ segment ∈ segments, segment.length ≤ bound) :
    (sep.intercalate segments).length ≤ segments.length * (bound + 1) := by
  induction segments with
  | nil => simp
  | cons segment segments ih =>
      have hhead := h segment List.mem_cons_self
      have htail := ih fun other hmem => h other (List.mem_cons_of_mem _ hmem)
      cases segments with
      | nil =>
          rw [List.intercalate_singleton, List.length_singleton]
          omega
      | cons next segments =>
          rw [List.intercalate_cons_cons, List.length_append, List.length_append,
            List.length_cons, Nat.succ_mul]
          omega

/-- Subscriptions with short filters have short byte forms. -/
theorem length_flatMap_le {bound : ℕ} {filters : List (List UInt8 × UInt8)}
    (h : ∀ entry ∈ filters, entry.1.length ≤ bound) :
    (filters.flatMap writeSubscription).length ≤ filters.length * (bound + 3) := by
  induction filters with
  | nil => simp
  | cons entry filters ih =>
      have hhead := h entry List.mem_cons_self
      have htail := ih fun other hmem => h other (List.mem_cons_of_mem _ hmem)
      rw [List.flatMap_cons, List.length_append, List.length_cons, Nat.succ_mul]
      simp only [writeSubscription, writeText, List.length_append, length_toBE16,
        List.length_singleton]
      omega

/-- What the draws guarantee of a topic. -/
def TopicDraw.Drawn : TopicDraw → Prop
  | .corpus _ => True
  | .random segments => segments ≠ [] ∧ segments.length ≤ 10 ∧
    ∀ chars ∈ segments, chars ≠ [] ∧ chars.length ≤ 50

/-- What the draws guarantee of a client id. -/
def ClientIdDraw.Drawn : ClientIdDraw → Prop
  | .corpus _ => True
  | .random chars => chars ≠ [] ∧ chars.length ≤ 100

/-- What the draws guarantee of a packet. -/
def Packet.Drawn : DrawnPacket → Prop
  | .connect fields =>
    fields.protocolName = utf8 "MQTT" ∧ fields.clientId.Drawn ∧ fields.will = none ∧
      fields.userName = none ∧ fields.password = none
  | .publish fields =>
    fields.topic.Drawn ∧ fields.payload.length < 10000 ∧ fields.qos.toNat < 3 ∧
      (fields.packetId.isSome ↔ fields.qos ≠ 0)
  | .subscribe _ filters =>
    filters ≠ [] ∧ filters.length ≤ 10 ∧ ∀ entry ∈ filters, entry.1.Drawn
  | .pingreq => True

theorem topicDraw_drawn : Always (topicDraw : Gen σ TopicDraw) TopicDraw.Drawn := by
  have hsegment : Always (segmentDraw : Gen σ (List ℕ)) fun chars =>
      chars ≠ [] ∧ chars.length ≤ 50 :=
    Always.bind (always_true _) fun len _ => ((always_true _).replicate _).mono fun chars h => by
      have hlen := Nat.mod_lt len (show 50 > 0 by decide)
      exact ⟨List.ne_nil_of_length_pos (by omega), by omega⟩
  refine Always.bind (always_true _) fun useCorpus _ => ?_
  split_ifs
  · exact Always.bind (always_true _) fun idx _ => always_pure trivial
  · refine Always.bind (always_true _) fun count _ =>
      Always.bind (hsegment.replicate _) fun segments h => always_pure ?_
    have hcount := Nat.mod_lt count (show 10 > 0 by decide)
    exact ⟨List.ne_nil_of_length_pos (by omega), by omega, h.2⟩

theorem clientIdDraw_drawn : Always (clientIdDraw : Gen σ ClientIdDraw) ClientIdDraw.Drawn := by
  refine Always.bind (always_true _) fun useCorpus _ => ?_
  split_ifs
  · exact Always.bind (always_true _) fun idx _ => always_pure trivial
  · refine Always.bind (always_true _) fun len _ =>
      Always.bind ((always_true _).replicate _) fun chars h => always_pure ?_
    have hlen := Nat.mod_lt len (show 100 > 0 by decide)
    exact ⟨List.ne_nil_of_length_pos (by omega), by omega⟩

theorem selectPayload_short :
    Always (selectPayload : Gen σ (List UInt8)) fun payload => payload.length < 10000 := by
  have hcorpus : ∀ payload ∈ payloadCorpus, payload.length < 10000 := by
    simp only [payloadCorpus, List.forall_mem_cons, List.length_replicate]
    decide
  refine Always.bind (always_true _) fun useCorpus _ => ?_
  split_ifs
  · exact Always.bind (always_true _) fun idx _ =>
      always_pure (hcorpus _ (pick_mem payloadCorpus payloadCorpus_pos idx))
  · refine Always.bind (always_true _) fun len _ =>
      ((always_true _).replicate _).mono fun payload h => ?_
    have hlen := Nat.mod_lt len (show 10000 > 0 by decide)
    omega

theorem toU8_ofDraw (level : UInt8) :
    (QoS.ofDraw level).toU8.toNat < 3 ∧
      ((QoS.ofDraw level).toU8 ≠ 0 ↔ QoS.ofDraw level ≠ .atMostOnce) := by
  cases QoS.ofDraw level <;> decide

theorem publishDraws_drawn : Always (publishDraws : Gen σ DrawnPacket) Packet.Drawn := by
  refine Always.bind topicDraw_drawn fun topic htopic =>
    Always.bind selectPayload_short fun payload hpayload =>
      Always.bind (always_true _) fun level _ => Always.bind (always_true _) fun retain _ =>
        Always.bind (always_true _) fun dup _ => ?_
  obtain ⟨hlevel, hid⟩ := toU8_ofDraw level
  split_ifs with hqos
  · exact Always.bind (always_true _) fun packetId _ =>
      always_pure ⟨htopic, hpayload, hlevel, by simpa using hid.mpr hqos⟩
  · exact always_pure ⟨htopic, hpayload, hlevel, by simpa using fun h => hqos (hid.mp h)⟩

theorem subscribeDraws_drawn : Always (subscribeDraws : Gen σ DrawnPacket) Packet.Drawn := by
  refine Always.bind (always_true _) fun packetId _ => Always.bind (always_true _) fun count _ =>
    Always.bind (topicDraw_drawn.replicate _) fun topics htopics =>
      Always.bind (drawAlong_subscriptionDraw topics) fun filters hfilters => always_pure ?_
  have hcount := Nat.mod_lt count (show 10 > 0 by decide)
  have hlength : filters.length = count % 10 + 1 := by
    rw [← htopics.1, ← hfilters.1, List.length_map]
  refine ⟨List.ne_nil_of_length_pos (by omega), by omega, fun entry hentry => ?_⟩
  apply htopics.2 entry.1
  rw [← hfilters.1]
  exact List.mem_map_of_mem hentry

theorem packetDraws_drawn : Always (packetDraws : Gen σ DrawnPacket) Packet.Drawn := by
  refine Always.bind (always_true _) fun packetType _ => ?_
  dsimp only
  split
  · exact Always.bind clientIdDraw_drawn fun clientId h => Always.bind (always_true _)
      fun keepAlive _ => Always.bind (always_true _) fun cleanSession _ =>
        always_pure ⟨rfl, h, rfl, rfl, rfl⟩
  · exact publishDraws_drawn
  · exact subscribeDraws_drawn
  · exact always_pure trivial

theorem TopicDraw.Drawn.text_short {topic : TopicDraw} (h : topic.Drawn) :
    topic.text.length ≤ 510 := by
  cases topic with
  | corpus idx =>
      have hcorpus : ∀ topic ∈ topicCorpus, topic.length ≤ 510 := by decide
      exact hcorpus _ (pick_mem topicCorpus topicCorpus_pos idx)
  | random segments =>
      obtain ⟨-, hcount, hsegment⟩ := h
      have hlength := @length_intercalate_le (utf8 "/") 50 (segments.map segmentText) (by decide)
        (by simpa [segmentText] using fun chars hmem => (hsegment chars hmem).2)
      rw [List.length_map] at hlength
      rw [TopicDraw.text]
      omega

theorem ClientIdDraw.Drawn.text_short {clientId : ClientIdDraw} (h : clientId.Drawn) :
    clientId.text.length ≤ 109 := by
  cases clientId with
  | corpus idx =>
      have hcorpus : ∀ clientId ∈ clientIdCorpus, clientId.length ≤ 109 := by decide
      exact hcorpus _ (pick_mem clientIdCorpus clientIdCorpus_pos idx)
  | random chars =>
      rw [ClientIdDraw.text, List.length_map]
      exact h.2.trans (by decide)

/-- The body of a drawn packet needs at most two length bytes. -/
theorem Packet.Drawn.body_short {drawn : DrawnPacket} (h : drawn.Drawn) :
    (Packet.render drawn).body.length < 128 ^ 2 := by
  rw [show 128 ^ 2 = 16384 from rfl]
  cases drawn with
  | connect fields =>
      have hclient := h.2.1.text_short
      have hname := congrArg List.length h.1
      rw [show (utf8 "MQTT").length = 4 by decide] at hname
      apply (length_connectBody _).trans_lt
      dsimp only
      omega
  | publish fields =>
      obtain ⟨htopic, hpayload, -, -⟩ := h
      have htext := htopic.text_short
      have hid : (fields.packetId.elim [] toBE16).length ≤ 2 := by
        cases fields.packetId <;> simp
      change (writeText fields.topic.text ++ fields.packetId.elim [] toBE16 ++
        fields.payload).length < 16384
      simp only [writeText, List.length_append, length_toBE16]
      omega
  | subscribe packetId filters =>
      obtain ⟨-, hcount, hfilters⟩ := h
      have hshort : ∀ entry ∈ filters.map renderFilter, entry.1.length ≤ 510 := by
        rw [List.forall_mem_map]
        exact fun entry hmem => (hfilters entry hmem).text_short
      have hbody := length_flatMap_le hshort
      rw [List.length_map] at hbody
      change (subscribeBody packetId (filters.map renderFilter)).length < 16384
      rw [subscribeBody, List.length_append, length_toBE16]
      omega
  | pingreq => decide

/-- Every rendered choice respects the limits of its byte form. -/
theorem Packet.Drawn.writable {drawn : DrawnPacket} (h : drawn.Drawn) :
    (Packet.render drawn).Writable where
  short := h.body_short.trans (by decide)
  faithful := by
    cases drawn with
    | connect fields =>
        obtain ⟨hname, hclient, hwill, huser, hpassword⟩ := h
        refine ⟨?_, hclient.text_short.trans_lt (by decide), hwill, huser, hpassword⟩
        rw [hname]
        decide
    | publish fields =>
        obtain ⟨htopic, -, hqos, hid⟩ := h
        exact ⟨htopic.text_short.trans_lt (by decide), hqos, hid⟩
    | subscribe packetId filters =>
        obtain ⟨-, -, hfilters⟩ := h
        change ∀ entry ∈ filters.map renderFilter, entry.1.length < 65536
        rw [List.forall_mem_map]
        exact fun entry hmem => (hfilters entry hmem).text_short.trans_lt (by decide)
    | pingreq => trivial

theorem Packet.Drawn.identifierMatchesQoS {drawn : DrawnPacket} (h : drawn.Drawn) :
    drawn.IdentifierMatchesQoS := by
  cases drawn with
  | publish fields => exact h.2.2.2
  | connect fields => trivial
  | subscribe packetId filters => trivial
  | pingreq => trivial

/-- Whatever is drawn, the generated packet is accepted by the validator, and the
reference decoder takes all of its bytes and returns the chosen fields. Making the
choices consumes the same draws as generating the packet. -/
theorem generateValidPacket_roundTrip (s : σ) :
    (generateValidPacket.run s).2 = (packetDraws.run s).2 ∧
      validatePacket (generateValidPacket.run s).1 = .ok true ∧
      decode (generateValidPacket.run s).1 =
        some (Packet.render (packetDraws.run s).1, []) ∧
      (packetDraws.run s).1.IdentifierMatchesQoS := by
  have hdrawn := packetDraws_drawn s
  rw [generateValidPacket_eq]
  exact ⟨rfl, validatePacket_written hdrawn.writable, decode_written hdrawn.writable,
    hdrawn.identifierMatchesQoS⟩

end ProtocolFuzzer.MQTT
