/-
# The field rules of MQTT 3.1.1

Which contents a field may have: topic names and topic filters, the DUP flag, packet
identifiers, and empty client ids. The generator draws the fields one by one, while
the rules tie them together, so a packet it calls valid need not obey them. The module
states the rules on decoded packets and finds the draws under which they hold.
-/

import ProtocolFuzzer.Protocols.MQTT.Generation

namespace ProtocolFuzzer.MQTT

open Math Platform

/-- The levels of a topic are separated by slashes. -/
def levels (text : List UInt8) : List (List UInt8) := text.splitOn 0x2F

/-- A topic name is not empty and has no wildcard. -/
def TopicName (text : List UInt8) : Prop := text ≠ [] ∧ 0x2B ∉ text ∧ 0x23 ∉ text

/-- A topic filter is not empty, a wildcard is alone in its level, and the multi-level
wildcard is in the last level. -/
def TopicFilter (text : List UInt8) : Prop :=
  text ≠ [] ∧ (∀ level ∈ levels text, 0x2B ∈ level → level = [0x2B]) ∧
    (∀ level ∈ levels text, 0x23 ∈ level → level = [0x23]) ∧
    ∀ level ∈ (levels text).dropLast, 0x23 ∉ level

instance (text : List UInt8) : Decidable (TopicName text) :=
  inferInstanceAs (Decidable (_ ∧ _))

instance (text : List UInt8) : Decidable (TopicFilter text) :=
  inferInstanceAs (Decidable (_ ∧ _))

/-- The rules a packet has to obey beyond its layout. -/
def Packet.ObeysFieldRules : TextPacket → Prop
  | .connect fields => fields.clientId = [] → fields.cleanSession = true
  | .publish fields =>
    TopicName fields.topic ∧ (fields.qos = 0 → fields.dup = false) ∧
      (fields.qos ≠ 0 → ∃ packetId, fields.packetId = some packetId ∧ packetId ≠ 0)
  | .subscribe packetId filters =>
    packetId ≠ 0 ∧ ∀ entry ∈ filters, TopicFilter entry.1
  | .pingreq => True

/-- Some character of a random segment is a `+`. -/
def DrawsPlus (chars : List ℕ) : Prop := ∃ c ∈ chars, c % 40 = 38

/-- Some character of a random segment is a `#`. -/
def DrawsHash (chars : List ℕ) : Prop := ∃ c ∈ chars, c % 40 = 39

/-- The corpus has two topics with wildcards and the empty topic. -/
def TopicDraw.PicksName : TopicDraw → Prop
  | .corpus idx => idx % 9 ≠ 5 ∧ idx % 9 ≠ 6 ∧ idx % 9 ≠ 8
  | .random segments => ∀ chars ∈ segments, ¬ DrawsPlus chars ∧ ¬ DrawsHash chars

/-- As filters, all corpus topics but the empty one are fine. -/
def TopicDraw.PicksFilter : TopicDraw → Prop
  | .corpus idx => idx % 9 ≠ 8
  | .random segments =>
    (∀ chars ∈ segments, DrawsPlus chars ∨ DrawsHash chars → chars.length = 1) ∧
      ∀ chars ∈ segments.dropLast, ¬ DrawsHash chars

/-- The empty client id of the corpus is picked. -/
def ClientIdDraw.PicksEmpty : ClientIdDraw → Prop
  | .corpus idx => idx % 5 = 3
  | .random _ => False

/-- The draws that lead to a packet within the field rules. -/
def Packet.DrawnWithinRules : DrawnPacket → Prop
  | .connect fields => fields.clientId.PicksEmpty → fields.cleanSession = true
  | .publish fields =>
    fields.topic.PicksName ∧ (fields.dup = true → fields.qos ≠ 0) ∧ fields.packetId ≠ some 0
  | .subscribe packetId filters =>
    packetId ≠ 0 ∧ ∀ entry ∈ filters, entry.1.PicksFilter
  | .pingreq => True

theorem pick_topicCharset (c : ℕ) :
    (pick topicCharset topicCharset_pos c = 0x2B ↔ c % 40 = 38) ∧
      (pick topicCharset topicCharset_pos c = 0x23 ↔ c % 40 = 39) ∧
      pick topicCharset topicCharset_pos c ≠ 0x2F := by
  have checked : ∀ i : Fin topicCharset.length,
      (topicCharset.get i = 0x2B ↔ i.val = 38) ∧ (topicCharset.get i = 0x23 ↔ i.val = 39) ∧
        topicCharset.get i ≠ 0x2F := by decide +kernel
  exact checked ⟨c % topicCharset.length, Nat.mod_lt _ (by decide)⟩

theorem pick_topicCorpus (idx : ℕ) :
    (TopicName (pick topicCorpus topicCorpus_pos idx) ↔
        idx % 9 ≠ 5 ∧ idx % 9 ≠ 6 ∧ idx % 9 ≠ 8) ∧
      (TopicFilter (pick topicCorpus topicCorpus_pos idx) ↔ idx % 9 ≠ 8) := by
  have checked : ∀ i : Fin topicCorpus.length,
      (TopicName (topicCorpus.get i) ↔ i.val ≠ 5 ∧ i.val ≠ 6 ∧ i.val ≠ 8) ∧
        (TopicFilter (topicCorpus.get i) ↔ i.val ≠ 8) := by decide +kernel
  exact checked ⟨idx % topicCorpus.length, Nat.mod_lt _ (by decide)⟩

theorem pick_clientIdCorpus (idx : ℕ) :
    pick clientIdCorpus clientIdCorpus_pos idx = [] ↔ idx % 5 = 3 := by
  have checked : ∀ i : Fin clientIdCorpus.length,
      clientIdCorpus.get i = [] ↔ i.val = 3 := by decide +kernel
  exact checked ⟨idx % clientIdCorpus.length, Nat.mod_lt _ (by decide)⟩

theorem plus_mem_segmentText {chars : List ℕ} : 0x2B ∈ segmentText chars ↔ DrawsPlus chars := by
  rw [segmentText, List.mem_map, DrawsPlus]
  exact exists_congr fun c => and_congr_right fun _ => (pick_topicCharset c).1

theorem hash_mem_segmentText {chars : List ℕ} : 0x23 ∈ segmentText chars ↔ DrawsHash chars := by
  rw [segmentText, List.mem_map, DrawsHash]
  exact exists_congr fun c => and_congr_right fun _ => (pick_topicCharset c).2.1

theorem slash_not_mem_segmentText (chars : List ℕ) : 0x2F ∉ segmentText chars := by
  rw [segmentText, List.mem_map]
  rintro ⟨c, -, hc⟩
  exact (pick_topicCharset c).2.2 hc

theorem mem_intercalate_iff {α : Type} {x : α} {sep : List α} (hx : x ∉ sep)
    {parts : List (List α)} : x ∈ sep.intercalate parts ↔ ∃ part ∈ parts, x ∈ part := by
  induction parts with
  | nil => simp
  | cons part parts ih =>
      by_cases hparts : parts = []
      · simp [hparts]
      · rw [List.intercalate_cons_of_ne_nil hparts]
        simp [hx, ih]

/-- The levels of a random topic are its segments. -/
theorem levels_random {segments : List (List ℕ)} (hne : segments ≠ []) :
    levels (TopicDraw.random segments).text = segments.map segmentText := by
  refine List.splitOn_intercalate 0x2F ?_ (by simpa using hne)
  rw [List.forall_mem_map]
  exact fun chars _ => slash_not_mem_segmentText chars

/-- A letter other than the separator is in a topic when it is in a segment. -/
theorem mem_random_iff {x : UInt8} (hx : x ≠ 0x2F) {segments : List (List ℕ)} :
    x ∈ (TopicDraw.random segments).text ↔ ∃ chars ∈ segments, x ∈ segmentText chars := by
  have hsep : x ∉ utf8 "/" := fun hmem => hx (List.mem_singleton.mp hmem)
  rw [TopicDraw.text, mem_intercalate_iff hsep]
  simp only [List.mem_map, exists_exists_and_eq_and]

theorem random_ne_nil {segments : List (List ℕ)} (hne : segments ≠ [])
    (hchars : ∀ chars ∈ segments, chars ≠ [] ∧ chars.length ≤ 50) :
    (TopicDraw.random segments).text ≠ [] := by
  intro hnil
  have hlevels := levels_random hne
  rw [hnil] at hlevels
  obtain ⟨chars, rest, rfl⟩ := List.exists_cons_of_ne_nil hne
  have hhead : segmentText chars = [] := (List.cons.inj hlevels).1.symm
  exact (hchars chars List.mem_cons_self).1 (List.map_eq_nil_iff.mp hhead)

/-- A segment with a wildcard is the wildcard alone exactly when it has one letter. -/
theorem segmentText_eq_singleton {x : UInt8} {chars : List ℕ} (hx : x ∈ segmentText chars) :
    segmentText chars = [x] ↔ chars.length = 1 := by
  constructor
  · intro halone
    simpa [segmentText] using congrArg List.length halone
  · intro hlength
    obtain ⟨c, rfl⟩ := List.length_eq_one_iff.mp hlength
    rw [List.mem_singleton.mp hx]
    rfl

theorem topicName_text_iff {topic : TopicDraw} (h : topic.Drawn) :
    TopicName topic.text ↔ topic.PicksName := by
  cases topic with
  | corpus idx => exact (pick_topicCorpus idx).1
  | random segments =>
      rw [TopicName, mem_random_iff (by decide), mem_random_iff (by decide),
        TopicDraw.PicksName]
      simp only [plus_mem_segmentText, hash_mem_segmentText]
      constructor
      · rintro ⟨-, hplus, hhash⟩ chars hmem
        exact ⟨fun hc => hplus ⟨chars, hmem, hc⟩, fun hc => hhash ⟨chars, hmem, hc⟩⟩
      · intro hnone
        exact ⟨random_ne_nil h.1 h.2.2, fun ⟨chars, hmem, hc⟩ => (hnone chars hmem).1 hc,
          fun ⟨chars, hmem, hc⟩ => (hnone chars hmem).2 hc⟩

theorem topicFilter_text_iff {topic : TopicDraw} (h : topic.Drawn) :
    TopicFilter topic.text ↔ topic.PicksFilter := by
  cases topic with
  | corpus idx => exact (pick_topicCorpus idx).2
  | random segments =>
      have hplusAlone : ∀ chars, (DrawsPlus chars → segmentText chars = [0x2B]) ↔
          (DrawsPlus chars → chars.length = 1) := fun chars =>
        imp_congr_right fun hc => segmentText_eq_singleton (plus_mem_segmentText.mpr hc)
      have hhashAlone : ∀ chars, (DrawsHash chars → segmentText chars = [0x23]) ↔
          (DrawsHash chars → chars.length = 1) := fun chars =>
        imp_congr_right fun hc => segmentText_eq_singleton (hash_mem_segmentText.mpr hc)
      rw [TopicFilter, levels_random h.1, ← List.map_dropLast, TopicDraw.PicksFilter]
      simp only [List.forall_mem_map, plus_mem_segmentText, hash_mem_segmentText, hplusAlone,
        hhashAlone]
      constructor
      · rintro ⟨-, hplus, hhash, hlast⟩
        exact ⟨fun chars hmem hwild => hwild.elim (hplus chars hmem) (hhash chars hmem), hlast⟩
      · rintro ⟨hwild, hlast⟩
        exact ⟨random_ne_nil h.1 h.2.2, fun chars hmem hc => hwild chars hmem (.inl hc),
          fun chars hmem hc => hwild chars hmem (.inr hc), hlast⟩

theorem clientId_text_eq_nil {clientId : ClientIdDraw} (h : clientId.Drawn) :
    clientId.text = [] ↔ clientId.PicksEmpty := by
  cases clientId with
  | corpus idx => exact pick_clientIdCorpus idx
  | random chars =>
      rw [ClientIdDraw.text, List.map_eq_nil_iff]
      exact ⟨fun hnil => h.1 hnil, False.elim⟩

/-- A rendered packet obeys the field rules exactly for the draws within the rules. -/
theorem obeysFieldRules_render_iff {drawn : DrawnPacket} (h : drawn.Drawn) :
    (Packet.render drawn).ObeysFieldRules ↔ drawn.DrawnWithinRules := by
  cases drawn with
  | connect fields => exact imp_congr_left (clientId_text_eq_nil h.2.1)
  | publish fields =>
      obtain ⟨topic, qos, dup, retain, packetId, payload⟩ := fields
      obtain ⟨htopic, -, -, hid⟩ := h
      refine and_congr (topicName_text_iff htopic) (and_congr ?_ ?_)
      · change (qos = 0 → dup = false) ↔ (dup = true → qos ≠ 0)
        cases dup <;> simp
      · change (qos ≠ 0 → ∃ id, packetId = some id ∧ id ≠ 0) ↔ packetId ≠ some 0
        cases packetId with
        | none => simpa using hid
        | some id =>
            have hqos : qos ≠ 0 := hid.mp rfl
            simp [hqos]
  | subscribe packetId filters =>
      apply and_congr_right
      intro _
      rw [List.forall_mem_map]
      exact forall₂_congr fun entry hmem => topicFilter_text_iff (h.2.2 entry hmem)
  | pingreq => exact Iff.rfl

variable {σ : Type} [DrawSource σ]

/-- The generated packet obeys the field rules exactly when the draws are within them. -/
theorem generateValidPacket_obeysFieldRules_iff (s : σ) :
    (∃ packet, decode (generateValidPacket.run s).1 = some (packet, []) ∧
        packet.ObeysFieldRules) ↔ (packetDraws.run s).1.DrawnWithinRules := by
  have hdecode : decode (generateValidPacket.run s).1 =
      some (Packet.render (packetDraws.run s).1, []) := by
    rw [generateValidPacket_eq]
    exact decode_written (packetDraws_drawn s).writable
  rw [hdecode, ← obeysFieldRules_render_iff (packetDraws_drawn s)]
  simp

/-- A seed for a PUBLISH packet with the empty topic of the corpus. -/
def emptyTopicSeed : Unstructured := { data := [1, 1, 8] }

/-- The generator calls a packet valid that has an empty topic. -/
theorem generateValidPacket_breaks_fieldRules :
    (generateValidPacket.run emptyTopicSeed).1 = [0x30, 0x02, 0x00, 0x00] ∧
      ¬ ∃ packet, decode (generateValidPacket.run emptyTopicSeed).1 = some (packet, []) ∧
        packet.ObeysFieldRules := by
  have hpacket : (generateValidPacket.run emptyTopicSeed).1 = [0x30, 0x02, 0x00, 0x00] := by
    decide +kernel
  refine ⟨hpacket, ?_⟩
  rintro ⟨packet, hdecode, hobeys⟩
  have hfields : decode [0x30, 0x02, 0x00, 0x00] = some (.publish {
      topic := [], qos := 0, dup := false, retain := false, packetId := none, payload := [] },
      []) := by
    decide +kernel
  rw [hpacket, hfields] at hdecode
  obtain ⟨rfl, -⟩ := Prod.mk.inj (Option.some.inj hdecode)
  exact hobeys.1.1 rfl

end ProtocolFuzzer.MQTT
