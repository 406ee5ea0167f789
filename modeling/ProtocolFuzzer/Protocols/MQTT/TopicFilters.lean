/-
# The walk over topic filters

The pattern that corrupts topic filters starts to walk at byte 4, where the first filter of
a packet with one length byte begins. There every step of the walk finds the length of a
filter, zeroes one byte of its text and moves on to the next filter; only the text of an
empty filter has no byte, and its QoS is zeroed instead. In a packet with two length bytes
the walk starts one byte too early, and reads lengths that were never written.
-/

import Mathlib.Data.List.Forall2
import ProtocolFuzzer.Protocols.MQTT.FieldRules
import ProtocolFuzzer.Protocols.MQTT.Patterns

namespace ProtocolFuzzer.MQTT

open Math Platform

/-- What the generator guarantees of the filters of a SUBSCRIBE packet. -/
structure GeneratedFilters (filters : List (List UInt8 × UInt8)) : Prop where
  few : filters.length ≤ 10
  printable : ∀ entry ∈ filters, ∀ byte ∈ entry.1, 0x23 ≤ byte.toNat
  short : ∀ entry ∈ filters, entry.1.length ≤ 510
  qos : ∀ entry ∈ filters, entry.2.toNat < 3

/-- Topics are made of printable characters. -/
theorem TopicDraw.text_printable (topic : TopicDraw) : ∀ byte ∈ topic.text, 0x23 ≤ byte.toNat := by
  intro byte hbyte
  cases topic with
  | corpus idx =>
      have hcorpus : ∀ topic ∈ topicCorpus, ∀ byte ∈ topic, 0x23 ≤ byte.toNat := by
        decide +kernel
      exact hcorpus _ (pick_mem topicCorpus topicCorpus_pos idx) byte hbyte
  | random segments =>
      by_cases hslash : byte = 0x2F
      · rw [hslash]
        decide
      · have hcharset : ∀ byte ∈ topicCharset, 0x23 ≤ byte.toNat := by decide +kernel
        obtain ⟨chars, -, hchars⟩ := (mem_random_iff hslash).mp hbyte
        obtain ⟨char, -, rfl⟩ := List.mem_map.mp hchars
        exact hcharset _ (pick_mem topicCharset topicCharset_pos char)

section Generated

variable {σ : Type} [DrawSource σ]

theorem subscribeDraws_generated :
    Always (subscribeDraws : Gen σ DrawnPacket) fun drawn =>
      ∃ packetId filters, Packet.render drawn = .subscribe packetId filters ∧
        GeneratedFilters filters := by
  refine Always.bind (always_true _) fun packetId _ => Always.bind (always_true _) fun count _ =>
    Always.bind (topicDraw_drawn.replicate _) fun topics htopics =>
      Always.bind (drawAlong_subscriptionDraw topics) fun filters hfilters =>
        always_pure ⟨packetId, filters.map renderFilter, rfl, ?_⟩
  have hcount := Nat.mod_lt count (show 10 > 0 by decide)
  have htopic : ∀ entry ∈ filters, entry.1.Drawn := by
    intro entry hentry
    apply htopics.2 entry.1
    rw [← hfilters.1]
    exact List.mem_map_of_mem hentry
  refine ⟨?_, ?_, ?_, ?_⟩
  · rw [List.length_map, ← List.length_map (f := Prod.fst), hfilters.1, htopics.1]
    omega
  · exact List.forall_mem_map.mpr fun entry _ => entry.1.text_printable
  · exact List.forall_mem_map.mpr fun entry hentry => (htopic entry hentry).text_short
  · exact List.forall_mem_map.mpr fun entry hentry => hfilters.2 entry hentry

theorem generateSubscribePacket_written (s : σ) :
    ∃ packetId filters, GeneratedFilters filters ∧
      Packet.render (subscribeDraws.run s).1 = .subscribe packetId filters ∧
        (generateSubscribePacket.run s).1 =
          (Packet.subscribe packetId filters : TextPacket).written := by
  obtain ⟨packetId, filters, hrender, hgenerated⟩ := subscribeDraws_generated s
  refine ⟨packetId, filters, hgenerated, hrender, ?_⟩
  rw [generateSubscribePacket_eq, ← hrender]
  rfl

end Generated

variable {τ : Type} [DrawSource τ]

/-- The step where the length that was read stays inside the packet. -/
theorem corruptTopicFilters_step {packet : List UInt8} {pos : ℕ} {hi lo : UInt8} {t : τ}
    {post : List UInt8 → Prop} (hhi : packet[pos]? = some hi) (hlo : packet[pos + 1]? = some lo)
    (inside : pos + 2 + (hi.toNat * 256 + lo.toNat) < packet.length)
    (rest : ∀ corruptPos, corruptPos = pos + 2 +
      ((usizeOr 1).run t).1 % max (hi.toNat * 256 + lo.toNat) 1 →
      CompletesFrom ((usizeOr 1).run t).2 (corruptTopicFilters (packet.set corruptPos 0)
        (pos + (2 + (hi.toNat * 256 + lo.toNat) + 1))) post) :
    CompletesFrom t (corruptTopicFilters packet pos) post := by
  have hindex : ∀ {i byte}, packet[i]? = some byte → index packet i = .ok byte := by
    intro i byte h
    rw [index, h]
  rw [corruptTopicFilters, dif_pos (by omega)]
  refine CompletesFrom.lift_bind (hindex hhi) (CompletesFrom.lift_bind (hindex hlo) ?_)
  dsimp only
  rw [toNat_fromBE16, if_pos inside]
  exact CompletesFrom.draw_bind (CompletesFrom.lift_bind (rem_of_pos (by omega)) (rest _ rfl))

/-- The walk stops where the length that was read leads out of the packet. -/
theorem corruptTopicFilters_stop {packet : List UInt8} {pos : ℕ} {hi : UInt8}
    {post : List UInt8 → Prop} (hhi : packet[pos]? = some hi)
    (outside : ∀ lo : UInt8, packet[pos + 1]? = some lo →
      packet.length ≤ pos + 2 + (hi.toNat * 256 + lo.toNat)) (h : post packet) :
    Completes (corruptTopicFilters packet pos : Fallible τ _) post := by
  rw [corruptTopicFilters]
  split_ifs with more
  · apply Completes.bind (completes_index (by omega))
    rintro _ rfl
    apply Completes.bind (completes_index (by omega))
    rintro _ rfl
    obtain ⟨hpos, rfl⟩ := List.getElem?_eq_some_iff.mp hhi
    have hlo := outside _ (List.getElem?_eq_getElem (by omega))
    dsimp only
    rw [toNat_fromBE16, if_neg (by omega)]
    exact completes_pure h
  · exact completes_pure h

/-- The walk never writes before the text of the filter it is at. -/
theorem corruptTopicFilters_frame (packet : List UInt8) (pos : ℕ) :
    Completes (corruptTopicFilters packet pos : Fallible τ _) fun result =>
      ∀ j < pos + 2, result[j]? = packet[j]? := by
  refine corruptTopicFilters_keeps (fun next i hi h j hj => ?_) le_rfl fun _ _ => rfl
  rw [List.getElem?_set_ne (by omega), h j hj]

/-- What a step of the walk makes of the filter it is at. -/
def Corrupted (entry entry' : List UInt8 × UInt8) : Prop :=
  if entry.1 = [] then entry' = ([], 0)
  else entry'.2 = entry.2 ∧ ∃ i < entry.1.length, entry'.1 = entry.1.set i 0

theorem corrupted_empty (qos : UInt8) (entry' : List UInt8 × UInt8) :
    Corrupted ([], qos) entry' ↔ entry' = ([], 0) := by
  rw [Corrupted, if_pos rfl]

theorem corrupted_nonempty {text : List UInt8} (h : text ≠ []) (qos : UInt8)
    (entry' : List UInt8 × UInt8) :
    Corrupted (text, qos) entry' ↔
      entry'.2 = qos ∧ ∃ i < text.length, entry'.1 = text.set i 0 := by
  rw [Corrupted, if_neg h]

theorem length_writeSubscription (entry : List UInt8 × UInt8) :
    (writeSubscription entry).length = entry.1.length + 3 := by
  simp only [writeSubscription, writeText, List.length_append, length_toBE16,
    List.length_singleton]
  omega

/-- The length field of an entry. -/
theorem writeSubscription_eq (text : List UInt8) (qos : UInt8) :
    writeSubscription (text, qos) =
      UInt8.ofNat ((UInt16.ofNat text.length).toNat / 256) ::
        UInt8.ofNat ((UInt16.ofNat text.length).toNat % 256) :: (text ++ [qos]) := rfl

theorem writeSubscription_empty (qos : UInt8) : writeSubscription ([], qos) = [0, 0, qos] := by
  rw [writeSubscription_eq]
  simp

/-- The two bytes of a length that fits. -/
theorem lengthField_value {n : ℕ} (h : n < 65536) :
    (UInt8.ofNat ((UInt16.ofNat n).toNat / 256)).toNat * 256 +
      (UInt8.ofNat ((UInt16.ofNat n).toNat % 256)).toNat = n := by
  rw [UInt16.toNat_ofNat', UInt8.toNat_ofNat', UInt8.toNat_ofNat']
  omega

/-- The length field of an entry inside a packet. -/
theorem getElem?_lengthField (before rest text : List UInt8) (qos : UInt8) :
    (before ++ (writeSubscription (text, qos) ++ rest))[before.length]? =
        some (UInt8.ofNat ((UInt16.ofNat text.length).toNat / 256)) ∧
      (before ++ (writeSubscription (text, qos) ++ rest))[before.length + 1]? =
        some (UInt8.ofNat ((UInt16.ofNat text.length).toNat % 256)) := by
  rw [writeSubscription_eq, List.getElem?_append_right le_rfl,
    List.getElem?_append_right (Nat.le_add_right _ 1), Nat.sub_self, Nat.add_sub_cancel_left]
  exact ⟨rfl, rfl⟩

/-- The text of an entry inside a packet. -/
theorem getElem?_entryText (before rest : List UInt8) {text : List UInt8} (qos : UInt8) {i : ℕ}
    (hi : i < text.length) :
    (before ++ (writeSubscription (text, qos) ++ rest))[before.length + 2 + i]? = text[i]? := by
  rw [writeSubscription_eq, List.getElem?_append_right (by omega),
    show before.length + 2 + i - before.length = i + 2 by omega, List.cons_append,
    List.cons_append, List.getElem?_cons_succ, List.getElem?_cons_succ, List.append_assoc,
    List.getElem?_append_left hi]

/-- Zeroing a byte behind the length field of an entry, in the text or right behind it. -/
theorem set_writeSubscription (before rest : List UInt8) {text : List UInt8} (qos : UInt8)
    {i : ℕ} (hi : i ≤ text.length) :
    (before ++ (writeSubscription (text, qos) ++ rest)).set (before.length + 2 + i) 0 =
      before ++ (writeSubscription (if i < text.length then (text.set i 0, qos) else (text, 0)) ++
        rest) := by
  rw [List.set_append_right _ _ (by omega),
    show before.length + 2 + i - before.length = i + 2 by omega, writeSubscription_eq,
    List.cons_append, List.cons_append, List.set_cons_succ, List.set_cons_succ,
    List.append_assoc]
  split_ifs with inText
  · rw [List.set_append_left _ _ inText, writeSubscription_eq, List.length_set]
    simp
  · rw [List.set_append_right _ _ (by omega), Nat.le_antisymm hi (Nat.not_lt.mp inText),
      Nat.sub_self, writeSubscription_eq]
    simp

/-- From the first entry on, the walk corrupts one entry after the other. -/
theorem corruptTopicFilters_aligned {entries : List (List UInt8 × UInt8)}
    (hshort : ∀ entry ∈ entries, entry.1.length < 65536) (before : List UInt8) (t : τ) :
    CompletesFrom t
      (corruptTopicFilters (before ++ entries.flatMap writeSubscription) before.length)
      fun result => ∃ entries', List.Forall₂ Corrupted entries entries' ∧
        result = before ++ entries'.flatMap writeSubscription := by
  induction entries generalizing before t with
  | nil =>
      rw [corruptTopicFilters, dif_neg (by simp)]
      exact completes_pure ⟨[], List.Forall₂.nil, rfl⟩ t
  | cons entry entries ih =>
      obtain ⟨text, qos⟩ := entry
      obtain ⟨hfits, hrest⟩ := List.forall_mem_cons.mp hshort
      rw [List.flatMap_cons]
      generalize htail : entries.flatMap writeSubscription = tail
      have hvalue : _ = text.length := lengthField_value hfits
      obtain ⟨hhi, hlo⟩ := getElem?_lengthField before tail text qos
      have hstep : ∀ entry', Corrupted (text, qos) entry' → entry'.1.length = text.length →
          ∀ t' : τ, CompletesFrom t' (corruptTopicFilters
            (before ++ (writeSubscription entry' ++ tail)) (before.length + (2 + text.length + 1)))
            fun result => ∃ entries', List.Forall₂ Corrupted ((text, qos) :: entries) entries' ∧
              result = before ++ entries'.flatMap writeSubscription := by
        intro entry' hcorrupted hlength t'
        have hnext := ih hrest (before ++ writeSubscription entry') t'
        rw [List.append_assoc, htail, List.length_append, length_writeSubscription, hlength,
          show before.length + (text.length + 3) = before.length + (2 + text.length + 1) by
            omega] at hnext
        apply hnext.mono
        intro result hresult
        obtain ⟨entries', hentries, rfl⟩ := hresult
        exact ⟨entry' :: entries', hentries.cons hcorrupted, by simp⟩
      refine corruptTopicFilters_step hhi hlo ?_ ?_
      · rw [hvalue]
        simp only [List.length_append, length_writeSubscription]
        omega
      · rw [hvalue]
        rintro _ rfl
        have hmod : ((usizeOr 1).run t).1 % max text.length 1 < max text.length 1 :=
          Nat.mod_lt _ (by omega)
        rw [set_writeSubscription before tail qos (by omega)]
        by_cases hempty : text = []
        · subst hempty
          rw [if_neg (by simp)]
          exact hstep ([], 0) ((corrupted_empty qos _).mpr rfl) rfl _
        · have hpos := List.length_pos_of_ne_nil hempty
          have hmod : ((usizeOr 1).run t).1 % max text.length 1 < text.length := by omega
          rw [if_pos hmod]
          exact hstep (text.set _ 0, qos)
            ((corrupted_nonempty hempty qos _).mpr ⟨rfl, _, hmod, rfl⟩) List.length_set _

/-- One byte of every nonempty filter is zero, and nothing else is different. -/
def OneByteEach (filters filters' : List (List UInt8 × UInt8)) : Prop :=
  List.Forall₂ (fun entry entry' => entry'.2 = entry.2 ∧
    if entry.1 = [] then entry'.1 = []
    else ∃ i < entry.1.length, entry'.1 = entry.1.set i 0) filters filters'

/-- The packet with one byte of every nonempty filter replaced by zero. -/
def OnlyFiltersCorrupted (packetId : UInt16) (filters : List (List UInt8 × UInt8))
    (result : List UInt8) : Prop :=
  ∃ filters', OneByteEach filters filters' ∧
    result = (Packet.subscribe packetId filters' : TextPacket).written

theorem oneByteEach_empty {qos : UInt8} {rest filters' : List (List UInt8 × UInt8)}
    (h : OneByteEach (([], qos) :: rest) filters') :
    ∃ rest', OneByteEach rest rest' ∧ filters' = ([], qos) :: rest' := by
  obtain ⟨entry', rest', ⟨hqos, htext⟩, hrest, rfl⟩ := List.forall₂_cons_left_iff.mp h
  rw [if_pos rfl] at htext
  exact ⟨rest', hrest, congrArg (· :: rest') (Prod.ext htext hqos)⟩

theorem oneByteEach_nonempty {text : List UInt8} {qos : UInt8}
    {rest filters' : List (List UInt8 × UInt8)} (hne : text ≠ [])
    (h : OneByteEach ((text, qos) :: rest) filters') :
    ∃ i < text.length, ∃ rest', filters' = (text.set i 0, qos) :: rest' := by
  obtain ⟨entry', rest', ⟨hqos, htext⟩, -, rfl⟩ := List.forall₂_cons_left_iff.mp h
  rw [if_neg hne] at htext
  obtain ⟨i, hi, htext⟩ := htext
  exact ⟨i, hi, rest', congrArg (· :: rest') (Prod.ext htext hqos)⟩

/-! ## One length byte -/

/-- Filters of the same lengths. -/
def SameLengths (filters filters' : List (List UInt8 × UInt8)) : Prop :=
  List.Forall₂ (fun entry entry' => entry'.1.length = entry.1.length) filters filters'

theorem OneByteEach.sameLengths {filters filters' : List (List UInt8 × UInt8)}
    (h : OneByteEach filters filters') : SameLengths filters filters' := by
  refine h.imp fun entry entry' ⟨_, htext⟩ => ?_
  split_ifs at htext with hempty
  · rw [htext, hempty]
  · obtain ⟨i, -, htext⟩ := htext
    rw [htext, List.length_set]

theorem sameLengths_of_corrupted {filters filters' : List (List UInt8 × UInt8)}
    (h : List.Forall₂ Corrupted filters filters') : SameLengths filters filters' := by
  apply h.imp
  intro entry entry' hentry
  rw [Corrupted] at hentry
  split_ifs at hentry with hempty
  · rw [hentry, hempty]
  · obtain ⟨-, i, -, htext⟩ := hentry
    rw [htext, List.length_set]

theorem SameLengths.length_body {filters filters' : List (List UInt8 × UInt8)}
    (h : SameLengths filters filters') (packetId : UInt16) :
    (subscribeBody packetId filters').length = (subscribeBody packetId filters).length := by
  rw [subscribeBody, subscribeBody, List.length_append, List.length_append, length_toBE16]
  apply congrArg (2 + ·)
  induction h with
  | nil => rfl
  | cons hentry _ ih =>
      rw [List.flatMap_cons, List.flatMap_cons, List.length_append, List.length_append, ih,
        length_writeSubscription, length_writeSubscription, hentry]

theorem SameLengths.writable {filters filters' : List (List UInt8 × UInt8)}
    (h : SameLengths filters filters') {packetId : UInt16}
    (hwritable : (Packet.subscribe packetId filters : TextPacket).Writable) :
    (Packet.subscribe packetId filters' : TextPacket).Writable where
  short := (h.length_body packetId).trans_lt hwritable.short
  faithful := by
    have hfits : ∀ entry ∈ filters, entry.1.length < 65536 := hwritable.faithful
    change ∀ entry ∈ filters', entry.1.length < 65536
    clear hwritable
    induction h with
    | nil => simp
    | cons hentry _ ih =>
        obtain ⟨hhead, hrest⟩ := List.forall_mem_cons.mp hfits
        exact List.forall_mem_cons.mpr ⟨hentry.trans_lt hhead, ih hrest⟩

/-- The step does what it is for unless it clears the QoS of an empty filter. -/
theorem oneByteEach_iff_of_corrupted {filters filters' : List (List UInt8 × UInt8)}
    (h : List.Forall₂ Corrupted filters filters') :
    OneByteEach filters filters' ↔ ∀ entry ∈ filters, entry.1 = [] → entry.2 = 0 := by
  induction h with
  | nil => exact iff_of_true List.Forall₂.nil (by simp)
  | @cons entry entry' _ _ hentry _ ih =>
      rw [List.forall_mem_cons, ← ih, OneByteEach, List.forall₂_cons]
      apply and_congr_left
      intro _
      rw [Corrupted] at hentry
      split_ifs at hentry ⊢ with hempty
      · rw [hentry]
        exact ⟨fun h _ => h.1.symm, fun h => ⟨(h hempty).symm, rfl⟩⟩
      · exact iff_of_true hentry fun h => absurd h hempty

/-- In a packet with one length byte the first filter starts at byte 4. -/
theorem written_short {packetId : UInt16} {filters : List (List UInt8 × UInt8)}
    (h : (subscribeBody packetId filters).length < 128) :
    (Packet.subscribe packetId filters : TextPacket).written =
      0x82 :: UInt8.ofNat (subscribeBody packetId filters).length :: toBE16 packetId ++
        filters.flatMap writeSubscription := by
  rw [Packet.written, frame, Packet.body, Base128.encode_of_lt h]
  rfl

/-- On a SUBSCRIBE packet the pattern walks from byte 4. -/
theorem injectInvalidTopicFilter_subscribe (rest : List UInt8) :
    (injectInvalidTopicFilter (0x82 :: rest) : Fallible τ _) =
      corruptTopicFilters (0x82 :: rest) 4 := by
  rw [injectInvalidTopicFilter]
  split_ifs with long
  · rfl
  · rw [corruptTopicFilters, dif_neg (by omega)]

/-- With one length byte, every run of the pattern corrupts entry after entry. -/
theorem injectInvalidTopicFilter_short {packetId : UInt16}
    {filters : List (List UInt8 × UInt8)}
    (hwritable : (Packet.subscribe packetId filters : TextPacket).Writable)
    (hshort : (subscribeBody packetId filters).length < 128) (t : τ) :
    CompletesFrom t
      (injectInvalidTopicFilter (Packet.subscribe packetId filters : TextPacket).written)
      fun result => ∃ filters', List.Forall₂ Corrupted filters filters' ∧
        result = (Packet.subscribe packetId filters' : TextPacket).written := by
  rw [written_short hshort, List.cons_append, injectInvalidTopicFilter_subscribe]
  refine (corruptTopicFilters_aligned hwritable.faithful (0x82 ::
    UInt8.ofNat (subscribeBody packetId filters).length :: toBE16 packetId) t).mono ?_
  intro result hresult
  obtain ⟨filters', hfilters, rfl⟩ := hresult
  have hlength := (sameLengths_of_corrupted hfilters).length_body packetId
  exact ⟨filters', hfilters, by rw [written_short (hlength.trans_lt hshort), hlength]⟩

/-- With one length byte, every run of the pattern does what it is for exactly if every
empty filter has QoS 0. -/
theorem injectInvalidTopicFilter_short_iff {packetId : UInt16}
    {filters : List (List UInt8 × UInt8)}
    (hwritable : (Packet.subscribe packetId filters : TextPacket).Writable)
    (hshort : (subscribeBody packetId filters).length < 128) (t : τ) :
    CompletesFrom t
      (injectInvalidTopicFilter (Packet.subscribe packetId filters : TextPacket).written)
      (OnlyFiltersCorrupted packetId filters) ↔
        ∀ entry ∈ filters, entry.1 = [] → entry.2 = 0 := by
  obtain ⟨result, t', hrun, filters', hfilters, rfl⟩ :=
    injectInvalidTopicFilter_short hwritable hshort t
  rw [CompletesFrom.iff_of_eq ⟨_, t', hrun, rfl⟩, ← oneByteEach_iff_of_corrupted hfilters]
  constructor
  · intro hintended
    obtain ⟨intended, heach, hsame⟩ := hintended
    have hinj := ((sameLengths_of_corrupted hfilters).writable hwritable).written_inj
      (heach.sameLengths.writable hwritable) hsame
    rwa [(Packet.subscribe.inj hinj).2]
  · exact fun heach => ⟨filters', heach, rfl⟩

/-! ## Two length bytes -/

/-- None of the intended results. -/
def Missed (before : List UInt8) (entries : List (List UInt8 × UInt8))
    (result : List UInt8) : Prop :=
  ∀ entries', OneByteEach entries entries' → result ≠ before ++ entries'.flatMap writeSubscription

/-- Leading empty filters are the same in every intended result. -/
theorem missed_empty {before result : List UInt8} {qos : UInt8}
    {entries : List (List UInt8 × UInt8)}
    (h : Missed (before ++ writeSubscription ([], qos)) entries result) :
    Missed before (([], qos) :: entries) result := by
  intro entries' hentries
  obtain ⟨rest', hrest, rfl⟩ := oneByteEach_empty hentries
  rw [List.flatMap_cons, ← List.append_assoc]
  exact h rest' hrest

/-- A result that keeps the text of the first nonempty filter is none of the intended ones. -/
theorem missed_of_text {before result text : List UInt8} {qos : UInt8}
    {entries : List (List UInt8 × UInt8)} (hne : text ≠ [])
    (hprintable : ∀ byte ∈ text, 0x23 ≤ byte.toNat)
    (hkept : ∀ i < text.length, result[before.length + 2 + i]? = text[i]?) :
    Missed before ((text, qos) :: entries) result := by
  rintro entries' hentries rfl
  obtain ⟨i, hi, rest', rfl⟩ := oneByteEach_nonempty hne hentries
  have hi' : i < (text.set i 0).length := by rwa [List.length_set]
  have hkept := hkept i hi
  rw [List.flatMap_cons, getElem?_entryText _ _ _ hi', List.getElem?_set_self hi] at hkept
  have hzero := hprintable 0 (List.mem_of_getElem? hkept.symm)
  exact absurd hzero (by decide)

/-- So is a result that zeroes the length of the first nonempty filter. -/
theorem missed_of_length {before result text : List UInt8} {qos : UInt8}
    {entries : List (List UInt8 × UInt8)} (hne : text ≠ [])
    (hlow : UInt8.ofNat ((UInt16.ofNat text.length).toNat % 256) ≠ 0)
    (hzero : result[before.length + 1]? = some 0) :
    Missed before ((text, qos) :: entries) result := by
  rintro entries' hentries rfl
  obtain ⟨i, -, rest', rfl⟩ := oneByteEach_nonempty hne hentries
  rw [List.flatMap_cons, (getElem?_lengthField before _ _ qos).2, List.length_set] at hzero
  exact hlow (Option.some.inj hzero)

/-- The packet as it was is none of the intended results. -/
theorem missed_self {entries : List (List UInt8 × UInt8)}
    (hprintable : ∀ entry ∈ entries, ∀ byte ∈ entry.1, 0x23 ≤ byte.toNat)
    (hne : ∃ entry ∈ entries, entry.1 ≠ []) (before : List UInt8) :
    Missed before entries (before ++ entries.flatMap writeSubscription) := by
  induction entries generalizing before with
  | nil => simp at hne
  | cons entry entries ih =>
      obtain ⟨text, qos⟩ := entry
      obtain ⟨hhead, hrest⟩ := List.forall_mem_cons.mp hprintable
      rw [List.flatMap_cons]
      by_cases hempty : text = []
      · subst hempty
        rw [← List.append_assoc]
        exact missed_empty (ih hrest (by simpa using hne) _)
      · exact missed_of_text hempty hhead fun i hi => getElem?_entryText _ _ _ hi

/-- Started in or behind a text, the walk keeps the text: its characters are no lengths of
anything that fits into the packet. -/
theorem corruptTopicFilters_behind (before rest : List UInt8) {text : List UInt8} (qos : UInt8)
    (hprintable : ∀ byte ∈ text, 0x23 ≤ byte.toNat) {pos : ℕ} (hpos : before.length + 2 ≤ pos)
    (hshort : (before ++ (writeSubscription (text, qos) ++ rest)).length ≤ 0x23 * 256) :
    Completes (corruptTopicFilters (before ++ (writeSubscription (text, qos) ++ rest)) pos :
        Fallible τ _)
      fun result => ∀ i < text.length, result[before.length + 2 + i]? = text[i]? := by
  by_cases inText : pos < before.length + 2 + text.length
  · obtain ⟨i, rfl⟩ : ∃ i, pos = before.length + 2 + i := ⟨pos - (before.length + 2), by omega⟩
    have hi : i < text.length := by omega
    have hhi := getElem?_entryText before rest qos hi
    rw [List.getElem?_eq_getElem hi] at hhi
    have hchar := hprintable _ (List.getElem_mem hi)
    apply corruptTopicFilters_stop hhi (fun lo _ => by omega)
    intro j hj
    exact getElem?_entryText _ _ _ hj
  · apply (corruptTopicFilters_frame _ pos).mono
    intro result hkept j hj
    rw [hkept _ (by omega), getElem?_entryText _ _ _ hj]

/-- Started behind all length fields that may precede the first text, the walk misses. -/
theorem corruptTopicFilters_past {entries : List (List UInt8 × UInt8)}
    (hprintable : ∀ entry ∈ entries, ∀ byte ∈ entry.1, 0x23 ≤ byte.toNat)
    (hne : ∃ entry ∈ entries, entry.1 ≠ []) (before : List UInt8) {pos : ℕ}
    (hpos : before.length + 3 * entries.length ≤ pos)
    (hshort : (before ++ entries.flatMap writeSubscription).length ≤ 0x23 * 256) :
    Completes (corruptTopicFilters (before ++ entries.flatMap writeSubscription) pos :
        Fallible τ _) (Missed before entries) := by
  induction entries generalizing before with
  | nil => simp at hne
  | cons entry entries ih =>
      obtain ⟨text, qos⟩ := entry
      obtain ⟨hhead, hrest⟩ := List.forall_mem_cons.mp hprintable
      rw [List.length_cons] at hpos
      rw [List.flatMap_cons] at hshort ⊢
      by_cases hempty : text = []
      · subst hempty
        rw [← List.append_assoc] at hshort ⊢
        refine (ih hrest (by simpa using hne) _ ?_ hshort).mono fun _ => missed_empty
        rw [List.length_append, length_writeSubscription, List.length_nil]
        omega
      · apply (corruptTopicFilters_behind before _ qos hhead (by omega) hshort).mono
        intro result hkept
        exact missed_of_text hempty hhead hkept

/-- Where the walk zeroes the low byte of the length of a nonempty filter, it misses: either
the length is lost, or the byte was zero before and the walk goes on behind the text. -/
theorem corruptTopicFilters_lowByte {before text : List UInt8} {qos : UInt8}
    {entries : List (List UInt8 × UInt8)} (hne : text ≠ [])
    (hprintable : ∀ byte ∈ text, 0x23 ≤ byte.toNat) {pos : ℕ} (hpos : before.length + 2 ≤ pos)
    (hshort : (before ++ (writeSubscription (text, qos) ++
      entries.flatMap writeSubscription)).length ≤ 0x23 * 256)
    (room : before.length + 1 < (before ++ (writeSubscription (text, qos) ++
      entries.flatMap writeSubscription)).length) :
    Completes (corruptTopicFilters ((before ++ (writeSubscription (text, qos) ++
        entries.flatMap writeSubscription)).set (before.length + 1) 0) pos : Fallible τ _)
      (Missed before ((text, qos) :: entries)) := by
  by_cases hlow : UInt8.ofNat ((UInt16.ofNat text.length).toNat % 256) = 0
  · have hlo := (getElem?_lengthField before (entries.flatMap writeSubscription) text qos).2
    rw [hlow] at hlo
    rw [set_of_getElem? hlo]
    apply (corruptTopicFilters_behind before _ qos hprintable hpos hshort).mono
    intro result hkept
    exact missed_of_text hne hprintable hkept
  · apply (corruptTopicFilters_frame _ _).mono
    intro result hkept
    apply missed_of_length hne hlow
    rw [hkept _ (by omega)]
    exact List.getElem?_set_self room

/-- One byte too early, the walk reads a byte of the header and the high byte of a length,
and with zeros drawn it zeroes the low byte of the length. Where that byte was zero already,
the walk goes on to the next empty filter, or gets lost behind the first text. -/
theorem corruptTopicFilters_shifted {entries : List (List UInt8 × UInt8)}
    (hprintable : ∀ entry ∈ entries, ∀ byte ∈ entry.1, 0x23 ≤ byte.toNat)
    (hne : ∃ entry ∈ entries, entry.1 ≠ []) (few : entries.length ≤ 10) (before : List UInt8)
    (b : UInt8)
    (hshort : (before ++ [b] ++ entries.flatMap writeSubscription).length ≤ 0x23 * 256) :
    CompletesFrom ({ data := [] } : Unstructured)
      (corruptTopicFilters (before ++ [b] ++ entries.flatMap writeSubscription) before.length)
      (Missed (before ++ [b]) entries) := by
  induction entries generalizing before b with
  | nil => simp at hne
  | cons entry entries ih =>
      obtain ⟨text, qos⟩ := entry
      obtain ⟨hhead, hrest⟩ := List.forall_mem_cons.mp hprintable
      have hself := missed_self hprintable hne (before ++ [b])
      rw [List.length_cons] at few
      rw [List.flatMap_cons] at hshort hself ⊢
      obtain ⟨hhi, hlo⟩ :=
        getElem?_lengthField (before ++ [b]) (entries.flatMap writeSubscription) text qos
      have hlength : (before ++ [b]).length = before.length + 1 := by simp
      rw [hlength] at hhi
      rw [hlength, show before.length + 1 + 1 = before.length + 2 from rfl] at hlo
      have hb : (before ++ [b] ++ (writeSubscription (text, qos) ++
          entries.flatMap writeSubscription))[before.length]? = some b := by simp
      have hdraw : (usizeOr 1).run ({ data := [] } : Unstructured) = (0, { data := [] }) := rfl
      by_cases inside : before.length + 2 + (b.toNat * 256 +
          (UInt8.ofNat ((UInt16.ofNat text.length).toNat / 256)).toNat) <
            (before ++ [b] ++ (writeSubscription (text, qos) ++
              entries.flatMap writeSubscription)).length
      · apply corruptTopicFilters_step hb hhi inside
        rintro _ rfl
        rw [hdraw, Nat.zero_mod, Nat.add_zero]
        by_cases hempty : text = []
        · subst hempty
          have hrestne : ∃ entry ∈ entries, entry.1 ≠ [] := by simpa using hne
          have hhigh : UInt8.ofNat ((UInt16.ofNat ([] : List UInt8).length).toNat / 256) = 0 := rfl
          have hlow : UInt8.ofNat ((UInt16.ofNat ([] : List UInt8).length).toNat % 256) = 0 := rfl
          rw [hlow] at hlo
          rw [hhigh, set_of_getElem? hlo]
          by_cases hzero : b = 0
          · subst hzero
            have hpacket : before ++ [0] ++ writeSubscription ([], qos) =
                before ++ [0, 0, 0] ++ [qos] := by simp [writeSubscription_empty]
            rw [← List.append_assoc, hpacket] at hshort ⊢
            have hnext := ih hrest hrestne (by omega) (before ++ [0, 0, 0]) qos hshort
            rw [List.length_append] at hnext
            rw [← hpacket] at hnext ⊢
            exact hnext.mono fun _ => missed_empty
          · have hpos : 0 < b.toNat := Nat.pos_of_ne_zero fun h => hzero (UInt8.toNat_inj.mp h)
            rw [← List.append_assoc] at hshort ⊢
            refine (corruptTopicFilters_past hrest hrestne _ ?_ hshort _).mono
              fun _ => missed_empty
            rw [List.length_append, hlength, length_writeSubscription, List.length_nil]
            omega
        · rw [show before.length + 2 = (before ++ [b]).length + 1 by rw [hlength]]
          exact corruptTopicFilters_lowByte hempty hhead (by omega) hshort (by omega) _
      · refine corruptTopicFilters_stop hb (fun lo hlo => ?_) hself _
        obtain rfl := Option.some.inj (hlo.symm.trans hhi)
        exact Nat.not_lt.mp inside

/-- The first four bytes of a SUBSCRIBE packet with two length bytes. -/
def longHeader (packetId : UInt16) (length : ℕ) : List UInt8 :=
  [0x82, UInt8.ofNat (length % 128) ||| 0x80, UInt8.ofNat (length / 128),
    UInt8.ofNat (packetId.toNat / 256)]

/-- In a packet with two length bytes, byte 4 is the low byte of the packet id. -/
theorem written_long {packetId : UInt16} {filters : List (List UInt8 × UInt8)} {length : ℕ}
    (h : (subscribeBody packetId filters).length = length) (low : 128 ≤ length)
    (high : length < 128 ^ 2) :
    (Packet.subscribe packetId filters : TextPacket).written =
      longHeader packetId length ++ [UInt8.ofNat (packetId.toNat % 256)] ++
        filters.flatMap writeSubscription := by
  subst h
  rw [Packet.written, frame, Packet.body, Base128.encode_of_two low high]
  rfl

theorem GeneratedFilters.writable {filters : List (List UInt8 × UInt8)}
    (h : GeneratedFilters filters) (packetId : UInt16) :
    (subscribeBody packetId filters).length ≤ 5132 ∧
      (Packet.subscribe packetId filters : TextPacket).Writable := by
  have hcount := h.few
  have hentries := length_flatMap_le h.short
  have hlength : (subscribeBody packetId filters).length ≤ 5132 := by
    rw [subscribeBody, List.length_append, length_toBE16]
    omega
  refine ⟨hlength, hlength.trans_lt (by decide), ?_⟩
  exact fun entry hentry => (h.short entry hentry).trans_lt (by decide)

/-- With two length bytes and zeros drawn, the pattern misses. -/
theorem injectInvalidTopicFilter_long {packetId : UInt16}
    {filters : List (List UInt8 × UInt8)} (hgenerated : GeneratedFilters filters)
    (hlong : 128 ≤ (subscribeBody packetId filters).length) :
    CompletesFrom ({ data := [] } : Unstructured)
      (injectInvalidTopicFilter (Packet.subscribe packetId filters : TextPacket).written)
      fun result => ¬ OnlyFiltersCorrupted packetId filters result := by
  have hlength := (hgenerated.writable packetId).1
  have hne : ∃ entry ∈ filters, entry.1 ≠ [] := by
    by_contra! hempty
    have hcount := hgenerated.few
    have hzero : ∀ entry ∈ filters, entry.1.length ≤ 0 := fun entry hentry =>
      Nat.le_zero.mpr (List.length_eq_zero_iff.mpr (hempty entry hentry))
    have hentries := length_flatMap_le hzero
    rw [subscribeBody, List.length_append, length_toBE16] at hlong
    omega
  have hbytes := written_long (rfl : (subscribeBody packetId filters).length = _) hlong (by omega)
  have hshifted := corruptTopicFilters_shifted hgenerated.printable hne hgenerated.few
    (longHeader packetId (subscribeBody packetId filters).length)
    (UInt8.ofNat (packetId.toNat % 256)) ?_
  · rw [hbytes, longHeader, List.cons_append, List.cons_append,
      injectInvalidTopicFilter_subscribe]
    apply hshifted.mono
    intro result hmissed hintended
    obtain ⟨filters', heach, rfl⟩ := hintended
    have hsame := heach.sameLengths.length_body packetId
    exact hmissed filters' heach (written_long hsame hlong (by omega))
  · rw [subscribeBody, List.length_append, length_toBE16] at hlength
    simp only [longHeader, List.length_append, List.length_cons, List.length_nil]
    omega

/-- Whatever packet is generated, all runs of the pattern do what it is for exactly if the
packet has one length byte and every empty filter has QoS 0. -/
theorem injectInvalidTopicFilter_iff {σ : Type} [DrawSource σ] (s : σ) :
    ∃ packetId filters,
      Packet.render (subscribeDraws.run s).1 = .subscribe packetId filters ∧
        (generateSubscribePacket.run s).1 =
          (Packet.subscribe packetId filters : TextPacket).written ∧
        ((∀ (τ : Type) [DrawSource τ] (t : τ),
          CompletesFrom t (injectInvalidTopicFilter (generateSubscribePacket.run s).1)
            (OnlyFiltersCorrupted packetId filters)) ↔
          (subscribeBody packetId filters).length < 128 ∧
            ∀ entry ∈ filters, entry.1 = [] → entry.2 = 0) := by
  obtain ⟨packetId, filters, hgenerated, hrender, hwritten⟩ := generateSubscribePacket_written s
  have hwritable := (hgenerated.writable packetId).2
  refine ⟨packetId, filters, hrender, hwritten, ?_⟩
  rw [hwritten]
  constructor
  · intro hall
    have hshort : (subscribeBody packetId filters).length < 128 := by
      by_contra! hlong
      obtain ⟨result, t', hrun, hmissed⟩ := injectInvalidTopicFilter_long hgenerated hlong
      exact hmissed ((CompletesFrom.iff_of_eq ⟨_, t', hrun, rfl⟩).mp (hall Unstructured _))
    exact ⟨hshort, (injectInvalidTopicFilter_short_iff hwritable hshort
      ({ data := [] } : Unstructured)).mp (hall Unstructured _)⟩
  · intro hcondition τ _ t
    exact (injectInvalidTopicFilter_short_iff hwritable hcondition.1 t).mpr hcondition.2

/-- A seed for four long topics. -/
def fourTopicsSeed : Unstructured where
  data := [0, 0] ++ [3, 0, 0, 0, 0, 0, 0, 0] ++
    (List.replicate 4 [1, 4, 0, 0, 0, 0, 0, 0, 0]).flatten

/-- The filters it draws. -/
def fourTopics : List (List UInt8 × UInt8) :=
  List.replicate 4 (utf8 "$SYS/broker/load/messages/received", 0)

/-- In a packet with four long topics the pattern zeroes the length of the first filter,
and no filter. -/
theorem injectInvalidTopicFilter_fourTopics :
    (generateSubscribePacket.run fourTopicsSeed).1 =
        (Packet.subscribe 0 fourTopics : TextPacket).written ∧
      ((injectInvalidTopicFilter (Packet.subscribe 0 fourTopics : TextPacket).written).run
        ({ data := [] } : Unstructured)).map Prod.fst =
          .ok ((Packet.subscribe 0 fourTopics : TextPacket).written.set 6 0) ∧
      ¬ OnlyFiltersCorrupted 0 fourTopics
        ((Packet.subscribe 0 fourTopics : TextPacket).written.set 6 0) := by
  refine ⟨by decide +kernel, by decide +kernel, ?_⟩
  intro hintended
  obtain ⟨filters', heach, hsame⟩ := hintended
  have hlength : (subscribeBody 0 fourTopics).length = 150 := by decide +kernel
  have hmissed : Missed (longHeader 0 150 ++ [0]) fourTopics
      ((Packet.subscribe 0 fourTopics : TextPacket).written.set 6 0) :=
    missed_of_length (by decide) (by decide) (by decide +kernel)
  exact hmissed filters' heach (hsame.trans
    (written_long ((heach.sameLengths.length_body 0).trans hlength) (by decide) (by decide)))

end ProtocolFuzzer.MQTT
