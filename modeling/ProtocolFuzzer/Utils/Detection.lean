/-
# Which protocol is detected

The analyzer asks for DNS first, then for MQTT, and then compares the packet with the first
bytes of HTTP and TLS packets. A packet passes for DNS if six words of it are small, so
what the generators make is detected as what it is, except for packets that have nothing
but zeros and small numbers where texts usually are. The two signatures are never
reached: every packet that starts with one of them passes for MQTT.
-/

import ProtocolFuzzer.Protocols.DNS.Generation
import ProtocolFuzzer.Protocols.MQTT.RemainingLength
import ProtocolFuzzer.Protocols.MQTT.TopicFilters

namespace ProtocolFuzzer.PacketAnalyzer

open Math Platform

/-- The first words are at most 100. -/
def SmallWords : ℕ → List UInt8 → Prop
  | 0, _ => True
  | count + 1, hi :: lo :: rest => hi.toNat * 256 + lo.toNat ≤ 100 ∧ SmallWords count rest
  | _ + 1, _ => False

/-- An opcode, a response code and four counts in the ranges the analyzer expects. -/
def DnsShaped : List UInt8 → Prop
  | _ :: _ :: flagsHi :: flagsLo :: counts =>
    flagsHi.toNat / 8 % 16 ≤ 5 ∧ flagsLo.toNat % 16 ≤ 9 ∧ SmallWords 4 counts
  | _ => False

instance decidableSmallWords : (count : ℕ) → (data : List UInt8) → Decidable (SmallWords count data)
  | 0, _ => isTrue trivial
  | count + 1, hi :: lo :: rest =>
    haveI := decidableSmallWords count rest
    inferInstanceAs (Decidable (hi.toNat * 256 + lo.toNat ≤ 100 ∧ SmallWords count rest))
  | _ + 1, [] => isFalse id
  | _ + 1, [_] => isFalse id

instance : DecidablePred DnsShaped
  | [] | [_] | [_, _] | [_, _, _] => isFalse id
  | _ :: _ :: flagsHi :: flagsLo :: counts => inferInstanceAs (Decidable
      (flagsHi.toNat / 8 % 16 ≤ 5 ∧ flagsLo.toNat % 16 ≤ 9 ∧ SmallWords 4 counts))

theorem SmallWords.length_le {count : ℕ} {data : List UInt8} (h : SmallWords count data) :
    2 * count ≤ data.length := by
  induction count, data using SmallWords.induct with
  | case1 => exact Nat.zero_le _
  | case2 count hi lo rest ih =>
      have hrest := ih h.2
      rw [List.length_cons, List.length_cons]
      omega
  | case3 => exact absurd h (by simp_all [SmallWords])

/-- Characters are too large for the high byte of a small word. -/
theorem not_smallWords_of_large {count : ℕ} {hi : UInt8} {rest : List UInt8}
    (h : 0x23 ≤ hi.toNat) : ¬ SmallWords (count + 1) (hi :: rest) := by
  cases rest with
  | nil => exact id
  | cons lo rest =>
      intro hsmall
      have hword := hsmall.1
      omega

theorem DnsShaped.length_le {data : List UInt8} (h : DnsShaped data) : 12 ≤ data.length := by
  match data, h with
  | _ :: _ :: _ :: _ :: counts, ⟨_, _, hcounts⟩ =>
      have hlength := hcounts.length_le
      simp only [List.length_cons]
      omega

/-- Taking the next word off. -/
theorem exists_word {count : ℕ} {data : List UInt8} (h : count + 2 ≤ data.length) :
    ∃ hi lo rest, data = hi :: lo :: rest ∧ count ≤ rest.length := by
  match data, h with
  | hi :: lo :: rest, h => exact ⟨hi, lo, rest, rfl, Nat.le_of_add_le_add_right h⟩

/-- The analyzer takes a packet for DNS exactly if it has that shape. -/
theorem looksLikeDns_eq (data : List UInt8) :
    looksLikeDns data = .ok (decide (DnsShaped data)) := by
  by_cases long : data.length < 12
  · rw [looksLikeDns, if_pos long, decide_eq_false fun h => absurd h.length_le (by omega)]
  · obtain ⟨_, _, flags, rfl, after2⟩ := exists_word (Nat.not_lt.mp long : 10 + 2 ≤ data.length)
    obtain ⟨flagsHi, flagsLo, counts, rfl, after4⟩ := @exists_word 8 _ after2
    obtain ⟨qdHi, qdLo, counts, rfl, after6⟩ := @exists_word 6 _ after4
    obtain ⟨anHi, anLo, counts, rfl, after8⟩ := @exists_word 4 _ after6
    obtain ⟨nsHi, nsLo, counts, rfl, after10⟩ := @exists_word 2 _ after8
    obtain ⟨arHi, arLo, counts, rfl, -⟩ := @exists_word 0 _ after10
    rw [looksLikeDns, if_neg long]
    refine congrArg Except.ok (decide_eq_decide.mpr ?_)
    have hlow := flagsLo.toNat_lt
    have hopcode : (fromBE16 flagsHi flagsLo >>> 11 &&& 0x0F ≤ 5) ↔
        flagsHi.toNat / 8 % 16 ≤ 5 := by
      rw [UInt16.le_iff_toNat_le, UInt16.toNat_and, UInt16.toNat_shiftRight, toNat_fromBE16]
      change ((_ >>> 11) &&& (2 ^ 4 - 1)) ≤ 5 ↔ _
      rw [Nat.and_two_pow_sub_one_eq_mod, Nat.shiftRight_eq_div_pow]
      omega
    have hrcode : (fromBE16 flagsHi flagsLo &&& 0x0F ≤ 9) ↔ flagsLo.toNat % 16 ≤ 9 := by
      rw [UInt16.le_iff_toNat_le, UInt16.toNat_and, toNat_fromBE16]
      change (_ &&& (2 ^ 4 - 1)) ≤ 9 ↔ _
      rw [Nat.and_two_pow_sub_one_eq_mod]
      omega
    have hcount : ∀ hi lo, fromBE16 hi lo ≤ 100 ↔ hi.toNat * 256 + lo.toNat ≤ 100 := by
      intro hi lo
      rw [UInt16.le_iff_toNat_le, toNat_fromBE16]
      rfl
    simp only [hopcode, hrcode, hcount, DnsShaped, SmallWords, and_true]

/-- DNS is asked for first. -/
theorem detectProtocol_of_dnsShaped {data : List UInt8} (h : DnsShaped data) :
    detectProtocol data = .ok (some ("DNS", 0.8)) := by
  have hdns : testWhen (data.length ≥ 12) (looksLikeDns data) = .ok true := by
    rw [testWhen, if_pos h.length_le, looksLikeDns_eq, decide_eq_true h]
  rw [detectProtocol, hdns]
  rfl

/-- MQTT is asked for next. -/
theorem detectProtocol_of_looksLikeMqtt {data : List UInt8} (hdns : ¬ DnsShaped data)
    (long : 2 ≤ data.length) (hmqtt : looksLikeMqtt data = .ok true) :
    detectProtocol data = .ok (some ("MQTT", 0.7)) := by
  have hfirst : testWhen (data.length ≥ 12) (looksLikeDns data) = .ok false := by
    rw [testWhen, looksLikeDns_eq, decide_eq_false hdns, ite_self]
  have hsecond : testWhen (data.length ≥ 2) (looksLikeMqtt data) = .ok true := by
    rw [testWhen, if_pos long, hmqtt]
  rw [detectProtocol, hfirst, ok_bind, if_neg Bool.false_ne_true, hsecond]
  rfl

/-- The protocols that are recognised by the first bytes of a packet. -/
inductive Signature
  | http
  | tls

namespace Signature

def protocol : Signature → String
  | http => "HTTP"
  | tls => "TLS"

/-- The packet starts with the signature. -/
def Matches : Signature → List UInt8 → Prop
  | http, data => utf8 "GET " <+: data ∨ utf8 "POST " <+: data ∨ utf8 "HTTP/" <+: data
  | tls, data => 6 ≤ data.length ∧ [0x16, 0x03] <+: data

/-- A signature starts with a byte that is a packet type of MQTT, and a byte that is a
remaining length. -/
theorem Matches.leading {signature : Signature} {data : List UInt8} (h : signature.Matches data) :
    ∃ first second rest, data = first :: second :: rest ∧
      (1 ≤ highNibble first ∧ highNibble first ≤ 14) ∧ ¬ Base128.Continues second := by
  have hprefix : ∀ first second more, first :: second :: more <+: data →
      (1 ≤ highNibble first ∧ highNibble first ≤ 14) ∧ ¬ Base128.Continues second →
        ∃ first second rest, data = first :: second :: rest ∧
          (1 ≤ highNibble first ∧ highNibble first ≤ 14) ∧ ¬ Base128.Continues second := by
    rintro first second more ⟨rest, rfl⟩ hbytes
    exact ⟨first, second, more ++ rest, rfl, hbytes⟩
  cases signature with
  | http =>
      rcases h with hget | hpost | hhttp
      · exact hprefix 0x47 0x45 _ hget (by decide)
      · exact hprefix 0x50 0x4F _ hpost (by decide)
      · exact hprefix 0x48 0x54 _ hhttp (by decide)
  | tls => exact hprefix 0x16 0x03 _ h.2 (by decide)

/-- A packet with a signature passes for MQTT. -/
theorem Matches.looksLikeMqtt {signature : Signature} {data : List UInt8}
    (h : signature.Matches data) : 2 ≤ data.length ∧ looksLikeMqtt data = .ok true := by
  obtain ⟨first, second, rest, rfl, hfirst, hsecond⟩ := h.leading
  refine ⟨Nat.le_add_left 2 rest.length, ?_⟩
  rw [MQTT.looksLikeMqtt_cons (List.cons_ne_nil _ _), Base128.split_cons_of_not_continues hsecond]
  exact congrArg Except.ok (decide_eq_true ⟨hfirst, rfl⟩)

end Signature

/-- No packet with a signature is detected as what it is: what does not pass for DNS passes
for MQTT. -/
theorem detectProtocol_signature (signature : Signature) {data : List UInt8}
    (hmatches : signature.Matches data) (hdns : looksLikeDns data = .ok false) :
    detectProtocol data = .ok (some ("MQTT", 0.7)) ∧
      ∀ confidence, detectProtocol data ≠ .ok (some (signature.protocol, confidence)) := by
  obtain ⟨long, hmqtt⟩ := hmatches.looksLikeMqtt
  have hshape : ¬ DnsShaped data := by simpa [looksLikeDns_eq] using hdns
  have hdetected := detectProtocol_of_looksLikeMqtt hshape long hmqtt
  refine ⟨hdetected, fun confidence h => ?_⟩
  rw [hdetected] at h
  cases signature <;> simp [Signature.protocol] at h

theorem detectProtocol_signature_tls :
    detectProtocol [0x16, 0x03, 0x01, 0x00, 0x01, 0x01] = .ok (some ("MQTT", 0.7)) ∧
      detectProtocol [0x16, 0x03, 0x01, 0x00, 0x01, 0x01] ≠ .ok (some ("TLS", 0.8)) :=
  (detectProtocol_signature .tls ⟨by decide, _, rfl⟩ (by decide)).imp_right fun h => h 0.8

/-- An HTTP request that is too short for DNS. -/
theorem detectProtocol_get :
    utf8 "GET " <+: utf8 "GET / HTTP" ∧ looksLikeDns (utf8 "GET / HTTP") = .ok false ∧
      detectProtocol (utf8 "GET / HTTP") = .ok (some ("MQTT", 0.7)) := by
  refine ⟨⟨utf8 "/ HTTP", by decide⟩, by decide, by decide +kernel⟩

/-! ## Generated packets -/

open MQTT

/-- A publication without a topic, where the packet id and the payload are small. With two
length bytes the second one takes the place of the flags, and the payload starts in the
middle of a word. -/
def PassesForDnsPublish (fields : PublishFields (List UInt8)) : Prop :=
  fields.topic = [] ∧
    if (publishBody fields).length < 128 then
      SmallWords 4 (fields.packetId.elim [] toBE16 ++ fields.payload)
    else
      (publishBody fields).length < 6144 ∧
        SmallWords 4 (0 :: (fields.packetId.elim [] toBE16 ++ fields.payload))

/-- Three filters or more, of which the first two are empty. With one length byte the packet
id takes the place of the flags; with two, its low byte comes after them. -/
def PassesForDnsSubscribe (packetId : UInt16) (filters : List (List UInt8 × UInt8)) : Prop :=
  ∃ firstQoS secondQoS third rest,
    filters = ([], firstQoS) :: ([], secondQoS) :: third :: rest ∧
      if (subscribeBody packetId filters).length < 128 then
        packetId.toNat / 2048 % 16 ≤ 5 ∧ packetId.toNat % 16 ≤ 9 ∧ firstQoS = 0 ∧
          third.1.length ≤ 100
      else
        packetId.toNat / 256 % 16 ≤ 9 ∧ packetId.toNat % 256 = 0 ∧ secondQoS = 0

/-- The generated MQTT packets that pass for DNS. -/
def PassesForDns : TextPacket → Prop
  | .publish fields => PassesForDnsPublish fields
  | .subscribe packetId filters => PassesForDnsSubscribe packetId filters
  | _ => False

/-- The bytes of the length of a generated text. -/
theorem lengthField_bytes {n : ℕ} (h : n ≤ 510) :
    (UInt8.ofNat ((UInt16.ofNat n).toNat / 256)).toNat = n / 256 ∧
      (UInt8.ofNat ((UInt16.ofNat n).toNat % 256)).toNat = n % 256 := by
  rw [UInt16.toNat_ofNat', UInt8.toNat_ofNat', UInt8.toNat_ofNat']
  omega

theorem connect_not_dnsShaped {fields : ConnectFields (List UInt8)}
    (hname : fields.protocolName = utf8 "MQTT") (hshort : (connectBody fields).length < 128) :
    ¬ DnsShaped (Packet.connect fields : TextPacket).written := by
  rw [Packet.written, frame, Packet.body, Base128.encode_of_lt hshort, connectBody, hname]
  intro hshape
  exact not_smallWords_of_large (by decide) hshape.2.2

/-- A publication with one length byte has its topic where DNS has its counts. -/
theorem publish_short_dnsShaped {fields : PublishFields (List UInt8)}
    (hprintable : ∀ byte ∈ fields.topic, 0x23 ≤ byte.toNat)
    (hshort : (publishBody fields).length < 128) :
    DnsShaped (Packet.publish fields : TextPacket).written ↔
      fields.topic = [] ∧ SmallWords 4 (fields.packetId.elim [] toBE16 ++ fields.payload) := by
  rw [Packet.written, frame, Packet.body, Base128.encode_of_lt hshort, publishBody, writeText]
  cases htopic : fields.topic with
  | nil =>
      exact ⟨fun h => ⟨rfl, h.2.2⟩, fun h => ⟨by decide, by decide, h.2⟩⟩
  | cons char chars =>
      rw [htopic] at hprintable
      refine iff_of_false ?_ (by simp)
      intro hshape
      exact not_smallWords_of_large (hprintable char List.mem_cons_self) hshape.2.2

/-- The second length byte stands for the flags, and the topic starts in the middle of a
word. -/
theorem publish_long_dnsShaped {fields : PublishFields (List UInt8)}
    (hprintable : ∀ byte ∈ fields.topic, 0x23 ≤ byte.toNat) (htopic : fields.topic.length ≤ 510)
    (low : 128 ≤ (publishBody fields).length) (high : (publishBody fields).length < 128 ^ 2) :
    DnsShaped (Packet.publish fields : TextPacket).written ↔
      fields.topic = [] ∧ (publishBody fields).length < 6144 ∧
        SmallWords 4 (0 :: (fields.packetId.elim [] toBE16 ++ fields.payload)) := by
  rw [Packet.written, frame, Packet.body, Base128.encode_of_two low high]
  generalize hlength : (publishBody fields).length = length at low high ⊢
  rw [publishBody, writeText]
  have hflags : (UInt8.ofNat (length / 128)).toNat / 8 % 16 ≤ 5 ↔ length < 6144 := by
    rw [UInt8.toNat_ofNat']
    omega
  cases hchars : fields.topic with
  | nil =>
      exact ⟨fun h => ⟨rfl, hflags.mp h.1, h.2.2⟩,
        fun h => ⟨hflags.mpr h.2.1, by decide, h.2.2⟩⟩
  | cons char chars =>
      rw [hchars] at hprintable htopic
      obtain ⟨hchar, hrest⟩ := List.forall_mem_cons.mp hprintable
      refine iff_of_false ?_ (by simp)
      intro hshape
      obtain ⟨-, -, hfirst, hcounts⟩ := hshape
      rw [(lengthField_bytes htopic).2] at hfirst
      cases chars with
      | nil =>
          rw [List.length_singleton] at hfirst
          omega
      | cons next chars =>
          exact not_smallWords_of_large (hrest next List.mem_cons_self) hcounts

section Filters

variable {text : List UInt8} {qos : UInt8} {count : ℕ}

/-- The length of a filter as a word. -/
theorem smallWords_entry (hlength : text.length ≤ 510) (rest : List UInt8) :
    SmallWords (count + 1) (writeSubscription (text, qos) ++ rest) ↔
      text.length ≤ 100 ∧ SmallWords count (text ++ qos :: rest) := by
  obtain ⟨hhi, hlo⟩ := lengthField_bytes hlength
  rw [writeSubscription_eq, List.cons_append, List.cons_append, List.append_assoc, SmallWords,
    hhi, hlo, Nat.div_add_mod']
  rfl

/-- The length of an empty filter in the middle of words. -/
theorem smallWords_byte_empty {byte : UInt8} (rest : List UInt8) :
    SmallWords (count + 1) (byte :: (writeSubscription ([], qos) ++ rest)) ↔
      byte = 0 ∧ SmallWords count (0 :: qos :: rest) := by
  rw [writeSubscription_empty, List.cons_append, SmallWords, ← UInt8.toNat_inj,
    show (0 : UInt8).toNat = 0 from rfl]
  apply and_congr_left
  intro _
  omega

/-- Behind the length of any other filter comes a character as the high byte of a word, at
once or after the low byte of a length of 256. -/
theorem not_smallWords_byte_nonempty {byte : UInt8} (hne : text ≠ [])
    (hprintable : ∀ char ∈ text, 0x23 ≤ char.toNat) (hlength : text.length ≤ 510)
    (rest : List UInt8) :
    ¬ SmallWords (count + 3) (byte :: (writeSubscription (text, qos) ++ rest)) := by
  obtain ⟨char, chars, rfl⟩ := List.exists_cons_of_ne_nil hne
  rw [writeSubscription_eq]
  intro hsmall
  obtain ⟨-, hsecond, hcounts⟩ := hsmall
  rw [(lengthField_bytes hlength).2] at hsecond
  obtain ⟨hchar, hrest⟩ := List.forall_mem_cons.mp hprintable
  cases chars with
  | nil =>
      rw [List.length_singleton] at hsecond
      omega
  | cons next chars => exact not_smallWords_of_large (hrest next List.mem_cons_self) hcounts

end Filters

/-- The counts of a subscription with one length byte start with its filters. -/
theorem smallWords_filters {filters : List (List UInt8 × UInt8)}
    (hgenerated : GeneratedFilters filters) :
    SmallWords 4 (filters.flatMap writeSubscription) ↔
      ∃ firstQoS secondQoS third rest,
        filters = ([], firstQoS) :: ([], secondQoS) :: third :: rest ∧
          firstQoS = 0 ∧ third.1.length ≤ 100 := by
  obtain ⟨-, hprintable, hlength, hqos⟩ := hgenerated
  match filters with
  | [] => exact iff_of_false id (by simp)
  | (char :: chars, _) :: rest =>
      refine iff_of_false ?_ (by simp)
      rw [List.flatMap_cons, smallWords_entry (hlength _ List.mem_cons_self)]
      intro hsmall
      exact not_smallWords_of_large (hprintable _ List.mem_cons_self _ List.mem_cons_self)
        hsmall.2
  | [([], _)] => exact iff_of_false (fun h => h.2) (by simp)
  | ([], firstQoS) :: (char :: chars, qos) :: rest =>
      have hmem : (char :: chars, qos) ∈ ([], firstQoS) :: (char :: chars, qos) :: rest := by simp
      refine iff_of_false ?_ (by simp)
      rw [List.flatMap_cons, smallWords_entry (Nat.zero_le _), List.flatMap_cons]
      intro hsmall
      exact not_smallWords_byte_nonempty (List.cons_ne_nil _ _) (hprintable _ hmem)
        (hlength _ hmem) _ hsmall.2
  | [([], _), ([], _)] => exact iff_of_false (fun h => h.2.2.2) (by simp)
  | ([], firstQoS) :: ([], secondQoS) :: (text, qos) :: rest =>
      have hsecond : secondQoS.toNat < 3 := hqos ([], secondQoS) (by simp)
      have hthird : text.length ≤ 510 := hlength (text, qos) (by simp)
      rw [List.flatMap_cons, smallWords_entry (Nat.zero_le _), List.flatMap_cons, List.nil_append,
        smallWords_byte_empty, List.flatMap_cons, SmallWords, smallWords_entry hthird]
      constructor
      · rintro ⟨-, hfirst, -, hsmall, -⟩
        exact ⟨firstQoS, secondQoS, (text, qos), rest, rfl, hfirst, hsmall⟩
      · rintro ⟨_, _, _, _, hfilters, hfirst, hsmall⟩
        cases hfilters
        have hcount : 0 * 256 + secondQoS.toNat ≤ 100 := by omega
        exact ⟨Nat.zero_le _, hfirst, hcount, hsmall, trivial⟩

/-- With two length bytes a byte comes before the filters. -/
theorem smallWords_filters_shifted {filters : List (List UInt8 × UInt8)}
    (hgenerated : GeneratedFilters filters) (byte : UInt8) :
    SmallWords 4 (byte :: filters.flatMap writeSubscription) ↔
      ∃ firstQoS secondQoS third rest,
        filters = ([], firstQoS) :: ([], secondQoS) :: third :: rest ∧
          byte = 0 ∧ secondQoS = 0 := by
  obtain ⟨-, hprintable, hlength, hqos⟩ := hgenerated
  match filters with
  | [] => exact iff_of_false id (by simp)
  | (char :: chars, qos) :: rest =>
      have hmem : (char :: chars, qos) ∈ (char :: chars, qos) :: rest := List.mem_cons_self
      refine iff_of_false ?_ (by simp)
      rw [List.flatMap_cons]
      exact not_smallWords_byte_nonempty (List.cons_ne_nil _ _) (hprintable _ hmem)
        (hlength _ hmem) _
  | [([], _)] => exact iff_of_false (fun h => h.2.2) (by simp)
  | ([], firstQoS) :: (char :: chars, qos) :: rest =>
      have hmem : (char :: chars, qos) ∈ ([], firstQoS) :: (char :: chars, qos) :: rest := by simp
      refine iff_of_false ?_ (by simp)
      rw [List.flatMap_cons, smallWords_byte_empty, List.flatMap_cons, SmallWords,
        smallWords_entry (hlength _ hmem)]
      intro hsmall
      exact not_smallWords_of_large (hprintable _ hmem _ List.mem_cons_self) hsmall.2.2.2
  | [([], _), ([], _)] => exact iff_of_false (fun h => h.2.2.2) (by simp)
  | ([], firstQoS) :: ([], secondQoS) :: (text, qos) :: rest =>
      have hfirst : firstQoS.toNat < 3 := hqos ([], firstQoS) (by simp)
      have hthird : text.length ≤ 510 := hlength (text, qos) (by simp)
      rw [List.flatMap_cons, smallWords_byte_empty, List.flatMap_cons, SmallWords,
        smallWords_entry (Nat.zero_le _), List.nil_append, List.flatMap_cons,
        writeSubscription_eq, List.cons_append, SmallWords, (lengthField_bytes hthird).1]
      constructor
      · rintro ⟨hbyte, -, -, hsmall, -⟩
        have hzero : secondQoS.toNat = 0 := by omega
        exact ⟨firstQoS, secondQoS, (text, qos), rest, rfl, hbyte, UInt8.toNat_inj.mp hzero⟩
      · rintro ⟨_, _, _, _, hfilters, hbyte, hsecond⟩
        cases hfilters
        have hfirstWord : 0 * 256 + firstQoS.toNat ≤ 100 := by omega
        have hlastWord : 0 * 256 + text.length / 256 ≤ 100 := by omega
        exact ⟨hbyte, hfirstWord, Nat.zero_le _, by rw [hsecond]; exact hlastWord, trivial⟩

theorem subscribe_dnsShaped {packetId : UInt16} {filters : List (List UInt8 × UInt8)}
    (hgenerated : GeneratedFilters filters) :
    DnsShaped (Packet.subscribe packetId filters : TextPacket).written ↔
      PassesForDnsSubscribe packetId filters := by
  have hid := packetId.toNat_lt
  have hlength := (hgenerated.writable packetId).1
  have hhi : (UInt8.ofNat (packetId.toNat / 256)).toNat = packetId.toNat / 256 := by
    rw [UInt8.toNat_ofNat']
    omega
  have hlo : (UInt8.ofNat (packetId.toNat % 256)).toNat = packetId.toNat % 256 := by
    rw [UInt8.toNat_ofNat']
    omega
  by_cases hshort : (subscribeBody packetId filters).length < 128
  · rw [written_short hshort]
    change ((UInt8.ofNat (packetId.toNat / 256)).toNat / 8 % 16 ≤ 5 ∧
      (UInt8.ofNat (packetId.toNat % 256)).toNat % 16 ≤ 9 ∧
        SmallWords 4 (filters.flatMap writeSubscription)) ↔ _
    rw [hhi, hlo, smallWords_filters hgenerated, PassesForDnsSubscribe]
    simp only [if_pos hshort]
    constructor
    · rintro ⟨hopcode, hrcode, firstQoS, secondQoS, third, rest, hfilters, hcounts⟩
      exact ⟨firstQoS, secondQoS, third, rest, hfilters, by omega, by omega, hcounts⟩
    · rintro ⟨firstQoS, secondQoS, third, rest, hfilters, hopcode, hrcode, hcounts⟩
      exact ⟨by omega, by omega, firstQoS, secondQoS, third, rest, hfilters, hcounts⟩
  · have hlow : 128 ≤ (subscribeBody packetId filters).length := Nat.not_lt.mp hshort
    rw [written_long rfl hlow (by omega)]
    change ((UInt8.ofNat ((subscribeBody packetId filters).length / 128)).toNat / 8 % 16 ≤ 5 ∧
      (UInt8.ofNat (packetId.toNat / 256)).toNat % 16 ≤ 9 ∧ SmallWords 4
        (UInt8.ofNat (packetId.toNat % 256) :: filters.flatMap writeSubscription)) ↔ _
    have hopcode :
        (UInt8.ofNat ((subscribeBody packetId filters).length / 128)).toNat / 8 % 16 ≤ 5 := by
      rw [UInt8.toNat_ofNat']
      omega
    have hzero : UInt8.ofNat (packetId.toNat % 256) = 0 ↔ packetId.toNat % 256 = 0 := by
      rw [← UInt8.toNat_inj, hlo]
      rfl
    rw [hhi, smallWords_filters_shifted hgenerated, PassesForDnsSubscribe, hzero]
    simp only [if_neg hshort]
    constructor
    · rintro ⟨-, hrcode, firstQoS, secondQoS, third, rest, hfilters, hsmall⟩
      exact ⟨firstQoS, secondQoS, third, rest, hfilters, hrcode, hsmall⟩
    · rintro ⟨firstQoS, secondQoS, third, rest, hfilters, hrcode, hsmall⟩
      exact ⟨hopcode, hrcode, firstQoS, secondQoS, third, rest, hfilters, hsmall⟩

theorem publish_dnsShaped {fields : PublishFields (List UInt8)}
    (hprintable : ∀ byte ∈ fields.topic, 0x23 ≤ byte.toNat) (htopic : fields.topic.length ≤ 510)
    (hbody : (publishBody fields).length < 128 ^ 2) :
    DnsShaped (Packet.publish fields : TextPacket).written ↔ PassesForDnsPublish fields := by
  rw [PassesForDnsPublish]
  split_ifs with hshort
  · exact publish_short_dnsShaped hprintable hshort
  · exact publish_long_dnsShaped hprintable htopic (Nat.not_lt.mp hshort) hbody

section Generated

variable {σ : Type} [DrawSource σ]

/-- Whatever is drawn, the filters of a subscription are generated ones. -/
theorem packetDraws_filters :
    Always (packetDraws : Gen σ DrawnPacket) fun drawn => ∀ packetId filters,
      Packet.render drawn = .subscribe packetId filters → GeneratedFilters filters := by
  refine Always.bind (always_true _) fun packetType _ => ?_
  dsimp only
  split
  · exact Always.bind (always_true _) fun _ _ => Always.bind (always_true _) fun _ _ =>
      Always.bind (always_true _) fun _ _ => always_pure nofun
  · refine Always.bind (always_true _) fun _ _ => Always.bind (always_true _) fun _ _ =>
      Always.bind (always_true _) fun _ _ => Always.bind (always_true _) fun _ _ =>
        Always.bind (always_true _) fun _ _ => ?_
    split_ifs
    · exact Always.bind (always_true _) fun _ _ => always_pure nofun
    · exact always_pure nofun
  · refine subscribeDraws_generated.mono fun drawn hdrawn packetId filters hrender => ?_
    obtain ⟨packetId', filters', hrender', hgenerated⟩ := hdrawn
    obtain ⟨-, rfl⟩ := Packet.subscribe.inj (hrender'.symm.trans hrender)
    exact hgenerated
  · exact always_pure nofun

/-- A generated MQTT packet passes for DNS exactly in these cases. -/
theorem generated_dnsShaped (s : σ) :
    DnsShaped (Packet.render (packetDraws.run s).1).written ↔
      PassesForDns (Packet.render (packetDraws.run s).1) := by
  have hdrawn := packetDraws_drawn s
  have hfilters := packetDraws_filters s
  have hbody := hdrawn.body_short
  cases hpacket : (packetDraws.run s).1 with
  | connect fields =>
      rw [hpacket] at hdrawn
      have hclient := hdrawn.2.1.text_short
      refine iff_of_false (connect_not_dnsShaped hdrawn.1 ?_) id
      rw [length_connectBody, hdrawn.1, show (utf8 "MQTT").length = 4 by decide]
      change 4 + fields.clientId.text.length + 8 < 128
      omega
  | publish fields =>
      rw [hpacket] at hdrawn hbody
      exact publish_dnsShaped fields.topic.text_printable hdrawn.1.text_short hbody
  | subscribe packetId filters =>
      rw [hpacket] at hfilters
      exact subscribe_dnsShaped (hfilters _ _ rfl)
  | pingreq =>
      refine iff_of_false (fun h => absurd h.length_le ?_) id
      change ¬ 12 ≤ (frame 0xC0 []).length
      rw [frame, Base128.encode_of_lt (by decide)]
      decide

/-- The query builder writes the id, no flags, one question and no records. -/
def WritesPlainHeader (build : DNS.Builder) : Prop :=
  ∀ id name queryType packet, build id name queryType = .ok (some packet) →
    ∃ question, packet = toBE16 id ++ [0, 0, 0, 1, 0, 0, 0, 0, 0, 0] ++ question

/-- Every query passes for DNS. -/
theorem WritesPlainHeader.dnsShaped {build : DNS.Builder} (h : WritesPlainHeader build)
    {id : UInt16} {name : List UInt8} {queryType : DNS.QueryType} {packet : List UInt8}
    (hpacket : build id name queryType = .ok (some packet)) : DnsShaped packet := by
  obtain ⟨question, rfl⟩ := h id name queryType packet hpacket
  exact ⟨by decide, by decide, by decide, by decide, by decide, by decide, trivial⟩

/-- Every writable packet passes for MQTT. -/
theorem written_looksLikeMqtt {packet : TextPacket} (h : packet.Writable) :
    2 ≤ packet.written.length ∧ looksLikeMqtt packet.written = .ok true := by
  have hne : Base128.encode packet.body.length ++ packet.body ≠ [] := fun hnil =>
    (Base128.encode_terminated _).ne_nil (List.append_eq_nil_iff.mp hnil).1
  have htype : 1 ≤ highNibble packet.first ∧ highNibble packet.first ≤ 14 := by
    rw [highNibble_first h]
    exact packet.kind_defined
  have hwritten : packet.written =
      packet.first :: (Base128.encode packet.body.length ++ packet.body) := rfl
  rw [hwritten, looksLikeMqtt_cons hne, Base128.split_encode (by decide) h.short]
  exact ⟨Nat.succ_le_succ (List.length_pos_of_ne_nil hne),
    congrArg Except.ok (decide_eq_true ⟨htype, rfl⟩)⟩

/-- What is generated is detected as what it is, except for the MQTT packets that pass for
DNS. -/
theorem detectProtocol_generated {build : DNS.Builder} (hbuild : WritesPlainHeader build) (s : σ) :
    (PassesForDns (Packet.render (packetDraws.run s).1) →
        detectProtocol (MQTT.generateValidPacket.run s).1 = .ok (some ("DNS", 0.8))) ∧
      (¬ PassesForDns (Packet.render (packetDraws.run s).1) →
        detectProtocol (MQTT.generateValidPacket.run s).1 = .ok (some ("MQTT", 0.7))) ∧
      ∀ packet s', (DNS.generateValidPacket build).run s = .ok (some packet, s') →
        detectProtocol packet = .ok (some ("DNS", 0.8)) := by
  have hbytes : (MQTT.generateValidPacket.run s).1 =
      (Packet.render (packetDraws.run s).1).written := by
    rw [generateValidPacket_eq]
    rfl
  obtain ⟨long, hmqtt⟩ := written_looksLikeMqtt (packetDraws_drawn s).writable
  rw [hbytes, ← generated_dnsShaped]
  refine ⟨detectProtocol_of_dnsShaped,
    fun hdns => detectProtocol_of_looksLikeMqtt hdns long hmqtt, fun packet s' hrun => ?_⟩
  exact detectProtocol_of_dnsShaped (hbuild.dnsShaped (eq_ok_of_run_lift hrun))

end Generated

theorem writesPlainHeader_buildAddressQuery : WritesPlainHeader DNS.buildAddressQuery := by
  intro id name queryType packet hpacket
  rw [DNS.buildAddressQuery] at hpacket
  split_ifs at hpacket
  obtain rfl := Option.some.inj (Except.ok.inj hpacket)
  exact ⟨_, List.append_assoc _ _ _⟩

/-- From a seed of zeros a CONNECT packet is generated, or a query for a short name. -/
theorem detectProtocol_generated_zeros :
    detectProtocol (MQTT.generateValidPacket.run ({ data := [] } : Unstructured)).1 =
        .ok (some ("MQTT", 0.7)) ∧
      ∃ packet s', (DNS.generateValidPacket DNS.buildAddressQuery).run
          ({ data := [] } : Unstructured) = .ok (some packet, s') ∧
        detectProtocol packet = .ok (some ("DNS", 0.8)) := by
  obtain ⟨-, hmqtt, hdns⟩ := detectProtocol_generated writesPlainHeader_buildAddressQuery
    ({ data := [] } : Unstructured)
  exact ⟨hmqtt id, _, _, rfl, hdns _ _ rfl⟩

/-- A seed for a subscription to three empty filters. -/
def emptyFiltersSeed : Unstructured where
  data := [2] ++ [0, 0] ++ [2, 0, 0, 0, 0, 0, 0, 0] ++
    (List.replicate 3 [1, 8, 0, 0, 0, 0, 0, 0, 0]).flatten

/-- The subscription passes for a DNS query. -/
theorem detectProtocol_emptyFilters :
    (MQTT.generateValidPacket.run emptyFiltersSeed).1 =
        [0x82, 11, 0, 0, 0, 0, 0, 0, 0, 0, 0, 0, 0] ∧
      detectProtocol (MQTT.generateValidPacket.run emptyFiltersSeed).1 =
        .ok (some ("DNS", 0.8)) := by
  refine ⟨by decide +kernel, by decide +kernel⟩

end ProtocolFuzzer.PacketAnalyzer
