/-
# One writer and four readers of the remaining length

The remaining-length field of an MQTT packet is written in one place and read in four:
by the validator, by the feature extraction of the fuzzer, by the feature extractor of
the coverage collector and by the packet analyzer, each with a loop and limits of its
own. All of them are compared with the leading base-128 field of at most four bytes.
The writer knows no limit, so the readers follow it up to the numbers of four groups.
-/

import ProtocolFuzzer.Coverage.Safety
import ProtocolFuzzer.Protocols.MQTT.Generation
import ProtocolFuzzer.Utils.PacketAnalyzer

namespace ProtocolFuzzer.MQTT

open Math Platform PacketAnalyzer Coverage

/-- The writer appends the shortest base-128 field of any number, and the validator accepts
the framing it announces exactly below `2 ^ 28`, where four bytes suffice. -/
theorem encodeRemainingLength_minimal (packet : List UInt8) (n : ℕ) :
    ∃ field, encodeRemainingLength packet n = packet ++ field ∧
      (∃ init last, field = init ++ [last] ∧ (∀ b ∈ init, b &&& 0x80 ≠ 0) ∧
        last &&& 0x80 = 0) ∧
      Base128.value field = n ∧
      (∀ other, other ≠ [] → Base128.value other = n → field.length ≤ other.length) ∧
      (n < 2 ^ 28 → field.length ≤ 4 ∧
        ∀ first body, 1 ≤ highNibble first ∧ highNibble first ≤ 14 → body.length = n →
          validatePacket (encodeRemainingLength [first] n ++ body) = .ok true) ∧
      (2 ^ 28 ≤ n → ∀ first rest,
        validatePacket (encodeRemainingLength [first] n ++ rest) = .ok false) := by
  have hlimit : 2 ^ 28 = 128 ^ 4 := by norm_num
  have hwritten : ∀ first rest, encodeRemainingLength [first] n ++ rest =
      first :: (Base128.encode n ++ rest) := by
    intro first rest
    rw [encodeRemainingLength_eq]
    rfl
  obtain ⟨init, last, hfield, flagged, final⟩ :=
    Base128.terminated_iff.mp (Base128.encode_terminated n)
  refine ⟨Base128.encode n, encodeRemainingLength_eq packet n,
    ⟨init, last, hfield, flagged, Base128.not_continues_iff.mp final⟩, Base128.value_encode n,
    ?_, ?_, ?_⟩
  · rintro other hne rfl
    exact Base128.length_encode_minimal hne
  · intro fits
    rw [hlimit] at fits
    refine ⟨(Base128.length_encode_le_iff (by decide)).mpr fits, ?_⟩
    intro first body htype hlength
    rw [hwritten, validatePacket_eq_true]
    exact ⟨_, body, Base128.split_encode (by decide) fits body, htype,
      (Base128.value_encode n).trans hlength.symm⟩
  · intro large first rest
    rw [hlimit] at large
    rw [hwritten]
    apply validatePacket_eq_false
    intro field body cut
    rw [Base128.split_encode_eq_none large rest] at cut
    exact absurd cut (by simp)

/-- A packet of two bytes, and the first length beyond the limit. -/
theorem encodeRemainingLength_minimal_limit :
    validatePacket (encodeRemainingLength [0xC0] 2 ++ [0x41, 0x42]) = .ok true ∧
      validatePacket (encodeRemainingLength [0xC0] (2 ^ 28) ++ [0x41]) = .ok false := by
  obtain ⟨_, -, -, -, -, haccept, -⟩ := encodeRemainingLength_minimal [] 2
  obtain ⟨_, -, -, -, -, -, hreject⟩ := encodeRemainingLength_minimal [] (2 ^ 28)
  exact ⟨(haccept (by decide)).2 0xC0 [0x41, 0x42] (by decide) rfl, hreject le_rfl 0xC0 [0x41]⟩

/-- One pass of the packet analyzer's loop. -/
theorem scanLengthField_step {data : List UInt8} {pos : ℕ} (hpos : 1 ≤ pos ∧ pos ≤ 4)
    (inside : pos < data.length) :
    scanLengthField data pos (128 ^ (pos - 1)) =
      if Base128.Continues data[pos] then
        if pos = 4 then .ok false else scanLengthField data (pos + 1) (128 ^ pos)
      else .ok true := by
  have hpow : 128 ^ (pos - 1) * 128 = 128 ^ pos := pow_sub_one_mul (by omega) 128
  have hlimit : 128 ^ pos ≤ 128 ^ 4 := Nat.pow_le_pow_right (by decide) hpos.2
  norm_num at hlimit
  rw [scanLengthField, dif_neg (Nat.not_le.mpr inside), index_of_lt inside, ok_bind]
  by_cases more : Base128.Continues data[pos]
  · rw [if_neg more, if_pos more, mulI32_of_lt (by omega), ok_bind, hpow]
    by_cases last : pos = 4
    · rw [if_pos ((beyond_limit_iff hpos.2).mpr last), if_pos last]
      rfl
    · rw [if_neg (mt (beyond_limit_iff hpos.2).mp last),
        add_of_lt (by rw [usizeRange]; omega), ok_bind, if_neg (by omega), if_neg last]
  · rw [if_pos (Base128.not_continues_iff.mp more), if_neg more]
    rfl

/-- The packet analyzer looks for a complete field of at most four bytes. The induction is
on the number of length bytes that may still follow the one at `pos`. -/
theorem scanLengthField_eq {data : List UInt8} {k pos : ℕ} (hk : k + pos = 4) (hpos : 1 ≤ pos) :
    scanLengthField data pos (128 ^ (pos - 1)) =
      .ok (Base128.split (k + 1) (data.drop pos)).isSome := by
  induction k generalizing pos with
  | zero =>
      rcases Base128.split_drop_cases data 0 pos with
        ⟨past, hcut⟩ | ⟨inside, final, hcut⟩ | ⟨inside, more, hcut⟩
      · rw [scanLengthField, dif_pos past, hcut]
        rfl
      · rw [scanLengthField_step ⟨hpos, by omega⟩ inside, if_neg final, hcut]
        rfl
      · rw [scanLengthField_step ⟨hpos, by omega⟩ inside, if_pos more, if_pos (by omega), hcut]
        rfl
  | succ k ih =>
      rcases Base128.split_drop_cases data (k + 1) pos with
        ⟨past, hcut⟩ | ⟨inside, final, hcut⟩ | ⟨inside, more, hcut⟩
      · rw [scanLengthField, dif_pos past, hcut]
        rfl
      · rw [scanLengthField_step ⟨hpos, by omega⟩ inside, if_neg final, hcut]
        rfl
      · have hnext := @ih (pos + 1) (by omega) (by omega)
        rw [Nat.add_sub_cancel] at hnext
        rw [scanLengthField_step ⟨hpos, by omega⟩ inside, if_pos more, if_neg (by omega), hnext,
          hcut, Option.isSome_map]

/-- One pass of the feature extraction's loop. -/
theorem scanRemainingLength_step {packet : List UInt8} {pos : ℕ} (hpos : 1 ≤ pos ∧ pos ≤ 4)
    (inside : pos < packet.length) (remaining : ℕ) :
    scanRemainingLength packet pos (128 ^ (pos - 1)) remaining =
      let remaining := remaining + Base128.payload packet[pos] * 128 ^ (pos - 1)
      if Base128.Continues packet[pos] then
        if pos = 4 then .ok remaining
        else scanRemainingLength packet (pos + 1) (128 ^ pos) remaining
      else .ok remaining := by
  have hpow : 128 ^ (pos - 1) * 128 = 128 ^ pos := pow_sub_one_mul (by omega) 128
  rw [scanRemainingLength, dif_pos inside, index_of_lt inside, ok_bind, hpow]
  dsimp only
  by_cases more : Base128.Continues packet[pos]
  · rw [if_neg more, if_pos more]
    by_cases last : pos = 4
    · rw [if_pos (.inr ((beyond_limit_iff hpos.2).mpr last)), if_pos last]
      rfl
    · rw [if_neg (by rw [beyond_limit_iff hpos.2]; omega), if_neg last]
      rfl
  · rw [if_pos (Base128.not_continues_iff.mp more), if_neg more]
    rfl

/-- Where there is a field of at most four bytes, the feature extraction reads its value. -/
theorem scanRemainingLength_eq {packet field rest : List UInt8} {k pos remaining : ℕ}
    (hk : k + pos = 4) (hpos : 1 ≤ pos)
    (hcut : Base128.split (k + 1) (packet.drop pos) = some (field, rest)) :
    scanRemainingLength packet pos (128 ^ (pos - 1)) remaining =
      .ok (remaining + 128 ^ (pos - 1) * Base128.value field) := by
  induction k generalizing pos remaining field with
  | zero =>
      rcases Base128.split_drop_cases packet 0 pos with
        ⟨past, hsplit⟩ | ⟨inside, final, hsplit⟩ | ⟨inside, more, hsplit⟩
      · exact absurd (hsplit.symm.trans hcut) (by simp)
      · obtain ⟨rfl, -⟩ : [packet[pos]] = field ∧ _ = rest := by
          simpa using hsplit.symm.trans hcut
        rw [scanRemainingLength_step ⟨hpos, by omega⟩ inside, if_neg final]
        simp [Base128.value, Nat.mul_comm]
      · exact absurd (hsplit.symm.trans hcut) (by simp [Base128.split])
  | succ k ih =>
      rcases Base128.split_drop_cases packet (k + 1) pos with
        ⟨past, hsplit⟩ | ⟨inside, final, hsplit⟩ | ⟨inside, more, hsplit⟩
      · exact absurd (hsplit.symm.trans hcut) (by simp)
      · obtain ⟨rfl, -⟩ : [packet[pos]] = field ∧ _ = rest := by
          simpa using hsplit.symm.trans hcut
        rw [scanRemainingLength_step ⟨hpos, by omega⟩ inside, if_neg final]
        simp [Base128.value, Nat.mul_comm]
      · obtain ⟨⟨tail, suffix⟩, htail, hparts⟩ :=
          Option.map_eq_some_iff.mp (hsplit.symm.trans hcut)
        obtain ⟨rfl, rfl⟩ : packet[pos] :: tail = field ∧ suffix = rest := by
          simpa using hparts
        have hpow : 128 ^ (pos - 1) * 128 = 128 ^ pos := pow_sub_one_mul (by omega) 128
        have hnext := @ih tail (pos + 1)
          (remaining + Base128.payload packet[pos] * 128 ^ (pos - 1)) (by omega) (by omega) htail
        rw [Nat.add_sub_cancel] at hnext
        rw [scanRemainingLength_step ⟨hpos, by omega⟩ inside]
        dsimp only
        rw [if_pos more, if_neg (by omega), hnext, Base128.value, ← hpow]
        congr 1
        ring

/-- The feature extractor counts the bytes of the field. -/
theorem countRemainingLengthBytes_eq {bound : ℕ} {bytes field rest : List UInt8}
    (hcut : Base128.split bound bytes = some (field, rest)) :
    MQTTFeatureExtractor.countRemainingLengthBytes bound bytes = field.length := by
  induction bound generalizing bytes field with
  | zero => exact absurd hcut (by simp [Base128.split])
  | succ bound ih =>
      cases bytes with
      | nil => exact absurd hcut (by simp [Base128.split])
      | cons byte bytes =>
          rw [MQTTFeatureExtractor.countRemainingLengthBytes]
          by_cases more : Base128.Continues byte
          · rw [Base128.split_cons_of_continues more] at hcut
            obtain ⟨⟨tail, suffix⟩, htail, hparts⟩ := Option.map_eq_some_iff.mp hcut
            obtain ⟨rfl, rfl⟩ : byte :: tail = field ∧ suffix = rest := by simpa using hparts
            rw [if_neg more, ih htail, List.length_cons]
          · rw [Base128.split_cons_of_not_continues more] at hcut
            obtain ⟨rfl, -⟩ : [byte] = field ∧ bytes = rest := by simpa using hcut
            rw [if_pos (Base128.not_continues_iff.mp more)]
            rfl

/-- The packet analyzer as a function of the leading length field. -/
theorem looksLikeMqtt_cons {first : UInt8} {rest : List UInt8} (hne : rest ≠ []) :
    looksLikeMqtt (first :: rest) =
      .ok (decide ((1 ≤ highNibble first ∧ highNibble first ≤ 14) ∧
        (Base128.split 4 rest).isSome)) := by
  have hscan := @scanLengthField_eq (first :: rest) 3 1 rfl (by decide)
  have hlong : (first :: rest).length > 1 := by
    simpa using List.length_pos_iff.mpr hne
  rw [looksLikeMqtt, if_neg (by simp), index_of_lt (by simp), ok_bind, List.getElem_cons_zero]
  by_cases reserved : ((first &&& 0xF0) >>> 4 = 0 ∨ (first &&& 0xF0) >>> 4 = 15)
  · have hout := (reserved_iff first).mp reserved
    rw [if_pos reserved]
    simp [hout, pure, Except.pure]
  · have hin := not_not.mp (mt (reserved_iff first).mpr reserved)
    simp only [Nat.sub_self, pow_zero, List.drop_succ_cons, List.drop_zero] at hscan
    rw [if_neg reserved, if_pos hlong, hscan]
    simp [hin]

/-- The features of a packet of two bytes or more: the fixed header, the scanned length and
the features of its type. -/
theorem extractFeatures_cons {first : UInt8} {rest : List UInt8} (hne : rest ≠ [])
    {remaining : ℕ} (hscan : scanRemainingLength (first :: rest) 1 1 0 = .ok remaining)
    {specific : List ℕ}
    (hspecific : typeFeatures (first :: rest) ((first &&& 0xF0) >>> 4) (first &&& 0x0F) =
      .ok specific) :
    extractFeatures (first :: rest) =
      .ok ([((first &&& 0xF0) >>> 4).toNat, (first &&& 0x0F).toNat, (first :: rest).length] ++
        [remaining] ++ specific) := by
  have hlong : (first :: rest).length > 1 := by
    simpa using List.length_pos_iff.mpr hne
  rw [extractFeatures, if_neg (by simp), index_of_lt (by simp), ok_bind, ok_bind,
    List.getElem_cons_zero, readWhen, if_pos hlong, hscan, ok_bind]
  dsimp only
  rw [pure_bind, hspecific, ok_bind]
  rfl

/-- The fourth feature of a packet of two bytes or more is the scanned length. -/
theorem extractFeatures_remaining {packet : List UInt8} (long : 2 ≤ packet.length)
    {remaining : ℕ} (hscan : scanRemainingLength packet 1 1 0 = .ok remaining) :
    ∃ features, extractFeatures packet = .ok features ∧ features[3]? = some remaining := by
  obtain ⟨first, rest, rfl⟩ : ∃ first rest, packet = first :: rest :=
    List.exists_cons_of_length_pos (by omega)
  obtain ⟨specific, hspecific⟩ := mqttTypeFeatures_returns (first :: rest)
    ((first &&& 0xF0) >>> 4) (first &&& 0x0F)
  have hne : rest ≠ [] := List.ne_nil_of_length_pos (Nat.le_of_succ_le_succ long)
  exact ⟨_, extractFeatures_cons hne hscan hspecific, rfl⟩

/-- The four readers agree: a packet is valid exactly when it looks like MQTT and has as
many bytes as the extractors count and read. -/
theorem validatePacket_iff_scanners (packet : List UInt8) (long : 2 ≤ packet.length) :
    ∃ accepted looksLike features remaining,
      validatePacket packet = .ok accepted ∧
      looksLikeMqtt packet = .ok looksLike ∧
      extractFeatures packet = .ok features ∧ features[3]? = some remaining ∧
      (accepted = true ↔ looksLike = true ∧ packet.length =
        1 + MQTTFeatureExtractor.countRemainingLengthBytes 4 (packet.drop 1) + remaining) := by
  obtain ⟨remaining, hscan⟩ := scanRemainingLength_returns packet 1 1 0
  obtain ⟨features, hfeatures, hfourth⟩ := extractFeatures_remaining long hscan
  obtain ⟨first, rest, rfl⟩ : ∃ first rest, packet = first :: rest :=
    List.exists_cons_of_length_pos (by omega)
  have hne : rest ≠ [] := List.ne_nil_of_length_pos (Nat.le_of_succ_le_succ long)
  refine ⟨_, _, features, remaining, validatePacket_cons first rest, looksLikeMqtt_cons hne,
    hfeatures, hfourth, ?_⟩
  cases hcut : Base128.split 4 rest with
  | none => simp
  | some parts =>
      obtain ⟨field, body⟩ := parts
      obtain ⟨rfl, -, -⟩ := Base128.split_eq_some.mp hcut
      have hread := @scanRemainingLength_eq (first :: (field ++ body)) field body 3 1 0 rfl
        (by decide) hcut
      obtain rfl : Base128.value field = remaining := by
        simpa using hread.symm.trans hscan
      rw [List.drop_one, List.tail_cons, countRemainingLengthBytes_eq hcut, List.length_cons,
        List.length_append]
      simp only [decide_eq_true_eq, Option.isSome_some, and_true]
      apply and_congr_right
      intro _
      omega

/-- The readers accept a PINGREQ packet. -/
theorem validatePacket_iff_scanners_ping : ∃ features remaining,
    looksLikeMqtt [0xC0, 0x00] = .ok true ∧
      extractFeatures [0xC0, 0x00] = .ok features ∧ features[3]? = some remaining ∧
      2 = 1 + MQTTFeatureExtractor.countRemainingLengthBytes 4 [0x00] + remaining := by
  obtain ⟨accepted, looksLike, features, remaining, hvalid, hlooks, hfeatures, hfourth, hiff⟩ :=
    validatePacket_iff_scanners [0xC0, 0x00] (by decide)
  have haccepted : validatePacket [0xC0, 0x00] = .ok true := by
    rw [validatePacket_cons]
    rfl
  obtain rfl : true = accepted := by simpa using haccepted.symm.trans hvalid
  obtain ⟨rfl, hlength⟩ := hiff.mp rfl
  exact ⟨features, remaining, hlooks, hfeatures, hfourth, hlength⟩

end ProtocolFuzzer.MQTT
