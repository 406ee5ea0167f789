/-
# What the malformed patterns do

One lemma for each malformed pattern says that it returns on every nonempty packet and
what it can do to the packet. Four of the ten patterns leave everything the validator
looks at alone, up to the low bits of the first byte; `SameFraming` is that relation.
The other six are described exactly, by the values they draw.
-/

import ProtocolFuzzer.Protocols.MQTT.Fuzzer

namespace ProtocolFuzzer.MQTT

open Math Platform

/-- Same length, same packet type, and the same five bytes after the first. -/
structure SameFraming (packet result : List UInt8) : Prop where
  length : result.length = packet.length
  packetType : result[0]?.map highNibble = packet[0]?.map highNibble
  header : ∀ i, 1 ≤ i → i ≤ 5 → result[i]? = packet[i]?

namespace SameFraming

theorem refl (packet : List UInt8) : SameFraming packet packet := ⟨rfl, rfl, fun _ _ _ => rfl⟩

theorem trans {first second third : List UInt8} (h : SameFraming first second)
    (h' : SameFraming second third) : SameFraming first third where
  length := h'.length.trans h.length
  packetType := h'.packetType.trans h.packetType
  header i low high := (h'.header i low high).trans (h.header i low high)

/-- Writing behind the header. -/
theorem set (packet : List UInt8) {i : ℕ} (hi : 6 ≤ i) (byte : UInt8) :
    SameFraming packet (packet.set i byte) where
  length := List.length_set
  packetType := by rw [List.getElem?_set_ne (by omega)]
  header j _ high := List.getElem?_set_ne (by omega)

/-- Writing the low bits of the first byte. -/
theorem setFirst {first byte : UInt8} {rest : List UInt8}
    (hbyte : highNibble byte = highNibble first) :
    SameFraming (first :: rest) (byte :: rest) where
  length := rfl
  packetType := congrArg some hbyte
  header i low _ := by
    rw [List.getElem?_cons, List.getElem?_cons, if_neg (by omega), if_neg (by omega)]

end SameFraming

theorem and_eq_iff_highNibble (byte : UInt8) :
    (byte &&& 0xF0 = 0x80 ↔ highNibble byte = 8) := by
  revert byte
  exact forall_byte (by decide +kernel)

theorem highNibble_reserved (byte : UInt8) : highNibble ((byte &&& 0x0F) ||| 0xF0) = 15 := by
  revert byte
  exact forall_byte (by decide +kernel)

theorem highNibble_invalidQoS (byte : UInt8) :
    highNibble ((byte &&& 0xF9) ||| 0x06) = highNibble byte := by
  revert byte
  exact forall_byte (by decide +kernel)

theorem highNibble_or_flags (byte drawn : UInt8) :
    highNibble (byte ||| (drawn &&& 0x0F)) = highNibble byte := by
  have low : ∀ drawn : UInt8, ∃ n : Fin 16, drawn &&& 0x0F = UInt8.ofNat n :=
    forall_byte (by decide +kernel)
  have checked : ∀ byte : UInt8, ∀ n : Fin 16,
      highNibble (byte ||| UInt8.ofNat n) = highNibble byte := forall_byte (by decide +kernel)
  obtain ⟨n, hn⟩ := low drawn
  rw [hn, checked]

variable {σ : Type} [DrawSource σ]

theorem injectInvalidUtf8_sameFraming (packet : List UInt8) :
    Completes (injectInvalidUtf8 packet : Fallible σ _) (SameFraming packet) := by
  rw [injectInvalidUtf8]
  split_ifs with long
  · apply Completes.bind (completes_draw _)
    intro d _
    apply Completes.bind (completes_rem d (by omega))
    intro r hr
    have inside : 10 + r < packet.length := by omega
    simp only [if_pos inside]
    apply Completes.bind (completes_assign inside _)
    rintro result rfl
    have hset := SameFraming.set packet (show 6 ≤ 10 + r by omega) 0xFF
    split_ifs with more
    · apply (completes_assign more _).mono
      rintro result rfl
      exact hset.trans (SameFraming.set _ (by omega) _)
    · exact completes_pure hset
  · exact completes_pure (SameFraming.refl packet)

/-- The walk over the filters keeps what writing from a position on keeps, if it starts at
most two bytes earlier: every round writes at least two positions behind the length field
it reads. -/
theorem corruptTopicFilters_keeps {kept : List UInt8 → Prop} {start : ℕ}
    (hset : ∀ packet i, start ≤ i → kept packet → kept (packet.set i 0x00))
    {packet : List UInt8} {pos : ℕ} (hpos : start ≤ pos + 2) (hkept : kept packet) :
    Completes (corruptTopicFilters packet pos : Fallible σ _) kept := by
  induction h : packet.length - pos using Nat.strongRecOn generalizing packet pos with
  | ind measure ih =>
      rw [corruptTopicFilters]
      split_ifs with more
      · apply Completes.bind (completes_index (by omega))
        intro hi _
        apply Completes.bind (completes_index (by omega))
        intro lo _
        dsimp only
        generalize (fromBE16 hi lo).toNat = topicLen
        split_ifs with inside
        · apply Completes.bind (completes_draw _)
          intro d _
          apply Completes.bind (completes_rem d (by omega))
          intro r _
          refine ih _ ?_ (by omega) (hset packet _ (by omega) hkept) rfl
          rw [List.length_set]
          omega
        · exact completes_pure hkept
      · exact completes_pure hkept

theorem corruptTopicFilters_sameFraming {packet : List UInt8} {pos : ℕ} (hpos : 4 ≤ pos) :
    Completes (corruptTopicFilters packet pos : Fallible σ _) (SameFraming packet) :=
  corruptTopicFilters_keeps (fun _ _ hi h => h.trans (SameFraming.set _ hi 0x00))
    (show 6 ≤ pos + 2 by omega) (SameFraming.refl packet)

theorem injectInvalidTopicFilter_sameFraming (packet : List UInt8) :
    Completes (injectInvalidTopicFilter packet : Fallible σ _) (SameFraming packet) := by
  rw [injectInvalidTopicFilter]
  split_ifs with long
  · apply Completes.bind (completes_index (by omega))
    intro byte _
    split_ifs
    · exact corruptTopicFilters_sameFraming le_rfl
    · exact completes_pure (SameFraming.refl packet)
  · exact completes_pure (SameFraming.refl packet)

/-- The first position the loop can write is 7. -/
theorem corruptEverySeventh_sameFraming {positions : List ℕ} {packet : List UInt8}
    (h : ∀ i ∈ positions, 2 ≤ i ∧ i < packet.length) :
    Completes (corruptEverySeventh positions packet : Fallible σ _) (SameFraming packet) := by
  induction positions generalizing packet with
  | nil => exact completes_pure (SameFraming.refl packet)
  | cons i positions ih =>
      have hi := h i List.mem_cons_self
      have hrest := fun j hj => h j (List.mem_cons_of_mem _ hj)
      rw [corruptEverySeventh]
      split_ifs with seventh
      · apply Completes.bind (completes_draw _)
        intro byte _
        apply Completes.bind (completes_assign hi.2 byte)
        rintro result rfl
        have hset := SameFraming.set packet (show 6 ≤ i by omega) byte
        exact (ih (by simpa using hrest)).mono fun result hresult => hset.trans hresult
      · exact ih hrest

theorem injectProtocolViolation_sameFraming {packet : List UInt8} (hne : packet ≠ []) :
    Completes (injectProtocolViolation packet : Fallible σ _) (SameFraming packet) := by
  rw [injectProtocolViolation]
  apply Completes.bind (completes_draw _)
  intro violation _
  dsimp only
  split
  · split_ifs with long
    · apply Completes.bind (completes_index (by omega))
      intro first _
      split_ifs
      · apply Completes.bind (completes_index (by omega))
        intro ninth _
        apply Completes.bind (completes_index long)
        intro tenth _
        split_ifs
        · apply Completes.bind (completes_assign (by omega) _)
          rintro result rfl
          apply (completes_assign (by simpa using long) _).mono
          rintro result rfl
          exact (SameFraming.set packet (by decide) _).trans (SameFraming.set _ (by decide) _)
        · exact completes_pure (SameFraming.refl packet)
      · exact completes_pure (SameFraming.refl packet)
    · exact completes_pure (SameFraming.refl packet)
  · exact completes_pure (SameFraming.refl packet)
  · obtain ⟨first, rest, rfl⟩ := List.exists_cons_of_ne_nil hne
    rw [if_neg (by simp)]
    apply Completes.bind (completes_draw _)
    intro drawn _
    apply Completes.bind (completes_index (by simp))
    rintro byte rfl
    apply (completes_assign (by simp) _).mono
    rintro result rfl
    exact SameFraming.setFirst (highNibble_or_flags _ drawn)
  · split_ifs with long
    · apply Completes.bind (completes_sub (by omega))
      rintro stop rfl
      apply corruptEverySeventh_sameFraming
      intro i hi
      rw [List.mem_range'_1] at hi
      omega
    · exact completes_pure (SameFraming.refl packet)
  · exact completes_pure (SameFraming.refl packet)

/-- The bytes `injectExcessiveSubscriptions` appends. -/
def additionalSubscriptions : Gen σ (List UInt8) := do
  let additionalCount := (← usizeOr 100) % 1000 + 100
  let additional ← replicateDraw additionalCount additionalSubscription
  pure additional.flatten

theorem injectExcessiveSubscriptions_eq (packet : List UInt8) :
    (injectExcessiveSubscriptions packet : Gen σ (List UInt8)) =
      (packet ++ ·) <$> additionalSubscriptions := by
  rw [injectExcessiveSubscriptions, additionalSubscriptions]
  simp only [map_bind, map_pure]

/-- What a pattern does to a nonempty packet when it draws from the source `s`. -/
def Effect (s : σ) (first : UInt8) (rest : List UInt8) (result : List UInt8) :
    MalformedMQTTPattern → Prop
  | .invalidFixedHeader => result = ((u8Or 0xFF).run s).1 :: rest
  | .oversizedRemainingLength =>
    result = if rest = [] then [first]
      else first :: ([0xFF, 0xFF, 0xFF, 0xFF, 0x7F] ++ rest.tail)
  | .invalidPacketType => result = ((first &&& 0x0F) ||| 0xF0) :: rest
  | .truncatedPayload =>
    result = if rest.length ≥ 5 then first :: rest.take ((rest.length + 1) / 2 - 1)
      else first :: rest
  | .oversizedPayload =>
    result = first :: (rest ++ List.replicate (((usizeOr 10000).run s).1 % 100000) 0x41)
  | .excessiveSubscriptions =>
    result = if highNibble first = 8 then first :: (rest ++ (additionalSubscriptions.run s).1)
      else first :: rest
  | .invalidQoS | .malformedUtf8 | .invalidTopicFilter | .protocolViolation =>
    SameFraming (first :: rest) result

/-- The five bytes written behind the first replace the second, if there is one. -/
theorem oversizedRemainingLength_effect (s : σ) (first : UInt8) (rest : List UInt8) :
    CompletesFrom s (applyMalformedPattern (first :: rest) .oversizedRemainingLength)
      fun result => Effect s first rest result .oversizedRemainingLength := by
  rw [applyMalformedPattern]
  split_ifs with long
  · obtain ⟨second, rest, rfl⟩ : ∃ second tail, rest = second :: tail :=
      List.exists_cons_of_length_pos (by simpa using long)
    apply CompletesFrom.bind (completes_assign (by simp) _ s)
    rintro _ rfl
    apply Completes.bind (completes_insertAt (by simp) _)
    rintro _ rfl
    apply Completes.bind (completes_insertAt (by simp) _)
    rintro _ rfl
    apply Completes.bind (completes_insertAt (by simp) _)
    rintro _ rfl
    apply (completes_insertAt (by simp) _).mono
    rintro result rfl
    rfl
  · obtain rfl : rest = [] := by simpa using long
    refine completes_pure ?_ s
    rw [Effect, if_pos rfl]

/-- A packet of more than five bytes keeps its first half. -/
theorem truncatedPayload_effect (s : σ) (first : UInt8) (rest : List UInt8) :
    CompletesFrom s (applyMalformedPattern (first :: rest) .truncatedPayload)
      fun result => Effect s first rest result .truncatedPayload := by
  rw [applyMalformedPattern]
  split_ifs with long
  · refine completes_pure ?_ s
    rw [List.length_cons] at long ⊢
    rw [Effect, if_pos (by omega)]
    obtain ⟨half, hhalf⟩ : ∃ half, (rest.length + 1) / 2 = half + 1 :=
      ⟨(rest.length + 1) / 2 - 1, by omega⟩
    rw [hhalf, List.take_succ_cons, Nat.add_sub_cancel]
  · refine completes_pure ?_ s
    rw [List.length_cons] at long
    rw [Effect, if_neg (by omega)]

theorem invalidQoS_sameFraming (first : UInt8) (rest : List UInt8) :
    Completes (applyMalformedPattern (first :: rest) .invalidQoS : Fallible σ _)
      (SameFraming (first :: rest)) := by
  rw [applyMalformedPattern, if_neg (by simp)]
  apply Completes.bind (completes_index (by simp))
  rintro byte rfl
  split_ifs
  · apply Completes.bind (completes_index (by simp))
    rintro byte rfl
    apply (completes_assign (by simp) _).mono
    rintro result rfl
    exact SameFraming.setFirst (highNibble_invalidQoS _)
  · exact completes_pure (SameFraming.refl _)

/-- Only a SUBSCRIBE packet is extended. -/
theorem excessiveSubscriptions_effect (s : σ) (first : UInt8) (rest : List UInt8) :
    CompletesFrom s (applyMalformedPattern (first :: rest) .excessiveSubscriptions)
      fun result => Effect s first rest result .excessiveSubscriptions := by
  rw [applyMalformedPattern]
  apply CompletesFrom.lift_bind (index_of_lt (by simp))
  rw [List.getElem_cons_zero]
  split_ifs with subscribe
  · rw [injectExcessiveSubscriptions_eq]
    apply (completesFrom_draw_map s _ _).mono
    rintro result rfl
    rw [Effect, if_pos ((and_eq_iff_highNibble first).mp subscribe), List.cons_append]
  · refine completes_pure ?_ s
    rw [Effect, if_neg (mt (and_eq_iff_highNibble first).mpr subscribe)]

/-- A pattern returns on every nonempty packet, with its effect. -/
theorem applyMalformedPattern_effect (s : σ) (first : UInt8) (rest : List UInt8)
    (pattern : MalformedMQTTPattern) :
    CompletesFrom s (applyMalformedPattern (first :: rest) pattern) fun result =>
      Effect s first rest result pattern := by
  cases pattern with
  | invalidFixedHeader =>
      rw [applyMalformedPattern, if_neg (by simp)]
      apply CompletesFrom.bind (completesFrom_draw s _)
      rintro byte rfl
      apply (completes_assign (by simp) _).mono
      rintro result rfl
      rfl
  | oversizedRemainingLength => exact oversizedRemainingLength_effect s first rest
  | invalidPacketType =>
      rw [applyMalformedPattern, if_neg (by simp)]
      apply CompletesFrom.bind (completes_index (by simp) s)
      rintro byte rfl
      apply (completes_assign (by simp) _).mono
      rintro result rfl
      rfl
  | truncatedPayload => exact truncatedPayload_effect s first rest
  | oversizedPayload =>
      rw [applyMalformedPattern]
      apply CompletesFrom.bind (completesFrom_draw s _)
      rintro extra rfl
      exact completes_pure rfl
  | invalidQoS => exact invalidQoS_sameFraming first rest s
  | malformedUtf8 => exact injectInvalidUtf8_sameFraming _ s
  | invalidTopicFilter => exact injectInvalidTopicFilter_sameFraming _ s
  | excessiveSubscriptions => exact excessiveSubscriptions_effect s first rest
  | protocolViolation => exact injectProtocolViolation_sameFraming (by simp) s

end ProtocolFuzzer.MQTT
