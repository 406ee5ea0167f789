/-
# How far a mutation can change the length of a packet

The shared mutations change the length of a packet by one byte at most. The malformed
patterns are bounded too: the widest padding has just under eleven thousand zeros for DNS
and just under a hundred thousand letters for MQTT, and only the pattern that replaces a
name by one oversized label gives a short DNS packet a length of its own. No pattern cuts
into a DNS header.
-/

import ProtocolFuzzer.Protocols.DNS.Patterns
import ProtocolFuzzer.Protocols.MQTT.Mutation

namespace ProtocolFuzzer

open Math Platform Common

theorem length_flatten_le {α : Type} {n : ℕ} {xss : List (List α)}
    (h : ∀ xs ∈ xss, xs.length ≤ n) : xss.flatten.length ≤ n * xss.length := by
  induction xss with
  | nil => exact le_rfl
  | cons xs xss ih =>
      obtain ⟨hfirst, hrest⟩ := List.forall_mem_cons.mp h
      rw [List.flatten_cons, List.length_append, List.length_cons, Nat.mul_succ, Nat.add_comm]
      exact Nat.add_le_add (ih hrest) hfirst

section Lengths

variable {σ : Type}

/-- An assignment keeps the length, if it returns. -/
theorem yieldsFrom_assign_length (packet : List UInt8) (i : ℕ) (byte : UInt8) (s : σ) :
    YieldsFrom s (liftM (assign packet i byte) : Fallible σ _) fun result =>
      result.length = packet.length := by
  intro result s' hrun
  have hassign := eq_ok_of_run_lift hrun
  rw [assign] at hassign
  split_ifs at hassign
  cases hassign
  exact List.length_set

theorem yieldsFrom_pure_length (packet : List UInt8) (s : σ) :
    YieldsFrom s (pure packet) fun result => result.length = packet.length := by
  rintro _ _ ⟨⟩
  rfl

/-- Two assignments in a row, with draws before each, keep it too. -/
theorem yieldsFrom_assignTwo_length (packet : List UInt8) (i j : ℕ)
    (drawFirst drawSecond : Fallible σ UInt8) (s : σ) :
    YieldsFrom s (do
      let first ← drawFirst
      let packet ← liftM (assign packet i first)
      let second ← drawSecond
      liftM (assign packet j second)) fun result => result.length = packet.length := by
  refine yieldsFrom_bind fun first s => ?_
  refine YieldsFrom.bind (yieldsFrom_assign_length packet i first s) fun next hnext s => ?_
  refine yieldsFrom_bind fun second s => ?_
  rw [← hnext]
  exact yieldsFrom_assign_length next j second s

namespace DNS

/-- The lengths a mutation can give. -/
def Reach (packet result : List UInt8) : Prop :=
  min (packet.length - 1) 12 ≤ result.length ∧
    result.length ≤ max (packet.length + 10999) 273

theorem Reach.of_length_eq {packet result : List UInt8} (h : result.length = packet.length) :
    Reach packet result := by
  rw [Reach, h]
  omega

theorem Reach.of_yieldsFrom {s : σ} {packet : List UInt8} {m : Fallible σ (List UInt8)}
    (h : YieldsFrom s m fun result => result.length = packet.length) :
    YieldsFrom s m (Reach packet) := h.mono fun _ => Reach.of_length_eq

end DNS

end Lengths

variable {σ : Type} [DrawSource σ]

namespace DNS

theorem corruptAfterName_length (offset : ℕ) (searched : List ℕ) (packet : List UInt8) (s : σ) :
    YieldsFrom s (corruptAfterName offset searched packet) fun result =>
      result.length = packet.length := by
  induction searched generalizing s with
  | nil => exact yieldsFrom_pure_length packet s
  | cons i searched ih =>
      rw [corruptAfterName]
      refine yieldsFrom_bind fun byte s => ?_
      split_ifs
      · exact yieldsFrom_assignTwo_length packet _ _ _ _ s
      · exact ih s

theorem injectPointerLoop_length (packet : List UInt8) (s : σ) :
    YieldsFrom s (injectPointerLoop packet) fun result => result.length = packet.length := by
  rw [injectPointerLoop]
  split_ifs
  · refine yieldsFrom_bind fun _ s => yieldsFrom_bind fun _ s => yieldsFrom_bind fun r s => ?_
    dsimp only
    split_ifs
    · exact yieldsFrom_assignTwo_length packet _ _ (pure 0xC0) (pure _) s
    · exact yieldsFrom_pure_length packet s
  · exact yieldsFrom_pure_length packet s

theorem injectInvalidCompression_length (packet : List UInt8) (s : σ) :
    YieldsFrom s (injectInvalidCompression packet) fun result =>
      result.length = packet.length := by
  rw [injectInvalidCompression]
  split_ifs
  · refine yieldsFrom_bind fun _ s => yieldsFrom_bind fun _ s => yieldsFrom_bind fun r s => ?_
    dsimp only
    split_ifs
    · exact yieldsFrom_assignTwo_length packet _ _ (pure 0xC0) _ s
    · exact yieldsFrom_pure_length packet s
  · exact yieldsFrom_pure_length packet s

/-- The header stays, and one label has 255 bytes at most. -/
theorem injectOversizedLabels_reach (packet : List UInt8) (s : σ) :
    YieldsFrom s (injectOversizedLabels packet) (Reach packet) := by
  rw [injectOversizedLabels]
  split_ifs with long
  · refine yieldsFrom_bind fun drawn s => ?_
    refine YieldsFrom.bind ((completes_slice (Nat.zero_le 12) long.le s).yieldsFrom
      fun _ h => h) fun header hheader s => yieldsFrom_pure ?_ s
    have hdrawn := (max drawn 64).toNat_lt
    simp only [hheader, Reach, List.length_append, List.length_drop, List.length_take,
      List.length_replicate, List.length_cons, List.length_nil]
    omega
  · exact Reach.of_yieldsFrom (yieldsFrom_pure_length packet s)

theorem applyMalformedPattern_reach (packet : List UInt8) (pattern : MalformedPattern) (s : σ) :
    YieldsFrom s (applyMalformedPattern packet pattern) (Reach packet) := by
  cases pattern with
  | invalidHeader =>
      rw [applyMalformedPattern]
      split_ifs
      · exact Reach.of_yieldsFrom (yieldsFrom_assignTwo_length packet 2 3 _ _ s)
      · exact Reach.of_yieldsFrom (yieldsFrom_pure_length packet s)
  | truncatedQuery =>
      rw [applyMalformedPattern]
      split_ifs with long
      · refine yieldsFrom_bind fun _ s => yieldsFrom_bind fun _ s => yieldsFrom_bind fun r s => ?_
        apply yieldsFrom_pure
        rw [Reach, List.length_take]
        omega
      · exact Reach.of_yieldsFrom (yieldsFrom_pure_length packet s)
  | oversizedQuery =>
      rw [applyMalformedPattern]
      refine yieldsFrom_bind fun drawn s => yieldsFrom_pure ?_ s
      rw [Reach, List.length_append, List.length_replicate]
      omega
  | invalidQType =>
      rw [applyMalformedPattern]
      split_ifs
      · exact yieldsFrom_bind fun stop s =>
          Reach.of_yieldsFrom (corruptAfterName_length 1 _ packet s)
      · exact Reach.of_yieldsFrom (yieldsFrom_pure_length packet s)
  | invalidQClass =>
      rw [applyMalformedPattern]
      split_ifs
      · exact yieldsFrom_bind fun stop s =>
          Reach.of_yieldsFrom (corruptAfterName_length 3 _ packet s)
      · exact Reach.of_yieldsFrom (yieldsFrom_pure_length packet s)
  | pointerLoop => exact Reach.of_yieldsFrom (injectPointerLoop_length packet s)
  | oversizedLabels => exact injectOversizedLabels_reach packet s
  | invalidCompression => exact Reach.of_yieldsFrom (injectInvalidCompression_length packet s)

theorem mutatePacket_reach (packet : List UInt8) (s : σ) :
    YieldsFrom s (mutatePacket packet) (Reach packet) := by
  rw [mutatePacket]
  refine yieldsFrom_bind fun drawn s => ?_
  dsimp only
  split
  · exact (bitFlipMutation_length packet s).yieldsFrom fun _ => Reach.of_length_eq
  · refine (byteInsertMutation_length packet s).yieldsFrom fun result h => ?_
    rw [Reach, h]
    omega
  · refine (byteDeleteMutation_length packet s).yieldsFrom fun result h => ?_
    rw [Reach, h]
    omega
  · exact (arithmeticMutation_length packet s).yieldsFrom fun _ => Reach.of_length_eq
  · exact yieldsFrom_bind fun pattern s => applyMalformedPattern_reach packet pattern s
  · exact Reach.of_yieldsFrom (yieldsFrom_pure_length packet s)

end DNS

namespace MQTT

/-- A text has four bytes a character at most. -/
theorem length_utf8_le (text : String) : (utf8 text).length ≤ 4 * text.length := by
  have hbytes : utf8 text = (text.toList.map String.utf8EncodeChar).flatten := by
    rw [utf8, String.toUTF8, ← String.utf8Encode_toList, List.utf8Encode, ← List.flatMap_def]
    simp
  rw [hbytes, ← String.length_toList, ← List.length_map String.utf8EncodeChar]
  apply length_flatten_le
  intro bytes hbytes
  obtain ⟨c, -, rfl⟩ := List.mem_map.mp hbytes
  rw [String.length_utf8EncodeChar]
  exact c.utf8Size_le_four

/-- A topic with a number of ten digits. -/
theorem additionalSubscription_length :
    Always (additionalSubscription : Gen σ (List UInt8)) fun bytes => bytes.length ≤ 63 := by
  refine Always.bind (always_true randomU32) fun number _ =>
    Always.bind (always_true (u8Or 0)) fun qos _ => always_pure ?_
  have hdigits : (Nat.repr number.toNat).length ≤ 10 :=
    (Nat.length_repr_le_iff (by decide)).mpr (number.toNat_lt.trans (by decide))
  have htopic := length_utf8_le ("topic" ++ toString number.toNat)
  rw [String.length_append, Nat.toString_eq_repr] at htopic
  have hword : "topic".length = 5 := by decide
  simp only [List.length_append, List.length_singleton, Nat.toString_eq_repr]
  have hfield : ∀ n : UInt16, (toBE16 n).length = 2 := fun _ => rfl
  rw [hfield]
  omega

theorem additionalSubscriptions_length :
    Always (additionalSubscriptions : Gen σ (List UInt8)) fun bytes => bytes.length ≤ 99999 := by
  refine Always.bind (always_true (usizeOr 100)) fun count _ =>
    Always.bind (additionalSubscription_length.replicate _) fun additional hadditional =>
      always_pure ?_
  obtain ⟨hcount, hlengths⟩ := hadditional
  have hflat := length_flatten_le hlengths
  rw [hcount] at hflat
  omega

theorem applyMalformedPattern_length_le (packet : List UInt8) (pattern : MalformedMQTTPattern)
    (s : σ) : YieldsFrom s (applyMalformedPattern packet pattern) fun result =>
      result.length ≤ packet.length + 99999 := by
  cases packet with
  | nil =>
      have hnil : ∀ s : σ, YieldsFrom s (pure [] : Fallible σ (List UInt8)) fun result =>
          result.length ≤ ([] : List UInt8).length + 99999 := by
        rintro s _ _ ⟨⟩
        exact Nat.zero_le _
      cases pattern with
      | oversizedPayload =>
          rw [applyMalformedPattern]
          refine yieldsFrom_bind fun drawn s => yieldsFrom_pure ?_ s
          rw [List.length_append, List.length_replicate]
          omega
      | excessiveSubscriptions => rintro _ _ ⟨⟩
      | malformedUtf8 =>
          exact (injectInvalidUtf8_sameFraming [] s).yieldsFrom fun _ h => by
            rw [h.length]
            omega
      | invalidTopicFilter =>
          exact (injectInvalidTopicFilter_sameFraming [] s).yieldsFrom fun _ h => by
            rw [h.length]
            omega
      | protocolViolation =>
          refine yieldsFrom_bind fun drawn s => ?_
          dsimp only
          split <;> exact hnil s
      | _ => exact hnil s
  | cons first rest =>
      refine (applyMalformedPattern_effect s first rest pattern).yieldsFrom fun result heffect => ?_
      cases pattern with
      | invalidFixedHeader | invalidPacketType =>
          obtain rfl := heffect
          exact Nat.le_add_right _ _
      | oversizedRemainingLength =>
          obtain rfl := heffect
          split_ifs
          · exact Nat.le_add_right_of_le (Nat.succ_le_succ (Nat.zero_le _))
          · simp only [List.length_cons, List.length_append, List.length_tail, List.length_nil]
            omega
      | truncatedPayload =>
          obtain rfl := heffect
          split_ifs
          · simp only [List.length_cons, List.length_take]
            omega
          · omega
      | oversizedPayload =>
          obtain rfl := heffect
          simp only [List.length_cons, List.length_append, List.length_replicate]
          omega
      | excessiveSubscriptions =>
          obtain rfl := heffect
          have hadded := additionalSubscriptions_length s
          split_ifs
          · simp only [List.length_cons, List.length_append]
            omega
          · omega
      | invalidQoS | malformedUtf8 | invalidTopicFilter | protocolViolation =>
          rw [SameFraming.length heffect]
          omega

theorem mutatePacket_length_le (packet : List UInt8) (s : σ) :
    YieldsFrom s (mutatePacket packet) fun result => result.length ≤ packet.length + 99999 := by
  rw [mutatePacket]
  refine yieldsFrom_bind fun drawn s => ?_
  dsimp only
  split
  · exact (bitFlipMutation_length packet s).yieldsFrom fun _ h => by omega
  · exact (byteInsertMutation_length packet s).yieldsFrom fun _ h => by omega
  · exact (byteDeleteMutation_length packet s).yieldsFrom fun _ h => by omega
  · exact (arithmeticMutation_length packet s).yieldsFrom fun _ h => by omega
  · exact yieldsFrom_bind fun pattern s => applyMalformedPattern_length_le packet pattern s
  · exact (yieldsFrom_pure_length packet s).mono fun _ h => by omega

end MQTT

end ProtocolFuzzer
