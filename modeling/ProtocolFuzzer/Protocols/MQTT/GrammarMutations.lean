/-
# The grammar mutations of MQTT

The mutations change the packet type, the first byte of the remaining length, and two
bytes at every tenth position, where the length of a string may be. They write over bytes
of the packet and never move any.
-/

import ProtocolFuzzer.Protocols.MQTT.Fuzzer

namespace ProtocolFuzzer.MQTT

open Math Platform

variable {σ : Type} [DrawSource σ]

/-- Packet type mutations. -/
def packetTypeMutation (packet : List UInt8) : Fallible σ (List UInt8) :=
  if packet.isEmpty then pure packet
  else do
    let newType := (← draw (u8Or 1)) % 15 + 1
    let first ← index packet 0
    assign packet 0 ((first &&& 0x0F) ||| (newType <<< (4 : UInt8)))

/-- Remaining length mutations. -/
def remainingLengthMutation (packet : List UInt8) : Fallible σ (List UInt8) :=
  if packet.length > 1 then do
    let old ← index packet 1
    assign packet 1 (← draw (u8Or old))
  else pure packet

/-- The loop over potential string length fields. -/
def mutateStringFields : List ℕ → List UInt8 → Fallible σ (List UInt8)
  | [], result => pure result
  | i :: positions, result =>
    if i % 10 = 0 then do
      let bytes := toBE16 (← draw (u16Or 0))
      let result ← assign result i (← index bytes 0)
      if i + 1 < result.length then
        let result ← assign result (i + 1) (← index bytes 1)
        mutateStringFields positions result
      else mutateStringFields positions result
    else mutateStringFields positions result

/-- String field mutations. -/
def stringFieldMutation (packet : List UInt8) : Fallible σ (List UInt8) :=
  mutateStringFields (List.range' 2 (packet.length - 2 - 2)) packet

def getGrammarMutations : List (List UInt8 → Fallible σ (List UInt8)) :=
  [packetTypeMutation, remainingLengthMutation, stringFieldMutation]

theorem packetTypeMutation_length (packet : List UInt8) :
    Completes (packetTypeMutation packet : Fallible σ _) fun result =>
      result.length = packet.length := by
  rw [packetTypeMutation]
  split_ifs with empty
  · exact completes_pure rfl
  · have hpos : 0 < packet.length := List.length_pos_iff.mpr (by simpa using empty)
    apply Completes.bind (completes_draw _)
    intro drawn _
    apply Completes.bind (completes_index hpos)
    intro first _
    apply (completes_assign hpos _).mono
    intro result hresult
    rw [hresult, List.length_set]

theorem remainingLengthMutation_length (packet : List UInt8) :
    Completes (remainingLengthMutation packet : Fallible σ _) fun result =>
      result.length = packet.length := by
  rw [remainingLengthMutation]
  split_ifs with long
  · apply Completes.bind (completes_index long)
    intro old _
    apply Completes.bind (completes_draw _)
    intro drawn _
    apply (completes_assign long _).mono
    intro result hresult
    rw [hresult, List.length_set]
  · exact completes_pure rfl

theorem mutateStringFields_length {positions : List ℕ} {packet : List UInt8}
    (inside : ∀ i ∈ positions, i < packet.length) :
    Completes (mutateStringFields positions packet : Fallible σ _) fun result =>
      result.length = packet.length := by
  induction positions generalizing packet with
  | nil => exact completes_pure rfl
  | cons i positions ih =>
      obtain ⟨hfirst, hrest⟩ := List.forall_mem_cons.mp inside
      rw [mutateStringFields]
      split_ifs
      · apply Completes.bind (completes_draw _)
        intro newLen _
        apply Completes.bind (completes_index (Nat.zero_lt_succ 1))
        intro high _
        apply Completes.bind (completes_assign hfirst high)
        intro written hwritten
        subst hwritten
        split_ifs with next
        · apply Completes.bind (completes_index (Nat.lt_succ_self 1))
          intro low _
          apply Completes.bind (completes_assign next low)
          intro both hboth
          subst hboth
          apply (ih (by simpa using hrest)).mono
          intro result hresult
          rw [hresult, List.length_set, List.length_set]
        · apply (ih (by simpa using hrest)).mono
          intro result hresult
          rw [hresult, List.length_set]
      · exact ih hrest

theorem stringFieldMutation_length (packet : List UInt8) :
    Completes (stringFieldMutation packet : Fallible σ _) fun result =>
      result.length = packet.length := by
  apply mutateStringFields_length
  intro i hi
  rw [List.mem_range'_1] at hi
  omega

/-- Every grammar mutation returns and keeps the length of the packet. -/
theorem getGrammarMutations_length (packet : List UInt8)
    {mutation : List UInt8 → Fallible σ (List UInt8)} (listed : mutation ∈ getGrammarMutations) :
    Completes (mutation packet) fun result => result.length = packet.length := by
  simp only [getGrammarMutations, List.mem_cons, List.not_mem_nil, or_false] at listed
  rcases listed with rfl | rfl | rfl
  · exact packetTypeMutation_length packet
  · exact remainingLengthMutation_length packet
  · exact stringFieldMutation_length packet

end ProtocolFuzzer.MQTT
