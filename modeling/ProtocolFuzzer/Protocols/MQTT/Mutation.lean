/-
# When mutating a packet returns

Every generator and every mutation returns on nonempty packets, and nearly all of them
give nonempty packets back: only deleting the one byte of a packet leaves nothing. On
the empty packet one malformed pattern fails, since it reads the packet type without
asking whether there is one.
-/

import ProtocolFuzzer.Protocols.MQTT.Generation
import ProtocolFuzzer.Protocols.MQTT.Patterns
import ProtocolFuzzer.Protocols.Mutations

namespace ProtocolFuzzer.MQTT

open Math Platform Common

variable {σ : Type} [DrawSource σ]

/-- No pattern empties a packet. -/
theorem Effect.ne_nil {s : σ} {first : UInt8} {rest result : List UInt8}
    {pattern : MalformedMQTTPattern} (h : Effect s first rest result pattern) : result ≠ [] := by
  have hsame : SameFraming (first :: rest) result → result ≠ [] := by
    rintro hframing rfl
    exact absurd hframing.length (by simp)
  cases pattern with
  | invalidFixedHeader =>
      obtain rfl := h
      exact List.cons_ne_nil _ _
  | oversizedRemainingLength =>
      obtain rfl := h
      split_ifs <;> exact List.cons_ne_nil _ _
  | invalidPacketType =>
      obtain rfl := h
      exact List.cons_ne_nil _ _
  | truncatedPayload =>
      obtain rfl := h
      split_ifs <;> exact List.cons_ne_nil _ _
  | oversizedPayload =>
      obtain rfl := h
      exact List.cons_ne_nil _ _
  | excessiveSubscriptions =>
      obtain rfl := h
      split_ifs <;> exact List.cons_ne_nil _ _
  | invalidQoS => exact hsame h
  | malformedUtf8 => exact hsame h
  | invalidTopicFilter => exact hsame h
  | protocolViolation => exact hsame h

theorem applyMalformedPattern_ne_nil {packet : List UInt8} (hne : packet ≠ [])
    (pattern : MalformedMQTTPattern) :
    Completes (applyMalformedPattern packet pattern : Fallible σ _) (· ≠ []) := by
  obtain ⟨first, rest, rfl⟩ := List.exists_cons_of_ne_nil hne
  exact fun s => (applyMalformedPattern_effect s first rest pattern).mono fun _ => Effect.ne_nil

theorem applyMalformedPatterns_ne_nil (count : ℕ) {packet : List UInt8} (hne : packet ≠ []) :
    Completes (applyMalformedPatterns count packet : Fallible σ _) (· ≠ []) := by
  induction count generalizing packet with
  | zero => exact completes_pure hne
  | succ count ih =>
      exact Completes.bind (completes_draw _) fun pattern _ =>
        Completes.bind (applyMalformedPattern_ne_nil hne pattern) fun _ hnext => ih hnext

theorem generateValidPacket_ne_nil : Always (generateValidPacket : Gen σ _) (· ≠ []) := by
  rw [generateValidPacket_eq]
  refine Always.map fun s => ?_
  change (Packet.render (packetDraws.run s).1).written ≠ []
  rw [Packet.written, frame, List.append_assoc]
  exact List.cons_ne_nil _ _

theorem generateMalformedPacket_ne_nil :
    Completes (generateMalformedPacket : Fallible σ _) (· ≠ []) :=
  Completes.bind generateValidPacket_ne_nil.completes fun _ hne =>
    Completes.bind (completes_draw _) fun _ _ => applyMalformedPatterns_ne_nil _ hne

/-- A packet some draws generate, as a valid or as a malformed one. -/
def Generated (σ : Type) [DrawSource σ] (packet : List UInt8) : Prop :=
  ∃ s : σ, (generateValidPacket.run s).1 = packet ∨
    ∃ s', generateMalformedPacket.run s = .ok (packet, s')

theorem Generated.ne_nil {packet : List UInt8} (h : Generated σ packet) : packet ≠ [] := by
  obtain ⟨s, rfl | ⟨s', hrun⟩⟩ := h
  · exact generateValidPacket_ne_nil s
  · obtain ⟨packet', s'', hrun', hne⟩ := generateMalformedPacket_ne_nil s
    rw [hrun] at hrun'
    cases hrun'
    exact hne

/-- Mutating is choosing a mutation and then executing it. -/
theorem mutatePacket_eq (packet : List UInt8) :
    (mutatePacket packet : Fallible σ (List UInt8)) =
      draw (drawMutation drawMalformedPattern) >>= Mutation.apply applyMalformedPattern packet :=
  (drawMutation_bind_apply drawMalformedPattern applyMalformedPattern packet).symm

/-- The draws select the deletion of a byte. -/
def DrawsByteDeletion (s : σ) : Prop := ((u8Or 0).run s).1 % 5 = 2

/-- The draws select the pattern that adds subscriptions. -/
def DrawsExcessiveSubscriptions (s : σ) : Prop :=
  ((u8Or 0).run s).1 % 5 = 4 ∧
    (drawMalformedPattern.run ((u8Or 0).run s).2).1 = .excessiveSubscriptions

instance (s : σ) : Decidable (DrawsByteDeletion s) := inferInstanceAs (Decidable (_ = _))

instance (s : σ) : Decidable (DrawsExcessiveSubscriptions s) :=
  inferInstanceAs (Decidable (_ ∧ _))

/-- Where a deletion is drawn, the packet loses a byte. -/
theorem mutatePacket_deletes {s : σ} (h : DrawsByteDeletion s) (packet : List UInt8) :
    CompletesFrom s (mutatePacket packet) fun result => result.length = packet.length - 1 := by
  rw [mutatePacket]
  apply CompletesFrom.bind (completesFrom_draw s _)
  rintro drawn rfl
  dsimp only
  rw [h]
  exact byteDeleteMutation_length packet

/-- Mutating a nonempty packet returns, and empties it only by deleting its one byte. -/
theorem mutatePacket_effect {packet : List UInt8} (hne : packet ≠ []) (s : σ) :
    CompletesFrom s (mutatePacket packet) fun result =>
      result = [] ↔ DrawsByteDeletion s ∧ packet.length = 1 := by
  have hpos := List.length_pos_iff.mpr hne
  rw [mutatePacket]
  apply CompletesFrom.bind (completesFrom_draw s _)
  rintro drawn rfl
  rw [DrawsByteDeletion]
  generalize ((u8Or 0).run s).1 % 5 = mutationType
  dsimp only
  have hother : mutationType ≠ 2 → ∀ {result : List UInt8}, result ≠ [] →
      (result = [] ↔ mutationType = 2 ∧ packet.length = 1) := by
    intro htype result hresult
    simp [htype, hresult]
  have hlong : mutationType ≠ 2 → ∀ {result : List UInt8}, packet.length ≤ result.length →
      (result = [] ↔ mutationType = 2 ∧ packet.length = 1) := by
    intro htype result hresult
    exact hother htype (List.length_pos_iff.mp (by omega))
  split
  · exact (bitFlipMutation_length packet).mono fun _ h => hlong (by decide) h.ge
  · exact (byteInsertMutation_length packet).mono fun _ h => hlong (by decide) (by omega)
  · apply (byteDeleteMutation_length packet).mono
    intro result h
    rw [← List.length_eq_zero_iff]
    simp only [true_and]
    omega
  · exact (arithmeticMutation_length packet).mono fun _ h => hlong (by decide) h.ge
  · exact Completes.bind (completes_draw _) fun pattern _ =>
      (applyMalformedPattern_ne_nil hne pattern).mono fun _ h => hother (by decide) h
  · exact completes_pure (hother (by assumption) hne)

/-- Mutating the empty packet fails where the pattern that adds subscriptions is drawn. -/
theorem mutatePacket_nil_fails {s : σ} (h : DrawsExcessiveSubscriptions s) :
    ¬ NoPanic ((mutatePacket []).run s) := by
  obtain ⟨htype, hpattern⟩ := h
  rintro ⟨result, hrun⟩
  rw [mutatePacket, StateT.run_bind, run_draw, ok_bind] at hrun
  dsimp only at hrun
  rw [htype] at hrun
  change (draw drawMalformedPattern >>= applyMalformedPattern []).run _ = _ at hrun
  rw [StateT.run_bind, run_draw, ok_bind, hpattern] at hrun
  cases hrun

end ProtocolFuzzer.MQTT
