/-
# Patterns that break the framing of an accepted packet

Of two accepted packets neither continues the other: they would start with the same first
byte and the same complete length field, which announces the same body. This is what the
patterns that cut or extend a packet run against, for whatever length encoding the packet
uses and wherever the cut is. The other two framing patterns write bytes no accepted packet
has: four length bytes that all announce a successor, and a reserved packet type.
-/

import ProtocolFuzzer.Math.PrefixCodes
import ProtocolFuzzer.Protocols.MQTT.Framing

namespace ProtocolFuzzer.MQTT

open Math Platform

/-- The packets that the validator accepts. -/
def accepted : Set (List UInt8) := {packet | validatePacket packet = .ok true}

theorem nil_notMem_accepted : [] ∉ accepted := by
  simp [accepted, validatePacket]

/-- The validator decides. -/
theorem validatePacket_eq_false_iff {packet : List UInt8} :
    validatePacket packet = .ok false ↔ packet ∉ accepted := by
  change _ ↔ validatePacket packet ≠ .ok true
  obtain ⟨answer, h⟩ := validatePacket_returns packet
  rw [h]
  cases answer <;> simp

/-- An accepted packet is as long as its length field says. -/
theorem prefixFree_accepted : PrefixFree accepted := by
  rintro (_ | ⟨first, rest⟩) hp (_ | ⟨other, rest'⟩) hq hprefix
  · rfl
  · exact absurd hp nil_notMem_accepted
  · exact absurd hq nil_notMem_accepted
  · obtain ⟨rfl, hrest⟩ := List.cons_prefix_cons.mp hprefix
    obtain ⟨field, body, hcut, -, hlength⟩ := validatePacket_eq_true.mp hp
    obtain ⟨field', body', hcut', -, hlength'⟩ := validatePacket_eq_true.mp hq
    obtain ⟨rfl, complete, -⟩ := Base128.split_eq_some.mp hcut
    obtain ⟨rfl, complete', -⟩ := Base128.split_eq_some.mp hcut'
    obtain ⟨tail, htail⟩ := hrest
    rw [List.append_assoc] at htail
    obtain ⟨rfl, hbody⟩ := complete.append_inj complete' htail
    have hsame : body = body' := by
      apply List.IsPrefix.eq_of_length ⟨tail, hbody⟩
      rw [← hlength, hlength']
    rw [hsame]

/-- Extending an accepted packet. -/
theorem validatePacket_extended {packet extra : List UInt8} (h : packet ∈ accepted)
    (more : extra ≠ []) : validatePacket (packet ++ extra) = .ok false :=
  validatePacket_eq_false_iff.mpr (prefixFree_accepted.notMem_append h more)

/-- Cutting an accepted packet. -/
theorem validatePacket_cut {packet extra : List UInt8} (h : packet ++ extra ∈ accepted)
    (more : extra ≠ []) : validatePacket packet = .ok false :=
  validatePacket_eq_false_iff.mpr fun hcut => prefixFree_accepted.notMem_append hcut more h

/-- A reserved packet type. -/
theorem validatePacket_reserved (first : UInt8) (rest : List UInt8) :
    validatePacket (((first &&& 0x0F) ||| 0xF0) :: rest) = .ok false := by
  apply validatePacket_eq_false_iff.mpr
  intro h
  obtain ⟨-, -, -, htype, -⟩ := validatePacket_eq_true.mp h
  rw [highNibble_reserved] at htype
  omega

variable {σ : Type} [DrawSource σ]

/-- At least a hundred subscriptions are appended, none of them empty. -/
theorem additionalSubscriptions_ne_nil :
    Always (additionalSubscriptions : Gen σ (List UInt8)) (· ≠ []) := by
  have hentry : Always (additionalSubscription : Gen σ (List UInt8)) (· ≠ []) :=
    Always.bind (always_true _) fun number _ => Always.bind (always_true _) fun level _ =>
      always_pure (by simp)
  refine Always.bind (always_true _) fun count _ =>
    Always.bind (hentry.replicate _) fun entries hentries => always_pure ?_
  obtain ⟨entry, hmem⟩ := List.exists_mem_of_length_pos (show 0 < entries.length by omega)
  rw [ne_eq, List.flatten_eq_nil_iff]
  exact fun hnil => hentries.2 entry hmem (hnil entry hmem)

/-- The packets and draws on which a pattern has to break the framing. -/
def BreaksFraming (packet : List UInt8) (s : σ) : MalformedMQTTPattern → Prop
  | .oversizedRemainingLength | .invalidPacketType => True
  | .truncatedPayload => packet.length > 5
  | .oversizedPayload => ((usizeOr 10000).run s).1 % 100000 ≠ 0
  | .excessiveSubscriptions => packet[0]?.map highNibble = some 8
  | .invalidFixedHeader | .invalidQoS | .malformedUtf8 | .invalidTopicFilter
  | .protocolViolation => False

/-- A framing pattern makes the validator reject what it accepted. -/
theorem applyMalformedPattern_breaksFraming {packet : List UInt8} {s : σ}
    {pattern : MalformedMQTTPattern} (accepted : validatePacket packet = .ok true)
    (breaks : BreaksFraming packet s pattern) :
    CompletesFrom s (applyMalformedPattern packet pattern) fun result =>
      validatePacket result = .ok false := by
  obtain ⟨first, rest, rfl⟩ : ∃ first rest, packet = first :: rest := by
    cases packet with
    | nil => simp [validatePacket] at accepted
    | cons first rest => exact ⟨first, rest, rfl⟩
  apply (applyMalformedPattern_effect s first rest pattern).mono
  intro result heffect
  cases pattern with
  | oversizedRemainingLength =>
      have hne : rest ≠ [] := by
        rintro rfl
        obtain ⟨field, body, cut, -⟩ := validatePacket_eq_true.mp accepted
        simp [Base128.split] at cut
      rw [Effect, if_neg hne] at heffect
      subst heffect
      apply validatePacket_flagged
      intro b hb
      apply continues_of_mem_replicate (n := 4)
      exact hb
  | invalidPacketType =>
      subst heffect
      exact validatePacket_reserved first rest
  | truncatedPayload =>
      have long : rest.length ≥ 5 := Nat.le_of_lt_succ breaks
      rw [Effect, if_pos long] at heffect
      subst heffect
      have hwhole : (first :: rest.take ((rest.length + 1) / 2 - 1)) ++
          rest.drop ((rest.length + 1) / 2 - 1) = first :: rest :=
        congrArg (first :: ·) (List.take_append_drop _ rest)
      apply validatePacket_cut (hwhole ▸ accepted)
      rw [ne_eq, List.drop_eq_nil_iff]
      omega
  | oversizedPayload =>
      subst heffect
      rw [← List.cons_append]
      apply validatePacket_extended accepted
      intro hnil
      apply breaks
      simpa using hnil
  | excessiveSubscriptions =>
      have subscribe : highNibble first = 8 := by simpa [BreaksFraming] using breaks
      rw [Effect, if_pos subscribe] at heffect
      subst heffect
      rw [← List.cons_append]
      exact validatePacket_extended accepted (additionalSubscriptions_ne_nil s)
  | invalidFixedHeader | invalidQoS | malformedUtf8 | invalidTopicFilter | protocolViolation =>
      exact absurd breaks id

/-- A PUBLISH packet with four length bytes for the number 1, cut inside these bytes. -/
theorem applyMalformedPattern_breaksFraming_truncated :
    CompletesFrom ({ data := [] } : Unstructured)
      (applyMalformedPattern [0x30, 0x81, 0x80, 0x80, 0x00, 0x41] .truncatedPayload)
      fun result => validatePacket result = .ok false :=
  applyMalformedPattern_breaksFraming
    (by
      rw [validatePacket_cons]
      decide +kernel)
    (by decide : 6 > 5)

end ProtocolFuzzer.MQTT
