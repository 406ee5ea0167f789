/-
# Which malformed patterns a campaign applies

The engine draws each mutation from a buffer that counts up from a byte of the clock, so
everything a mutation draws is a function of that byte. For a pattern to be applied, the
byte has to be 4 modulo 5, and the eight bytes after it have to give the index of the
pattern. The eight indices of the DNS fuzzer all occur. Modulo ten the two conditions
depend on each other, and six of the ten patterns of the MQTT fuzzer never occur.
-/

import ProtocolFuzzer.Fuzzer.Campaign
import ProtocolFuzzer.Protocols.DNS.Patterns
import ProtocolFuzzer.Protocols.MQTT.Mutation

namespace ProtocolFuzzer.Fuzzer

open Math Platform Common

/-- The draws of a mutation under a clock reading. -/
def mutationDraws (random : ℕ → UInt32) (randSeed : ℕ) : Unstructured :=
  { data := seedData 512 randSeed, random }

/-- The number from which a mutation draws the index of a pattern. -/
def drawnIndex (randSeed : ℕ) : ℕ := fromLE (seedData 8 (randSeed + 1))

/-- The index depends on a byte of the clock only. -/
theorem drawnIndex_mod (randSeed : ℕ) : drawnIndex (randSeed % 256) = drawnIndex randSeed := by
  rw [drawnIndex, drawnIndex, ← seedData_mod 8 (randSeed % 256 + 1), Nat.mod_add_mod,
    seedData_mod]

variable {Pattern : Type} {patterns : List Pattern} {nonempty : 0 < patterns.length}

/-- When a mutation applies a malformed pattern, in terms of the clock. -/
theorem drawMutation_mutationDraws_iff (random : ℕ → UInt32) (randSeed : ℕ) (pattern : Pattern) :
    ((drawMutation (pick patterns nonempty <$> usizeOr 0)).run
        (mutationDraws random randSeed)).1 = .malformed pattern ↔
      randSeed % 256 % 5 = 4 ∧ pick patterns nonempty (drawnIndex randSeed) = pattern := by
  have hbyte : UInt8.ofNat (randSeed % 256) % 5 = 4 ↔ randSeed % 256 % 5 = 4 := by
    rw [← UInt8.toNat_inj, UInt8.toNat_mod, UInt8.toNat_ofNat', Nat.mod_mod]
    rfl
  have hindex : ((usizeOr 0).run
      ({ data := seedData 511 (randSeed + 1), random } : Unstructured)).1 =
        drawnIndex randSeed := by
    rw [Unstructured.usizeOr_run 0 (by rw [seedData, List.length_map, List.length_range]; decide),
      take_seedData (by decide), drawnIndex]
  rw [drawMutation_eq_malformed_iff, mutationDraws, seedData_succ 511, Unstructured.u8Or_run,
    hbyte, ← hindex]
  rfl

/-- A malformed pattern of a protocol fuzzer. -/
inductive Target
  | DNS (pattern : DNS.MalformedPattern)
  | MQTT (pattern : MQTT.MalformedMQTTPattern)

/-- Under the clock reading, the mutation of a test case draws the pattern, and its result
is the test case with the pattern applied. -/
def Target.AppliedAt (build : DNS.Builder) (random : ℕ → UInt32) (baseCase : List UInt8)
    (randSeed : ℕ) : Target → Prop
  | .DNS pattern =>
    let draws := mutationDraws random randSeed
    let choice := (drawMutation DNS.drawMalformedPattern).run draws
    choice.1 = .malformed pattern ∧
      mutateTestCase (dnsFuzzer build) baseCase draws randSeed =
        Prod.fst <$> (DNS.applyMalformedPattern baseCase pattern).run choice.2
  | .MQTT pattern =>
    let draws := mutationDraws random randSeed
    let choice := (drawMutation MQTT.drawMalformedPattern).run draws
    choice.1 = .malformed pattern ∧
      mutateTestCase mqttFuzzer baseCase draws randSeed =
        Prod.fst <$> (MQTT.applyMalformedPattern baseCase pattern).run choice.2

/-- All patterns of the DNS fuzzer, and four of the MQTT fuzzer. -/
def Target.Reachable : Target → Prop
  | .DNS _ => True
  | .MQTT pattern =>
    pattern ∈ [.oversizedRemainingLength, .truncatedPayload, .malformedUtf8,
      .excessiveSubscriptions]

/-- A mutation that never returns an error gives the test case. -/
theorem mutateTestCase_of_some {σ : Type} {fuzzer : PacketFuzzer σ} {baseCase : List UInt8}
    {m : Fallible σ (List UInt8)} (h : fuzzer.mutatePacket baseCase = some <$> m) (draws : σ)
    (randSeed : ℕ) : mutateTestCase fuzzer baseCase draws randSeed = Prod.fst <$> m.run draws := by
  rw [mutateTestCase, h, StateT.run_map]
  cases m.run draws <;> rfl

theorem appliedAt_DNS_iff (build : DNS.Builder) (random : ℕ → UInt32) (baseCase : List UInt8)
    (randSeed : ℕ) (pattern : DNS.MalformedPattern) :
    Target.AppliedAt build random baseCase randSeed (.DNS pattern) ↔
      randSeed % 256 % 5 = 4 ∧
        pick DNS.malformedPatterns DNS.malformedPatterns_pos (drawnIndex randSeed) = pattern := by
  rw [← drawMutation_mutationDraws_iff random]
  refine and_iff_left_of_imp fun hchoice => ?_
  rw [mutateTestCase_of_some rfl, DNS.mutatePacket_eq, StateT.run_bind, run_draw, ok_bind, hchoice]
  rfl

theorem appliedAt_MQTT_iff (build : DNS.Builder) (random : ℕ → UInt32) (baseCase : List UInt8)
    (randSeed : ℕ) (pattern : MQTT.MalformedMQTTPattern) :
    Target.AppliedAt build random baseCase randSeed (.MQTT pattern) ↔
      randSeed % 256 % 5 = 4 ∧
        pick MQTT.malformedPatterns MQTT.malformedPatterns_pos (drawnIndex randSeed) =
          pattern := by
  rw [← drawMutation_mutationDraws_iff random]
  refine and_iff_left_of_imp fun hchoice => ?_
  rw [mutateTestCase_of_some rfl, MQTT.mutatePacket_eq, StateT.run_bind, run_draw, ok_bind,
    hchoice]
  rfl

/-- Every index modulo eight goes with a byte that is 4 modulo 5. -/
theorem exists_index_DNS (pattern : DNS.MalformedPattern) : ∃ byte : Fin 256,
    byte.val % 256 % 5 = 4 ∧
      pick DNS.malformedPatterns DNS.malformedPatterns_pos (drawnIndex byte) = pattern := by
  cases pattern <;> decide +kernel

/-- Bytes that are 4 modulo 5 go with the indices 1, 3, 6 and 8 modulo ten. -/
theorem index_MQTT : ∀ byte : Fin 256, byte.val % 5 = 4 →
    Target.Reachable (.MQTT (pick MQTT.malformedPatterns MQTT.malformedPatterns_pos
      (drawnIndex byte))) := by
  unfold Target.Reachable
  decide +kernel

/-- No other pattern of the MQTT fuzzer is applied. -/
theorem reachable_of_appliedAt {build : DNS.Builder} {random : ℕ → UInt32}
    {baseCase : List UInt8} {randSeed : ℕ} {pattern : MQTT.MalformedMQTTPattern}
    (h : Target.AppliedAt build random baseCase randSeed (.MQTT pattern)) :
    Target.Reachable (.MQTT pattern) := by
  obtain ⟨hselected, hpattern⟩ := (appliedAt_MQTT_iff build random baseCase randSeed pattern).mp h
  have hindex := index_MQTT ⟨randSeed % 256, Nat.mod_lt _ (by decide)⟩ hselected
  rwa [drawnIndex_mod, hpattern] at hindex

theorem exists_index_MQTT : ∀ pattern, Target.Reachable (.MQTT pattern) → ∃ byte : Fin 256,
    byte.val % 256 % 5 = 4 ∧
      pick MQTT.malformedPatterns MQTT.malformedPatterns_pos (drawnIndex byte) = pattern := by
  unfold Target.Reachable
  decide +kernel

/-- There is a clock reading under which a pattern is applied to a test case exactly when
the pattern belongs to the DNS fuzzer, or is one of four patterns of the MQTT fuzzer. -/
theorem exists_appliedAt_iff (build : DNS.Builder) (random : ℕ → UInt32)
    (baseCase : List UInt8) (target : Target) :
    (∃ randSeed < usizeRange, target.AppliedAt build random baseCase randSeed) ↔
      target.Reachable := by
  have hrange : ∀ byte : Fin 256, byte.val < usizeRange := fun byte =>
    byte.isLt.trans (by decide)
  cases target with
  | DNS pattern =>
      obtain ⟨byte, hbyte⟩ := exists_index_DNS pattern
      refine iff_of_true ⟨byte, hrange byte, ?_⟩ trivial
      exact (appliedAt_DNS_iff build random baseCase byte pattern).mpr hbyte
  | MQTT pattern =>
      constructor
      · rintro ⟨randSeed, -, happlied⟩
        exact reachable_of_appliedAt happlied
      · intro hreachable
        obtain ⟨byte, hbyte⟩ := exists_index_MQTT pattern hreachable
        refine ⟨byte, hrange byte, ?_⟩
        exact (appliedAt_MQTT_iff build random baseCase byte pattern).mpr hbyte

/-- No clock reading makes the engine invalidate the fixed header of a PINGREQ packet. -/
theorem invalidFixedHeader_not_applied :
    ¬ ∃ randSeed < usizeRange, Target.AppliedAt (fun _ _ _ => .ok none) (fun _ => 0)
      [0xC0, 0x00] randSeed (.MQTT .invalidFixedHeader) := by
  rintro ⟨randSeed, -, happlied⟩
  have hreachable := reachable_of_appliedAt happlied
  exact absurd hreachable (by unfold Target.Reachable; decide)

end ProtocolFuzzer.Fuzzer
