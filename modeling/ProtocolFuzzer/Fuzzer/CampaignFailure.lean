/-
# How an MQTT campaign can fail

An MQTT campaign stops in two ways only. An iteration draws the pattern that adds
subscriptions for the empty packet, or its mutation has four to seven bytes and no pair of
bytes that recurs, so that the search for repeated bytes leaves the packet. Cases get longer
by less than a hundred thousand bytes an iteration. So the counters of their bytes are wide
enough for more than forty thousand iterations, and nothing else can go wrong.
-/

import ProtocolFuzzer.Fuzzer.CampaignTrace
import ProtocolFuzzer.Fuzzer.TargetOutcomes
import ProtocolFuzzer.Protocols.Growth

namespace ProtocolFuzzer

open Math Platform Common

variable {σ : Type} [DrawSource σ]

namespace MQTT

/-- On the empty packet every other pattern does nothing or pads. -/
theorem applyMalformedPattern_nil {pattern : MalformedMQTTPattern}
    (h : pattern ≠ .excessiveSubscriptions) :
    Completes (applyMalformedPattern [] pattern : Fallible σ _) fun _ => True := by
  have hnil : Completes (pure [] : Fallible σ (List UInt8)) fun _ => True :=
    completes_pure trivial
  cases pattern with
  | excessiveSubscriptions => exact absurd rfl h
  | oversizedPayload =>
      rw [applyMalformedPattern]
      exact Completes.bind (completes_draw _) fun _ _ => completes_pure trivial
  | protocolViolation =>
      refine Completes.bind (completes_draw _) fun drawn _ => ?_
      dsimp only
      split <;> exact hnil
  | _ => exact hnil

/-- When a mutation returns. -/
theorem mutatePacket_returns_iff (packet : List UInt8) (s : σ) :
    NoPanic ((mutatePacket packet).run s) ↔
      ¬ (packet = [] ∧ DrawsExcessiveSubscriptions s) := by
  constructor
  · rintro hreturns ⟨rfl, hdraws⟩
    exact mutatePacket_nil_fails hdraws hreturns
  · intro hsafe
    by_cases empty : packet = []
    · subst empty
      have hdraws : ¬ DrawsExcessiveSubscriptions s := fun h => hsafe ⟨rfl, h⟩
      suffices hcompletes : CompletesFrom s (mutatePacket []) fun _ => True from
        hcompletes.noPanic
      rw [mutatePacket]
      refine CompletesFrom.draw_bind ?_
      rw [DrawsExcessiveSubscriptions] at hdraws
      generalize ((u8Or 0).run s).1 % 5 = mutationType at hdraws ⊢
      dsimp only
      split
      · exact (bitFlipMutation_length [] _).mono fun _ _ => trivial
      · exact (byteInsertMutation_length [] _).mono fun _ _ => trivial
      · exact (byteDeleteMutation_length [] _).mono fun _ _ => trivial
      · exact (arithmeticMutation_length [] _).mono fun _ _ => trivial
      · refine CompletesFrom.draw_bind (applyMalformedPattern_nil ?_ _)
        exact fun hpattern => hdraws ⟨rfl, hpattern⟩
      · exact completes_pure trivial _
    · exact (mutatePacket_effect empty s).noPanic

end MQTT

namespace Fuzzer

open Coverage

variable {parse : DNS.Parser} {testCases : List (List UInt8)}

/-- A mutated case that the search for repeated bytes leaves. -/
def LosesWindow (mutatedCase : List UInt8) : Prop :=
  4 ≤ mutatedCase.length ∧ mutatedCase.length < 8 ∧ ¬ ∃ i, Recurs mutatedCase 2 i

theorem mutateTestCase_mqtt_returns_iff (baseCase : List UInt8) (draws : σ) (randSeed : ℕ) :
    NoPanic (mutateTestCase mqttFuzzer baseCase draws randSeed) ↔
      ¬ (baseCase = [] ∧ MQTT.DrawsExcessiveSubscriptions draws) := by
  rw [← MQTT.mutatePacket_returns_iff]
  constructor
  · rintro ⟨mutatedCase, hmutate⟩
    obtain ⟨s', hrun⟩ := mutateTestCase_mqtt.mp hmutate
    exact ⟨_, hrun⟩
  · rintro ⟨⟨mutatedCase, s'⟩, hrun⟩
    exact ⟨mutatedCase, mutateTestCase_mqtt.mpr ⟨s', hrun⟩⟩

theorem mutateTestCase_mqtt_length {baseCase mutatedCase : List UInt8} {draws : σ} {randSeed : ℕ}
    (h : mutateTestCase mqttFuzzer baseCase draws randSeed = .ok mutatedCase) :
    mutatedCase.length ≤ baseCase.length + 99999 := by
  obtain ⟨s', hrun⟩ := mutateTestCase_mqtt.mp h
  exact MQTT.mutatePacket_length_le baseCase draws mutatedCase s' hrun

omit [DrawSource σ] in
/-- The corpus never gets empty. -/
theorem exists_baseCase {engine : FuzzingEngine σ} (nonempty : testCases ≠ [])
    {iterations : List (Iteration σ)} {c : Campaign}
    (hrun : runFuzzingCampaign engine testCases iterations = .ok c) :
    ∃ baseCase, c.baseCase? = some baseCase := by
  have hcorpus : c.testCases ≠ [] := by
    refine foldlM_run (fun _ c => c.testCases ≠ []) ?_ nonempty hrun
    intro history before it after hbefore hstep
    obtain ⟨_, mutatedCase, _, -, -, -, rfl⟩ := Campaign.step_eq_ok_iff.mp hstep
    change (if isInteresting it.result then addTestCase before.testCases mutatedCase
      else before.testCases) ≠ []
    split_ifs
    · exact List.ne_nil_of_mem (self_mem_addTestCase _ _)
    · exact hbefore
  exact ⟨_, List.getElem?_eq_getElem (Nat.mod_lt _ (List.length_pos_iff.mpr hcorpus))⟩

omit [DrawSource σ] in
/-- How long the cases of a corpus can get: it holds initial and executed cases. -/
theorem length_le_of_runFuzzingCampaign {engine : FuzzingEngine σ} {limit growth : ℕ}
    (hinitial : ∀ packet ∈ testCases, packet.length ≤ limit)
    (hmutate : ∀ baseCase draws randSeed result,
      mutateTestCase engine.protocolFuzzer baseCase draws randSeed = .ok result →
        result.length ≤ max baseCase.length limit + growth)
    {iterations : List (Iteration σ)} {c : Campaign}
    (hrun : runFuzzingCampaign engine testCases iterations = .ok c) :
    ∀ packet ∈ c.testCases, packet.length ≤ limit + iterations.length * growth := by
  obtain ⟨log, hlog, hreplay⟩ := (runFuzzingCampaign_eq_ok_iff iterations c).mp hrun
  obtain ⟨coverageCollector, -, hc⟩ := bind_eq_ok.mp hreplay
  cases hc
  intro packet hmem
  rcases mem_corpusOf hmem with hmem | ⟨i, e, he, rfl⟩
  · exact (hinitial packet hmem).trans (Nat.le_add_right _ _)
  · have hlt : i < iterations.length :=
      length_of_selectCases hlog ▸ (List.getElem?_eq_some_iff.mp he).1
    calc e.testCase.length
        ≤ limit + (i + 1) * growth := length_le_of_selectCases hinitial hmutate hlog he
      _ ≤ limit + iterations.length * growth :=
          Nat.add_le_add_left (Nat.mul_le_mul_right growth hlt) limit

/-- An iteration fails in the mutation or in the search for repeated bytes. -/
theorem step_fails_iff {c : Campaign} {it : Iteration σ} {baseCase : List UInt8}
    (hbase : c.baseCase? = some baseCase) (short : baseCase.length + 99999 < 2 ^ 32) :
    ¬ NoPanic (c.step (mqttEngine parse) it) ↔
      (baseCase = [] ∧ MQTT.DrawsExcessiveSubscriptions it.draws) ∨ ∃ mutatedCase,
        mutateTestCase mqttFuzzer baseCase it.draws it.randSeed = .ok mutatedCase ∧
        LosesWindow mutatedCase := by
  have hrecord : ∀ mutatedCase, mutateTestCase mqttFuzzer baseCase it.draws it.randSeed =
      .ok mutatedCase → (Recordable mutatedCase ↔ ¬ LosesWindow mutatedCase) := by
    intro mutatedCase hmutate
    have hgrowth := mutateTestCase_mqtt_length hmutate
    rw [Recordable, and_iff_right (fewOfEachByte_of_length (by omega)), LosesWindow]
    by_cases recurs : ∃ i, Recurs mutatedCase 2 i
    · simp [recurs]
    · simp only [recurs, not_false_eq_true, or_false, and_true]
      omega
  rw [← not_not (a := _ ∧ _), ← mutateTestCase_mqtt_returns_iff baseCase it.draws it.randSeed]
  constructor
  · intro hfails
    by_cases hmutates : NoPanic (mutateTestCase mqttFuzzer baseCase it.draws it.randSeed)
    · obtain ⟨mutatedCase, hmutate⟩ := hmutates
      refine .inr ⟨mutatedCase, hmutate, not_not.mp fun hkept => hfails ?_⟩
      obtain ⟨coverageCollector, hcollector⟩ := (recordExecution_returns_iff parse
        c.coverageCollector mutatedCase it.result).mpr ((hrecord mutatedCase hmutate).mpr hkept)
      exact ⟨_, Campaign.step_eq_ok_iff.mpr
        ⟨baseCase, mutatedCase, coverageCollector, hbase, hmutate, hcollector, rfl⟩⟩
    · exact .inl hmutates
  · rintro hcause ⟨c', hstep⟩
    obtain ⟨baseCase', mutatedCase, coverageCollector, hbase', hmutate, hcollector, -⟩ :=
      Campaign.step_eq_ok_iff.mp hstep
    obtain rfl : baseCase = baseCase' := Option.some.inj (hbase.symm.trans hbase')
    rcases hcause with hfails | ⟨mutatedCase', hmutate', hloses⟩
    · exact hfails ⟨mutatedCase, hmutate⟩
    · obtain rfl : mutatedCase = mutatedCase' := Except.ok.inj (hmutate.symm.trans hmutate')
      have hrecordable := (recordExecution_returns_iff parse c.coverageCollector mutatedCase
        it.result).mp ⟨coverageCollector, hcollector⟩
      exact (hrecord mutatedCase hmutate).mp hrecordable hloses

/-- As long as an MQTT campaign runs, no case of its corpus is longer than the longest initial
one by a hundred thousand bytes an iteration. While the initial cases and the number of
iterations are not huge, it fails exactly when it reaches an iteration that adds subscriptions
to the empty packet, or whose mutation has four to seven bytes and no pair of bytes that
recurs. -/
theorem runFuzzingCampaign_mqtt_fails_iff (parse : DNS.Parser) (testCases : List (List UInt8))
    (nonempty : testCases ≠ []) (limit : ℕ)
    (hinitial : ∀ packet ∈ testCases, packet.length ≤ limit)
    (iterations : List (Iteration σ)) :
    let run := runFuzzingCampaign (mqttEngine (σ := σ) parse) testCases
    (∀ history c, history <+: iterations → run history = .ok c →
      ∀ packet ∈ c.testCases, packet.length ≤ limit + history.length * 99999) ∧
    (limit + iterations.length * 99999 < 2 ^ 32 →
      (¬ NoPanic (run iterations) ↔ ∃ history it c baseCase, history ++ [it] <+: iterations ∧
        run history = .ok c ∧ c.baseCase? = some baseCase ∧
        ((baseCase = [] ∧ MQTT.DrawsExcessiveSubscriptions it.draws) ∨ ∃ mutatedCase,
          mutateTestCase mqttFuzzer baseCase it.draws it.randSeed = .ok mutatedCase ∧
          4 ≤ mutatedCase.length ∧ mutatedCase.length < 8 ∧
          ¬ ∃ i, Recurs mutatedCase 2 i))) := by
  intro run
  have hlengths : ∀ history c, run history = .ok c → ∀ packet ∈ c.testCases,
      packet.length ≤ limit + history.length * 99999 := fun history c hrun =>
    length_le_of_runFuzzingCampaign hinitial (fun _ _ _ _ hmutate =>
      (mutateTestCase_mqtt_length hmutate).trans
        (Nat.add_le_add_right (Nat.le_max_left _ _) _)) hrun
  refine ⟨fun history c _ hrun => hlengths history c hrun, fun few => ?_⟩
  have hshort : ∀ {history it c baseCase}, history ++ [it] <+: iterations →
      run history = .ok c → c.baseCase? = some baseCase → baseCase.length + 99999 < 2 ^ 32 := by
    intro history it c baseCase hbegins hrun hbase
    have hlength := hlengths history c hrun baseCase (List.mem_of_getElem? hbase)
    have hbefore := hbegins.length_le
    rw [List.length_append, List.length_singleton] at hbefore
    have hmono := Nat.mul_le_mul_right 99999 hbefore
    rw [Nat.succ_mul] at hmono
    omega
  have hfirst : ¬ NoPanic (run iterations) ↔ ∃ history it c, history ++ [it] <+: iterations ∧
      run history = .ok c ∧ ¬ NoPanic (c.step (mqttEngine parse) it) := not_noPanic_foldlM_iff
  rw [hfirst]
  constructor
  · rintro ⟨history, it, c, hbegins, hrun, hfails⟩
    obtain ⟨baseCase, hbase⟩ := exists_baseCase nonempty hrun
    exact ⟨history, it, c, baseCase, hbegins, hrun, hbase,
      (step_fails_iff hbase (hshort hbegins hrun hbase)).mp hfails⟩
  · rintro ⟨history, it, c, baseCase, hbegins, hrun, hbase, hcause⟩
    exact ⟨history, it, c, hbegins, hrun,
      (step_fails_iff hbase (hshort hbegins hrun hbase)).mpr hcause⟩

/-- A campaign of one iteration from a PINGREQ packet. -/
theorem runFuzzingCampaign_mqtt_fails_iff_pingreq :
    (¬ NoPanic (runFuzzingCampaign (mqttEngine fun _ => none) [[0xC0, 0x00]] [iterationAt 2]) ↔
      ∃ history it c baseCase, history ++ [it] <+: [iterationAt 2] ∧
        runFuzzingCampaign (mqttEngine fun _ => none) [[0xC0, 0x00]] history = .ok c ∧
        c.baseCase? = some baseCase ∧
        ((baseCase = [] ∧ MQTT.DrawsExcessiveSubscriptions it.draws) ∨ ∃ mutatedCase,
          mutateTestCase mqttFuzzer baseCase it.draws it.randSeed = .ok mutatedCase ∧
          4 ≤ mutatedCase.length ∧ mutatedCase.length < 8 ∧
          ¬ ∃ i, Recurs mutatedCase 2 i)) := by
  have hinitial : ∀ packet ∈ [[(0xC0 : UInt8), 0x00]], packet.length ≤ 2 := by decide
  exact (runFuzzingCampaign_mqtt_fails_iff (fun _ => none) [[0xC0, 0x00]] (by decide) 2 hinitial
    [iterationAt 2]).2 (by decide)

end Fuzzer

end ProtocolFuzzer
