/-
# When the corpus stays fit for mutation

Mutating a test case can fail only on the empty packet. No generator produces one, and a
mutation produces one only by deleting the one byte of its base case, so the corpus of a
campaign is safe until an iteration with an interesting outcome does that. After such an
iteration the empty packet is in the corpus, where the next draw of the pattern that adds
subscriptions fails.
-/

import ProtocolFuzzer.Coverage.Safety
import ProtocolFuzzer.Fuzzer.Campaign
import ProtocolFuzzer.Protocols.MQTT.Mutation

namespace ProtocolFuzzer.Fuzzer

open Math Platform Coverage

variable {σ : Type}

/-- The test case the next iteration mutates. -/
def Campaign.baseCase? (c : Campaign) : Option (List UInt8) :=
  c.testCases[c.iteration % c.testCases.length]?

/-- What an iteration does. -/
theorem Campaign.step_eq_ok_iff {engine : FuzzingEngine σ} {c c' : Campaign}
    {it : Iteration σ} :
    c.step engine it = .ok c' ↔ ∃ baseCase mutatedCase coverageCollector,
      c.baseCase? = some baseCase ∧
      mutateTestCase engine.protocolFuzzer baseCase it.draws it.randSeed = .ok mutatedCase ∧
      c.coverageCollector.recordExecution engine.parse mutatedCase it.result =
        .ok coverageCollector ∧
      c' = c.advance engine.protocolType mutatedCase coverageCollector it := by
  have hbase : ∀ baseCase, (rem c.iteration c.testCases.length >>= index c.testCases) =
      .ok baseCase ↔ c.baseCase? = some baseCase := by
    intro baseCase
    rw [Campaign.baseCase?, rem]
    by_cases empty : c.testCases.length = 0
    · rw [if_pos empty, error_bind, List.length_eq_zero_iff.mp empty]
      simp
    · rw [if_neg empty, ok_bind, index]
      cases c.testCases[c.iteration % c.testCases.length]? <;> simp
  constructor
  · intro h
    obtain ⟨idx, hidx, hrest⟩ := bind_eq_ok.mp h
    obtain ⟨baseCase, hindex, hrest⟩ := bind_eq_ok.mp hrest
    obtain ⟨mutatedCase, hmutate, hrest⟩ := bind_eq_ok.mp hrest
    obtain ⟨coverageCollector, hrecord, hstep⟩ := bind_eq_ok.mp hrest
    cases hstep
    exact ⟨baseCase, mutatedCase, coverageCollector,
      (hbase baseCase).mp (bind_eq_ok.mpr ⟨idx, hidx, hindex⟩), hmutate, hrecord, rfl⟩
  · rintro ⟨baseCase, mutatedCase, coverageCollector, hsome, hmutate, hrecord, rfl⟩
    obtain ⟨idx, hidx, hindex⟩ := bind_eq_ok.mp ((hbase baseCase).mpr hsome)
    exact bind_eq_ok.mpr ⟨idx, hidx, bind_eq_ok.mpr ⟨baseCase, hindex, bind_eq_ok.mpr
      ⟨mutatedCase, hmutate, bind_eq_ok.mpr ⟨coverageCollector, hrecord, rfl⟩⟩⟩⟩

/-- The last iteration of a run. -/
theorem runFuzzingCampaign_concat {engine : FuzzingEngine σ} {testCases : List (List UInt8)}
    (iterations : List (Iteration σ)) {it : Iteration σ} {c' : Campaign} :
    runFuzzingCampaign engine testCases (iterations ++ [it]) = .ok c' ↔
      ∃ c, runFuzzingCampaign engine testCases iterations = .ok c ∧
        c.step engine it = .ok c' := by
  rw [runFuzzingCampaign, List.foldlM_append, bind_eq_ok]
  apply exists_congr
  intro c
  apply and_congr_right
  intro _
  rw [List.foldlM_cons, bind_eq_ok]
  simp [pure, Except.pure]

theorem mem_addTestCase {testCases : List (List UInt8)} {testCase packet : List UInt8}
    (h : packet ∈ addTestCase testCases testCase) : packet ∈ testCases ∨ packet = testCase := by
  have hmem : packet ∈ testCases ++ [testCase] := by
    rw [addTestCase] at h
    split_ifs at h
    · exact List.mem_of_mem_drop h
    · exact h
  simpa using hmem

/-- The new test case stays in the corpus. -/
theorem self_mem_addTestCase (testCases : List (List UInt8)) (testCase : List UInt8) :
    testCase ∈ addTestCase testCases testCase := by
  rw [addTestCase]
  split_ifs with full
  · rw [List.length_append, List.length_singleton] at full
    rw [List.drop_append_of_le_length (by omega)]
    exact List.mem_append_right _ List.mem_cons_self
  · exact List.mem_append_right _ List.mem_cons_self

/-- A corpus grows by the mutated case at most. -/
theorem Campaign.mem_advance {c : Campaign} {protocolType : ProtocolType}
    {mutatedCase packet : List UInt8} {coverageCollector : CompositeCoverageCollector}
    {it : Iteration σ}
    (h : packet ∈ (c.advance protocolType mutatedCase coverageCollector it).testCases) :
    packet ∈ c.testCases ∨ isInteresting it.result = true ∧ packet = mutatedCase := by
  change packet ∈ if isInteresting it.result then addTestCase c.testCases mutatedCase
    else c.testCases at h
  split_ifs at h with interesting
  · exact (mem_addTestCase h).imp_right fun heq => ⟨interesting, heq⟩
  · exact .inl h

variable [DrawSource σ]

/-- Every test case of the corpus can be mutated, whatever is drawn. -/
def Campaign.Mutable (σ : Type) [DrawSource σ] (c : Campaign) : Prop :=
  ∀ packet ∈ c.testCases, ∀ s : σ, NoPanic ((MQTT.mutatePacket packet).run s)

/-- The iteration deletes the one byte of its base case, and its outcome is interesting. -/
def Campaign.EmptiesCase (c : Campaign) (it : Iteration σ) : Prop :=
  (∃ byte, c.baseCase? = some [byte]) ∧ MQTT.DrawsByteDeletion it.draws ∧
    isInteresting it.result = true

theorem mutateTestCase_mqtt {baseCase mutatedCase : List UInt8} {draws : σ} {randSeed : ℕ} :
    mutateTestCase mqttFuzzer baseCase draws randSeed = .ok mutatedCase ↔
      ∃ s', (MQTT.mutatePacket baseCase).run draws = .ok (mutatedCase, s') := by
  have hrun : (mqttFuzzer.mutatePacket baseCase).run draws =
      (MQTT.mutatePacket baseCase).run draws >>= fun r => .ok (some r.1, r.2) := rfl
  rw [mutateTestCase, hrun]
  rcases (MQTT.mutatePacket baseCase).run draws with p | ⟨result, s'⟩
  · simp
  · simp [pure, Except.pure]

theorem generateCases_mqtt (s : σ) : ∃ cases, mqttFuzzer.generateCases s = .ok cases ∧
    ∀ packet ∈ cases, MQTT.Generated σ packet := by
  rcases hvalid : (MQTT.generateValidPacket : Gen σ _).run s with ⟨valid, s₁⟩
  obtain ⟨malformed, s₂, hmalformed, -⟩ := MQTT.generateMalformedPacket_ne_nil s₁
  have hrun : mqttFuzzer.generateCases s = .ok [valid, malformed] := by
    have hfirst : (mqttFuzzer.generateValidPacket : Fallible σ _).run s =
        .ok (some valid, s₁) := by
      change Except.ok (some (MQTT.generateValidPacket.run s).1,
        (MQTT.generateValidPacket.run s).2) = _
      rw [hvalid]
    have hsecond : (mqttFuzzer.generateMalformedPacket : Fallible σ _).run s₁ =
        MQTT.generateMalformedPacket.run s₁ >>= fun r => .ok (some r.1, r.2) := rfl
    rw [PacketFuzzer.generateCases, hfirst, ok_bind]
    dsimp only
    rw [hsecond, hmalformed]
    rfl
  refine ⟨_, hrun, ?_⟩
  simp only [List.forall_mem_cons, List.not_mem_nil, false_implies, implies_true, and_true]
  exact ⟨⟨s, .inl (congrArg Prod.fst hvalid)⟩, ⟨s₁, .inr ⟨s₂, hmalformed⟩⟩⟩

/-- The corpus a campaign starts from consists of generated packets. -/
theorem generateInitialTestCases_mqtt (random : ℕ → ℕ → UInt32) :
    ∃ testCases, generateInitialTestCases mqttFuzzer random = .ok testCases ∧
      ∀ packet ∈ testCases, MQTT.Generated Unstructured packet := by
  obtain ⟨cases, hcases⟩ : NoPanic ((List.range 50).mapM fun i =>
      (mqttFuzzer (σ := Unstructured)).generateCases
        { data := seedData 1024 i, random := random i }) :=
    noPanic_mapM_iff.mpr fun i _ => (generateCases_mqtt _).imp fun _ h => h.1
  refine ⟨cases.flatten, bind_eq_ok.mpr ⟨cases, hcases, rfl⟩, fun packet hmem => ?_⟩
  obtain ⟨pair, hpair, hmem⟩ := List.mem_flatten.mp hmem
  obtain ⟨i, -, hrun⟩ := exists_of_mem_mapM hcases hpair
  obtain ⟨pair', hrun', hgenerated⟩ := generateCases_mqtt
    { data := seedData 1024 i, random := random i : Unstructured }
  rw [hrun] at hrun'
  cases hrun'
  exact hgenerated packet hmem

/-- An iteration that leaves a byte keeps the corpus free of empty packets. -/
theorem Campaign.step_ne_nil {parse : DNS.Parser} {c c' : Campaign} {it : Iteration σ}
    (hcases : ∀ packet ∈ c.testCases, packet ≠ []) (hkept : ¬ c.EmptiesCase it)
    (hstep : c.step (mqttEngine parse) it = .ok c') : ∀ packet ∈ c'.testCases, packet ≠ [] := by
  obtain ⟨baseCase, mutatedCase, coverageCollector, hbase, hmutate, -, rfl⟩ :=
    Campaign.step_eq_ok_iff.mp hstep
  intro packet hmem
  rcases Campaign.mem_advance hmem with hold | ⟨interesting, rfl⟩
  · exact hcases packet hold
  · have hne := hcases baseCase (List.mem_of_getElem? hbase)
    obtain ⟨s', hrun⟩ := mutateTestCase_mqtt.mp hmutate
    obtain ⟨result, s'', hrun', hempty⟩ := MQTT.mutatePacket_effect hne it.draws
    rw [hrun] at hrun'
    cases hrun'
    intro hnil
    obtain ⟨hdeletion, hlength⟩ := hempty.mp hnil
    obtain ⟨byte, rfl⟩ := List.length_eq_one_iff.mp hlength
    exact hkept ⟨⟨byte, hbase⟩, hdeletion, interesting⟩

/-- An iteration with an interesting outcome returns where the mutated case is short, and
adds it to the corpus. -/
theorem Campaign.step_of_short (parse : DNS.Parser) {c : Campaign} {it : Iteration σ}
    {baseCase mutatedCase : List UInt8} {s' : σ} (hbase : c.baseCase? = some baseCase)
    (hrun : (MQTT.mutatePacket baseCase).run it.draws = .ok (mutatedCase, s'))
    (short : mutatedCase.length < 4) (interesting : isInteresting it.result = true) :
    ∃ c', c.step (mqttEngine parse) it = .ok c' ∧ c'.iteration = c.iteration + 1 ∧
      c'.testCases = addTestCase c.testCases mutatedCase := by
  obtain ⟨coverageCollector, hrecord⟩ := (recordExecution_returns_iff parse
    c.coverageCollector mutatedCase it.result).mpr (recordable_of_short short)
  refine ⟨_, Campaign.step_eq_ok_iff.mpr ⟨baseCase, mutatedCase, coverageCollector, hbase,
    mutateTestCase_mqtt.mpr ⟨s', hrun⟩, hrecord, rfl⟩, rfl, ?_⟩
  exact if_pos interesting

/-- An iteration that deletes the one byte of its base case returns, and leaves the empty
packet in the corpus. -/
theorem Campaign.EmptiesCase.step {c : Campaign} {it : Iteration σ} (h : c.EmptiesCase it)
    (parse : DNS.Parser) : ∃ c', c.step (mqttEngine parse) it = .ok c' ∧
      c'.iteration = c.iteration + 1 ∧ c'.testCases = addTestCase c.testCases [] := by
  obtain ⟨⟨byte, hbase⟩, hdeletion, interesting⟩ := h
  obtain ⟨mutatedCase, s', hrun, hlength⟩ := MQTT.mutatePacket_deletes hdeletion [byte]
  obtain rfl := List.length_eq_zero_iff.mp hlength
  exact Campaign.step_of_short parse hbase hrun (by decide) interesting

/-- From generated packets on, the corpus is free of empty packets as long as every
iteration leaves a byte. -/
theorem runFuzzingCampaign_ne_nil {parse : DNS.Parser} {testCases : List (List UInt8)}
    (hgenerated : ∀ packet ∈ testCases, MQTT.Generated σ packet)
    {iterations : List (Iteration σ)}
    (hkept : ∀ history it c, history ++ [it] <+: iterations →
      runFuzzingCampaign (mqttEngine parse) testCases history = .ok c → ¬ c.EmptiesCase it)
    {c : Campaign} (hrun : runFuzzingCampaign (mqttEngine parse) testCases iterations = .ok c) :
    ∀ packet ∈ c.testCases, packet ≠ [] := by
  induction iterations using List.reverseRecOn generalizing c with
  | nil =>
      cases hrun
      exact fun packet hmem => (hgenerated packet hmem).ne_nil
  | append_singleton iterations it ih =>
      obtain ⟨before, hbefore, hstep⟩ := (runFuzzingCampaign_concat iterations).mp hrun
      have hcases := ih (fun history it' c hbegins =>
        hkept history it' c (hbegins.trans (List.prefix_append _ _))) hbefore
      exact Campaign.step_ne_nil hcases (hkept iterations it before List.prefix_rfl hbefore) hstep

/-- In a campaign that starts from generated packets, every corpus reached can be mutated
if no iteration deletes the one byte of its base case with an interesting outcome; and only
then, where the pattern that adds subscriptions can be drawn. -/
theorem mutatePacket_returns_in_campaigns (parse : DNS.Parser) (testCases : List (List UInt8))
    (hgenerated : ∀ packet ∈ testCases, MQTT.Generated σ packet)
    (iterations : List (Iteration σ)) :
    let run := runFuzzingCampaign (mqttEngine (σ := σ) parse) testCases
    let safe := ∀ history c, history <+: iterations → run history = .ok c → c.Mutable σ
    let kept := ∀ history it c, history ++ [it] <+: iterations → run history = .ok c →
      ¬ c.EmptiesCase it
    (kept → safe) ∧ ((∃ s : σ, MQTT.DrawsExcessiveSubscriptions s) → safe → kept) := by
  intro run safe kept
  constructor
  · intro hkept history c hbegins hrun packet hmem s
    have hne := runFuzzingCampaign_ne_nil hgenerated (fun before it c hbefore =>
      hkept before it c (hbefore.trans hbegins)) hrun packet hmem
    obtain ⟨result, s', hresult, -⟩ := MQTT.mutatePacket_effect hne s
    exact ⟨_, hresult⟩
  · rintro ⟨s, hdraws⟩ hsafe history it c hbegins hrun hempties
    obtain ⟨c', hstep, -, hcases⟩ := hempties.step parse
    have hmem : [] ∈ c'.testCases := hcases ▸ self_mem_addTestCase _ _
    have hafter : run (history ++ [it]) = .ok c' :=
      (runFuzzingCampaign_concat history).mpr ⟨c, hrun, hstep⟩
    exact MQTT.mutatePacket_nil_fails hdraws (hsafe _ c' hbegins hafter [] hmem s)

/-- A connection that is closed without a response. -/
def closedConnection : ExecutionResult where
  success := true
  responseData := some []
  executionTimeMs := 0
  errorMessage := none

/-- The iteration at a clock reading, on a target that closes every connection. -/
def iterationAt (randSeed : ℕ) : Iteration Unstructured where
  draws := { data := seedData 512 randSeed }
  randSeed
  result := closedConnection

theorem generated_pingreq : ∀ packet ∈ [[0xC0, 0x00]], MQTT.Generated Unstructured packet := by
  rintro packet hmem
  obtain rfl := List.mem_singleton.mp hmem
  exact ⟨{ data := [3] }, .inl rfl⟩

theorem drawsByteDeletion_iterationAt : MQTT.DrawsByteDeletion (iterationAt 2).draws := by
  decide +kernel

/-- The first iteration shortens a PINGREQ packet to one byte. -/
theorem runFuzzingCampaign_shortens : ∃ c byte,
    runFuzzingCampaign (mqttEngine fun _ => none) [[0xC0, 0x00]] [iterationAt 2] = .ok c ∧
      c.iteration = 1 ∧ c.testCases = [[0xC0, 0x00], [byte]] := by
  obtain ⟨mutatedCase, s', hmutate, hlength⟩ :=
    MQTT.mutatePacket_deletes drawsByteDeletion_iterationAt [0xC0, 0x00]
  obtain ⟨byte, rfl⟩ := List.length_eq_one_iff.mp hlength
  obtain ⟨c, hstep, hiteration, hcases⟩ := Campaign.step_of_short (fun _ => none)
    (c := Campaign.start .MQTT [[0xC0, 0x00]]) rfl hmutate (by simp) rfl
  exact ⟨c, byte, (runFuzzingCampaign_concat []).mpr ⟨_, rfl, hstep⟩,
    hiteration, hcases⟩

/-- After one deletion the corpus can be mutated. -/
theorem mutatePacket_returns_after_deletion : ∃ c,
    runFuzzingCampaign (mqttEngine fun _ => none) [[0xC0, 0x00]] [iterationAt 2] = .ok c ∧
      c.Mutable Unstructured := by
  obtain ⟨c, byte, hrun, -, -⟩ := runFuzzingCampaign_shortens
  refine ⟨c, hrun, (mutatePacket_returns_in_campaigns (fun _ => none) _ generated_pingreq
    [iterationAt 2]).1 ?_ [iterationAt 2] c List.prefix_rfl hrun⟩
  rintro history it before hbegins hbefore ⟨⟨byte, hbase⟩, -, -⟩
  obtain rfl : history = [] := by
    have hlength := hbegins.length_le
    rw [List.length_append, List.length_singleton, List.length_singleton] at hlength
    exact List.length_eq_zero_iff.mp (by omega)
  cases hbefore
  have hstart : (Campaign.start .MQTT [[0xC0, 0x00]]).baseCase? = some [0xC0, 0x00] := rfl
  exact absurd (hstart.symm.trans hbase) (by simp)

/-- After two deletions the empty packet is in the corpus, and the campaign fails in the
next iteration. -/
theorem runFuzzingCampaign_panics :
    MQTT.Generated Unstructured [0xC0, 0x00] ∧
      (∃ c, runFuzzingCampaign (mqttEngine fun _ => none) [[0xC0, 0x00]]
          [iterationAt 2, iterationAt 2] = .ok c ∧ [] ∈ c.testCases ∧
          ¬ NoPanic ((MQTT.mutatePacket []).run (iterationAt 9).draws)) ∧
      ¬ NoPanic (runFuzzingCampaign (mqttEngine fun _ => none) [[0xC0, 0x00]]
        [iterationAt 2, iterationAt 2, iterationAt 9]) := by
  have hfails : ¬ NoPanic ((MQTT.mutatePacket []).run (iterationAt 9).draws) :=
    MQTT.mutatePacket_nil_fails (by decide +kernel)
  obtain ⟨c, byte, hrun, hiteration, hcases⟩ := runFuzzingCampaign_shortens
  have hempties : c.EmptiesCase (iterationAt 2) := by
    refine ⟨⟨byte, ?_⟩, drawsByteDeletion_iterationAt, rfl⟩
    rw [Campaign.baseCase?, hiteration, hcases]
    rfl
  obtain ⟨c', hstep, hiteration', hcases'⟩ := hempties.step fun _ => none
  rw [hiteration] at hiteration'
  rw [hcases] at hcases'
  have hrun' : runFuzzingCampaign (mqttEngine fun _ => none) [[0xC0, 0x00]]
      [iterationAt 2, iterationAt 2] = .ok c' :=
    (runFuzzingCampaign_concat [iterationAt 2]).mpr ⟨c, hrun, hstep⟩
  refine ⟨generated_pingreq _ List.mem_cons_self, ⟨c', hrun', ?_, hfails⟩, ?_⟩
  · rw [hcases']
    exact self_mem_addTestCase _ _
  · rintro ⟨last, hlast⟩
    obtain ⟨before, hbefore, hlaststep⟩ := (runFuzzingCampaign_concat
      [iterationAt 2, iterationAt 2]).mp hlast
    obtain rfl : c' = before := Except.ok.inj (hrun'.symm.trans hbefore)
    obtain ⟨baseCase, mutatedCase, _, hbase, hmutate, -, -⟩ :=
      Campaign.step_eq_ok_iff.mp hlaststep
    have hnil : c'.baseCase? = some [] := by
      rw [Campaign.baseCase?, hiteration', hcases']
      rfl
    obtain rfl : [] = baseCase := Option.some.inj (hnil.symm.trans hbase)
    obtain ⟨s', hmutated⟩ := mutateTestCase_mqtt.mp hmutate
    exact hfails ⟨_, hmutated⟩

end ProtocolFuzzer.Fuzzer
