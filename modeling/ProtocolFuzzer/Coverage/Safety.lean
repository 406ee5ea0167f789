/-
# When recording an execution returns

Every extractor guards its reads with the length it needs, with one exception: the
search for repeated bytes doubles the width of its window without asking whether the
input is that long. So recording returns on every input but the ones of four to seven
bytes on which the search is not over before it reaches the wider windows. The only
other limit is the 32-bit counter of the entropy computation.
-/

import ProtocolFuzzer.Coverage.Composite

namespace ProtocolFuzzer.Coverage

open Math Platform

/-- A recurring window contains shorter recurring windows. -/
theorem Recurs.shorten {data : List UInt8} {width narrow i : ℕ} (h : Recurs data width i)
    (hle : narrow ≤ width) : Recurs data narrow i := by
  have hwindow : ∀ k, window data narrow k = (window data width k).take narrow := by
    intro k
    rw [window, window, List.take_drop, List.take_take, Nat.min_eq_left (by omega)]
  obtain ⟨j, hlow, hhigh, heq⟩ := h
  exact ⟨j, by omega, by omega, by rw [hwindow j, hwindow i, heq]⟩

/-- Where no two bytes recur, a wider search finds nothing, and returns if the window
fits twice. -/
theorem anyWindowRecurs_of_none {data : List UInt8} (none : ¬ ∃ i, Recurs data 2 i) {width : ℕ}
    (wide : 2 ≤ width) :
    anyWindowRecurs data width =
      if width * 2 ≤ data.length then .ok false else .error .arithmeticOverflow := by
  split_ifs with fits
  · obtain ⟨found, hrun, hiff⟩ := anyWindowRecurs_spec fits
    have hfound : found = false := by
      rw [Bool.eq_false_iff, ne_eq, hiff]
      rintro ⟨i, hrecurs⟩
      exact none ⟨i, hrecurs.shorten wide⟩
    rw [hrun, hfound]
  · exact anyWindowRecurs_error (Nat.not_le.mp fits)

/-- The search as a function of whether two bytes recur. -/
theorem hasRepeatedBytes_eq {data : List UInt8} (long : 4 ≤ data.length) :
    (∃ i, Recurs data 2 i) ∧ hasRepeatedBytes data = .ok true ∨
      (¬ ∃ i, Recurs data 2 i) ∧ hasRepeatedBytes data =
        if 8 ≤ data.length then .ok false else .error .arithmeticOverflow := by
  obtain ⟨found, hrun, hiff⟩ := @anyWindowRecurs_spec data 2 long
  rw [hasRepeatedBytes, if_neg (Nat.not_lt.mpr long), show inclusive 2 4 = [2, 3, 4] by decide]
  simp only [List.anyM_cons, List.anyM_nil, hrun, ok_bind]
  by_cases recurs : ∃ i, Recurs data 2 i
  · rw [hiff.mpr recurs]
    exact .inl ⟨recurs, rfl⟩
  · have hfound : found = false := by rwa [Bool.eq_false_iff, ne_eq, hiff]
    refine .inr ⟨recurs, ?_⟩
    rw [hfound, anyWindowRecurs_of_none recurs (by decide),
      anyWindowRecurs_of_none recurs (by decide)]
    by_cases third : 3 * 2 ≤ data.length
    · by_cases fourth : 4 * 2 ≤ data.length
      · simp only [if_pos third, if_pos fourth, ok_bind, Bool.false_eq_true, ↓reduceIte]
        rfl
      · simp only [if_pos third, if_neg fourth, ok_bind, error_bind, Bool.false_eq_true,
          ↓reduceIte]
    · have widest : ¬ 8 ≤ data.length := by omega
      simp only [if_neg third, if_neg widest, error_bind, Bool.false_eq_true, ↓reduceIte]

/-- The search returns exactly when the input is too short to be searched, long enough for
the widest window, or settled by the narrowest one. -/
theorem hasRepeatedBytes_returns_iff (data : List UInt8) :
    NoPanic (hasRepeatedBytes data) ↔
      data.length < 4 ∨ 8 ≤ data.length ∨ ∃ i, Recurs data 2 i := by
  by_cases short : data.length < 4
  · exact ⟨fun _ => .inl short, fun _ => ⟨false, by rw [hasRepeatedBytes, if_pos short]⟩⟩
  · rcases hasRepeatedBytes_eq (Nat.not_lt.mp short) with ⟨recurs, hrun⟩ | ⟨none, hrun⟩
    · exact ⟨fun _ => .inr (.inr recurs), fun _ => ⟨true, hrun⟩⟩
    · rw [hrun]
      split_ifs with long
      · exact ⟨fun _ => .inr (.inl long), fun _ => ⟨false, rfl⟩⟩
      · simp [short, long, none]

/-- The counting loop returns exactly when no counter reaches its limit. -/
theorem countBytes_returns_iff {bytes : List UInt8} {counts : UInt8 → ℕ}
    (start : ∀ byte, counts byte < 2 ^ 32) :
    NoPanic (countBytes bytes counts) ↔
      ∀ byte, counts byte + bytes.count byte < 2 ^ 32 := by
  induction bytes generalizing counts with
  | nil => exact ⟨fun _ => by simpa using start, fun _ => ⟨counts, rfl⟩⟩
  | cons head bytes ih =>
      rw [countBytes, addU32]
      by_cases room : counts head + 1 < 2 ^ 32
      · have hnext : ∀ byte, Function.update counts head (counts head + 1) byte < 2 ^ 32 := by
          intro byte
          rw [Function.update_apply]
          split_ifs
          · exact room
          · exact start byte
        rw [if_pos room, ok_bind, ih hnext]
        apply forall_congr'
        intro byte
        rw [Function.update_apply, List.count_cons]
        by_cases same : byte = head
        · subst same
          rw [if_pos rfl, if_pos (beq_self_eq_true byte)]
          omega
        · rw [if_neg same, if_neg (by simpa using Ne.symm same)]
          omega
      · rw [if_neg room, error_bind]
        constructor
        · rintro ⟨total, hrun⟩
          cases hrun
        · intro h
          have hhead := h head
          rw [List.count_cons_self] at hhead
          omega

/-- The entropy counter stays in its type. -/
def FewOfEachByte (input : List UInt8) : Prop := ∀ byte, input.count byte < 2 ^ 32

theorem fewOfEachByte_of_length {packet : List UInt8} (h : packet.length < 2 ^ 32) :
    FewOfEachByte packet := fun _ => List.count_le_length.trans_lt h

theorem calculateEntropy_returns_iff (data : List UInt8) :
    NoPanic (calculateEntropy data) ↔ FewOfEachByte data := by
  rw [calculateEntropy]
  by_cases empty : data.isEmpty
  · obtain rfl := List.isEmpty_iff.mp empty
    exact ⟨fun _ byte => by simp, fun _ => ⟨_, if_pos rfl⟩⟩
  · rw [if_neg empty]
    apply (noPanic_bind_iff fun counts => noPanic_ok _).trans
    rw [countBytes_returns_iff (fun _ => by decide)]
    simp only [Nat.zero_add, FewOfEachByte]

theorem headerEdges_returns (input : List UInt8) : NoPanic (headerEdges input) := by
  refine NoPanic.bind (NoPanic.readWhen fun long => ?_) fun firstByte =>
    NoPanic.bind (NoPanic.readWhen fun long => ?_) fun header16 =>
      NoPanic.bind (NoPanic.readWhen fun long => ?_) fun header32 => noPanic_ok _
  · exact (noPanic_index long).bind fun _ => noPanic_ok _
  · exact (noPanic_index (by omega)).bind fun _ => (noPanic_index long).bind fun _ => noPanic_ok _
  · exact (noPanic_index (by omega)).bind fun _ => (noPanic_index (by omega)).bind fun _ =>
      (noPanic_index (by omega)).bind fun _ => (noPanic_index long).bind fun _ => noPanic_ok _

theorem repeatedPatternEdges_returns (input : List UInt8) :
    NoPanic (repeatedPatternEdges input) := by
  apply NoPanic.readWhen
  intro long
  rw [sub_of_le (by omega), ok_bind]
  refine (noPanic_mapM_iff.mpr fun i hi => ?_).bind fun edges => noPanic_ok _
  rw [mem_inclusive] at hi
  obtain ⟨found, hrun, -⟩ := @windowRecurs_spec input 4 i (by omega)
  rw [repeatedPatternEdge, hrun, ok_bind]
  apply NoPanic.readWhen
  intro _
  rw [slice_of_le (Nat.le_add_right i 4) (by omega), ok_bind]
  exact noPanic_ok _

theorem extractInputEdges_returns_iff (input : List UInt8) :
    NoPanic (extractInputEdges input) ↔ FewOfEachByte input := by
  rw [extractInputEdges]
  by_cases empty : input.isEmpty
  · obtain rfl := List.isEmpty_iff.mp empty
    exact ⟨fun _ byte => by simp, fun _ => ⟨_, if_pos rfl⟩⟩
  · rw [if_neg empty, ← calculateEntropy_returns_iff]
    obtain ⟨header, hheader⟩ := headerEdges_returns input
    obtain ⟨repeated, hrepeated⟩ := repeatedPatternEdges_returns input
    simp only [hheader, ok_bind, hrepeated]
    exact noPanic_bind_iff fun entropy => noPanic_ok _

theorem extractResponseEdges_returns (response : List UInt8) :
    NoPanic (extractResponseEdges response) := by
  rw [extractResponseEdges]
  split_ifs with empty
  · exact noPanic_ok _
  · refine NoPanic.bind (NoPanic.readWhen fun long => ?_) fun firstByte =>
      NoPanic.bind (NoPanic.readWhen fun long => ?_) fun header => noPanic_ok _
    · exact (noPanic_index long).bind fun _ => noPanic_ok _
    · exact (noPanic_index (by omega)).bind fun _ => (noPanic_index long).bind fun _ => noPanic_ok _

theorem extractEdges_returns_iff (input : List UInt8) (result : ExecutionResult) :
    NoPanic (extractEdges input result) ↔ FewOfEachByte input := by
  rw [← extractInputEdges_returns_iff]
  refine noPanic_bind_iff fun inputEdges => NoPanic.bind ?_ fun responseEdges => noPanic_ok _
  cases result.responseData with
  | none => exact noPanic_ok _
  | some response => exact extractResponseEdges_returns response

theorem genericInputFeatures_returns_iff (input : List UInt8) :
    NoPanic (GenericProtocolFeatureExtractor.extractInputFeatures input) ↔
      input.length < 4 ∨ 8 ≤ input.length ∨ ∃ i, Recurs input 2 i := by
  rw [← hasRepeatedBytes_returns_iff, GenericProtocolFeatureExtractor.extractInputFeatures]
  by_cases empty : input.isEmpty
  · obtain rfl := List.isEmpty_iff.mp empty
    exact ⟨fun _ => noPanic_ok false, fun _ => noPanic_ok _⟩
  · rw [if_neg empty]
    have hfirst : NoPanic (readWhen (input.length ≥ 1) do
        pure ["first_byte_" ++ formatPadded 16 2 (← index input 0).toNat]) :=
      NoPanic.readWhen fun long => (noPanic_index long).bind fun _ => noPanic_ok _
    have hsecond : NoPanic (readWhen (input.length ≥ 2) do
        pure ["first_two_bytes_" ++
          formatPadded 16 4 (fromBE16 (← index input 0) (← index input 1)).toNat]) :=
      NoPanic.readWhen fun long => (noPanic_index (by omega)).bind fun _ =>
        (noPanic_index long).bind fun _ => noPanic_ok _
    obtain ⟨firstByte, hrunFirst⟩ := hfirst
    obtain ⟨firstTwoBytes, hrunSecond⟩ := hsecond
    rw [hrunFirst, ok_bind, hrunSecond, ok_bind]
    exact noPanic_bind_iff fun repeated => noPanic_ok _

/-- Only the first byte of a nonempty input is read. -/
theorem noPanic_first {input : List UInt8} (h : ¬ input.isEmpty) : NoPanic (index input 0) :=
  noPanic_index (List.length_pos_of_ne_nil fun hnil => h (by rw [hnil]; rfl))

theorem genericExecutionFeatures_returns (result : ExecutionResult) :
    NoPanic (GenericProtocolFeatureExtractor.extractExecutionFeatures result) := by
  refine NoPanic.bind ?_ fun response => noPanic_ok _
  cases result.responseData with
  | none => exact noPanic_ok _
  | some response =>
      exact (NoPanic.readWhen fun nonempty => (noPanic_first nonempty).bind fun _ =>
        noPanic_ok _).bind fun _ => noPanic_ok _

theorem dnsInputFeatures_returns (input : List UInt8) :
    NoPanic (DNSFeatureExtractor.extractInputFeatures input) := by
  rw [DNSFeatureExtractor.extractInputFeatures]
  split_ifs with short
  · exact noPanic_ok _
  · rw [index_of_lt (by omega), ok_bind, index_of_lt (by omega), ok_bind, index_of_lt (by omega),
      ok_bind, index_of_lt (by omega), ok_bind, index_of_lt (by omega), ok_bind,
      index_of_lt (by omega), ok_bind]
    exact noPanic_ok _

theorem dnsExecutionFeatures_returns (result : ExecutionResult) :
    NoPanic (DNSFeatureExtractor.extractExecutionFeatures result) := by
  rw [DNSFeatureExtractor.extractExecutionFeatures]
  cases result.responseData with
  | none => exact noPanic_ok _
  | some response =>
      exact NoPanic.readWhen fun long => (noPanic_index (by omega)).bind fun _ =>
        (noPanic_index (by omega)).bind fun _ => noPanic_ok _

theorem mqttInputFeatures_returns (input : List UInt8) :
    NoPanic (MQTTFeatureExtractor.extractInputFeatures input) := by
  rw [MQTTFeatureExtractor.extractInputFeatures]
  split_ifs with empty
  · exact noPanic_ok _
  · refine (noPanic_first empty).bind fun _ => (noPanic_first empty).bind fun _ =>
      NoPanic.bind (NoPanic.readWhen fun long => ?_) fun _ => noPanic_ok _
    rw [slice_of_le (by omega) le_rfl, ok_bind]
    exact noPanic_ok _

theorem mqttExecutionFeatures_returns (result : ExecutionResult) :
    NoPanic (MQTTFeatureExtractor.extractExecutionFeatures result) := by
  rw [MQTTFeatureExtractor.extractExecutionFeatures]
  cases result.responseData with
  | none => exact noPanic_ok _
  | some response =>
      exact NoPanic.readWhen fun nonempty => (noPanic_first nonempty).bind fun _ => noPanic_ok _

theorem scanRemainingLength_returns (packet : List UInt8) (pos multiplier remaining : ℕ) :
    NoPanic (MQTT.scanRemainingLength packet pos multiplier remaining) := by
  induction h : packet.length - pos using Nat.strongRecOn
    generalizing pos multiplier remaining with
  | ind measure ih =>
      by_cases more : pos < packet.length
      · rw [MQTT.scanRemainingLength, dif_pos more, index_of_lt more, ok_bind]
        dsimp only
        split_ifs
        · exact noPanic_ok _
        · exact noPanic_ok _
        · exact ih _ (by omega) _ _ _ rfl
      · rw [MQTT.scanRemainingLength, dif_neg more]
        exact noPanic_ok _

theorem mqttTypeFeatures_returns (packet : List UInt8) (packetType flags : UInt8) :
    NoPanic (MQTT.typeFeatures packet packetType flags) := by
  unfold MQTT.typeFeatures
  split
  · exact NoPanic.readWhen fun _ => NoPanic.readWhen fun long =>
      (noPanic_index (by omega)).bind fun _ => (noPanic_index (by omega)).bind fun _ =>
        noPanic_ok _
  · exact noPanic_ok _
  · exact noPanic_ok _

theorem protocolFeatures_returns (parse : DNS.Parser) (protocol : ProtocolType)
    (packet : List UInt8) : NoPanic (protocolFeatures parse protocol packet) := by
  cases protocol with
  | DNS =>
      rw [protocolFeatures, DNS.extractFeatures]
      split_ifs with short
      · exact noPanic_ok _
      · rw [index_of_lt (by omega), ok_bind, index_of_lt (by omega), ok_bind,
          index_of_lt (by omega), ok_bind, index_of_lt (by omega), ok_bind,
          index_of_lt (by omega), ok_bind, index_of_lt (by omega), ok_bind,
          index_of_lt (by omega), ok_bind, index_of_lt (by omega), ok_bind]
        exact noPanic_ok _
  | MQTT =>
      rw [protocolFeatures, MQTT.extractFeatures]
      split_ifs with empty
      · exact noPanic_ok _
      · exact (noPanic_first empty).bind fun _ => (noPanic_first empty).bind fun _ =>
          NoPanic.bind (NoPanic.readWhen fun _ =>
            (scanRemainingLength_returns packet 1 1 0).bind fun _ => noPanic_ok _) fun _ =>
              (mqttTypeFeatures_returns packet _ _).bind fun _ => noPanic_ok _

/-- The inputs on which recording an execution returns. -/
def Recordable (input : List UInt8) : Prop :=
  FewOfEachByte input ∧ (input.length < 4 ∨ 8 ≤ input.length ∨ ∃ i, Recurs input 2 i)

theorem recordable_of_short {input : List UInt8} (h : input.length < 4) : Recordable input :=
  ⟨fun _ => List.count_le_length.trans_lt (h.trans (by decide)), .inl h⟩

theorem extractAllFeatures_returns_iff (parse : DNS.Parser) (protocol : ProtocolType)
    (input : List UInt8) (result : ExecutionResult) :
    NoPanic (extractAllFeatures parse protocol input result) ↔
      input.length < 4 ∨ 8 ≤ input.length ∨ ∃ i, Recurs input 2 i := by
  rw [← genericInputFeatures_returns_iff, extractAllFeatures]
  refine (noPanic_bind_iff fun extracted => (protocolFeatures_returns parse protocol input).bind
    fun _ => noPanic_ok _).trans ?_
  have hgeneric : NoPanic (extractorFeatures input result genericProtocolFeatureExtractor) ↔
      NoPanic (GenericProtocolFeatureExtractor.extractInputFeatures input) :=
    noPanic_bind_iff fun _ => (genericExecutionFeatures_returns result).bind fun _ => noPanic_ok _
  have hdns : NoPanic (extractorFeatures input result dnsFeatureExtractor) :=
    (dnsInputFeatures_returns input).bind fun _ =>
      (dnsExecutionFeatures_returns result).bind fun _ => noPanic_ok _
  have hmqtt : NoPanic (extractorFeatures input result mqttFeatureExtractor) :=
    (mqttInputFeatures_returns input).bind fun _ =>
      (mqttExecutionFeatures_returns result).bind fun _ => noPanic_ok _
  rw [noPanic_mapM_iff, ← hgeneric]
  cases protocol with
  | DNS => simp [createFeatureExtractors, hdns]
  | MQTT => simp [createFeatureExtractors, hmqtt]

theorem recordExecution_returns_iff (parse : DNS.Parser) (c : CompositeCoverageCollector)
    (input : List UInt8) (result : ExecutionResult) :
    NoPanic (c.recordExecution parse input result) ↔ Recordable input := by
  have hedge : NoPanic (c.edgeCollector.recordExecution input result) ↔ FewOfEachByte input :=
    (noPanic_bind_iff fun _ => noPanic_ok _).trans (extractEdges_returns_iff input result)
  have hfeature : NoPanic (c.featureCollector.recordExecution parse input result) ↔
      input.length < 4 ∨ 8 ≤ input.length ∨ ∃ i, Recurs input 2 i :=
    (noPanic_bind_iff fun _ => noPanic_ok _).trans
      (extractAllFeatures_returns_iff parse _ input result)
  rw [Recordable, ← hedge, ← hfeature, CompositeCoverageCollector.recordExecution]
  constructor
  · rintro ⟨c', hrun⟩
    obtain ⟨edgeCollector, hfirst, hrest⟩ := bind_eq_ok.mp hrun
    obtain ⟨featureCollector, hsecond, -⟩ := bind_eq_ok.mp hrest
    exact ⟨⟨edgeCollector, hfirst⟩, ⟨featureCollector, hsecond⟩⟩
  · rintro ⟨hfirst, hsecond⟩
    exact hfirst.bind fun _ => hsecond.bind fun _ => noPanic_ok _

/-- A call that returns in every state: a recording of a recordable input, or a reset. -/
def Event.Recordable (event : Event) : Prop :=
  ∀ input result, event = .record input result → Coverage.Recordable input

theorem step_returns_iff (parse : DNS.Parser) (c : CompositeCoverageCollector) (event : Event) :
    NoPanic (c.step parse event) ↔ event.Recordable := by
  cases event with
  | record input result =>
      apply (recordExecution_returns_iff parse c input result).trans
      constructor
      · rintro hrecordable _ _ ⟨⟩
        exact hrecordable
      · exact fun h => h input result rfl
  | reset => exact ⟨fun _ _ _ hreset => (by cases hreset), fun _ => noPanic_ok _⟩

/-- A run of recordings and resets returns exactly when every recorded input is
recordable, whatever was recorded before it. -/
theorem runEvents_returns_iff (parse : DNS.Parser) (protocol : ProtocolType)
    (events : List Event) :
    (∃ c, runEvents parse protocol events = .ok c) ↔
      ∀ input result, Event.record input result ∈ events → Recordable input := by
  apply (noPanic_foldlM_iff (step_returns_iff parse) events _).trans
  constructor
  · exact fun h input result hmem => h _ hmem input result rfl
  · rintro h event hmem input result rfl
    exact h input result hmem

/-- A PINGREQ packet with two bytes inserted at its end. -/
def paddedPing : List UInt8 := [0xC0, 0x00, 0x41, 0x42]

theorem not_recordable_paddedPing : ¬ Recordable paddedPing := by
  rintro ⟨-, short | long | ⟨i, j, hlow, hhigh, heq⟩⟩
  · exact absurd short (by decide)
  · exact absurd long (by decide)
  · have hlength : paddedPing.length = 4 := rfl
    obtain ⟨rfl, rfl⟩ : i = 0 ∧ j = 2 := by omega
    exact absurd heq (by decide)

/-- Recording it panics in a new collector of either protocol. -/
theorem runEvents_panics :
    let event := Event.record paddedPing {
      success := true, responseData := none, executionTimeMs := 0, errorMessage := none }
    (¬ ∃ c, runEvents (fun _ => none) .DNS [event] = .ok c) ∧
      ¬ ∃ c, runEvents (fun _ => none) .MQTT [event] = .ok c := by
  have hstep : ∀ protocol, ¬ NoPanic (runEvents (fun _ => none) protocol [.record paddedPing {
      success := true, responseData := none, executionTimeMs := 0, errorMessage := none }]) := by
    rintro protocol ⟨c, hrun⟩
    obtain ⟨c', hrecord, -⟩ := bind_eq_ok.mp hrun
    exact not_recordable_paddedPing ((recordExecution_returns_iff _ _ _ _).mp ⟨c', hrecord⟩)
  exact ⟨hstep .DNS, hstep .MQTT⟩

end ProtocolFuzzer.Coverage
