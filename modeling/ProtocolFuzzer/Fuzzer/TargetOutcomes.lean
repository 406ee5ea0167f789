/-
# What the targets make of a campaign

`execute_test_case` sends a case over TCP or over UDP, according to the protocol, and all a
campaign learns of the target is the outcome. Over TCP every outcome is interesting, a
timeout too, so the corpus of a campaign does not depend on the target: it is the newest
part of what was executed, and which case an iteration mutates is a matter of arithmetic.
Over UDP a target that stays silent is not interesting. And every failure comes with a
message, so the kinds of crash the detector keeps for failures without one never occur.
-/

import ProtocolFuzzer.Fuzzer.CampaignTrace
import ProtocolFuzzer.Fuzzer.Execution
import ProtocolFuzzer.Fuzzer.PatternReach
import ProtocolFuzzer.Protocols.Growth

namespace ProtocolFuzzer

/-- DNS primarily uses UDP. -/
def ProtocolType.isTcp : ProtocolType → Bool
  | .DNS => false
  | .MQTT => true

namespace Fuzzer

open Math Platform Coverage

/-- What the network does with a test case sent over UDP. -/
inductive UdpExchange
  | bindError (error : String)
  | sendError (error : String)
  | receiveTimeout
  | receiveError (error : String)
  | response (data : List UInt8)

def executeUdpTestCase (exchange : UdpExchange) (executionTimeMs : ℕ) : ExecutionResult :=
  match exchange with
  | .response data =>
    { success := true, responseData := some data, executionTimeMs, errorMessage := none }
  | .receiveError error =>
    { success := false, responseData := none, executionTimeMs
      errorMessage := some ("UDP error: " ++ error) }
  | .receiveTimeout =>
    -- a timeout is normal for UDP
    { success := true, responseData := none, executionTimeMs
      errorMessage := some "UDP timeout" }
  | .sendError error =>
    { success := false, responseData := none, executionTimeMs
      errorMessage := some ("Send error: " ++ error) }
  | .bindError error =>
    { success := false, responseData := none, executionTimeMs
      errorMessage := some ("Socket error: " ++ error) }

/-- What a target would do with a test case over either transport. -/
structure Exchange where
  tcp : TcpExchange
  udp : UdpExchange

def executeTestCase (protocolType : ProtocolType) (exchange : Exchange)
    (executionTimeMs : ℕ) : ExecutionResult :=
  if protocolType.isTcp then executeTcpTestCase exchange.tcp executionTimeMs
  else executeUdpTestCase exchange.udp executionTimeMs

/-- Over TCP there is a response or an error, and never the error that is excluded. -/
theorem isInteresting_executeTcpTestCase (exchange : TcpExchange) (ms : ℕ) :
    isInteresting (executeTcpTestCase exchange ms) = true := by
  have hprefix : ∀ before error : String, before.toList.head? ≠ some 'U' →
      before.toList ≠ [] → before ++ error ≠ "UDP timeout" := by
    intro before error hhead hne heq
    have hlists := congrArg (fun s => s.toList.head?) heq
    rw [String.toList_append, List.head?_append_of_ne_nil _ hne] at hlists
    exact hhead (hlists.trans rfl)
  cases exchange with
  | response data => rfl
  | readTimeout => simp [isInteresting, executeTcpTestCase]
  | connectTimeout => simp [isInteresting, executeTcpTestCase]
  | connectError error =>
      simpa [isInteresting, executeTcpTestCase] using
        hprefix "Connection error: " error (by decide) (by decide)
  | writeError error =>
      simpa [isInteresting, executeTcpTestCase] using
        hprefix "Write error: " error (by decide) (by decide)
  | readError error =>
      simpa [isInteresting, executeTcpTestCase] using
        hprefix "Read error: " error (by decide) (by decide)

/-- A failure comes with a message. -/
theorem executeTestCase_message {protocolType : ProtocolType} {exchange : Exchange} {ms : ℕ}
    (failed : (executeTestCase protocolType exchange ms).success = false) :
    ∃ message, (executeTestCase protocolType exchange ms).errorMessage = some message := by
  rw [executeTestCase] at failed ⊢
  split_ifs at failed ⊢
  · rcases exchange with ⟨tcp, udp⟩
    cases tcp <;> first | exact ⟨_, rfl⟩ | cases failed
  · rcases exchange with ⟨tcp, udp⟩
    cases udp <;> first | exact ⟨_, rfl⟩ | cases failed

variable {σ : Type}

/-- The outcome of an iteration is one a target can have. -/
def Iteration.FromTarget (protocolType : ProtocolType) (it : Iteration σ) : Prop :=
  ∃ exchange ms, it.result = executeTestCase protocolType exchange ms

/-- A crash with a message is none of the kinds for crashes without one. -/
theorem classifyCrash_of_message (message : String) (executionTime : Duration) :
    classifyCrash (some message) executionTime ≠ .ServerCrash ∧
      classifyCrash (some message) executionTime ≠ .ExecutionTimeout := by
  rw [classifyCrash]
  split_ifs <;> simp

/-- What makes a failure with a message serious. -/
theorem high_le_determineSeverity {message : String} {executionTime : Duration}
    {inputData : List UInt8}
    (serious : CrashSeverity.High ≤ determineSeverity
      (classifyCrash (some message) executionTime) (some message) inputData) :
    classifyCrash (some message) executionTime = .MalformedResponse ∨
      (classifyCrash (some message) executionTime = .Unknown ∧ 50000 < inputData.length) ∨
      classifyCrash (some message) executionTime = .ProtocolViolation ∧
        (contains (toLowercase message) "security" ∨ contains (toLowercase message) "overflow" ∨
          contains (toLowercase message) "memory") := by
  obtain ⟨hserver, htimeout⟩ := classifyCrash_of_message message executionTime
  generalize classifyCrash (some message) executionTime = crashType at *
  cases crashType with
  | MalformedResponse => exact .inl rfl
  | Unknown =>
      rw [determineSeverity] at serious
      split_ifs at serious with large
      · exact .inr (.inl ⟨rfl, large⟩)
      · exact absurd serious (by decide)
  | ProtocolViolation =>
      rw [determineSeverity] at serious
      split_ifs at serious with speaks
      · exact .inr (.inr ⟨rfl, speaks⟩)
      · exact absurd serious (by decide)
  | ServerCrash => exact absurd rfl hserver
  | ExecutionTimeout => exact absurd rfl htimeout
  | ConnectionRefused | ConnectionTimeout | NetworkError =>
      rw [determineSeverity] at serious
      exact absurd serious (by decide)

/-- In a campaign against any target, over either transport, every crash has a message. So
none is a crash of the server or a timeout of the execution, and a severity of high or above
takes a malformed response, an unknown error of more than fifty thousand bytes, or a violation
that speaks of security. -/
theorem runFuzzingCampaign_crash_kinds (engine : FuzzingEngine σ) (testCases : List (List UInt8))
    (iterations : List (Iteration σ))
    (htarget : ∀ it ∈ iterations, it.FromTarget engine.protocolType) (c : Campaign)
    (hrun : runFuzzingCampaign engine testCases iterations = .ok c) :
    ∀ crash ∈ c.crashDetector.crashes, ∃ message, crash.errorMessage = some message ∧
      crash.crashType ≠ .ServerCrash ∧ crash.crashType ≠ .ExecutionTimeout ∧
      (.High ≤ crash.severity → crash.crashType = .MalformedResponse ∨
        (crash.crashType = .Unknown ∧ 50000 < crash.inputData.length) ∨
        crash.crashType = .ProtocolViolation ∧
          (contains (toLowercase message) "security" ∨
            contains (toLowercase message) "overflow" ∨
            contains (toLowercase message) "memory")) := by
  obtain ⟨trace, htrace, hreplay⟩ := (runFuzzingCampaign_eq_ok_iff iterations c).mp hrun
  obtain ⟨coverageCollector, -, hc⟩ := bind_eq_ok.mp hreplay
  cases hc
  intro crash hmem
  obtain ⟨e, he, failed, rfl⟩ := exists_of_mem_detectorOf hmem
  have hiteration : e.iteration ∈ iterations :=
    (selectCases_spec htrace).1 ▸ List.mem_map_of_mem he
  obtain ⟨exchange, ms, hresult⟩ := htarget _ hiteration
  obtain ⟨message, hmessage⟩ : ∃ message, e.result.errorMessage = some message := by
    rw [Executed.result, hresult] at failed ⊢
    exact executeTestCase_message failed
  obtain ⟨hserver, htimeout⟩ := classifyCrash_of_message message
    (Duration.fromMillis e.result.executionTimeMs)
  have htype : (e.report engine.protocolType).crash.crashType = classifyCrash (some message)
      (Duration.fromMillis e.result.executionTimeMs) :=
    congrArg (classifyCrash · _) hmessage
  rw [htype]
  refine ⟨message, hmessage, hserver, htimeout, fun serious => ?_⟩
  have hseverity : (e.report engine.protocolType).crash.severity = determineSeverity
      (classifyCrash (some message) (Duration.fromMillis e.result.executionTimeMs))
      (some message) e.testCase := by
    rw [← hmessage]
    rfl
  exact high_le_determineSeverity (hseverity ▸ serious)

/-- An iteration at a clock reading, on a target that refuses connections. -/
def refusedAt (randSeed : ℕ) : Iteration Unstructured where
  draws := { data := seedData 512 randSeed }
  randSeed
  result := executeTcpTestCase (.connectError "Connection refused (os error 111)") 1

/-- The campaign that shortens a PINGREQ packet returns on such a target too. -/
theorem runFuzzingCampaign_refused : ∃ c,
    runFuzzingCampaign (mqttEngine fun _ => none) [[0xC0, 0x00]] [refusedAt 2] = .ok c := by
  obtain ⟨_, _, hshortens, -⟩ := runFuzzingCampaign_shortens
  have hguidance : [iterationAt 2].map Iteration.guidance =
      [refusedAt 2].map Iteration.guidance := by
    have hinteresting : isInteresting (refusedAt 2).result = true :=
      isInteresting_executeTcpTestCase _ _
    rw [List.map_singleton, List.map_singleton, Iteration.guidance, Iteration.guidance,
      hinteresting]
    rfl
  obtain ⟨c, hrun, -⟩ := runFuzzingCampaign_congr
    (rfl : (mqttEngine fun _ => none).protocolFuzzer = (mqttEngine fun _ => none).protocolFuzzer)
    hguidance hshortens
  exact ⟨c, hrun⟩

/-- A refused connection is recorded with its message. -/
theorem runFuzzingCampaign_crash_kinds_refused : ∃ c,
    runFuzzingCampaign (mqttEngine fun _ => none) [[0xC0, 0x00]] [refusedAt 2] = .ok c ∧
      ∀ crash ∈ c.crashDetector.crashes, ∃ message, crash.errorMessage = some message ∧
        crash.crashType ≠ .ServerCrash := by
  obtain ⟨c, hrun⟩ := runFuzzingCampaign_refused
  have htarget : ∀ it ∈ [refusedAt 2], it.FromTarget .MQTT := by
    intro it hmem
    obtain rfl := List.mem_singleton.mp hmem
    exact ⟨⟨.connectError "Connection refused (os error 111)", .receiveTimeout⟩, 1, rfl⟩
  refine ⟨c, hrun, fun crash hmem => ?_⟩
  obtain ⟨message, hmessage, htype, -⟩ := runFuzzingCampaign_crash_kinds
    (mqttEngine fun _ => none) [[0xC0, 0x00]] [refusedAt 2] htarget c hrun crash hmem
  exact ⟨message, hmessage, htype⟩

/-! ## Over TCP -/

/-- The position of the case that an iteration mutates, among the initial and the executed
cases, if every executed case joins the corpus. -/
def tcpSchedule (initial i : ℕ) : ℕ := (initial + i - 1000) + i % min (initial + i) 1000

/-- A case that is mutated again when the corpus is full comes after the initial ones. -/
theorem tcpSchedule_eq_iff {initial : ℕ} (few : initial ≤ 500) {i k : ℕ} (hk : k < initial) :
    tcpSchedule initial i = k ↔ i = k := by
  rw [tcpSchedule]
  by_cases filling : initial + i ≤ 1000
  · rw [Nat.sub_eq_zero_of_le filling, Nat.zero_add, Nat.min_eq_left filling,
      Nat.mod_eq_of_lt (by omega)]
  · rw [Nat.min_eq_right (by omega)]
    have hmod := Nat.mod_lt i (show 0 < 1000 by decide)
    by_cases first : i < 1000
    · rw [Nat.mod_eq_of_lt first]
      omega
    · omega

/-- Only cases that there were before are mutated. -/
theorem tcpSchedule_lt {initial : ℕ} (hpos : 0 < initial) (i : ℕ) :
    tcpSchedule initial i < initial + i := by
  have hmod := Nat.mod_lt i (show 0 < min (initial + i) 1000 by omega)
  rw [tcpSchedule]
  omega

theorem corpusOf_tcp {testCases : List (List UInt8)} (few : testCases.length ≤ 1000)
    {log : List (Executed σ)} (htcp : ∀ e ∈ log, e.interesting) :
    corpusOf testCases log = (testCases ++ log.map Executed.testCase).rtake 1000 := by
  rw [corpusOf, List.filter_eq_self.mpr htcp, Nat.max_eq_right few]

/-- An entry of the newest part of a list, by its position in the list. -/
theorem getElem?_rtake {α : Type} (xs : List α) (n i : ℕ) :
    (xs.rtake n)[i]? = xs[xs.length - n + i]? := by
  rw [List.rtake, List.getElem?_drop]

/-- Over TCP the corpus is the newest part of all cases there have been, and what an iteration
mutates is determined by its number, whatever the target does. From at most five hundred
initial cases, each is mutated by the iteration of its own number and by no other one. -/
theorem runFuzzingCampaign_tcp_schedule (engine : FuzzingEngine σ)
    (testCases : List (List UInt8)) (hcases : 1 ≤ testCases.length ∧ testCases.length ≤ 1000)
    (iterations : List (Iteration σ))
    (htcp : ∀ it ∈ iterations, ∃ exchange ms, it.result = executeTcpTestCase exchange ms)
    (c : Campaign) (hrun : runFuzzingCampaign engine testCases iterations = .ok c) :
    ∃ cases, executedCases engine testCases iterations = .ok cases ∧
      c.testCases = (testCases ++ cases).rtake 1000 ∧
      (∀ i it, iterations[i]? = some it → ∃ baseCase mutatedCase,
        (testCases ++ cases)[tcpSchedule testCases.length i]? = some baseCase ∧
        cases[i]? = some mutatedCase ∧
        mutateTestCase engine.protocolFuzzer baseCase it.draws it.randSeed = .ok mutatedCase) ∧
      (testCases.length ≤ 500 →
        ∀ i k, k < testCases.length → (tcpSchedule testCases.length i = k ↔ i = k)) := by
  obtain ⟨log, hlog, hreplay⟩ := (runFuzzingCampaign_eq_ok_iff iterations c).mp hrun
  obtain ⟨coverageCollector, -, hc⟩ := bind_eq_ok.mp hreplay
  cases hc
  obtain ⟨hiterations, hmutations⟩ := selectCases_spec hlog
  have hinteresting : ∀ e ∈ log, e.interesting := by
    intro e he
    obtain ⟨exchange, ms, hresult⟩ := htcp e.iteration (hiterations ▸ List.mem_map_of_mem he)
    rw [Executed.interesting, Executed.result, hresult]
    exact isInteresting_executeTcpTestCase exchange ms
  refine ⟨log.map Executed.testCase, bind_eq_ok.mpr ⟨log, hlog, rfl⟩,
    corpusOf_tcp hcases.2 hinteresting, ?_, fun few i k hk => tcpSchedule_eq_iff few hk⟩
  intro i it hi
  obtain ⟨e, he, rfl⟩ := exists_executed hiterations hi
  obtain ⟨baseCase, hbase, hmutate⟩ := hmutations i e he
  refine ⟨baseCase, e.testCase, ?_, by rw [List.getElem?_map, he, Option.map_some], hmutate⟩
  have hlt : i < log.length := (List.getElem?_eq_some_iff.mp he).1
  have hbefore : ∀ e ∈ log.take i, e.interesting :=
    fun e hmem => hinteresting e (List.mem_of_mem_take hmem)
  have hlength : (testCases ++ (log.take i).map Executed.testCase).length =
      testCases.length + i := by
    rw [List.length_append, List.length_map, List.length_take, Nat.min_eq_left hlt.le]
  rw [corpusOf_tcp hcases.2 hbefore, getElem?_rtake, List.rtake, List.length_drop,
    hlength] at hbase
  -- the cases so far are a part of all cases
  have hpart : testCases ++ (log.take i).map Executed.testCase =
      (testCases ++ log.map Executed.testCase).take (testCases.length + i) := by
    rw [List.take_length_add_append, List.map_take]
  have hcorpus : testCases.length + i - (testCases.length + i - 1000) =
      min (testCases.length + i) 1000 := by omega
  rw [hcorpus, hpart, ← tcpSchedule, List.getElem?_take_of_lt (tcpSchedule_lt hcases.1 i)] at hbase
  exact hbase

/-- The case that shortens a PINGREQ packet is a mutation of that packet, and joins it. -/
theorem runFuzzingCampaign_tcp_schedule_shortens : ∃ c cases baseCase,
    executedCases (mqttEngine fun _ => none) [[0xC0, 0x00]] [iterationAt 2] = .ok cases ∧
      c.testCases = ([[0xC0, 0x00]] ++ cases).rtake 1000 ∧
      ([[0xC0, 0x00]] ++ cases)[tcpSchedule 1 0]? = some baseCase ∧
      (runFuzzingCampaign (mqttEngine fun _ => none) [[0xC0, 0x00]] [iterationAt 2] = .ok c) := by
  obtain ⟨c, byte, hrun, -, -⟩ := runFuzzingCampaign_shortens
  have htcp : ∀ it ∈ [iterationAt 2], ∃ exchange ms,
      it.result = executeTcpTestCase exchange ms := by
    intro it hmem
    obtain rfl := List.mem_singleton.mp hmem
    exact ⟨.response [], 0, rfl⟩
  obtain ⟨cases, hexecuted, hcorpus, hmutations, -⟩ := runFuzzingCampaign_tcp_schedule
    (mqttEngine fun _ => none) [[0xC0, 0x00]] (by decide) [iterationAt 2] htcp c hrun
  obtain ⟨baseCase, -, hbase, -, -⟩ := hmutations 0 (iterationAt 2) rfl
  exact ⟨c, cases, baseCase, hexecuted, hcorpus, hbase, hrun⟩

/-! ## Over UDP -/

/-- How long the executed cases can get, where one mutation adds `growth` bytes at most. -/
theorem length_le_of_selectCases {engine : FuzzingEngine σ} {testCases : List (List UInt8)}
    {limit growth : ℕ} (hinitial : ∀ packet ∈ testCases, packet.length ≤ limit)
    (hmutate : ∀ baseCase draws randSeed result,
      mutateTestCase engine.protocolFuzzer baseCase draws randSeed = .ok result →
        result.length ≤ max baseCase.length limit + growth)
    {iterations : List (Iteration σ)} {log : List (Executed σ)}
    (hlog : selectCases engine testCases iterations = .ok log) {i : ℕ} {e : Executed σ}
    (he : log[i]? = some e) : e.testCase.length ≤ limit + (i + 1) * growth := by
  obtain ⟨-, hmutations⟩ := selectCases_spec hlog
  induction i using Nat.strong_induction_on generalizing e with
  | _ i ih =>
      obtain ⟨baseCase, hbase, hmutated⟩ := hmutations i e he
      have hlength := hmutate _ _ _ _ hmutated
      rw [Nat.succ_mul]
      rcases mem_corpusOf (List.mem_of_getElem? hbase) with hmem | ⟨j, e', he', rfl⟩
      · have hshort := hinitial baseCase hmem
        omega
      · rw [List.getElem?_take] at he'
        split_ifs at he' with hj
        have hearlier := ih j hj he'
        have hmono : (j + 1) * growth ≤ i * growth := Nat.mul_le_mul_right growth hj
        omega

section DNSCampaigns

variable [DrawSource σ]

def dnsEngine (build : DNS.Builder) (parse : DNS.Parser) : FuzzingEngine σ where
  protocolType := .DNS
  protocolFuzzer := dnsFuzzer build
  parse

/-- A DNS mutation returns, and keeps a header. -/
theorem mutateTestCase_dns (build : DNS.Builder) (baseCase : List UInt8) (draws : σ)
    (randSeed : ℕ) : ∃ result, mutateTestCase (dnsFuzzer build) baseCase draws randSeed =
      .ok result ∧ DNS.Reach baseCase result := by
  obtain ⟨result, s', hrun, -⟩ := DNS.mutatePacket_completes baseCase draws
  refine ⟨result, ?_, DNS.mutatePacket_reach baseCase draws result s' hrun⟩
  rw [mutateTestCase_of_some rfl, hrun]
  rfl

variable (build : DNS.Builder) (parse : DNS.Parser) (testCases : List (List UInt8))

theorem selectCases_dns (nonempty : testCases ≠ []) (iterations : List (Iteration σ)) :
    NoPanic (selectCases (dnsEngine build parse) testCases iterations) :=
  selectCases_returns nonempty (fun baseCase draws randSeed =>
    (mutateTestCase_dns build baseCase draws randSeed).imp fun _ h => h.1) iterations

/-- A DNS campaign never fails in selecting or mutating a case, and its cases grow by less than
eleven thousand bytes an iteration. While they are too short for the counter of their bytes, it
returns exactly when every executed case is shorter than four bytes, has eight bytes or more,
or repeats a pair of bytes. -/
theorem runFuzzingCampaign_dns_returns_iff (nonempty : testCases ≠ []) (limit : ℕ)
    (hinitial : ∀ packet ∈ testCases, packet.length ≤ limit)
    (iterations : List (Iteration σ)) :
    ∃ log, selectCases (dnsEngine build parse) testCases iterations = .ok log ∧
      (∀ i e, log[i]? = some e → e.testCase.length ≤ max limit 273 + (i + 1) * 10999) ∧
      (max limit 273 + iterations.length * 10999 < 2 ^ 32 →
        (NoPanic (runFuzzingCampaign (dnsEngine build parse) testCases iterations) ↔
          ∀ e ∈ log, e.testCase.length < 4 ∨ 8 ≤ e.testCase.length ∨
            ∃ i, Recurs e.testCase 2 i)) := by
  obtain ⟨log, hlog⟩ := selectCases_dns build parse testCases nonempty iterations
  have hgrowth : ∀ baseCase draws randSeed result,
      mutateTestCase (dnsEngine (σ := σ) build parse).protocolFuzzer baseCase draws randSeed =
        .ok result → result.length ≤ max baseCase.length (max limit 273) + 10999 := by
    intro baseCase draws randSeed result hresult
    obtain ⟨result', hresult', -, hlength⟩ := mutateTestCase_dns build baseCase draws randSeed
    obtain rfl : result = result' := Except.ok.inj (hresult.symm.trans hresult')
    omega
  have hinitial' : ∀ packet ∈ testCases, packet.length ≤ max limit 273 :=
    fun packet hmem => (hinitial packet hmem).trans (Nat.le_max_left _ _)
  have hlengths := fun i e => length_le_of_selectCases hinitial' hgrowth hlog (i := i) (e := e)
  refine ⟨log, hlog, hlengths, fun few => ?_⟩
  have hcount := length_of_selectCases hlog
  rw [runFuzzingCampaign_returns_iff]
  constructor
  · rintro ⟨log', hlog', hrecordable⟩ e he
    obtain rfl : log = log' := Except.ok.inj (hlog.symm.trans hlog')
    exact (hrecordable e he).2
  · intro hwindows
    refine ⟨log, hlog, fun e he => ⟨fewOfEachByte_of_length ?_, hwindows e he⟩⟩
    obtain ⟨i, hi, hget⟩ := List.mem_iff_getElem.mp he
    have hlength := hlengths i e (List.getElem?_eq_some_iff.mpr ⟨hi, hget⟩)
    have hmono : (i + 1) * 10999 ≤ iterations.length * 10999 :=
      Nat.mul_le_mul_right _ (by omega)
    omega

/-- A header without questions, as the only initial case. -/
theorem runFuzzingCampaign_dns_returns_iff_header : ∃ log,
    selectCases (dnsEngine (fun _ _ _ => .ok none) fun _ => none) [List.replicate 12 0]
      [iterationAt 2] = .ok log ∧
    (NoPanic (runFuzzingCampaign (dnsEngine (fun _ _ _ => .ok none) fun _ => none)
      [List.replicate 12 0] [iterationAt 2]) ↔
        ∀ e ∈ log, e.testCase.length < 4 ∨ 8 ≤ e.testCase.length ∨
          ∃ i, Recurs e.testCase 2 i) := by
  obtain ⟨log, hlog, -, hreturns⟩ := runFuzzingCampaign_dns_returns_iff
    (fun _ _ _ => .ok none) (fun _ => none) [List.replicate 12 0] (by decide) 12 (by decide)
    [iterationAt 2]
  exact ⟨log, hlog, hreturns (by decide)⟩

/-- An outcome on a target that stays silent. -/
def Iteration.Silent (it : Iteration σ) : Prop :=
  ∃ ms, it.result = executeUdpTestCase .receiveTimeout ms

omit [DrawSource σ] in
/-- A silent target leaves no trace in the corpus and in the detector. -/
theorem componentsOf_silent (protocolType : ProtocolType) {log : List (Executed σ)}
    (hsilent : ∀ e ∈ log, e.iteration.Silent) :
    corpusOf testCases log = testCases ∧ detectorOf protocolType log = {} := by
  have hboring : log.filter Executed.interesting = [] := by
    refine List.filter_eq_nil_iff.mpr fun e he => ?_
    obtain ⟨ms, hresult⟩ := hsilent e he
    rw [Executed.interesting, Executed.result, hresult]
    simp [isInteresting, executeUdpTestCase]
  have hcalls : log.flatMap (Executed.calls protocolType) = [] := by
    refine List.flatMap_eq_nil_iff.mpr fun e he => ?_
    obtain ⟨ms, hresult⟩ := hsilent e he
    rw [Executed.calls, Executed.result, hresult]
    rfl
  constructor
  · rw [corpusOf, hboring, List.map_nil, List.append_nil, List.rtake,
      Nat.sub_eq_zero_of_le (Nat.le_max_left _ _), List.drop_zero]
  · rw [detectorOf, hcalls]
    rfl

/-- On a silent target an iteration mutates the initial case of its number. -/
theorem selectCases_dns_silent (nonempty : testCases ≠ []) {iterations : List (Iteration σ)}
    (hsilent : ∀ it ∈ iterations, it.Silent) :
    ∃ log, selectCases (dnsEngine build parse) testCases iterations = .ok log ∧
      log.map Executed.iteration = iterations ∧ (∀ e ∈ log, e.iteration.Silent) ∧
      ∀ i e, log[i]? = some e → ∃ baseCase, testCases[i % testCases.length]? = some baseCase ∧
        mutateTestCase (dnsFuzzer build) baseCase e.iteration.draws e.iteration.randSeed =
          .ok e.testCase := by
  obtain ⟨log, hlog⟩ := selectCases_dns build parse testCases nonempty iterations
  obtain ⟨hiterations, hmutations⟩ := selectCases_spec hlog
  have hquiet : ∀ e ∈ log, e.iteration.Silent :=
    fun e he => hsilent _ (hiterations ▸ List.mem_map_of_mem he)
  refine ⟨log, hlog, hiterations, hquiet, fun i e hi => ?_⟩
  obtain ⟨baseCase, hbase, hmutated⟩ := hmutations i e hi
  rw [(componentsOf_silent testCases .DNS
    fun e he => hquiet e (List.mem_of_mem_take he)).1] at hbase
  exact ⟨baseCase, hbase, hmutated⟩

/-- A campaign on a silent target can record the mutations of cases of this length. -/
theorem replay_dns_silent (hlengths : ∀ packet ∈ testCases,
      9 ≤ packet.length ∧ packet.length + 10999 < 2 ^ 32) {log : List (Executed σ)}
    (hmutations : ∀ i e, log[i]? = some e → ∃ baseCase,
      testCases[i % testCases.length]? = some baseCase ∧
        mutateTestCase (dnsFuzzer build) baseCase e.iteration.draws e.iteration.randSeed =
          .ok e.testCase) : NoPanic (replay (dnsEngine build parse) testCases log) := by
  refine (replay_returns_iff (dnsEngine build parse) testCases log).mpr fun e he => ?_
  obtain ⟨i, hi⟩ := List.mem_iff_getElem?.mp he
  obtain ⟨baseCase, hbase, hmutated⟩ := hmutations i e hi
  obtain ⟨hlong, hshort⟩ := hlengths baseCase (List.mem_of_getElem? hbase)
  obtain ⟨result, hresult, hlow, hhigh⟩ := mutateTestCase_dns build baseCase
    e.iteration.draws e.iteration.randSeed
  obtain rfl : e.testCase = result := Except.ok.inj (hmutated.symm.trans hresult)
  exact ⟨fewOfEachByte_of_length (by omega), .inr (.inl (by omega))⟩

/-- A DNS campaign on a silent target returns, keeps mutating its initial cases in turn, and
records no crash. -/
theorem runFuzzingCampaign_dns_silent
    (hcases : testCases ≠ [] ∧ ∀ packet ∈ testCases,
      9 ≤ packet.length ∧ packet.length + 10999 < 2 ^ 32)
    (iterations : List (Iteration σ)) (hsilent : ∀ it ∈ iterations, it.Silent) :
    ∃ c cases, runFuzzingCampaign (dnsEngine build parse) testCases iterations = .ok c ∧
      executedCases (dnsEngine build parse) testCases iterations = .ok cases ∧
      c.testCases = testCases ∧ c.crashDetector = {} ∧
      c.totalExecutions = iterations.length ∧
      ∀ i it, iterations[i]? = some it → ∃ baseCase mutatedCase,
        testCases[i % testCases.length]? = some baseCase ∧ cases[i]? = some mutatedCase ∧
        mutateTestCase (dnsFuzzer build) baseCase it.draws it.randSeed = .ok mutatedCase := by
  obtain ⟨log, hlog, hiterations, hquiet, hmutations⟩ :=
    selectCases_dns_silent build parse testCases hcases.1 hsilent
  obtain ⟨hcorpus, hdetector⟩ := componentsOf_silent testCases .DNS hquiet
  obtain ⟨c, hreplay⟩ := replay_dns_silent build parse testCases hcases.2 hmutations
  obtain ⟨coverageCollector, -, hc⟩ := bind_eq_ok.mp hreplay
  refine ⟨c, log.map Executed.testCase, (runFuzzingCampaign_eq_ok_iff iterations c).mpr
    ⟨log, hlog, hreplay⟩, bind_eq_ok.mpr ⟨log, hlog, rfl⟩, ?_⟩
  cases hc
  refine ⟨hcorpus, hdetector, ?_, fun i it hi => ?_⟩
  · rw [← hiterations, List.length_map]
    rfl
  · obtain ⟨e, he, rfl⟩ := exists_executed hiterations hi
    obtain ⟨baseCase, hbase, hmutated⟩ := hmutations i e he
    exact ⟨baseCase, e.testCase, hbase, by rw [List.getElem?_map, he, Option.map_some], hmutated⟩

/-- An iteration at a clock reading, on a target that stays silent. -/
def timeoutAt (randSeed : ℕ) : Iteration Unstructured where
  draws := { data := seedData 512 randSeed }
  randSeed
  result := executeUdpTestCase .receiveTimeout 2000

/-- A campaign of one iteration on a silent target keeps its header without questions. -/
theorem runFuzzingCampaign_dns_silent_header : ∃ c,
    runFuzzingCampaign (dnsEngine (fun _ _ _ => .ok none) fun _ => none) [List.replicate 12 0]
      [timeoutAt 2] = .ok c ∧ c.testCases = [List.replicate 12 0] ∧ c.totalExecutions = 1 := by
  have hsilent : ∀ it ∈ [timeoutAt 2], it.Silent := by
    intro it hmem
    obtain rfl := List.mem_singleton.mp hmem
    exact ⟨2000, rfl⟩
  obtain ⟨c, cases, hrun, -, hcorpus, -, hexecutions, -⟩ := runFuzzingCampaign_dns_silent
    (fun _ _ _ => .ok none) (fun _ => none) [List.replicate 12 0] (by decide) [timeoutAt 2] hsilent
  exact ⟨c, hrun, hcorpus, hexecutions⟩

end DNSCampaigns

end Fuzzer

end ProtocolFuzzer
