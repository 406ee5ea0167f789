/-
# The network executor

`NetworkExecutor` runs one input after another against a target. It looks at the answer of
the target to tell a crash, reports crashes to the detector, and counts the features of the
inputs in a map of 8-bit counters that guides the fuzzer. An answer that no server of the
protocol gives is a crash without a message, so the detector takes it for a crash of the
server, or for a timeout, and never for the malformed response it is. The counters do not
depend on the target or on the order of the inputs.
-/

import Mathlib.Data.Nat.Bitwise
import ProtocolFuzzer.Coverage.Safety
import ProtocolFuzzer.Fuzzer.NewCrashes
import ProtocolFuzzer.Fuzzer.TargetOutcomes
import ProtocolFuzzer.Math.HitMap

namespace ProtocolFuzzer.Fuzzer

open Math Platform Coverage

/-- `libafl::executors::ExitKind`, as far as the executor uses it. -/
inductive ExitKind
  | Ok
  | Crash
  | Timeout
  deriving DecidableEq, Repr

structure NetworkExecutionResult where
  exitKind : ExitKind
  responseData : Option (List UInt8)
  executionTime : Duration
  connectionSuccessful : Bool
  errorMessage : Option String

/-- What the network does with an input that the executor sends over TCP. A response is what
one read returned. -/
inductive TcpTest
  | connectError (error : String)
  | connectTimeout
  | exchangeError (error : String)
  | exchangeTimeout
  | response (data : List UInt8)

/-- What the network does with an input that the executor sends over UDP. -/
inductive UdpTest
  | bindError (error : String)
  | exchangeError (error : String)
  | exchangeTimeout
  | response (data : List UInt8)

/-- An input to run, with what happens to it over either transport. The identifier and the
clock reading are for a report. -/
structure NetworkTest where
  input : List UInt8
  tcp : TcpTest
  udp : UdpTest
  executionTime : Duration
  id : String
  timestamp : ℕ

def executeTcpTest (test : TcpTest) (executionTime : Duration) : NetworkExecutionResult :=
  match test with
  | .connectError error =>
    { exitKind := .Ok, responseData := none, executionTime, connectionSuccessful := false
      errorMessage := some ("Connection failed: " ++ error) }
  | .connectTimeout =>
    { exitKind := .Timeout, responseData := none, executionTime, connectionSuccessful := false
      errorMessage := some "Connection timeout" }
  | .response data =>
    { exitKind := .Ok, responseData := some data, executionTime, connectionSuccessful := true
      errorMessage := none }
  | .exchangeError error =>
    { exitKind := .Crash, responseData := none, executionTime, connectionSuccessful := true
      errorMessage := some ("Execution error: " ++ error) }
  | .exchangeTimeout =>
    { exitKind := .Timeout, responseData := none, executionTime, connectionSuccessful := true
      errorMessage := some "Execution timeout" }

def executeUdpTest (test : UdpTest) (executionTime : Duration) : NetworkExecutionResult :=
  match test with
  | .bindError error =>
    { exitKind := .Crash, responseData := none, executionTime, connectionSuccessful := false
      errorMessage := some ("Socket creation failed: " ++ error) }
  | .response data =>
    { exitKind := .Ok, responseData := some data, executionTime, connectionSuccessful := true
      errorMessage := none }
  | .exchangeError error =>
    -- many errors are expected over UDP
    { exitKind := .Ok, responseData := none, executionTime, connectionSuccessful := true
      errorMessage := some ("UDP error: " ++ error) }
  | .exchangeTimeout =>
    { exitKind := .Timeout, responseData := none, executionTime, connectionSuccessful := true
      errorMessage := some "UDP timeout" }

def analyzeDnsResponse (result : NetworkExecutionResult) : Checked ExitKind :=
  match result.responseData with
  | some response =>
    if response.length ≥ 12 then do
      let flags := fromBE16 (← index response 2) (← index response 3)
      -- the QR bit is set in a response
      if flags &&& 0x8000 ≠ 0 then pure .Ok else pure .Crash
    else
      pure .Crash
  | none => pure result.exitKind

/-- CONNACK, PUBACK, PUBREC, PUBREL, PUBCOMP, SUBACK, UNSUBACK and PINGRESP. -/
def mqttResponseTypes : List UInt8 := [2, 4, 5, 6, 7, 9, 11, 13]

/-- A failure before the connection is not necessarily a crash. -/
def analyzeExitKind (result : NetworkExecutionResult) : ExitKind :=
  match result.exitKind with
  | .Crash => if result.connectionSuccessful then .Crash else .Ok
  | other => other

def analyzeMqttResponse (result : NetworkExecutionResult) : Checked ExitKind :=
  match result.responseData with
  | some response =>
    if response.isEmpty then pure (analyzeExitKind result)
    else do
      let packetType := ((← index response 0) &&& 0xF0) >>> 4
      if packetType ∈ mqttResponseTypes then pure .Ok else pure .Crash
  | none => pure (analyzeExitKind result)

def analyzeResponse (protocolType : ProtocolType) (result : NetworkExecutionResult) :
    Checked ExitKind :=
  match protocolType with
  | .DNS => analyzeDnsResponse result
  | .MQTT => analyzeMqttResponse result

/-- The executor with its detector and, if there is one, its map of counters. -/
structure NetworkExecutor where
  protocolType : ProtocolType
  crashDetector : CrashDetector := {}
  coverage : Option (List UInt8) := none

/-- What the detector is told of a test. -/
def NetworkTest.report (protocolType : ProtocolType) (test : NetworkTest)
    (result : NetworkExecutionResult) : Report where
  inputData := test.input
  errorMessage := result.errorMessage
  executionTime := result.executionTime
  protocol := protocolType
  id := test.id
  timestamp := test.timestamp

/-- Send the input over the transport of the protocol. -/
def NetworkTest.execute (protocolType : ProtocolType) (test : NetworkTest) :
    NetworkExecutionResult :=
  if protocolType.isTcp then executeTcpTest test.tcp test.executionTime
  else executeUdpTest test.udp test.executionTime

namespace NetworkExecutor

def recordCrash (executor : NetworkExecutor) (test : NetworkTest)
    (result : NetworkExecutionResult) : NetworkExecutor :=
  { executor with
    crashDetector := executor.crashDetector.recordCrash (test.report executor.protocolType result) }

def updateCoverage (parse : DNS.Parser) (executor : NetworkExecutor) (inputData : List UInt8) :
    Checked NetworkExecutor := do
  let extracted ← protocolFeatures parse executor.protocolType inputData
  let features := if extracted.isEmpty then [inputData.length] else extracted
  pure { executor with
    coverage := executor.coverage.map fun counters =>
      features.foldl (fun counters feature => hit counters (feature % 65536)) counters }

def runTarget (parse : DNS.Parser) (executor : NetworkExecutor) (test : NetworkTest) :
    Checked (ExitKind × NetworkExecutor) := do
  let result := test.execute executor.protocolType
  let finalExitKind ← analyzeResponse executor.protocolType result
  let executor := if finalExitKind = .Crash then executor.recordCrash test result else executor
  let executor ← executor.updateCoverage parse test.input
  pure (finalExitKind, executor)

/-- One test after another, with the exit kinds in their order. -/
def runTargets (parse : DNS.Parser) (executor : NetworkExecutor) (tests : List NetworkTest) :
    Checked (List ExitKind × NetworkExecutor) :=
  tests.foldlM (fun state test => do
    let (kind, executor) ← state.2.runTarget parse test
    pure (state.1 ++ [kind], executor)) ([], executor)

end NetworkExecutor

/-! ## Which tests are crashes -/

/-- The answer has a DNS header, and its QR bit is set. -/
def answersQuery (response : List UInt8) : Bool :=
  12 ≤ response.length && response[2]?.any fun flags : UInt8 => 0x80 ≤ flags

/-- The answer is empty, or starts as a packet that servers send. -/
def answersClient (response : List UInt8) : Bool :=
  response.head?.all fun first : UInt8 => first >>> 4 ∈ mqttResponseTypes

def UdpTest.crashes : UdpTest → Bool
  | .bindError _ => true
  | .response data => !answersQuery data
  | .exchangeError _ | .exchangeTimeout => false

def TcpTest.crashes : TcpTest → Bool
  | .exchangeError _ => true
  | .response data => !answersClient data
  | .connectError _ | .connectTimeout | .exchangeTimeout => false

def NetworkTest.crashes : ProtocolType → NetworkTest → Bool
  | .DNS, test => test.udp.crashes
  | .MQTT, test => test.tcp.crashes

/-- The target answered, and not as a server of the protocol does. -/
def NetworkTest.Malformed : ProtocolType → NetworkTest → Prop
  | .DNS, test => ∃ data, test.udp = .response data ∧ answersQuery data = false
  | .MQTT, test => ∃ data, test.tcp = .response data ∧ answersClient data = false

/-- The highest bit of a 16-bit field is the one of its first byte. -/
theorem highestBit_iff (first second : UInt8) :
    fromBE16 first second &&& 0x8000 ≠ 0 ↔ 0x80 ≤ first := by
  have hfirst := first.toNat_lt
  have hsecond := second.toNat_lt
  have hbit : (fromBE16 first second &&& 0x8000).toNat =
      ((fromBE16 first second).toNat.testBit 15).toNat * 2 ^ 15 := by
    rw [UInt16.toNat_and]
    exact Nat.and_two_pow _ 15
  have hhigh : (first.toNat * 256 + second.toNat) / 2 ^ 15 % 2 = 1 ↔ 128 ≤ first.toNat := by
    omega
  rw [ne_eq, ← UInt16.toNat_inj, hbit, toNat_fromBE16, Nat.testBit_eq_decide_div_mod_eq,
    UInt8.le_iff_toNat_le]
  simp only [hhigh]
  by_cases high : 128 ≤ first.toNat
  · simp [high]
  · simp [high]

theorem packetType_eq : ∀ first : UInt8, (first &&& 0xF0) >>> 4 = first >>> 4 :=
  forall_byte (by decide +kernel)

theorem analyzeDnsResponse_response (data : List UInt8) (executionTime : Duration) :
    analyzeDnsResponse (executeUdpTest (.response data) executionTime) =
      .ok (if answersQuery data then .Ok else .Crash) := by
  rw [analyzeDnsResponse, executeUdpTest, answersQuery]
  dsimp only
  split_ifs with long answers answers
  · rw [index_of_lt (by omega), ok_bind, index_of_lt (by omega), ok_bind]
    rw [List.getElem?_eq_getElem (by omega), Option.any_some, Bool.and_eq_true] at answers
    exact if_pos ((highestBit_iff _ _).mpr (of_decide_eq_true answers.2))
  · rw [index_of_lt (by omega), ok_bind, index_of_lt (by omega), ok_bind]
    rw [List.getElem?_eq_getElem (by omega), Option.any_some, Bool.and_eq_true] at answers
    refine if_neg fun bit => answers ⟨decide_eq_true long, decide_eq_true ?_⟩
    exact (highestBit_iff _ _).mp bit
  · rw [Bool.and_eq_true] at answers
    exact absurd (of_decide_eq_true answers.1) long
  · rfl

theorem analyzeMqttResponse_response (data : List UInt8) (executionTime : Duration) :
    analyzeMqttResponse (executeTcpTest (.response data) executionTime) =
      .ok (if answersClient data then .Ok else .Crash) := by
  cases data with
  | nil => rfl
  | cons first rest =>
      rw [analyzeMqttResponse, executeTcpTest, answersClient]
      dsimp only
      rw [if_neg (by simp), index_of_lt (by simp), ok_bind, List.head?_cons, Option.all_some]
      simp only [List.getElem_cons_zero, packetType_eq, decide_eq_true_eq]
      split_ifs <;> rfl

/-- A verdict returns, and is the one of `crashes`. -/
theorem analyzeResponse_execute (protocolType : ProtocolType) (test : NetworkTest) :
    ∃ kind, analyzeResponse protocolType (test.execute protocolType) = .ok kind ∧
      (kind = .Crash ↔ test.crashes protocolType = true) := by
  cases protocolType with
  | DNS =>
      rw [NetworkTest.execute, if_neg (by decide), NetworkTest.crashes, analyzeResponse]
      cases test.udp with
      | response data =>
          refine ⟨_, analyzeDnsResponse_response data _, ?_⟩
          rw [UdpTest.crashes]
          split_ifs with answers <;> simp [answers]
      | bindError error => exact ⟨.Crash, rfl, iff_of_true rfl rfl⟩
      | exchangeError error => exact ⟨.Ok, rfl, by simp [UdpTest.crashes]⟩
      | exchangeTimeout => exact ⟨.Timeout, rfl, iff_of_false (by decide) (by decide)⟩
  | MQTT =>
      rw [NetworkTest.execute, if_pos (by decide), NetworkTest.crashes, analyzeResponse]
      cases test.tcp with
      | response data =>
          refine ⟨_, analyzeMqttResponse_response data _, ?_⟩
          rw [TcpTest.crashes]
          split_ifs with answers <;> simp [answers]
      | connectError error => exact ⟨.Ok, rfl, by simp [TcpTest.crashes]⟩
      | connectTimeout => exact ⟨.Timeout, rfl, iff_of_false (by decide) (by decide)⟩
      | exchangeError error => exact ⟨.Crash, rfl, iff_of_true rfl rfl⟩
      | exchangeTimeout => exact ⟨.Timeout, rfl, iff_of_false (by decide) (by decide)⟩

/-- The positions of the map that an input hits. -/
def hitsOf (parse : DNS.Parser) (protocolType : ProtocolType) (input : List UInt8) : List ℕ :=
  match protocolFeatures parse protocolType input with
  | .ok features => features.map (· % 65536)
  | .error _ => []

/-- The protocol fuzzers find a feature in every input, so the executor never falls back on
its length. -/
theorem protocolFeatures_ne_nil (parse : DNS.Parser) (protocolType : ProtocolType)
    (input : List UInt8) :
    ∃ features, protocolFeatures parse protocolType input = .ok features ∧ features ≠ [] := by
  obtain ⟨features, hfeatures⟩ := protocolFeatures_returns parse protocolType input
  refine ⟨features, hfeatures, ?_⟩
  cases protocolType with
  | DNS =>
      rw [protocolFeatures, DNS.extractFeatures] at hfeatures
      split_ifs at hfeatures with short
      · cases hfeatures
        exact List.cons_ne_nil _ _
      · rw [index_of_lt (by omega), ok_bind, index_of_lt (by omega), ok_bind,
          index_of_lt (by omega), ok_bind, index_of_lt (by omega), ok_bind,
          index_of_lt (by omega), ok_bind, index_of_lt (by omega), ok_bind,
          index_of_lt (by omega), ok_bind, index_of_lt (by omega), ok_bind] at hfeatures
        cases hfeatures
        exact List.cons_ne_nil _ _
  | MQTT =>
      rw [protocolFeatures, MQTT.extractFeatures] at hfeatures
      split_ifs at hfeatures with empty
      · cases hfeatures
        exact List.cons_ne_nil _ _
      · obtain ⟨_, -, hfeatures⟩ := bind_eq_ok.mp hfeatures
        obtain ⟨_, -, hfeatures⟩ := bind_eq_ok.mp hfeatures
        obtain ⟨_, -, hfeatures⟩ := bind_eq_ok.mp hfeatures
        obtain ⟨_, -, hfeatures⟩ := bind_eq_ok.mp hfeatures
        cases hfeatures
        exact List.cons_ne_nil _ _

namespace NetworkExecutor

theorem updateCoverage_eq (parse : DNS.Parser) (executor : NetworkExecutor)
    (input : List UInt8) :
    executor.updateCoverage parse input = .ok { executor with
      coverage := executor.coverage.map fun counters =>
        hitAll counters (hitsOf parse executor.protocolType input) } := by
  obtain ⟨features, hfeatures, hne⟩ :=
    protocolFeatures_ne_nil parse executor.protocolType input
  rw [updateCoverage, hfeatures, ok_bind, hitsOf, hfeatures,
    if_neg (by rwa [List.isEmpty_iff])]
  simp only [hitAll, List.foldl_map]
  rfl

/-- What one test does to the executor. -/
def after (parse : DNS.Parser) (executor : NetworkExecutor) (test : NetworkTest) :
    NetworkExecutor where
  protocolType := executor.protocolType
  crashDetector :=
    if test.crashes executor.protocolType then
      executor.crashDetector.recordCrash
        (test.report executor.protocolType (test.execute executor.protocolType))
    else executor.crashDetector
  coverage := executor.coverage.map fun counters =>
    hitAll counters (hitsOf parse executor.protocolType test.input)

theorem runTarget_eq (parse : DNS.Parser) (executor : NetworkExecutor) (test : NetworkTest) :
    ∃ kind, executor.runTarget parse test = .ok (kind, executor.after parse test) ∧
      (kind = .Crash ↔ test.crashes executor.protocolType = true) := by
  obtain ⟨kind, hverdict, hcrash⟩ := analyzeResponse_execute executor.protocolType test
  refine ⟨kind, ?_, hcrash⟩
  rw [runTarget, hverdict, ok_bind]
  by_cases crash : kind = .Crash
  · simp only [if_pos crash, recordCrash, updateCoverage_eq, ok_bind, after,
      if_pos (hcrash.mp crash)]
    rfl
  · simp only [if_neg crash, updateCoverage_eq, ok_bind, after, if_neg (mt hcrash.mpr crash)]
    rfl

/-- A run returns; every test does what it does to the executor, and a test is a crash by
itself, whatever was run before. -/
theorem runTargets_eq (parse : DNS.Parser) (executor : NetworkExecutor)
    (tests : List NetworkTest) :
    ∃ kinds, runTargets parse executor tests = .ok (kinds, tests.foldl (after parse) executor) ∧
      (tests.foldl (after parse) executor).protocolType = executor.protocolType ∧
      kinds.map (· = .Crash) = tests.map (NetworkTest.crashes executor.protocolType · = true) := by
  induction tests using List.reverseRecOn with
  | nil => exact ⟨[], rfl, rfl, rfl⟩
  | append_singleton tests test ih =>
      obtain ⟨kinds, hrun, hprotocol, hkinds⟩ := ih
      obtain ⟨kind, htest, hcrash⟩ := runTarget_eq parse (tests.foldl (after parse) executor) test
      rw [hprotocol] at hcrash
      refine ⟨kinds ++ [kind], ?_, ?_, ?_⟩
      · rw [runTargets, List.foldlM_append, ← runTargets, hrun, ok_bind, List.foldlM_cons, htest,
          ok_bind, List.foldl_append]
        rfl
      · rw [List.foldl_append]
        exact hprotocol
      · rw [List.map_append, List.map_append, hkinds, List.map_singleton, List.map_singleton,
          propext hcrash]

/-- The reports of the crashes among the tests. -/
def failures (protocolType : ProtocolType) (tests : List NetworkTest) : List Report :=
  (tests.filter (NetworkTest.crashes protocolType)).map fun test =>
    test.report protocolType (test.execute protocolType)

theorem foldl_after (parse : DNS.Parser) (executor : NetworkExecutor)
    (tests : List NetworkTest) :
    (tests.foldl (after parse) executor).crashDetector =
        (failures executor.protocolType tests).foldl CrashDetector.recordCrash
          executor.crashDetector ∧
      (tests.foldl (after parse) executor).coverage = executor.coverage.map fun counters =>
        hitAll counters
          (tests.flatMap fun test => hitsOf parse executor.protocolType test.input) := by
  induction tests generalizing executor with
  | nil => exact ⟨rfl, by rw [List.flatMap_nil]; exact Option.map_id'.symm⟩
  | cons test tests ih =>
      obtain ⟨hdetector, hcoverage⟩ := ih (executor.after parse test)
      rw [List.foldl_cons, hdetector, hcoverage, after]
      dsimp only
      constructor
      · rw [failures, failures, List.filter_cons]
        split_ifs <;> rfl
      · rw [Option.map_map, List.flatMap_cons]
        congr 1
        funext counters
        exact (hitAll_append counters _ _).symm

theorem foldl_recordCrash (reports : List Report) :
    reports.foldl CrashDetector.recordCrash {} = runCalls (reports.map Call.recordCrash) := by
  rw [runCalls, List.foldl_map]
  rfl

theorem reported_map_recordCrash (reports : List Report) :
    reported (reports.map Call.recordCrash) = reports.map Report.crash := by
  rw [reported, List.filterMap_map, ← List.filterMap_eq_map]
  rfl

/-- A crash without a message is one of the server, or of a test that took too long. -/
theorem crash_of_malformed {protocolType : ProtocolType} {test : NetworkTest}
    (malformed : test.Malformed protocolType) :
    let crash := (test.report protocolType (test.execute protocolType)).crash
    crash.errorMessage = none ∧
      (crash.crashType = if test.executionTime > Duration.fromSecs 5 then .ExecutionTimeout
        else .ServerCrash) ∧
      (.High ≤ crash.severity ↔ test.executionTime ≤ Duration.fromSecs 5) := by
  have hexecute : (test.execute protocolType).errorMessage = none ∧
      (test.execute protocolType).executionTime = test.executionTime := by
    cases protocolType with
    | DNS =>
        obtain ⟨data, hresponse, -⟩ := malformed
        rw [NetworkTest.execute, if_neg (by decide), hresponse]
        exact ⟨rfl, rfl⟩
    | MQTT =>
        obtain ⟨data, hresponse, -⟩ := malformed
        rw [NetworkTest.execute, if_pos (by decide), hresponse]
        exact ⟨rfl, rfl⟩
  dsimp only [Report.crash, NetworkTest.report]
  rw [hexecute.1, hexecute.2, classifyCrash]
  refine ⟨rfl, rfl, ?_⟩
  split_ifs with late
  · rw [determineSeverity]
    exact iff_of_false (by decide) (Nat.not_le.mpr late)
  · rw [determineSeverity]
    refine iff_of_true ?_ (Nat.not_lt.mp late)
    split_ifs <;> decide

/-- Whoever fails to open a socket has a problem with the network. -/
theorem severity_of_socketError (error : String) (executionTime : Duration)
    (inputData : List UInt8) :
    determineSeverity (classifyCrash (some ("Socket creation failed: " ++ error)) executionTime)
      (some ("Socket creation failed: " ++ error)) inputData ≤ .Medium := by
  have hsocket : contains (toLowercase ("Socket creation failed: " ++ error)) "socket" = true := by
    rw [toLowercase_append]
    exact contains_append_of_contains (by decide +kernel) _
  rw [classifyCrash, if_pos (Or.inr hsocket)]
  split_ifs
  · exact show CrashSeverity.Low ≤ .Medium by decide
  · exact show CrashSeverity.Medium ≤ .Medium by decide
  · exact show CrashSeverity.Medium ≤ .Medium by decide

theorem crash_of_message {protocolType : ProtocolType} {test : NetworkTest} {message : String}
    (h : (test.execute protocolType).errorMessage = some message) :
    let crash := (test.report protocolType (test.execute protocolType)).crash
    crash.errorMessage = some message ∧ crash.crashType ≠ .ServerCrash ∧
      crash.crashType ≠ .ExecutionTimeout := by
  dsimp only [Report.crash, NetworkTest.report]
  rw [h]
  exact ⟨rfl, classifyCrash_of_message message _⟩

/-- A test without an answer is a crash over TCP when the exchange broke off, and over UDP when
there was no socket. -/
theorem message_of_failure {protocolType : ProtocolType} {test : NetworkTest}
    (crashes : test.crashes protocolType = true) (answered : ¬ test.Malformed protocolType) :
    ∃ error, (test.execute protocolType).errorMessage = some (match protocolType with
      | .DNS => "Socket creation failed: " ++ error
      | .MQTT => "Execution error: " ++ error) := by
  cases protocolType with
  | DNS =>
      rw [NetworkTest.execute, if_neg (by decide)]
      rw [NetworkTest.crashes] at crashes
      rw [NetworkTest.Malformed] at answered
      cases hudp : test.udp with
      | bindError error => exact ⟨error, rfl⟩
      | response data =>
          rw [hudp, UdpTest.crashes, Bool.not_eq_true'] at crashes
          exact absurd ⟨data, hudp, crashes⟩ answered
      | exchangeError error | exchangeTimeout =>
          rw [hudp] at crashes
          cases crashes
  | MQTT =>
      rw [NetworkTest.execute, if_pos (by decide)]
      rw [NetworkTest.crashes] at crashes
      rw [NetworkTest.Malformed] at answered
      cases htcp : test.tcp with
      | exchangeError error => exact ⟨error, rfl⟩
      | response data =>
          rw [htcp, TcpTest.crashes, Bool.not_eq_true'] at crashes
          exact absurd ⟨data, htcp, crashes⟩ answered
      | connectError error | connectTimeout | exchangeTimeout =>
          rw [htcp] at crashes
          cases crashes

theorem crash_of_failure {protocolType : ProtocolType} {test : NetworkTest}
    (crashes : test.crashes protocolType = true) (answered : ¬ test.Malformed protocolType) :
    let crash := (test.report protocolType (test.execute protocolType)).crash
    ∃ message, crash.errorMessage = some message ∧ crash.crashType ≠ .ServerCrash ∧
      crash.crashType ≠ .ExecutionTimeout ∧ (protocolType = .DNS → crash.severity ≤ .Medium) := by
  obtain ⟨error, hmessage⟩ := message_of_failure crashes answered
  obtain ⟨hcrash, hserver, htimeout⟩ := crash_of_message hmessage
  refine ⟨_, hcrash, hserver, htimeout, ?_⟩
  rintro rfl
  dsimp only [Report.crash, NetworkTest.report]
  rw [hmessage]
  exact severity_of_socketError error _ _

/-- Over any run of a new executor, a test ends as a crash exactly when it is one by itself,
and the detector keeps the first crash of every digest. A target that answered as no server
does leaves a crash without a message, which is one of the server and serious, or a timeout
after five seconds. A crash with a message is neither, and over DNS it is not serious: only
a socket could not be opened. -/
theorem runTargets_crashes (parse : DNS.Parser) (protocolType : ProtocolType)
    (coverage : Option (List UInt8)) (tests : List NetworkTest) :
    ∃ kinds executor, runTargets parse { protocolType, coverage } tests = .ok (kinds, executor) ∧
      kinds.map (· = .Crash) = tests.map (NetworkTest.crashes protocolType · = true) ∧
      executor.crashDetector.crashes = firstBy CrashInfo.inputHash
        ((failures protocolType tests).map Report.crash) ∧
      ∀ crash ∈ executor.crashDetector.crashes, ∃ test ∈ tests, test.input = crash.inputData ∧
        (test.Malformed protocolType → crash.errorMessage = none ∧
          (crash.crashType = if test.executionTime > Duration.fromSecs 5 then .ExecutionTimeout
            else .ServerCrash) ∧
          (.High ≤ crash.severity ↔ test.executionTime ≤ Duration.fromSecs 5)) ∧
        (¬ test.Malformed protocolType → ∃ message, crash.errorMessage = some message ∧
          crash.crashType ≠ .ServerCrash ∧ crash.crashType ≠ .ExecutionTimeout ∧
          (protocolType = .DNS → crash.severity ≤ .Medium)) := by
  obtain ⟨kinds, hrun, -, hkinds⟩ := runTargets_eq parse { protocolType, coverage } tests
  have hcrashes : (tests.foldl (after parse) { protocolType, coverage }).crashDetector.crashes =
      firstBy CrashInfo.inputHash ((failures protocolType tests).map Report.crash) := by
    rw [(foldl_after parse _ tests).1, foldl_recordCrash, (accounted_runCalls _).crashes,
      reported_map_recordCrash]
  refine ⟨kinds, _, hrun, hkinds, hcrashes, fun crash hmem => ?_⟩
  rw [hcrashes] at hmem
  obtain ⟨report, hreport, rfl⟩ := List.mem_map.mp (mem_of_mem_firstBy _ hmem)
  obtain ⟨test, htest, rfl⟩ := List.mem_map.mp hreport
  obtain ⟨htests, hfails⟩ := List.mem_filter.mp htest
  exact ⟨test, htests, rfl, crash_of_malformed, crash_of_failure hfails⟩

/-! ## What the map counts -/

theorem flatMap_hitsOf {parse : DNS.Parser} {protocolType : ProtocolType}
    {inputs : List (List UInt8)} {features : List (List ℕ)}
    (h : inputs.mapM (protocolFeatures parse protocolType) = .ok features) :
    inputs.flatMap (hitsOf parse protocolType) = features.flatten.map (· % 65536) := by
  induction inputs generalizing features with
  | nil =>
      cases h
      rfl
  | cons input inputs ih =>
      rw [List.mapM_cons] at h
      obtain ⟨found, hfirst, hrest⟩ := bind_eq_ok.mp h
      obtain ⟨others, hothers, hfeatures⟩ := bind_eq_ok.mp hrest
      cases hfeatures
      rw [List.flatMap_cons, ih hothers, List.flatten_cons, List.map_append, hitsOf, hfirst]

/-- After any run with a map of counters, every counter is the clamp of its start and of the
number of features of all inputs that belong to it; features beyond the map are lost. Neither
the target nor the order of the inputs has any influence. -/
theorem runTargets_coverage (parse : DNS.Parser) (protocolType : ProtocolType)
    (crashDetector : CrashDetector) (counters : List UInt8) (tests : List NetworkTest) :
    let start : NetworkExecutor := { protocolType, crashDetector, coverage := some counters }
    ∃ features kinds executor counters',
      (tests.map NetworkTest.input).mapM (protocolFeatures parse protocolType) = .ok features ∧
      (∀ found ∈ features, found ≠ []) ∧
      runTargets parse start tests = .ok (kinds, executor) ∧
      executor.coverage = some counters' ∧ counters'.length = counters.length ∧
      (∀ k n, counters[k]? = some n → counters'[k]? =
        some (clamp (n.toNat + features.flatten.countP fun feature => feature % 65536 = k))) ∧
      ∀ tests', (tests'.map NetworkTest.input).Perm (tests.map NetworkTest.input) →
        ∃ kinds' executor', runTargets parse start tests' = .ok (kinds', executor') ∧
          executor'.coverage = some counters' := by
  intro start
  obtain ⟨features, hfeatures⟩ : NoPanic
      ((tests.map NetworkTest.input).mapM (protocolFeatures parse protocolType)) :=
    noPanic_mapM_iff.mpr fun input _ => protocolFeatures_returns parse _ input
  have hhits : (tests.flatMap fun test => hitsOf parse protocolType test.input) =
      features.flatten.map (· % 65536) := by
    rw [← flatMap_hitsOf hfeatures, List.flatMap_map]
  have hcoverage : ∀ tests' : List NetworkTest, (tests'.foldl (after parse) start).coverage =
      some (hitAll counters (tests'.flatMap fun test => hitsOf parse protocolType test.input)) :=
    fun tests' => (foldl_after parse start tests').2
  obtain ⟨kinds, hrun, -, -⟩ := runTargets_eq parse start tests
  refine ⟨features, kinds, _, _, hfeatures, ?_, hrun, hcoverage tests, length_hitAll _ _, ?_, ?_⟩
  · intro found hmem
    obtain ⟨input, -, hinput⟩ := exists_of_mem_mapM hfeatures hmem
    obtain ⟨found', hfound', hne⟩ := protocolFeatures_ne_nil parse protocolType input
    rwa [Except.ok.inj (hinput.symm.trans hfound')]
  · intro k n hk
    rw [hhits, getElem?_hitAll, hk, Option.map_some, List.count_eq_countP, List.countP_map]
    rfl
  · intro tests' hperm
    obtain ⟨kinds', hrun', -, -⟩ := runTargets_eq parse start tests'
    have hflat := hperm.flatMap_right (hitsOf parse protocolType)
    rw [List.flatMap_map, List.flatMap_map] at hflat
    exact ⟨kinds', _, hrun', (hcoverage tests').trans (congrArg some (hitAll_perm hflat counters))⟩

end NetworkExecutor

end ProtocolFuzzer.Fuzzer
