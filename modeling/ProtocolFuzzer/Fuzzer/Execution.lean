/-
# Executions over TCP and the severity of their failures

`execute_tcp_test_case` turns what the network does with a test case into a result, and
puts the text of an operating-system error behind a short prefix. The crash detector reads
the kind of failure back from that text. The prefixes contain nothing it looks for, so the
words of the operating system alone decide: a failure in mid-exchange is rated low exactly
when they speak of a refused or a reset connection. And the first failure of an input
decides for all later ones, since the detector records no input twice.
-/

import ProtocolFuzzer.Fuzzer.Campaign
import ProtocolFuzzer.Fuzzer.CrashAccounting

namespace ProtocolFuzzer.Fuzzer

open Math Platform Coverage

/-- What the network does with a test case sent over TCP. An error comes with its text. -/
inductive TcpExchange
  | connectTimeout
  | connectError (error : String)
  | writeError (error : String)
  | readTimeout
  | readError (error : String)
  | response (data : List UInt8)

def executeTcpTestCase (exchange : TcpExchange) (executionTimeMs : ℕ) : ExecutionResult :=
  match exchange with
  | .response data =>
    { success := true, responseData := some data, executionTimeMs, errorMessage := none }
  | .readError error =>
    { success := false, responseData := none, executionTimeMs
      errorMessage := some ("Read error: " ++ error) }
  | .readTimeout =>
    { success := true, responseData := none, executionTimeMs
      errorMessage := some "Read timeout" }
  | .writeError error =>
    { success := false, responseData := none, executionTimeMs
      errorMessage := some ("Write error: " ++ error) }
  | .connectError error =>
    { success := false, responseData := none, executionTimeMs
      errorMessage := some ("Connection error: " ++ error) }
  | .connectTimeout =>
    { success := false, responseData := none, executionTimeMs
      errorMessage := some "Connection timeout" }

/-- The error of an exchange that failed after the connection was established. -/
def TcpExchange.midExchangeError : TcpExchange → Option String
  | .writeError error | .readError error => some error
  | .connectTimeout | .connectError _ | .readTimeout | .response _ => none

/-- A message that makes a crash a refused connection. -/
def SpeaksOfRefusal (message : String) : Prop :=
  contains (toLowercase message) "connection refused" = true ∨
    contains (toLowercase message) "connection reset" = true

theorem classifyCrash_eq_refused_iff (message : String) (executionTime : Duration) :
    classifyCrash (some message) executionTime = .ConnectionRefused ↔
      SpeaksOfRefusal message := by
  rw [classifyCrash, SpeaksOfRefusal]
  split_ifs <;> simp_all

/-- Refused connections are the only crashes of low severity. -/
theorem determineSeverity_le_low_iff (crashType : CrashType) (errorMessage : Option String)
    (inputData : List UInt8) :
    determineSeverity crashType errorMessage inputData ≤ .Low ↔
      crashType = .ConnectionRefused := by
  have hlow : ∀ severity : CrashSeverity, severity ≤ .Low ↔ severity = .Low := by
    intro severity
    cases severity <;> decide
  rw [hlow]
  cases crashType with
  | ServerCrash =>
      rw [determineSeverity]
      split_ifs <;> simp
  | ProtocolViolation =>
      cases errorMessage with
      | none => simp [determineSeverity]
      | some error =>
          rw [determineSeverity]
          split_ifs <;> simp
  | Unknown =>
      rw [determineSeverity]
      split_ifs <;> simp
  | _ => simp [determineSeverity]

/-- The prefix of a failure in mid-exchange does not contain the letter both words of the
detector start with. -/
theorem speaksOfRefusal_append {before : String} (h : 'c' ∉ (toLowercase before).toList)
    (error : String) : SpeaksOfRefusal (before ++ error) ↔ SpeaksOfRefusal error := by
  rw [SpeaksOfRefusal, SpeaksOfRefusal, toLowercase_append]
  have hrefused := contains_append "onnection refused".toList h (toLowercase error)
  have hreset := contains_append "onnection reset".toList h (toLowercase error)
  exact iff_of_eq (congrArg₂ (· = true ∨ · = true) hrefused hreset)

theorem midExchange_refused_iff {exchange : TcpExchange} {error : String}
    (h : exchange.midExchangeError = some error) (ms : ℕ) (executionTime : Duration) :
    (executeTcpTestCase exchange ms).success = false ∧
      (classifyCrash (executeTcpTestCase exchange ms).errorMessage executionTime =
        .ConnectionRefused ↔ SpeaksOfRefusal error) := by
  cases exchange with
  | writeError text =>
      cases h
      exact ⟨rfl, (classifyCrash_eq_refused_iff _ _).trans
        (speaksOfRefusal_append (by decide +kernel) error)⟩
  | readError text =>
      cases h
      exact ⟨rfl, (classifyCrash_eq_refused_iff _ _).trans
        (speaksOfRefusal_append (by decide +kernel) error)⟩
  | connectTimeout | connectError text | readTimeout | response data => cases h

/-- A crash of this input is stored with a severity above low. -/
def StoredAboveLow (mutatedCase : List UInt8) (crashes : List CrashInfo) : Prop :=
  ∃ crash ∈ crashes, crash.inputData = mutatedCase ∧ ¬ crash.severity ≤ .Low

/-- A report adds a crash above low if its input is new and its severity is, and never
replaces one. -/
theorem storedAboveLow_recordCrash (d : CrashDetector) (report : Report) :
    StoredAboveLow report.inputData (d.recordCrash report).crashes ↔
      (calculateHash report.inputData ∉ d.crashHashes ∧ ¬ report.crash.severity ≤ .Low) ∨
        StoredAboveLow report.inputData d.crashes := by
  simp only [StoredAboveLow, CrashDetector.mem_crashes_recordCrash]
  constructor
  · rintro ⟨crash, ⟨fresh, rfl⟩ | hstored, hinput, hseverity⟩
    · exact .inl ⟨fresh, hseverity⟩
    · exact .inr ⟨crash, hstored, hinput, hseverity⟩
  · rintro (⟨fresh, hseverity⟩ | ⟨crash, hstored, hinput, hseverity⟩)
    · exact ⟨report.crash, .inl ⟨fresh, rfl⟩, rfl, hseverity⟩
    · exact ⟨crash, .inr hstored, hinput, hseverity⟩

variable {σ : Type}

/-- After a failure in mid-exchange its input is stored with a severity above low in two cases
only. Either no crash with its digest was recorded before and the error speaks of no refused
or reset connection, or the input was stored above low already. An input that a refused
connection stored as low stays low, however the target fails on it later. -/
theorem checkForCrash_midExchange_iff (c : Campaign) (protocolType : ProtocolType)
    {mutatedCase : List UInt8} {it : Iteration σ} {exchange : TcpExchange} {error : String}
    {ms : ℕ} (failed : exchange.midExchangeError = some error)
    (hresult : it.result = executeTcpTestCase exchange ms) :
    StoredAboveLow mutatedCase (c.checkForCrash protocolType mutatedCase it).2.crashes ↔
      (calculateHash mutatedCase ∉ c.crashDetector.crashHashes ∧
        ¬ (contains (toLowercase error) "connection refused" = true ∨
          contains (toLowercase error) "connection reset" = true)) ∨
      StoredAboveLow mutatedCase c.crashDetector.crashes := by
  have hrefused := midExchange_refused_iff failed ms (Duration.fromMillis it.result.executionTimeMs)
  rw [← hresult] at hrefused
  let report : Report := {
    inputData := mutatedCase, errorMessage := it.result.errorMessage
    executionTime := Duration.fromMillis it.result.executionTimeMs
    protocol := protocolType, id := it.id, timestamp := it.timestamp }
  have hcheck : (c.checkForCrash protocolType mutatedCase it).2.crashes =
      (c.crashDetector.recordCrash report).crashes := by
    rw [Campaign.checkForCrash, hrefused.1, if_neg (by simp)]
    rfl
  have hseverity : report.crash.severity ≤ .Low ↔ SpeaksOfRefusal error :=
    (determineSeverity_le_low_iff _ _ _).trans hrefused.2
  rw [hcheck, ← SpeaksOfRefusal, ← hseverity]
  exact storedAboveLow_recordCrash c.crashDetector report

/-- An exchange in which the target closed its end before everything was written. -/
def brokenPipe : TcpExchange := .writeError "Broken pipe (os error 32)"

def brokenPipeIteration : Iteration Unstructured where
  draws := { data := [] }
  result := executeTcpTestCase brokenPipe 12

/-- A broken pipe on a new input is stored above low. -/
theorem checkForCrash_midExchange_iff_brokenPipe :
    StoredAboveLow [0xC0, 0x00] ((Campaign.start .MQTT [[0xC0, 0x00]]).checkForCrash .MQTT
      [0xC0, 0x00] brokenPipeIteration).2.crashes := by
  have failed : brokenPipe.midExchangeError = some "Broken pipe (os error 32)" := rfl
  have hresult : brokenPipeIteration.result = executeTcpTestCase brokenPipe 12 := rfl
  have fresh : calculateHash [0xC0, 0x00] ∉
      (Campaign.start .MQTT [[0xC0, 0x00]]).crashDetector.crashHashes := Finset.notMem_empty _
  exact (checkForCrash_midExchange_iff _ .MQTT failed hresult).mpr
    (.inl ⟨fresh, by decide +kernel⟩)

/-- A connection the target resets while its answer is read. -/
def resetExchange : Iteration Unstructured where
  draws := { data := [] }
  result := executeTcpTestCase (.readError "Connection reset by peer (os error 104)") 12

/-- A target that resets the connection in mid-exchange is recorded with low severity. -/
theorem checkForCrash_reset_low :
    ((Campaign.start .MQTT [[0xC0, 0x00]]).checkForCrash .MQTT [0xC0, 0x00]
      resetExchange).2.crashes.map CrashInfo.severity = [.Low] := by
  decide +kernel

end ProtocolFuzzer.Fuzzer
