/-
# The crash detector

`CrashDetector` keeps the first report of every crashing input. It stores the crashes in
the order of their arrival, the digests of their inputs, and statistics per protocol, all
updated by the same call; the summary and the report it saves at the end of a campaign
count the stored crashes again. The identifier and the clock reading of a report come
with the call, and the layout of the saved files is left out.
-/

import Mathlib.Data.Finset.Insert
import ProtocolFuzzer.Math.Tally
import ProtocolFuzzer.Platform.DefaultHasher
import ProtocolFuzzer.Platform.Text
import ProtocolFuzzer.Protocols.Common

namespace ProtocolFuzzer.Fuzzer

open Math Platform

/-- `std::time::Duration`, in nanoseconds. -/
abbrev Duration := ℕ

def Duration.fromSecs (seconds : ℕ) : Duration := seconds * 1000000000

def Duration.fromMillis (milliseconds : ℕ) : Duration := milliseconds * 1000000

inductive CrashType
  | ConnectionRefused
  | ConnectionTimeout
  | ExecutionTimeout
  | NetworkError
  | ProtocolViolation
  | MalformedResponse
  | ServerCrash
  | Unknown
  deriving DecidableEq, Repr

inductive CrashSeverity
  /-- Minor protocol violations, expected errors. -/
  | Low
  /-- Timeouts, connection issues. -/
  | Medium
  /-- Server crashes, malformed responses. -/
  | High
  /-- Security vulnerabilities, buffer overflows. -/
  | Critical
  deriving DecidableEq, Repr

/-- The position in the declaration, by which severities are compared. -/
def CrashSeverity.rank : CrashSeverity → ℕ
  | .Low => 0
  | .Medium => 1
  | .High => 2
  | .Critical => 3

instance : LE CrashSeverity := ⟨fun s s' => s.rank ≤ s'.rank⟩

instance : DecidableLE CrashSeverity := fun s s' => inferInstanceAs (Decidable (s.rank ≤ s'.rank))

structure CrashInfo where
  id : String
  timestamp : ℕ
  protocol : ProtocolType
  inputData : List UInt8
  inputHash : String
  errorMessage : Option String
  executionTime : Duration
  crashType : CrashType
  severity : CrashSeverity
  deriving DecidableEq

structure ProtocolCrashStats where
  totalCrashes : ℕ := 0
  uniqueCrashes : ℕ := 0
  crashTypes : Tally CrashType := ∅
  severityCounts : Tally CrashSeverity := ∅

structure CrashDetector where
  crashes : List CrashInfo := []
  crashHashes : Finset String := ∅
  protocolStats : Finmap fun _ : ProtocolType => ProtocolCrashStats := ∅
  lastCrashCount : ℕ := 0

/-- The arguments of `record_crash`, with the identifier and the time it would take. -/
structure Report where
  inputData : List UInt8
  errorMessage : Option String
  executionTime : Duration
  protocol : ProtocolType
  id : String
  timestamp : ℕ

def calculateHash (data : List UInt8) : String :=
  formatPadded 16 16 (DefaultHasher.hashBytes {} data).finish.toNat

def classifyCrash (errorMessage : Option String) (executionTime : Duration) : CrashType :=
  match errorMessage with
  | some error =>
    let errorLower := toLowercase error
    if contains errorLower "connection refused" ∨ contains errorLower "connection reset" then
      .ConnectionRefused
    else if contains errorLower "connection timeout" ∨
        contains errorLower "connection timed out" then
      .ConnectionTimeout
    else if contains errorLower "network" ∨ contains errorLower "socket" then .NetworkError
    else if contains errorLower "protocol" ∨ contains errorLower "invalid" then
      .ProtocolViolation
    else if contains errorLower "malformed" ∨ contains errorLower "parse" then
      .MalformedResponse
    else .Unknown
  | none => if executionTime > Duration.fromSecs 5 then .ExecutionTimeout else .ServerCrash

def determineSeverity (crashType : CrashType) (errorMessage : Option String)
    (inputData : List UInt8) : CrashSeverity :=
  match crashType with
  | .ServerCrash => if inputData.length > 10000 then .Critical else .High
  | .MalformedResponse => .High
  | .ProtocolViolation =>
    match errorMessage with
    | some error =>
      if contains (toLowercase error) "security" ∨ contains (toLowercase error) "overflow" ∨
          contains (toLowercase error) "memory" then .Critical
      else .Medium
    | none => .Medium
  | .ConnectionTimeout | .ExecutionTimeout | .NetworkError => .Medium
  | .ConnectionRefused => .Low
  | .Unknown => if inputData.length > 50000 then .High else .Medium

/-- The crash a report describes. -/
def Report.crash (report : Report) : CrashInfo :=
  let crashType := classifyCrash report.errorMessage report.executionTime
  { id := report.id
    timestamp := report.timestamp
    protocol := report.protocol
    inputData := report.inputData
    inputHash := calculateHash report.inputData
    errorMessage := report.errorMessage
    executionTime := report.executionTime
    crashType
    severity := determineSeverity crashType report.errorMessage report.inputData }

/-- The statistics after one more crash, with the size of the set of digests. -/
def ProtocolCrashStats.update (stats : ProtocolCrashStats) (crash : CrashInfo)
    (hashCount : ℕ) : ProtocolCrashStats where
  totalCrashes := stats.totalCrashes + 1
  uniqueCrashes := hashCount
  crashTypes := stats.crashTypes.bump crash.crashType
  severityCounts := stats.severityCounts.bump crash.severity

/-- What the summary of the crashes says. -/
structure CrashSummary where
  totalCrashes : ℕ
  uniqueCrashes : ℕ
  protocolsTested : ℕ
  severityBreakdown : Tally CrashSeverity
  crashTypeBreakdown : Tally CrashType
  protocolBreakdown : Tally ProtocolType
  highSeverityCrashes : ℕ

/-- What the detailed report says, section by section. -/
structure DetailedReport where
  totalCrashes : ℕ
  uniqueCrashes : ℕ
  severityBreakdown : Tally CrashSeverity
  crashTypeBreakdown : Tally CrashType
  highSeverityCrashes : List CrashInfo
  protocolStatistics : Finmap fun _ : ProtocolType => ProtocolCrashStats

namespace CrashDetector

def recordCrash (d : CrashDetector) (report : Report) : CrashDetector :=
  if calculateHash report.inputData ∈ d.crashHashes then d
  else
    let crash := report.crash
    let crashHashes := insert crash.inputHash d.crashHashes
    let stats := (d.protocolStats.lookup report.protocol).getD {}
    { d with
      crashes := d.crashes ++ [crash]
      crashHashes
      protocolStats :=
        d.protocolStats.insert report.protocol (stats.update crash crashHashes.card) }

def hasNewCrashes (d : CrashDetector) : Bool := d.crashes.length > d.lastCrashCount

def crashCount (d : CrashDetector) : ℕ × CrashDetector :=
  (d.crashes.length, { d with lastCrashCount := d.crashes.length })

def getHighSeverityCrashes (d : CrashDetector) : List CrashInfo :=
  d.crashes.filter fun crash => CrashSeverity.High ≤ crash.severity

/-- Count the stored crashes by one of their aspects. -/
def breakdown {κ : Type} [DecidableEq κ] (aspect : CrashInfo → κ) (crashes : List CrashInfo) :
    Tally κ :=
  crashes.foldl (fun counts crash => counts.bump (aspect crash)) ∅

def generateCrashSummary (d : CrashDetector) : CrashSummary where
  totalCrashes := d.crashes.length
  uniqueCrashes := d.crashHashes.card
  protocolsTested := (breakdown CrashInfo.protocol d.crashes).size
  severityBreakdown := breakdown CrashInfo.severity d.crashes
  crashTypeBreakdown := breakdown CrashInfo.crashType d.crashes
  protocolBreakdown := breakdown CrashInfo.protocol d.crashes
  highSeverityCrashes := d.getHighSeverityCrashes.length

def generateDetailedReport (d : CrashDetector) : DetailedReport where
  totalCrashes := d.crashes.length
  uniqueCrashes := d.crashHashes.card
  severityBreakdown := breakdown CrashInfo.severity d.crashes
  crashTypeBreakdown := breakdown CrashInfo.crashType d.crashes
  highSeverityCrashes := d.getHighSeverityCrashes
  protocolStatistics := d.protocolStats

end CrashDetector

/-- A call on a detector. -/
inductive Call
  | recordCrash (report : Report)
  | crashCount

def CrashDetector.step (d : CrashDetector) : Call → CrashDetector
  | .recordCrash report => d.recordCrash report
  | .crashCount => d.crashCount.2

/-- The detector after a sequence of calls on a new one. -/
def runCalls (calls : List Call) : CrashDetector := calls.foldl CrashDetector.step {}

/-- The crashes reported by a sequence of calls, with repetitions. -/
def reported (calls : List Call) : List CrashInfo :=
  calls.filterMap fun call =>
    match call with
    | .recordCrash report => some report.crash
    | .crashCount => none

end ProtocolFuzzer.Fuzzer
