/-
# The saved results

At the end of a campaign the engine writes its results into a directory: two files for every
crash, numbered from zero, and three files that count. The directory is not emptied first.
So the numbered files of a campaign are right, and so are the counts, and they agree with
each other; but the files of an earlier campaign with more crashes stay behind them.
-/

import ProtocolFuzzer.Fuzzer.TargetOutcomes
import ProtocolFuzzer.Math.Overwrites

namespace ProtocolFuzzer.Fuzzer

open Math Platform Coverage

variable {σ : Type}

/-- The configuration of an engine, as far as it is reported. -/
structure EngineConfig where
  targetHost : String
  targetPort : ℕ
  workerCount : ℕ
  coverageEnabled : Bool

/-- What the summary of a campaign says. -/
structure ResultsSummary where
  protocol : ProtocolType
  targetHost : String
  targetPort : ℕ
  totalExecutions : ℕ
  crashesFound : ℕ
  workers : ℕ
  coverageEnabled : Bool

/-- What the files of the results hold, apart from their layout. -/
inductive ResultFile
  | input (data : List UInt8)
  | metadata (crash : CrashInfo)
  | crashSummary (summary : CrashSummary)
  | crashReport (report : DetailedReport)
  | summary (summary : ResultsSummary)

/-- The results directory, by the paths in it. -/
abbrev ResultsDirectory := Finmap fun _ : String => ResultFile

/-- A file of the crash with the given number. -/
def crashFileName (idx : ℕ) (suffix : String) : String :=
  "crashes/crash_" ++ formatPadded 10 4 idx ++ suffix

def inputFilename (idx : ℕ) : String := crashFileName idx "_input.bin"

def metadataFilename (idx : ℕ) : String := crashFileName idx "_metadata.json"

/-- The files written for a crash. -/
def crashFiles (entry : CrashInfo × ℕ) : List (String × ResultFile) :=
  [(inputFilename entry.2, .input entry.1.inputData),
    (metadataFilename entry.2, .metadata entry.1)]

/-- The files that `save_crashes` writes, in their order. -/
def CrashDetector.saveCrashes (d : CrashDetector) : List (String × ResultFile) :=
  d.crashes.zipIdx.flatMap crashFiles ++
    [("crash_summary.json", .crashSummary d.generateCrashSummary),
      ("crash_report.txt", .crashReport d.generateDetailedReport)]

/-- The files that `save_results` writes, without those of the coverage. -/
def Campaign.saveResults (config : EngineConfig) (protocolType : ProtocolType) (c : Campaign) :
    List (String × ResultFile) :=
  c.crashDetector.saveCrashes ++
    [("summary.txt", .summary {
      protocol := protocolType
      targetHost := config.targetHost
      targetPort := config.targetPort
      totalExecutions := c.totalExecutions
      crashesFound := c.crashesFound
      workers := config.workerCount
      coverageEnabled := config.coverageEnabled })]

/-- A padded number can be read back. -/
theorem formatPadded_ten_injective {width i j : ℕ}
    (h : formatPadded 10 width i = formatPadded 10 width j) : i = j := by
  have hvalue : ∀ n, Nat.ofDigitChars 10 (formatPadded 10 width n).toList 0 = n := by
    intro n
    rw [formatPadded, String.toList_ofList, List.leftpad, Nat.ofDigitChars_append,
      Nat.ofDigitChars_replicate_zero, Nat.mul_zero, Nat.ofDigitChars_ten_toDigits]
  rw [← hvalue i, h, hvalue j]

theorem underscore_notMem_formatPadded (width n : ℕ) :
    '_' ∉ (formatPadded 10 width n).toList := by
  rw [formatPadded, String.toList_ofList, List.leftpad, List.mem_append, not_or]
  exact ⟨fun h => absurd (List.eq_of_mem_replicate h) (by decide), Nat.underscore_not_in_toDigits⟩

/-- The name of a file determines the number of the crash and what the file is for. -/
theorem crashFileName_inj {i j : ℕ} {suffix suffix' : String} {rest rest' : List Char}
    (hsuffix : suffix.toList = '_' :: rest) (hsuffix' : suffix'.toList = '_' :: rest')
    (hrest : '_' ∉ rest) (h : crashFileName i suffix = crashFileName j suffix') :
    i = j ∧ rest = rest' := by
  have hchars := congrArg String.toList h
  rw [crashFileName, crashFileName, String.append_assoc, String.append_assoc] at hchars
  simp only [String.toList_append, List.append_cancel_left_eq, hsuffix, hsuffix'] at hchars
  obtain ⟨hdigits, -, hsame⟩ := (List.append_cons_inj_of_notMem
    (underscore_notMem_formatPadded 4 i) hrest).mp hchars
  exact ⟨formatPadded_ten_injective (String.toList_injective hdigits), hsame⟩

theorem toList_inputSuffix : "_input.bin".toList = '_' :: "input.bin".toList := by
  decide +kernel

theorem toList_metadataSuffix : "_metadata.json".toList = '_' :: "metadata.json".toList := by
  decide +kernel

theorem inputFilename_inj {i j : ℕ} (h : inputFilename i = inputFilename j) : i = j :=
  (crashFileName_inj toList_inputSuffix toList_inputSuffix (by decide +kernel) h).1

theorem metadataFilename_inj {i j : ℕ} (h : metadataFilename i = metadataFilename j) : i = j :=
  (crashFileName_inj toList_metadataSuffix toList_metadataSuffix (by decide +kernel) h).1

theorem inputFilename_ne_metadataFilename (i j : ℕ) : inputFilename i ≠ metadataFilename j := by
  intro h
  have hsame := (crashFileName_inj toList_inputSuffix toList_metadataSuffix
    (by decide +kernel) h).2
  exact absurd hsame (by decide +kernel)

/-- The other files are outside the directory of the crashes. -/
theorem crashFileName_ne {name : String} (outside : ¬ "crashes/".toList <+: name.toList)
    (idx : ℕ) (suffix : String) : crashFileName idx suffix ≠ name := by
  rintro rfl
  refine outside ⟨"crash_".toList ++ (formatPadded 10 4 idx ++ suffix).toList, ?_⟩
  have hsplit : "crashes/crash_" = "crashes/" ++ "crash_" := by decide
  simp only [crashFileName, hsplit, String.toList_append, List.append_assoc]

/-- The names of the files for a number of crashes. -/
def crashFileNames (n : ℕ) : List String := numbered inputFilename metadataFilename n

theorem nodup_crashFileNames (n : ℕ) : (crashFileNames n).Nodup :=
  nodup_numbered (fun _ _ => inputFilename_inj) (fun _ _ => metadataFilename_inj)
    inputFilename_ne_metadataFilename

/-- The files that count, besides those of single crashes. -/
def countingFiles : List String := ["crash_summary.json", "crash_report.txt", "summary.txt"]

theorem crashFileName_notMem_countingFiles (idx : ℕ) (suffix : String) :
    crashFileName idx suffix ∉ countingFiles := by
  have houtside : ∀ name ∈ countingFiles, ¬ "crashes/".toList <+: name.toList := by
    decide +kernel
  exact fun h => crashFileName_ne (houtside _ h) idx suffix rfl

theorem map_fst_saveResults (config : EngineConfig) (protocolType : ProtocolType) (c : Campaign) :
    (c.saveResults config protocolType).map Prod.fst =
      crashFileNames c.crashDetector.crashes.length ++ countingFiles := by
  have hnumbers : (c.crashDetector.crashes.zipIdx.flatMap crashFiles).map Prod.fst =
      (c.crashDetector.crashes.zipIdx.map Prod.snd).flatMap
        fun idx => [inputFilename idx, metadataFilename idx] := by
    rw [List.map_flatMap, List.flatMap_map]
    rfl
  rw [Campaign.saveResults, CrashDetector.saveCrashes, List.append_assoc, List.map_append,
    hnumbers, List.zipIdx_map_snd, ← List.range_eq_range']
  rfl

theorem nodup_saveResults (config : EngineConfig) (protocolType : ProtocolType) (c : Campaign) :
    ((c.saveResults config protocolType).map Prod.fst).Nodup := by
  rw [map_fst_saveResults, List.nodup_append]
  refine ⟨nodup_crashFileNames _, by decide +kernel, ?_⟩
  rintro name hcrash _ hcount rfl
  obtain ⟨idx, -, rfl | rfl⟩ := mem_numbered.mp hcrash
  · exact crashFileName_notMem_countingFiles idx _ hcount
  · exact crashFileName_notMem_countingFiles idx _ hcount

/-! ## The directory afterwards -/

section Directory

variable (config : EngineConfig) (protocolType : ProtocolType) (c : Campaign)
  (old : ResultsDirectory)

theorem lookup_of_mem_saveResults {name : String} {file : ResultFile}
    (h : (name, file) ∈ c.saveResults config protocolType) :
    (writeAll old (c.saveResults config protocolType)).lookup name = some file :=
  lookup_writeAll_of_mem (nodup_saveResults config protocolType c) h

/-- The files of a crash are saved under its number. -/
theorem lookup_saveResults_crash {idx : ℕ} {crash : CrashInfo}
    (h : c.crashDetector.crashes[idx]? = some crash) :
    (writeAll old (c.saveResults config protocolType)).lookup (inputFilename idx) =
        some (.input crash.inputData) ∧
      (writeAll old (c.saveResults config protocolType)).lookup (metadataFilename idx) =
        some (.metadata crash) := by
  have hfile : ∀ file ∈ crashFiles (crash, idx), file ∈ c.saveResults config protocolType :=
    fun file hmem => List.mem_append_left _ (List.mem_append_left _
      (List.mem_flatMap.mpr ⟨(crash, idx), List.mk_mem_zipIdx_iff_getElem?.mpr h, hmem⟩))
  exact ⟨lookup_of_mem_saveResults config protocolType c old (hfile _ List.mem_cons_self),
    lookup_of_mem_saveResults config protocolType c old
      (hfile _ (List.mem_cons_of_mem _ List.mem_cons_self))⟩

/-- The files beyond the last crash are left alone. -/
theorem lookup_saveResults_beyond {idx : ℕ} (h : c.crashDetector.crashes.length ≤ idx) :
    (writeAll old (c.saveResults config protocolType)).lookup (inputFilename idx) =
        old.lookup (inputFilename idx) ∧
      (writeAll old (c.saveResults config protocolType)).lookup (metadataFilename idx) =
        old.lookup (metadataFilename idx) := by
  constructor
  · apply lookup_writeAll_of_notMem
    rw [map_fst_saveResults, List.mem_append, not_or]
    refine ⟨fun hmem => ?_, crashFileName_notMem_countingFiles idx _⟩
    obtain ⟨i, hi, hname | hname⟩ := mem_numbered.mp hmem
    · exact absurd (inputFilename_inj hname) (by omega)
    · exact inputFilename_ne_metadataFilename idx i hname
  · apply lookup_writeAll_of_notMem
    rw [map_fst_saveResults, List.mem_append, not_or]
    refine ⟨fun hmem => ?_, crashFileName_notMem_countingFiles idx _⟩
    obtain ⟨i, hi, hname | hname⟩ := mem_numbered.mp hmem
    · exact inputFilename_ne_metadataFilename i idx hname.symm
    · exact absurd (metadataFilename_inj hname) (by omega)

/-- A number has the files of its crash, or those it had before. -/
theorem lookup_saveResults_numbered (idx : ℕ) :
    (writeAll old (c.saveResults config protocolType)).lookup (inputFilename idx) =
        (c.crashDetector.crashes[idx]?.map fun crash => .input crash.inputData).or
          (old.lookup (inputFilename idx)) ∧
      (writeAll old (c.saveResults config protocolType)).lookup (metadataFilename idx) =
        (c.crashDetector.crashes[idx]?.map fun crash => .metadata crash).or
          (old.lookup (metadataFilename idx)) := by
  cases hidx : c.crashDetector.crashes[idx]? with
  | some crash => exact lookup_saveResults_crash config protocolType c old hidx
  | none =>
      exact lookup_saveResults_beyond config protocolType c old
        (List.getElem?_eq_none_iff.mp hidx)

/-- The files that count are written anew. -/
theorem lookup_saveResults_counting {name : String} (h : name ∈ countingFiles) :
    (writeAll old (c.saveResults config protocolType)).lookup name =
      (writeAll ∅ (c.saveResults config protocolType)).lookup name := by
  apply lookup_writeAll_of_mem_map (nodup_saveResults config protocolType c)
  rw [map_fst_saveResults]
  exact List.mem_append_right _ h

end Directory

/-- The files that count give these numbers of crashes and executions. -/
def SavedCounts (saved : ResultsDirectory) (crashes executions : ℕ) : Prop :=
  ∃ summary report results,
    (saved.lookup "crash_summary.json" = some (.crashSummary summary) ∧
      saved.lookup "crash_report.txt" = some (.crashReport report) ∧
      saved.lookup "summary.txt" = some (.summary results)) ∧
    (summary.totalCrashes = crashes ∧ summary.uniqueCrashes = crashes) ∧
    (report.totalCrashes = crashes ∧ report.uniqueCrashes = crashes) ∧
    results.crashesFound = crashes ∧ results.totalExecutions = executions

/-- The two counts of the loop agree with the detector. -/
theorem crashesFound_eq {engine : FuzzingEngine σ} {testCases : List (List UInt8)}
    {log : List (Executed σ)} {c : Campaign} (h : replay engine testCases log = .ok c) :
    c.crashDetector = detectorOf engine.protocolType log ∧
      c.crashesFound = c.crashDetector.crashes.length ∧ c.totalExecutions = log.length := by
  obtain ⟨coverageCollector, -, hc⟩ := bind_eq_ok.mp h
  cases hc
  exact ⟨rfl, rfl, rfl⟩

theorem crashesFound_eq_length {engine : FuzzingEngine σ} {testCases : List (List UInt8)}
    {iterations : List (Iteration σ)} {c : Campaign}
    (hrun : runFuzzingCampaign engine testCases iterations = .ok c) :
    c.crashesFound = c.crashDetector.crashes.length := by
  obtain ⟨log, -, hreplay⟩ := (runFuzzingCampaign_eq_ok_iff iterations c).mp hrun
  exact (crashesFound_eq hreplay).2.1

/-- One iteration finds a crash exactly when its execution fails. -/
theorem crashesFound_of_singleton {engine : FuzzingEngine σ} {testCases : List (List UInt8)}
    {it : Iteration σ} {c : Campaign}
    (hrun : runFuzzingCampaign engine testCases [it] = .ok c) :
    c.crashesFound = if it.result.success then 0 else 1 := by
  obtain ⟨log, hlog, hreplay⟩ := (runFuzzingCampaign_eq_ok_iff [it] c).mp hrun
  obtain ⟨e, rfl, rfl⟩ := List.map_eq_singleton_iff.mp (selectCases_spec hlog).1
  obtain ⟨hdetector, hfound, -⟩ := crashesFound_eq hreplay
  rw [hfound, hdetector, ← List.nil_append [e], detectorOf_concat, Executed.result]
  split_ifs with succeeded
  · rfl
  · have fresh : calculateHash (e.report engine.protocolType).inputData ∉
        (detectorOf engine.protocolType ([] : List (Executed σ))).crashHashes :=
      Finset.notMem_empty _
    exact congrArg List.length (CrashDetector.crashes_recordCrash fresh)

/-- All counts of crashes are the number of the crashes stored, and the executions are the
iterations. -/
theorem savedCounts_saveResults {engine : FuzzingEngine σ} {testCases : List (List UInt8)}
    {iterations : List (Iteration σ)} {c : Campaign}
    (hrun : runFuzzingCampaign engine testCases iterations = .ok c) (config : EngineConfig)
    (old : ResultsDirectory) :
    SavedCounts (writeAll old (c.saveResults config engine.protocolType)) c.crashesFound
      iterations.length := by
  obtain ⟨log, hlog, hreplay⟩ := (runFuzzingCampaign_eq_ok_iff iterations c).mp hrun
  obtain ⟨hdetector, hfound, hexecutions⟩ := crashesFound_eq hreplay
  have hunique : c.crashDetector.crashHashes.card = c.crashDetector.crashes.length := by
    rw [hdetector]
    exact (accounted_runCalls _).card_hashes
  have hmem : ∀ entry ∈ [("crash_summary.json",
        ResultFile.crashSummary c.crashDetector.generateCrashSummary),
      ("crash_report.txt", .crashReport c.crashDetector.generateDetailedReport)],
      entry ∈ c.saveResults config engine.protocolType :=
    fun entry h => List.mem_append_left _ (List.mem_append_right _ h)
  have hfile := fun entry h =>
    lookup_of_mem_saveResults config engine.protocolType c old (hmem entry h)
  refine ⟨_, _, _, ⟨hfile _ List.mem_cons_self,
    hfile _ (List.mem_cons_of_mem _ List.mem_cons_self),
    lookup_of_mem_saveResults config engine.protocolType c old
      (List.mem_append_right _ List.mem_cons_self)⟩,
    ⟨hfound.symm, hunique.trans hfound.symm⟩, ⟨hfound.symm, hunique.trans hfound.symm⟩, rfl, ?_⟩
  exact hexecutions.trans (length_of_selectCases hlog)

/-- The saved results of a campaign agree, whatever was in the directory before. All counts of
crashes are the number of the crash files it writes, and the executions are the iterations.
Every failed execution has a crash file with an input of its digest, every crash file below the
count holds the input of a failed execution, and those from the count on are as before. -/
theorem saveResults_agrees (engine : FuzzingEngine σ) (testCases : List (List UInt8))
    (iterations : List (Iteration σ)) (c : Campaign)
    (hrun : runFuzzingCampaign engine testCases iterations = .ok c) (config : EngineConfig)
    (old : ResultsDirectory) :
    let saved := writeAll old (c.saveResults config engine.protocolType)
    SavedCounts saved c.crashesFound iterations.length ∧
    ∃ log, selectCases engine testCases iterations = .ok log ∧
      (∀ e ∈ log, e.result.success = false → ∃ idx < c.crashesFound, ∃ data,
        saved.lookup (inputFilename idx) = some (.input data) ∧
        calculateHash data = calculateHash e.testCase) ∧
      (∀ idx < c.crashesFound, ∃ e ∈ log, e.result.success = false ∧
        saved.lookup (inputFilename idx) = some (.input e.testCase) ∧
        saved.lookup (metadataFilename idx) =
          some (.metadata (e.report engine.protocolType).crash)) ∧
      ∀ idx, c.crashesFound ≤ idx →
        saved.lookup (inputFilename idx) = old.lookup (inputFilename idx) ∧
        saved.lookup (metadataFilename idx) = old.lookup (metadataFilename idx) := by
  intro saved
  obtain ⟨log, hlog, hreplay⟩ := (runFuzzingCampaign_eq_ok_iff iterations c).mp hrun
  obtain ⟨hdetector, hfound, -⟩ := crashesFound_eq hreplay
  refine ⟨savedCounts_saveResults hrun config old, log, hlog, ?_, ?_, ?_⟩
  · intro e he failed
    obtain ⟨crash, hcrash, hhash⟩ := exists_crash_of_failed engine.protocolType he failed
    rw [← hdetector] at hcrash
    obtain ⟨idx, hidx⟩ := List.mem_iff_getElem?.mp hcrash
    have hlt := (List.getElem?_eq_some_iff.mp hidx).1
    refine ⟨idx, hfound ▸ hlt, crash.inputData,
      (lookup_saveResults_crash config engine.protocolType c old hidx).1, ?_⟩
    rw [hdetector] at hcrash
    obtain ⟨e', -, -, rfl⟩ := exists_of_mem_detectorOf hcrash
    exact hhash
  · intro idx hidx
    rw [hfound] at hidx
    obtain ⟨crash, hcrash⟩ : ∃ crash, c.crashDetector.crashes[idx]? = some crash :=
      ⟨_, List.getElem?_eq_getElem hidx⟩
    obtain ⟨hinput, hmetadata⟩ :=
      lookup_saveResults_crash config engine.protocolType c old hcrash
    have hstored := List.mem_of_getElem? hcrash
    rw [hdetector] at hstored
    obtain ⟨e, he, failed, rfl⟩ := exists_of_mem_detectorOf hstored
    exact ⟨e, he, failed, hinput, hmetadata⟩
  · intro idx hidx
    exact lookup_saveResults_beyond config engine.protocolType c old (hfound ▸ hidx)

def localConfig : EngineConfig where
  targetHost := "127.0.0.1"
  targetPort := 1883
  workerCount := 4
  coverageEnabled := false

/-- The results on a target that refuses the connection, in an empty directory: one crash. -/
theorem saveResults_agrees_refused : ∃ c testCase,
    runFuzzingCampaign (mqttEngine fun _ => none) [[0xC0, 0x00]] [refusedAt 2] = .ok c ∧
      let saved := writeAll ∅ (c.saveResults localConfig .MQTT)
      SavedCounts saved 1 1 ∧ saved.lookup (inputFilename 0) = some (.input testCase) ∧
        saved.lookup (inputFilename 1) = none := by
  obtain ⟨c, hrun⟩ := runFuzzingCampaign_refused
  have hfound : c.crashesFound = 1 := crashesFound_of_singleton hrun
  obtain ⟨hcounts, log, -, -, hfiles, hbeyond⟩ := saveResults_agrees
    (mqttEngine fun _ => none) [[0xC0, 0x00]] [refusedAt 2] c hrun localConfig ∅
  rw [hfound] at hcounts hfiles hbeyond
  obtain ⟨e, -, -, hinput, -⟩ := hfiles 0 Nat.one_pos
  exact ⟨c, e.testCase, hrun, hcounts, hinput, (hbeyond 1 le_rfl).1⟩

/-- Two campaigns saved to one directory. The files of a crash are those of the second campaign
as far as its crashes go, and those of the first beyond them, while the files that count are as
if the second had been saved alone. So the directory has the crash files that are counted
exactly when the first campaign had no more crashes than the second. -/
theorem saveResults_stale (engine engine' : FuzzingEngine σ)
    (testCases testCases' : List (List UInt8)) (iterations iterations' : List (Iteration σ))
    (c c' : Campaign) (hrun : runFuzzingCampaign engine testCases iterations = .ok c)
    (hrun' : runFuzzingCampaign engine' testCases' iterations' = .ok c')
    (config config' : EngineConfig) :
    let saved := writeAll (writeAll ∅ (c.saveResults config engine.protocolType))
      (c'.saveResults config' engine'.protocolType)
    (∀ idx, saved.lookup (inputFilename idx) =
        (c'.crashDetector.crashes[idx]?.or c.crashDetector.crashes[idx]?).map
          (fun crash => .input crash.inputData) ∧
      saved.lookup (metadataFilename idx) =
        (c'.crashDetector.crashes[idx]?.or c.crashDetector.crashes[idx]?).map
          (fun crash => .metadata crash)) ∧
    ((∀ name ∈ countingFiles, saved.lookup name =
        (writeAll ∅ (c'.saveResults config' engine'.protocolType)).lookup name) ∧
      SavedCounts saved c'.crashesFound iterations'.length) ∧
    ((∀ idx, ((saved.lookup (inputFilename idx)).isSome ↔ idx < c'.crashesFound) ∧
        ((saved.lookup (metadataFilename idx)).isSome ↔ idx < c'.crashesFound)) ↔
      c.crashesFound ≤ c'.crashesFound) := by
  intro saved
  have hfiles : ∀ idx, saved.lookup (inputFilename idx) =
      (c'.crashDetector.crashes[idx]?.or c.crashDetector.crashes[idx]?).map
        (fun crash => .input crash.inputData) ∧
      saved.lookup (metadataFilename idx) =
        (c'.crashDetector.crashes[idx]?.or c.crashDetector.crashes[idx]?).map
          (fun crash => .metadata crash) := by
    intro idx
    obtain ⟨hinput, hmetadata⟩ :=
      lookup_saveResults_numbered config engine.protocolType c ∅ idx
    obtain ⟨hinput', hmetadata'⟩ := lookup_saveResults_numbered config' engine'.protocolType c'
      (writeAll ∅ (c.saveResults config engine.protocolType)) idx
    rw [hinput, Finmap.lookup_empty, Option.or_none] at hinput'
    rw [hmetadata, Finmap.lookup_empty, Option.or_none] at hmetadata'
    rw [Option.map_or, Option.map_or]
    exact ⟨hinput', hmetadata'⟩
  have hpresent : ∀ idx, (c'.crashDetector.crashes[idx]?.or c.crashDetector.crashes[idx]?).isSome ↔
      idx < c'.crashesFound ∨ idx < c.crashesFound := by
    intro idx
    rw [Option.isSome_or, Bool.or_eq_true, isSome_getElem?, isSome_getElem?,
      crashesFound_eq_length hrun, crashesFound_eq_length hrun']
  refine ⟨hfiles, ⟨fun name h => lookup_saveResults_counting config' engine'.protocolType c' _ h,
    savedCounts_saveResults hrun' config' _⟩, ?_⟩
  simp only [hfiles, Option.isSome_map, hpresent, and_self]
  constructor
  · intro hall
    by_contra more
    exact lt_irrefl _ ((hall c'.crashesFound).mp (.inr (by omega)))
  · intro hle idx
    omega

/-- A campaign with a refused connection, then one without: its crash file stays, and the counts
say that there is none. -/
theorem saveResults_stale_refused : ∃ c c',
    runFuzzingCampaign (mqttEngine fun _ => none) [[0xC0, 0x00]] [refusedAt 2] = .ok c ∧
      runFuzzingCampaign (mqttEngine fun _ => none) [[0xC0, 0x00]] [iterationAt 2] = .ok c' ∧
      let saved := writeAll (writeAll ∅ (c.saveResults localConfig .MQTT))
        (c'.saveResults localConfig .MQTT)
      SavedCounts saved 0 1 ∧ ∃ crash ∈ c.crashDetector.crashes,
        saved.lookup (inputFilename 0) = some (.input crash.inputData) ∧
        saved.lookup (metadataFilename 0) = some (.metadata crash) := by
  obtain ⟨c, hrun⟩ := runFuzzingCampaign_refused
  obtain ⟨c', byte, hrun', -, -⟩ := runFuzzingCampaign_shortens
  have hfound : c.crashesFound = 1 := crashesFound_of_singleton hrun
  have hfound' : c'.crashesFound = 0 := crashesFound_of_singleton hrun'
  obtain ⟨hfiles, ⟨-, hcounts⟩, -⟩ := saveResults_stale (mqttEngine fun _ => none)
    (mqttEngine fun _ => none) [[0xC0, 0x00]] [[0xC0, 0x00]] [refusedAt 2] [iterationAt 2] c c'
    hrun hrun' localConfig localConfig
  obtain ⟨crash, hcrash⟩ := List.length_eq_one_iff.mp
    ((crashesFound_eq_length hrun).symm.trans hfound)
  have hnone := List.length_eq_zero_iff.mp ((crashesFound_eq_length hrun').symm.trans hfound')
  have hfirst := hfiles 0
  rw [hcrash, hnone] at hfirst
  rw [hfound'] at hcounts
  exact ⟨c, c', hrun, hrun', hcounts, crash, hcrash ▸ List.mem_cons_self, hfirst⟩

end ProtocolFuzzer.Fuzzer
