/-
# The campaign as a trace

The loop of a campaign drives three components at once: the corpus, the coverage collector
and the crash detector. All of them follow one list, the executed cases with their
outcomes. The corpus is the newest interesting part of it, the collector has recorded it,
the detector was told its failures, and none of the three is asked by another. So the loop
does the same as selecting all cases first and replaying this trace into each component
afterwards; and selecting asks for the corpus alone, never for what was covered.
-/

import ProtocolFuzzer.Fuzzer.CampaignAccounting

namespace ProtocolFuzzer.Fuzzer

open Math Platform Coverage

variable {σ : Type}

/-- A test case that was executed, in an iteration that gives the outcome. -/
structure Executed (σ : Type) where
  testCase : List UInt8
  iteration : Iteration σ

namespace Executed

/-- The outcome of the execution. -/
def result (e : Executed σ) : ExecutionResult := e.iteration.result

def interesting (e : Executed σ) : Bool := isInteresting e.result

/-- What the crash detector would be told. -/
def report (protocolType : ProtocolType) (e : Executed σ) : Report where
  inputData := e.testCase
  errorMessage := e.result.errorMessage
  executionTime := Duration.fromMillis e.result.executionTimeMs
  protocol := protocolType
  id := e.iteration.id
  timestamp := e.iteration.timestamp

/-- A failure is reported, and the count of crashes is read. -/
def calls (protocolType : ProtocolType) (e : Executed σ) : List Call :=
  if e.result.success then [] else [.recordCrash (e.report protocolType), .crashCount]

/-- Every execution is recorded. -/
def event (e : Executed σ) : Event := .record e.testCase e.result

end Executed

/-- The corpus after a trace: the newest cases, initial and interesting ones together. -/
def corpusOf (testCases : List (List UInt8)) (trace : List (Executed σ)) : List (List UInt8) :=
  (testCases ++ (trace.filter Executed.interesting).map Executed.testCase).rtake
    (max testCases.length 1000)

/-- Select and mutate the case of one iteration. -/
def selectCase (engine : FuzzingEngine σ) (testCases : List (List UInt8))
    (trace : List (Executed σ)) (it : Iteration σ) : Checked (List (Executed σ)) := do
  let corpus := corpusOf testCases trace
  let baseCaseIdx ← rem trace.length corpus.length
  let baseCase ← index corpus baseCaseIdx
  let mutatedCase ← mutateTestCase engine.protocolFuzzer baseCase it.draws it.randSeed
  pure (trace ++ [⟨mutatedCase, it⟩])

/-- The trace of a sequence of iterations. -/
def selectCases (engine : FuzzingEngine σ) (testCases : List (List UInt8))
    (iterations : List (Iteration σ)) : Checked (List (Executed σ)) :=
  iterations.foldlM (selectCase engine testCases) []

/-- The detector after the failures of a trace. -/
def detectorOf (protocolType : ProtocolType) (trace : List (Executed σ)) : CrashDetector :=
  runCalls (trace.flatMap (Executed.calls protocolType))

/-- The components after a trace, put together. -/
def componentsOf (protocolType : ProtocolType) (testCases : List (List UInt8))
    (trace : List (Executed σ)) (coverageCollector : CompositeCoverageCollector) : Campaign where
  testCases := corpusOf testCases trace
  coverageCollector
  crashDetector := detectorOf protocolType trace
  iteration := trace.length
  totalExecutions := trace.length
  crashesFound := (detectorOf protocolType trace).crashes.length

/-- Replay a trace into every component. -/
def replay (engine : FuzzingEngine σ) (testCases : List (List UInt8))
    (trace : List (Executed σ)) : Checked Campaign := do
  let coverageCollector ←
    runEvents engine.parse engine.protocolType (trace.map Executed.event)
  pure (componentsOf engine.protocolType testCases trace coverageCollector)

section Concat

variable (testCases : List (List UInt8)) (trace : List (Executed σ)) (e : Executed σ)

/-- A full corpus drops its oldest case. -/
theorem addTestCase_rtake_max {all : List (List UInt8)} (whole : testCases.length ≤ all.length)
    (testCase : List UInt8) :
    addTestCase (all.rtake (max testCases.length 1000)) testCase =
      (all ++ [testCase]).rtake (max testCases.length 1000) := by
  by_cases few : testCases.length ≤ 1000
  · rw [Nat.max_eq_right few]
    exact addTestCase_rtake all testCase
  · have hlength : (all.rtake testCases.length).length = testCases.length := by
      rw [List.rtake, List.length_drop]
      omega
    rw [Nat.max_eq_left (by omega), addTestCase, List.length_append, hlength,
      List.length_singleton, if_pos (by omega), List.drop_append_of_le_length (by omega),
      List.rtake, List.rtake, List.drop_drop, List.length_append, List.length_singleton,
      List.drop_append_of_le_length (by omega)]
    congr 2
    omega

theorem corpusOf_concat : corpusOf testCases (trace ++ [e]) =
    if e.interesting then addTestCase (corpusOf testCases trace) e.testCase
    else corpusOf testCases trace := by
  rw [corpusOf, List.filter_append, List.map_append, ← List.append_assoc]
  split_ifs with interesting
  · rw [List.filter_cons_of_pos interesting, List.filter_nil, List.map_singleton, corpusOf,
      addTestCase_rtake_max testCases (by rw [List.length_append]; omega)]
  · rw [List.filter_cons_of_neg interesting, List.filter_nil, List.map_nil, List.append_nil,
      corpusOf]

theorem detectorOf_concat (protocolType : ProtocolType) :
    detectorOf protocolType (trace ++ [e]) =
      if e.result.success then detectorOf protocolType trace
      else ((detectorOf protocolType trace).recordCrash (e.report protocolType)).crashCount.2 := by
  rw [detectorOf, List.flatMap_append, List.flatMap_singleton, Executed.calls, runCalls,
    List.foldl_append]
  split_ifs <;> rfl

/-- The check for crashes reads the detector after the failures so far. -/
theorem checkForCrash_componentsOf (protocolType : ProtocolType)
    (before : CompositeCoverageCollector) :
    (componentsOf protocolType testCases trace before).checkForCrash protocolType e.testCase
        e.iteration =
      ((detectorOf protocolType (trace ++ [e])).crashes.length,
        detectorOf protocolType (trace ++ [e])) := by
  rw [detectorOf_concat, Campaign.checkForCrash, Executed.result]
  split_ifs <;> rfl

/-- An iteration advances every component on its own. -/
theorem advance_componentsOf (protocolType : ProtocolType)
    (before after : CompositeCoverageCollector) :
    (componentsOf protocolType testCases trace before).advance protocolType e.testCase after
        e.iteration = componentsOf protocolType testCases (trace ++ [e]) after := by
  have hcorpus := corpusOf_concat testCases trace e
  rw [Campaign.advance, checkForCrash_componentsOf]
  rw [componentsOf, componentsOf, hcorpus, List.length_append]
  rfl

end Concat

/-- What replaying one more case does. -/
theorem replay_concat {engine : FuzzingEngine σ} {testCases : List (List UInt8)}
    {trace : List (Executed σ)} {e : Executed σ} {c' : Campaign} :
    replay engine testCases (trace ++ [e]) = .ok c' ↔ ∃ c coverageCollector,
      replay engine testCases trace = .ok c ∧
      c.coverageCollector.recordExecution engine.parse e.testCase e.result =
        .ok coverageCollector ∧
      c' = c.advance engine.protocolType e.testCase coverageCollector e.iteration := by
  rw [replay, List.map_append, runEvents, List.foldlM_append, replay, runEvents]
  simp only [bind_eq_ok]
  constructor
  · rintro ⟨after, ⟨before, hbefore, hstep⟩, hc'⟩
    have hrecord : before.recordExecution engine.parse e.testCase e.result = .ok after := by
      simpa [Executed.event, CompositeCoverageCollector.step] using hstep
    cases hc'
    exact ⟨_, after, ⟨before, hbefore, rfl⟩, hrecord,
      (advance_componentsOf _ _ _ _ before after).symm⟩
  · rintro ⟨c, after, ⟨before, hbefore, hc⟩, hrecord, rfl⟩
    cases hc
    refine ⟨after, ⟨before, hbefore, ?_⟩,
      congrArg Except.ok (advance_componentsOf _ _ _ _ before after).symm⟩
    simpa [Executed.event, CompositeCoverageCollector.step, componentsOf] using hrecord

/-- Choosing a base case succeeds on the corpora that are not empty. -/
theorem rem_bind_index_eq_ok {α : Type} {xs : List α} {i : ℕ} {x : α} :
    (rem i xs.length >>= index xs) = .ok x ↔ xs[i % xs.length]? = some x := by
  cases xs with
  | nil => simp [rem]
  | cons head tail =>
      have hpos : 0 < (head :: tail).length := Nat.succ_pos _
      have hlt := Nat.mod_lt i hpos
      rw [rem_of_pos hpos, ok_bind, index_of_lt hlt, List.getElem?_eq_getElem hlt, Except.ok.injEq,
        Option.some.injEq]

/-- The trace after one more iteration. -/
theorem selectCase_eq_ok_iff {engine : FuzzingEngine σ} {testCases : List (List UInt8)}
    {trace trace' : List (Executed σ)} {it : Iteration σ} :
    selectCase engine testCases trace it = .ok trace' ↔ ∃ baseCase mutatedCase,
      (corpusOf testCases trace)[trace.length % (corpusOf testCases trace).length]? =
        some baseCase ∧
      mutateTestCase engine.protocolFuzzer baseCase it.draws it.randSeed = .ok mutatedCase ∧
      trace' = trace ++ [⟨mutatedCase, it⟩] := by
  have hassoc : selectCase engine testCases trace it =
      (rem trace.length (corpusOf testCases trace).length >>= index (corpusOf testCases trace)) >>=
        fun baseCase => mutateTestCase engine.protocolFuzzer baseCase it.draws it.randSeed >>=
          fun mutatedCase => pure (trace ++ [⟨mutatedCase, it⟩]) := by
    rw [selectCase, bind_assoc]
  rw [hassoc, bind_eq_ok]
  apply exists_congr
  intro baseCase
  rw [rem_bind_index_eq_ok, bind_eq_ok]
  constructor
  · rintro ⟨hbase, mutatedCase, hmutate, htrace⟩
    cases htrace
    exact ⟨mutatedCase, hbase, hmutate, rfl⟩
  · rintro ⟨mutatedCase, hbase, hmutate, rfl⟩
    exact ⟨hbase, mutatedCase, hmutate, rfl⟩

section Campaigns

variable {engine : FuzzingEngine σ} {testCases : List (List UInt8)}

theorem replay_nil : replay engine testCases [] =
    .ok (Campaign.start engine.protocolType testCases) := by
  have hcorpus : corpusOf testCases ([] : List (Executed σ)) = testCases := by
    rw [corpusOf, List.filter_nil, List.map_nil, List.append_nil, List.rtake,
      Nat.sub_eq_zero_of_le (Nat.le_max_left _ _), List.drop_zero]
  change Except.ok (componentsOf engine.protocolType testCases []
    (CompositeCoverageCollector.new engine.protocolType)) = _
  rw [componentsOf, hcorpus]
  rfl

/-- Where selection stands after a replay. -/
theorem baseCase?_of_replay {trace : List (Executed σ)} {c : Campaign}
    (h : replay engine testCases trace = .ok c) : c.baseCase? =
      (corpusOf testCases trace)[trace.length % (corpusOf testCases trace).length]? := by
  obtain ⟨coverageCollector, -, hc⟩ := bind_eq_ok.mp h
  cases hc
  rfl

theorem selectCases_concat (iterations : List (Iteration σ)) (it : Iteration σ) :
    selectCases engine testCases (iterations ++ [it]) =
      selectCases engine testCases iterations >>=
        fun trace => selectCase engine testCases trace it := by
  rw [selectCases, List.foldlM_append]
  simp [selectCases]

/-- A campaign is a selection followed by a replay. -/
theorem runFuzzingCampaign_eq_ok_iff (iterations : List (Iteration σ)) (c : Campaign) :
    runFuzzingCampaign engine testCases iterations = .ok c ↔ ∃ trace,
      selectCases engine testCases iterations = .ok trace ∧
      replay engine testCases trace = .ok c := by
  induction iterations using List.reverseRecOn generalizing c with
  | nil =>
      constructor
      · intro hrun
        cases hrun
        exact ⟨[], rfl, replay_nil⟩
      · rintro ⟨trace, htrace, hreplay⟩
        cases htrace
        exact replay_nil.symm.trans hreplay
  | append_singleton iterations it ih =>
      rw [runFuzzingCampaign_concat, selectCases_concat]
      constructor
      · rintro ⟨before, hrun, hstep⟩
        obtain ⟨trace, htrace, hreplay⟩ := (ih before).mp hrun
        obtain ⟨baseCase, mutatedCase, coverageCollector, hbase, hmutate, hrecord, rfl⟩ :=
          Campaign.step_eq_ok_iff.mp hstep
        rw [baseCase?_of_replay hreplay] at hbase
        refine ⟨trace ++ [⟨mutatedCase, it⟩], bind_eq_ok.mpr ⟨trace, htrace, ?_⟩, ?_⟩
        · exact selectCase_eq_ok_iff.mpr ⟨baseCase, mutatedCase, hbase, hmutate, rfl⟩
        · exact replay_concat.mpr ⟨before, coverageCollector, hreplay, hrecord, rfl⟩
      · rintro ⟨trace', htrace', hreplay'⟩
        obtain ⟨trace, htrace, hselect⟩ := bind_eq_ok.mp htrace'
        obtain ⟨baseCase, mutatedCase, hbase, hmutate, rfl⟩ := selectCase_eq_ok_iff.mp hselect
        obtain ⟨before, coverageCollector, hreplay, hrecord, rfl⟩ := replay_concat.mp hreplay'
        refine ⟨before, (ih before).mpr ⟨trace, htrace, hreplay⟩, ?_⟩
        rw [← baseCase?_of_replay hreplay] at hbase
        exact Campaign.step_eq_ok_iff.mpr
          ⟨baseCase, mutatedCase, coverageCollector, hbase, hmutate, hrecord, rfl⟩

/-- Replaying a trace returns where recording its cases does. -/
theorem replay_returns_iff (engine : FuzzingEngine σ) (testCases : List (List UInt8))
    (trace : List (Executed σ)) :
    NoPanic (replay engine testCases trace) ↔ ∀ e ∈ trace, Recordable e.testCase := by
  have hevents : NoPanic (runEvents engine.parse engine.protocolType
      (trace.map Executed.event)) ↔ ∀ event ∈ trace.map Executed.event, event.Recordable :=
    noPanic_foldlM_iff (step_returns_iff engine.parse) _ _
  apply ((noPanic_bind_iff fun _ => noPanic_ok _).trans hevents).trans
  rw [List.forall_mem_map]
  apply forall₂_congr
  intro e _
  constructor
  · exact fun h => h e.testCase e.result rfl
  · rintro h _ _ ⟨⟩
    exact h

theorem runFuzzingCampaign_returns_iff (iterations : List (Iteration σ)) :
    NoPanic (runFuzzingCampaign engine testCases iterations) ↔ ∃ trace,
      selectCases engine testCases iterations = .ok trace ∧
      ∀ e ∈ trace, Recordable e.testCase := by
  constructor
  · rintro ⟨c, hrun⟩
    obtain ⟨trace, htrace, hreplay⟩ := (runFuzzingCampaign_eq_ok_iff iterations c).mp hrun
    exact ⟨trace, htrace, (replay_returns_iff _ _ trace).mp ⟨c, hreplay⟩⟩
  · rintro ⟨trace, htrace, hrecordable⟩
    obtain ⟨c, hreplay⟩ := (replay_returns_iff engine testCases trace).mpr hrecordable
    exact ⟨c, (runFuzzingCampaign_eq_ok_iff iterations c).mpr ⟨trace, htrace, hreplay⟩⟩

/-- Every executed case is a mutation of the case selected from the corpus before it. -/
theorem selectCases_spec {iterations : List (Iteration σ)} {log : List (Executed σ)}
    (htrace : selectCases engine testCases iterations = .ok log) :
    log.map Executed.iteration = iterations ∧
      ∀ i e, log[i]? = some e → ∃ baseCase,
        (corpusOf testCases (log.take i))[i % (corpusOf testCases (log.take i)).length]? =
          some baseCase ∧
        mutateTestCase engine.protocolFuzzer baseCase e.iteration.draws e.iteration.randSeed =
          .ok e.testCase := by
  refine foldlM_run (fun history log => log.map Executed.iteration = history ∧
    ∀ i e, log[i]? = some e → ∃ baseCase,
      (corpusOf testCases (log.take i))[i % (corpusOf testCases (log.take i)).length]? =
        some baseCase ∧
      mutateTestCase engine.protocolFuzzer baseCase e.iteration.draws e.iteration.randSeed =
        .ok e.testCase) ?_ ⟨rfl, by simp⟩ htrace
  rintro history log it next ⟨hhistory, hmutations⟩ hselect
  obtain ⟨baseCase, mutatedCase, hbase, hmutate, rfl⟩ := selectCase_eq_ok_iff.mp hselect
  refine ⟨by rw [List.map_append, hhistory, List.map_singleton], fun i e hi => ?_⟩
  rcases Nat.lt_trichotomy i log.length with earlier | rfl | later
  · rw [List.getElem?_append_left earlier] at hi
    rw [List.take_append_of_le_length earlier.le]
    exact hmutations i e hi
  · rw [List.getElem?_concat_length] at hi
    cases hi
    rw [List.take_left]
    exact ⟨baseCase, hbase, hmutate⟩
  · rw [List.getElem?_eq_none (by rw [List.length_append, List.length_singleton]; omega)] at hi
    cases hi

theorem length_of_selectCases {iterations : List (Iteration σ)} {log : List (Executed σ)}
    (htrace : selectCases engine testCases iterations = .ok log) :
    log.length = iterations.length := by
  rw [← (selectCases_spec htrace).1, List.length_map]

/-- A case of the corpus is an initial one or was executed. -/
theorem mem_corpusOf {log : List (Executed σ)} {testCase : List UInt8}
    (h : testCase ∈ corpusOf testCases log) :
    testCase ∈ testCases ∨ ∃ (i : ℕ) (e : Executed σ), log[i]? = some e ∧
      e.testCase = testCase := by
  refine (List.mem_append.mp (List.mem_of_mem_drop h)).imp_right fun hexecuted => ?_
  obtain ⟨e, he, hcase⟩ := List.mem_map.mp hexecuted
  obtain ⟨i, hi⟩ := List.mem_iff_getElem?.mp (List.mem_of_mem_filter he)
  exact ⟨i, e, hi, hcase⟩

/-- Every iteration has its case. -/
theorem exists_executed {iterations : List (Iteration σ)} {log : List (Executed σ)}
    (hiterations : log.map Executed.iteration = iterations) {i : ℕ} {it : Iteration σ}
    (hi : iterations[i]? = some it) : ∃ e, log[i]? = some e ∧ e.iteration = it := by
  rw [← hiterations, List.getElem?_map] at hi
  exact Option.map_eq_some_iff.mp hi

/-- Where no mutation panics, all cases can be selected. -/
theorem selectCases_returns (nonempty : testCases ≠ [])
    (hmutate : ∀ baseCase draws randSeed,
      NoPanic (mutateTestCase engine.protocolFuzzer baseCase draws randSeed))
    (iterations : List (Iteration σ)) : NoPanic (selectCases engine testCases iterations) := by
  by_contra hfails
  obtain ⟨_, it, trace, -, -, hselect⟩ := not_noPanic_foldlM_iff.mp hfails
  have hpos : 0 < (corpusOf testCases trace).length := by
    have hinitial := List.length_pos_iff.mpr nonempty
    rw [corpusOf, List.rtake, List.length_drop, List.length_append]
    omega
  have hlt := Nat.mod_lt trace.length hpos
  obtain ⟨mutatedCase, hmutated⟩ := hmutate (corpusOf testCases trace)[trace.length %
    (corpusOf testCases trace).length] it.draws it.randSeed
  exact hselect ⟨_, selectCase_eq_ok_iff.mpr
    ⟨_, mutatedCase, List.getElem?_eq_getElem hlt, hmutated, rfl⟩⟩

end Campaigns

/-- A campaign does what selecting its cases and replaying them does: it has the corpus, the
crash detector and the counters of the trace, and the collector that recorded the trace. It
returns exactly when all cases can be selected and every one of them can be recorded. -/
theorem runFuzzingCampaign_replays (engine : FuzzingEngine σ) (testCases : List (List UInt8))
    (iterations : List (Iteration σ)) :
    (∀ c, runFuzzingCampaign engine testCases iterations = .ok c ↔ ∃ trace coverageCollector,
      selectCases engine testCases iterations = .ok trace ∧
      runEvents engine.parse engine.protocolType (trace.map Executed.event) =
        .ok coverageCollector ∧
      c = componentsOf engine.protocolType testCases trace coverageCollector) ∧
    (NoPanic (runFuzzingCampaign engine testCases iterations) ↔ ∃ trace,
      selectCases engine testCases iterations = .ok trace ∧
      ∀ e ∈ trace, Recordable e.testCase) := by
  constructor
  · intro c
    rw [runFuzzingCampaign_eq_ok_iff]
    constructor
    · rintro ⟨trace, htrace, hreplay⟩
      obtain ⟨coverageCollector, hevents, hc⟩ := bind_eq_ok.mp hreplay
      cases hc
      exact ⟨trace, coverageCollector, htrace, hevents, rfl⟩
    · rintro ⟨trace, coverageCollector, htrace, hevents, rfl⟩
      exact ⟨trace, htrace, bind_eq_ok.mpr ⟨coverageCollector, hevents, rfl⟩⟩
  · exact runFuzzingCampaign_returns_iff iterations

/-- Every stored crash is the report of a failure in the trace. -/
theorem exists_of_mem_detectorOf {protocolType : ProtocolType} {trace : List (Executed σ)}
    {crash : CrashInfo} (hmem : crash ∈ (detectorOf protocolType trace).crashes) :
    ∃ e ∈ trace, e.result.success = false ∧ crash = (e.report protocolType).crash := by
  rw [detectorOf, (accounted_runCalls _).crashes] at hmem
  obtain ⟨call, hcall, hcrash⟩ := List.mem_filterMap.mp (mem_of_mem_firstBy _ hmem)
  obtain ⟨e, he, hcalls⟩ := List.mem_flatMap.mp hcall
  rw [Executed.calls] at hcalls
  split_ifs at hcalls with succeeded
  · cases hcalls
  · rcases List.mem_pair.mp hcalls with rfl | rfl
    · cases hcrash
      exact ⟨e, he, Bool.eq_false_iff.mpr succeeded, rfl⟩
    · cases hcrash

/-- Every failure in the trace has a crash with its digest. -/
theorem exists_crash_of_failed (protocolType : ProtocolType) {log : List (Executed σ)}
    {e : Executed σ} (he : e ∈ log) (failed : e.result.success = false) :
    ∃ crash ∈ (detectorOf protocolType log).crashes,
      crash.inputHash = calculateHash e.testCase := by
  have haccounted := accounted_runCalls (log.flatMap (Executed.calls protocolType))
  have hreported : (e.report protocolType).crash ∈
      reported (log.flatMap (Executed.calls protocolType)) := by
    refine List.mem_filterMap.mpr ⟨.recordCrash (e.report protocolType),
      List.mem_flatMap.mpr ⟨e, he, ?_⟩, rfl⟩
    rw [Executed.calls, failed]
    exact List.mem_cons_self
  have hstored : calculateHash e.testCase ∈ (detectorOf protocolType log).crashHashes :=
    haccounted.mem_crashHashes.mpr ⟨_, hreported, rfl⟩
  have hhashes : (detectorOf protocolType log).crashHashes =
      ((detectorOf protocolType log).crashes.map CrashInfo.inputHash).toFinset :=
    haccounted.hashes
  rw [hhashes, List.mem_toFinset] at hstored
  exact List.mem_map.mp hstored

/-! ## What the selection reads -/

/-- All that selecting cases reads of an iteration. -/
def Iteration.guidance (it : Iteration σ) : σ × ℕ × Bool :=
  (it.draws, it.randSeed, isInteresting it.result)

/-- The executed cases of a trace with the verdicts on them. -/
def Executed.choice (e : Executed σ) : List UInt8 × Bool := (e.testCase, e.interesting)

theorem corpusOf_congr {testCases : List (List UInt8)} {trace trace' : List (Executed σ)}
    (h : trace.map Executed.choice = trace'.map Executed.choice) :
    corpusOf testCases trace = corpusOf testCases trace' := by
  have hchoices : ∀ trace : List (Executed σ), (trace.filter Executed.interesting).map
      Executed.testCase = ((trace.map Executed.choice).filter Prod.snd).map Prod.fst := by
    intro trace
    rw [List.filter_map, List.map_map]
    rfl
  rw [corpusOf, corpusOf, hchoices, hchoices, h]

/-- Traces with the same choices go on with the same choice. -/
theorem selectCase_congr {engine engine' : FuzzingEngine σ} {testCases : List (List UInt8)}
    {trace trace' next : List (Executed σ)} {it it' : Iteration σ}
    (hfuzzer : engine.protocolFuzzer = engine'.protocolFuzzer)
    (hguidance : it.guidance = it'.guidance)
    (h : trace.map Executed.choice = trace'.map Executed.choice)
    (hselect : selectCase engine testCases trace it = .ok next) :
    ∃ next', selectCase engine' testCases trace' it' = .ok next' ∧
      next.map Executed.choice = next'.map Executed.choice := by
  obtain ⟨baseCase, mutatedCase, hbase, hmutate, rfl⟩ := selectCase_eq_ok_iff.mp hselect
  have hlength : trace.length = trace'.length := by simpa using congrArg List.length h
  have hdraws : it.draws = it'.draws := congrArg Prod.fst hguidance
  have hseed : it.randSeed = it'.randSeed := congrArg (fun g => g.2.1) hguidance
  have hverdict : isInteresting it.result = isInteresting it'.result :=
    congrArg (fun g => g.2.2) hguidance
  refine ⟨trace' ++ [⟨mutatedCase, it'⟩], selectCase_eq_ok_iff.mpr
    ⟨baseCase, mutatedCase, ?_, ?_, rfl⟩, ?_⟩
  · rw [← corpusOf_congr h, ← hlength]
    exact hbase
  · rw [← hfuzzer, ← hdraws, ← hseed]
    exact hmutate
  · rw [List.map_append, List.map_append, h]
    exact congrArg (fun verdict => trace'.map Executed.choice ++ [(mutatedCase, verdict)]) hverdict

/-- Iterations with the same guidance execute the same cases. -/
theorem selectCases_congr {engine engine' : FuzzingEngine σ} {testCases : List (List UInt8)}
    (hfuzzer : engine.protocolFuzzer = engine'.protocolFuzzer)
    {iterations iterations' : List (Iteration σ)}
    (hguidance : iterations.map Iteration.guidance = iterations'.map Iteration.guidance)
    {trace : List (Executed σ)} (htrace : selectCases engine testCases iterations = .ok trace) :
    ∃ trace', selectCases engine' testCases iterations' = .ok trace' ∧
      trace.map Executed.choice = trace'.map Executed.choice := by
  induction iterations using List.reverseRecOn generalizing iterations' trace with
  | nil =>
      obtain rfl : iterations' = [] := List.map_eq_nil_iff.mp hguidance.symm
      cases htrace
      exact ⟨[], rfl, rfl⟩
  | append_singleton iterations it ih =>
      rw [List.map_append] at hguidance
      obtain ⟨earlier, last, rfl, hearlier, hlast⟩ := List.map_eq_append_iff.mp hguidance.symm
      obtain ⟨it', rfl, hit⟩ := List.map_eq_singleton_iff.mp hlast
      rw [selectCases_concat] at htrace ⊢
      obtain ⟨before, hbefore, hselect⟩ := bind_eq_ok.mp htrace
      obtain ⟨before', hbefore', hchoices⟩ := ih hearlier.symm hbefore
      obtain ⟨next', hselect', hnext⟩ := selectCase_congr hfuzzer hit.symm hchoices hselect
      exact ⟨next', bind_eq_ok.mpr ⟨before', hbefore', hselect'⟩, hnext⟩

/-- The test cases a campaign executes. -/
def executedCases (engine : FuzzingEngine σ) (testCases : List (List UInt8))
    (iterations : List (Iteration σ)) : Checked (List (List UInt8)) := do
  let trace ← selectCases engine testCases iterations
  pure (trace.map Executed.testCase)

theorem executedCases_congr {engine engine' : FuzzingEngine σ} {testCases : List (List UInt8)}
    (hfuzzer : engine.protocolFuzzer = engine'.protocolFuzzer)
    {iterations iterations' : List (Iteration σ)}
    (hguidance : iterations.map Iteration.guidance = iterations'.map Iteration.guidance)
    {cases : List (List UInt8)} (hcases : executedCases engine testCases iterations = .ok cases) :
    executedCases engine' testCases iterations' = .ok cases := by
  obtain ⟨trace, htrace, hmap⟩ := bind_eq_ok.mp hcases
  cases hmap
  obtain ⟨trace', htrace', hchoices⟩ := selectCases_congr hfuzzer hguidance htrace
  refine bind_eq_ok.mpr ⟨trace', htrace', congrArg Except.ok ?_⟩
  have hfirst : ∀ trace : List (Executed σ),
      trace.map Executed.testCase = (trace.map Executed.choice).map Prod.fst := by
    intro trace
    rw [List.map_map]
    rfl
  rw [hfirst, hfirst, hchoices]

/-- A campaign that returns also returns with another engine and other answers. -/
theorem runFuzzingCampaign_congr {engine engine' : FuzzingEngine σ}
    {testCases : List (List UInt8)} (hfuzzer : engine.protocolFuzzer = engine'.protocolFuzzer)
    {iterations iterations' : List (Iteration σ)}
    (hguidance : iterations.map Iteration.guidance = iterations'.map Iteration.guidance)
    {c : Campaign} (hrun : runFuzzingCampaign engine testCases iterations = .ok c) :
    ∃ c', runFuzzingCampaign engine' testCases iterations' = .ok c' ∧
      c.testCases = c'.testCases := by
  obtain ⟨trace, htrace, hreplay⟩ := (runFuzzingCampaign_eq_ok_iff iterations c).mp hrun
  have hrecordable := (replay_returns_iff _ _ trace).mp ⟨c, hreplay⟩
  obtain ⟨trace', htrace', hchoices⟩ := selectCases_congr hfuzzer hguidance htrace
  have hrecordable' : ∀ e' ∈ trace', Recordable e'.testCase := by
    intro e' hmem
    have hchoice : e'.choice ∈ trace.map Executed.choice :=
      hchoices ▸ List.mem_map_of_mem hmem
    obtain ⟨e, he, heq⟩ := List.mem_map.mp hchoice
    have hcase : e.testCase = e'.testCase := congrArg Prod.fst heq
    exact hcase ▸ hrecordable e he
  obtain ⟨c', hreplay'⟩ := (replay_returns_iff engine' testCases trace').mpr hrecordable'
  refine ⟨c', (runFuzzingCampaign_eq_ok_iff iterations' c').mpr ⟨trace', htrace', hreplay'⟩, ?_⟩
  obtain ⟨_, -, hc⟩ := bind_eq_ok.mp hreplay
  obtain ⟨_, -, hc'⟩ := bind_eq_ok.mp hreplay'
  cases hc
  cases hc'
  exact corpusOf_congr hchoices

/-- Coverage guides nothing. Two campaigns over iterations that differ in what the target
answered, but not in whether the outcome was interesting, execute the same cases, return
together and end with the same corpus, whatever their engines parse and cover. -/
theorem runFuzzingCampaign_ignores_coverage (engine engine' : FuzzingEngine σ)
    (testCases : List (List UInt8)) (iterations iterations' : List (Iteration σ))
    (hfuzzer : engine.protocolFuzzer = engine'.protocolFuzzer)
    (hguidance : iterations.map Iteration.guidance = iterations'.map Iteration.guidance) :
    (∀ cases, executedCases engine testCases iterations = .ok cases ↔
      executedCases engine' testCases iterations' = .ok cases) ∧
    ∀ corpus, (∃ c, runFuzzingCampaign engine testCases iterations = .ok c ∧
        c.testCases = corpus) ↔
      ∃ c', runFuzzingCampaign engine' testCases iterations' = .ok c' ∧
        c'.testCases = corpus := by
  refine ⟨fun cases => ⟨executedCases_congr hfuzzer hguidance,
    executedCases_congr hfuzzer.symm hguidance.symm⟩, fun corpus => ⟨?_, ?_⟩⟩
  · rintro ⟨c, hrun, rfl⟩
    obtain ⟨c', hrun', hcorpus⟩ := runFuzzingCampaign_congr hfuzzer hguidance hrun
    exact ⟨c', hrun', hcorpus.symm⟩
  · rintro ⟨c', hrun', rfl⟩
    obtain ⟨c, hrun, hcorpus⟩ := runFuzzingCampaign_congr hfuzzer.symm hguidance.symm hrun'
    exact ⟨c, hrun, hcorpus.symm⟩

/-- An iteration at a clock reading, on a target that answers. -/
def answeredAt (randSeed : ℕ) : Iteration Unstructured where
  draws := { data := seedData 512 randSeed }
  randSeed
  result := { closedConnection with responseData := some [0xD0, 0x00], executionTimeMs := 7 }

/-- The campaign that shortens a PINGREQ packet does so whatever the target answers. -/
theorem runFuzzingCampaign_ignores_coverage_shortens : ∃ c byte,
    runFuzzingCampaign (mqttEngine fun _ => some []) [[0xC0, 0x00]] [answeredAt 2] = .ok c ∧
      c.testCases = [[0xC0, 0x00], [byte]] := by
  obtain ⟨c, byte, hrun, -, hcases⟩ := runFuzzingCampaign_shortens
  obtain ⟨c', hrun', hcorpus⟩ := ((runFuzzingCampaign_ignores_coverage (mqttEngine fun _ => none)
    (mqttEngine fun _ => some []) [[0xC0, 0x00]] [iterationAt 2] [answeredAt 2] rfl rfl).2
    [[0xC0, 0x00], [byte]]).mp ⟨c, hrun, hcases⟩
  exact ⟨c', byte, hrun', hcorpus⟩

end ProtocolFuzzer.Fuzzer
