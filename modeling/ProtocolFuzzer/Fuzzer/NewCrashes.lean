/-
# When there are new crashes

`hasNewCrashes` compares two lengths that were taken at different times. In terms of the
calls, it asks whether some input was reported for the first time after the count was last
read. `NewSinceCount` says that of a sequence of calls; one more call changes it as one
more call changes the answer.
-/

import ProtocolFuzzer.Fuzzer.CrashAccounting

namespace ProtocolFuzzer.Fuzzer

/-- No earlier call reported an input with the digest of this one. -/
def FirstReport (earlier : List Call) (report : Report) : Prop :=
  ∀ crash ∈ reported earlier, crash.inputHash ≠ calculateHash report.inputData

/-- An input was reported for the first time, and the count was not read since. -/
def NewSinceCount (calls : List Call) : Prop :=
  ∃ earlier report later, calls = earlier ++ .recordCrash report :: later ∧
    FirstReport earlier report ∧ Call.crashCount ∉ later

/-- A call in a sequence is its last one or one of those before it. -/
theorem concat_eq_append_cons_iff {calls earlier later : List Call} {last call : Call} :
    calls ++ [last] = earlier ++ call :: later ↔
      later = [] ∧ calls = earlier ∧ last = call ∨
        ∃ between, later = between ++ [last] ∧ calls = earlier ++ call :: between := by
  constructor
  · intro shape
    rcases List.eq_nil_or_concat' later with rfl | ⟨between, final, rfl⟩
    · obtain ⟨rfl, hlast⟩ := List.append_inj' shape rfl
      exact .inl ⟨rfl, rfl, (List.cons.inj hlast).1⟩
    · rw [← List.cons_append, ← List.append_assoc] at shape
      obtain ⟨rfl, hlast⟩ := List.append_inj' shape rfl
      exact .inr ⟨between, by rw [hlast], rfl⟩
  · rintro (⟨rfl, rfl, rfl⟩ | ⟨between, rfl, rfl⟩)
    · rfl
    · rw [List.append_assoc, List.cons_append]

theorem not_newSinceCount_nil : ¬ NewSinceCount [] := by
  rintro ⟨earlier, report, later, shape, -⟩
  simp at shape

/-- Reading the count. -/
theorem not_newSinceCount_crashCount (calls : List Call) :
    ¬ NewSinceCount (calls ++ [.crashCount]) := by
  rintro ⟨earlier, report, later, shape, -, unread⟩
  rcases concat_eq_append_cons_iff.mp shape with ⟨-, -, hlast⟩ | ⟨between, rfl, -⟩
  · cases hlast
  · exact unread (List.mem_append_right between List.mem_cons_self)

/-- Reporting a crash. -/
theorem newSinceCount_recordCrash (calls : List Call) (report : Report) :
    NewSinceCount (calls ++ [.recordCrash report]) ↔
      NewSinceCount calls ∨ FirstReport calls report := by
  constructor
  · rintro ⟨earlier, first, later, shape, hfirst, unread⟩
    rcases concat_eq_append_cons_iff.mp shape with ⟨-, rfl, hlast⟩ | ⟨between, rfl, rfl⟩
    · cases hlast
      exact .inr hfirst
    · exact .inl ⟨earlier, first, between, rfl, hfirst,
        fun hmem => unread (List.mem_append_left _ hmem)⟩
  · rintro (⟨earlier, first, later, rfl, hfirst, unread⟩ | hfirst)
    · refine ⟨earlier, first, later ++ [.recordCrash report], by simp, hfirst, fun hmem => ?_⟩
      rcases List.mem_append.mp hmem with hmem | hmem
      · exact unread hmem
      · cases List.mem_singleton.mp hmem
    · exact ⟨calls, report, [], rfl, hfirst, List.not_mem_nil⟩

/-- A report is a first one exactly when the detector does not know its digest. -/
theorem firstReport_iff (calls : List Call) (report : Report) :
    FirstReport calls report ↔
      calculateHash report.inputData ∉ (runCalls calls).crashHashes := by
  rw [(accounted_runCalls calls).mem_crashHashes]
  exact ⟨fun hfirst ⟨crash, hmem, hhash⟩ => hfirst crash hmem hhash,
    fun hnew crash hmem hhash => hnew ⟨crash, hmem, hhash⟩⟩

theorem runCalls_concat (calls : List Call) (call : Call) :
    runCalls (calls ++ [call]) = (runCalls calls).step call := by
  rw [runCalls, List.foldl_append]
  rfl

/-- The remembered count is one the list had, and the answer is about the calls since. -/
theorem hasNewCrashes_invariant (calls : List Call) :
    (runCalls calls).lastCrashCount ≤ (runCalls calls).crashes.length ∧
      ((runCalls calls).hasNewCrashes = true ↔ NewSinceCount calls) := by
  induction calls using List.reverseRecOn with
  | nil => exact ⟨le_rfl, iff_of_false (by decide) not_newSinceCount_nil⟩
  | append_singleton calls call ih =>
      obtain ⟨hle, hnew⟩ := ih
      rw [CrashDetector.hasNewCrashes, decide_eq_true_eq] at hnew
      rw [CrashDetector.hasNewCrashes, decide_eq_true_eq, runCalls_concat]
      cases call with
      | crashCount =>
          exact ⟨le_rfl, iff_of_false (lt_irrefl _) (not_newSinceCount_crashCount calls)⟩
      | recordCrash report =>
          have hread : ((runCalls calls).recordCrash report).lastCrashCount =
              (runCalls calls).lastCrashCount := by
            rw [CrashDetector.recordCrash]
            split_ifs <;> rfl
          rw [CrashDetector.step, hread, newSinceCount_recordCrash, firstReport_iff]
          by_cases known : calculateHash report.inputData ∈ (runCalls calls).crashHashes
          · rw [CrashDetector.recordCrash, if_pos known]
            exact ⟨hle, hnew.trans (or_iff_left (not_not.mpr known)).symm⟩
          · rw [CrashDetector.crashes_recordCrash known, List.length_append,
              List.length_singleton]
            exact ⟨by omega, iff_of_true (by omega) (.inr known)⟩

/-- There are new crashes exactly when an input was reported for the first time since the
count was last read. Reporting a known input changes no answer. -/
theorem hasNewCrashes_iff (calls : List Call) :
    ((runCalls calls).hasNewCrashes = true ↔
      ∃ earlier report later, calls = earlier ++ .recordCrash report :: later ∧
        FirstReport earlier report ∧ Call.crashCount ∉ later) ∧
      ∀ report, ¬ FirstReport calls report →
        (runCalls (calls ++ [.recordCrash report])).hasNewCrashes =
          (runCalls calls).hasNewCrashes := by
  refine ⟨(hasNewCrashes_invariant calls).2, fun report hknown => ?_⟩
  rw [Bool.eq_iff_iff, (hasNewCrashes_invariant _).2, (hasNewCrashes_invariant calls).2,
    newSinceCount_recordCrash, or_iff_left hknown]

end ProtocolFuzzer.Fuzzer
