/-
# Errors in the corpus

A case without a response is meant to enter the corpus only for a unique error. The
decision is made from the outcome at hand, and nothing remembers the errors seen before.
So the corpus takes every such case whose error is not the one excluded text, and the
errors of its cases are as unique as the target makes them. `runNotingEntries` keeps the
cases that entered, with the outcomes they entered for, beside the run.
-/

import ProtocolFuzzer.Fuzzer.CampaignAccounting
import ProtocolFuzzer.Fuzzer.Execution

namespace ProtocolFuzzer.Fuzzer

open Math Platform Coverage

/-- A case that entered the corpus, and the outcome it entered for. -/
structure Entry where
  testCase : List UInt8
  result : ExecutionResult

variable {σ : Type}

/-- The entries after one more iteration. -/
def noteEntry (engine : FuzzingEngine σ) (entered : List Entry) (c : Campaign)
    (it : Iteration σ) (_ : Campaign) : List Entry :=
  if isInteresting it.result then
    entered ++ (c.mutatedCase? engine it).toList.map fun testCase => ⟨testCase, it.result⟩
  else entered

/-- A campaign beside the list of its entries, in the order of their arrival. -/
def runNotingEntries (engine : FuzzingEngine σ) (testCases : List (List UInt8))
    (iterations : List (Iteration σ)) : Checked (Campaign × List Entry) :=
  iterations.foldlM (ghostStep (Campaign.step engine) (noteEntry engine))
    (Campaign.start engine.protocolType testCases, [])

/-- The outcome has no response. -/
def Entry.silent (entry : Entry) : Bool := entry.result.responseData.isNone

/-- The error of an outcome without a response, unless it is the text of a timeout that is
normal for UDP. -/
def silentError (result : ExecutionResult) : Option String :=
  if result.responseData.isNone then result.errorMessage.filter (· ≠ "UDP timeout") else none

/-- The corpus accounts for the entries, and the entries are the interesting outcomes. -/
structure EntriesAccounted (testCases : List (List UInt8)) (history : List (Iteration σ))
    (c : Campaign) (entered : List Entry) : Prop where
  corpus : CorpusAccounted testCases history c (entered.map Entry.testCase)
  results : entered.map Entry.result = (history.map Iteration.result).filter isInteresting

theorem EntriesAccounted.start {engine : FuzzingEngine σ} {testCases : List (List UInt8)}
    (few : testCases.length ≤ 1000) :
    EntriesAccounted testCases ([] : List (Iteration σ))
      (Campaign.start engine.protocolType testCases) [] where
  corpus := CorpusAccounted.start few
  results := rfl

theorem map_testCase_noteEntry (engine : FuzzingEngine σ) (entered : List Entry) (c : Campaign)
    (it : Iteration σ) (c' : Campaign) :
    (noteEntry engine entered c it c').map Entry.testCase =
      noteInteresting engine (entered.map Entry.testCase) c it c' := by
  rw [noteEntry, noteInteresting]
  split_ifs
  · rw [List.map_append, List.map_map]
    congr 1
    exact List.map_id _
  · rfl

theorem EntriesAccounted.step {engine : FuzzingEngine σ} {testCases : List (List UInt8)}
    {history : List (Iteration σ)} {c c' : Campaign} {entered : List Entry} {it : Iteration σ}
    (h : EntriesAccounted testCases history c entered) (hstep : c.step engine it = .ok c') :
    EntriesAccounted testCases (history ++ [it]) c' (noteEntry engine entered c it c') where
  corpus := by
    rw [map_testCase_noteEntry]
    exact h.corpus.step hstep
  results := by
    obtain ⟨baseCase, mutatedCase, -, hbase, hmutate, -, -⟩ := Campaign.step_eq_ok_iff.mp hstep
    have hcase : c.mutatedCase? engine it = some mutatedCase := by
      rw [Campaign.mutatedCase?, hbase, Option.bind_some, hmutate]
      rfl
    rw [noteEntry, hcase, List.map_append, List.filter_append, ← h.results]
    cases hinteresting : isInteresting it.result with
    | true => simp [hinteresting]
    | false => simp [hinteresting]

theorem runNotingEntries_accounted {engine : FuzzingEngine σ} {testCases : List (List UInt8)}
    (few : testCases.length ≤ 1000) {iterations : List (Iteration σ)} {c : Campaign}
    {entered : List Entry}
    (hrun : runNotingEntries engine testCases iterations = .ok (c, entered)) :
    EntriesAccounted testCases iterations c entered :=
  foldlM_ghostStep_run (EntriesAccounted testCases) (fun _ _ _ _ _ h hstep => h.step hstep)
    (EntriesAccounted.start few) hrun

/-- Among the interesting outcomes, the ones without a response are those with an error that
counts. -/
theorem silentError_of_interesting (result : ExecutionResult) :
    (if isInteresting result ∧ result.responseData.isNone then some result.errorMessage
      else none) = (silentError result).map some := by
  rw [isInteresting, silentError]
  cases result.responseData with
  | some response => simp
  | none =>
      cases result.errorMessage with
      | none => simp
      | some error => by_cases normal : error = "UDP timeout" <;> simp [normal, Option.filter]

theorem errors_of_silent (results : List ExecutionResult) :
    ((results.filter isInteresting).filter fun result => result.responseData.isNone).map
        ExecutionResult.errorMessage =
      (results.filterMap silentError).map some := by
  rw [List.filter_filter, List.map_filterMap]
  induction results with
  | nil => rfl
  | cons result results ih =>
      have hfirst := silentError_of_interesting result
      rw [List.filter_cons, List.filterMap_cons, ← ih, ← hfirst]
      by_cases silent : isInteresting result ∧ result.responseData.isNone
      · simp [silent.1, silent.2]
      · rw [if_neg silent, if_neg (by simpa [and_comm] using silent)]

/-- The corpus keeps the newest thousand cases, entered or initial. The cases that entered it
without a response have different errors exactly when the executions of the run without a
response do, the one excluded text apart. -/
theorem corpusErrors_unique_iff {engine : FuzzingEngine σ} {testCases : List (List UInt8)}
    (few : testCases.length ≤ 1000) {iterations : List (Iteration σ)} {c : Campaign}
    (hrun : runFuzzingCampaign engine testCases iterations = .ok c) :
    ∃ entered, runNotingEntries engine testCases iterations = .ok (c, entered) ∧
      c.testCases = (testCases ++ entered.map Entry.testCase).rtake 1000 ∧
      ((entered.filter Entry.silent).Pairwise (fun earlier later =>
          earlier.result.errorMessage ≠ later.result.errorMessage) ↔
        (iterations.filterMap fun it => silentError it.result).Nodup) := by
  obtain ⟨entered, hentered⟩ := exists_foldlM_ghostStep (noteEntry engine) hrun []
  have h := runNotingEntries_accounted few hentered
  refine ⟨entered, hentered, h.corpus.corpus, ?_⟩
  have herrors : (entered.filter Entry.silent).map (fun entry => entry.result.errorMessage) =
      (iterations.filterMap fun it => silentError it.result).map some := by
    have hresults := errors_of_silent (iterations.map Iteration.result)
    rw [← h.results, List.filter_map, List.map_map, List.filterMap_map] at hresults
    exact hresults
  rw [← List.pairwise_map, herrors]
  exact List.nodup_map_iff (Option.some_injective _)

/-- An iteration on a target that refuses every connection. -/
def refusedIteration : Iteration Unstructured where
  draws := (iterationAt 2).draws
  randSeed := 2
  result := executeTcpTestCase (.connectError "Connection refused (os error 111)") 1

/-- A corpus that holds the PINGREQ packet twice. -/
def pingreqs : List (List UInt8) := [[0xC0, 0x00], [0xC0, 0x00]]

theorem drawsByteDeletion_refused : MQTT.DrawsByteDeletion refusedIteration.draws := by
  decide +kernel

/-- The packet is shortened by every such iteration. -/
theorem refusedIteration_step {c : Campaign} (hbase : c.baseCase? = some [0xC0, 0x00]) :
    ∃ c' byte, c.step (mqttEngine fun _ => none) refusedIteration = .ok c' ∧
      c'.iteration = c.iteration + 1 ∧ c'.testCases = addTestCase c.testCases [byte] := by
  obtain ⟨mutatedCase, s', hmutate, hlength⟩ :=
    MQTT.mutatePacket_deletes drawsByteDeletion_refused [0xC0, 0x00]
  obtain ⟨byte, rfl⟩ := List.length_eq_one_iff.mp hlength
  have interesting : isInteresting refusedIteration.result = true := by decide +kernel
  obtain ⟨c', hstep, hiteration, hcases⟩ :=
    Campaign.step_of_short (fun _ => none) hbase hmutate (by simp) interesting
  exact ⟨c', byte, hstep, hiteration, hcases⟩

theorem runFuzzingCampaign_refusedTwice : ∃ c,
    runFuzzingCampaign (mqttEngine fun _ => none) pingreqs [refusedIteration, refusedIteration] =
      .ok c := by
  obtain ⟨c, byte, hstep, hiteration, hcases⟩ :=
    @refusedIteration_step (Campaign.start .MQTT pingreqs) rfl
  have hbase : c.baseCase? = some [0xC0, 0x00] := by
    rw [Campaign.baseCase?, hiteration, hcases]
    rfl
  obtain ⟨c', byte', hstep', -, -⟩ := refusedIteration_step hbase
  have hrun : runFuzzingCampaign (mqttEngine fun _ => none) pingreqs [refusedIteration] = .ok c :=
    (runFuzzingCampaign_concat []).mpr ⟨_, rfl, hstep⟩
  exact ⟨c', (runFuzzingCampaign_concat [refusedIteration]).mpr ⟨c, hrun, hstep'⟩⟩

/-- Two refused connections in a row: their cases are not unique in the corpus. -/
theorem corpusErrors_unique_iff_refused : ∃ c entered,
    runNotingEntries (mqttEngine fun _ => none) pingreqs [refusedIteration, refusedIteration] =
        .ok (c, entered) ∧
      ¬ (entered.filter Entry.silent).Pairwise (fun earlier later =>
        earlier.result.errorMessage ≠ later.result.errorMessage) := by
  obtain ⟨c, hrun⟩ := runFuzzingCampaign_refusedTwice
  obtain ⟨entered, hentered, -, hiff⟩ := corpusErrors_unique_iff (by decide) hrun
  exact ⟨c, entered, hentered, fun hunique => absurd (hiff.mp hunique) (by decide +kernel)⟩

/-- Two cases enter the corpus of one run without a response and for the same error. -/
theorem corpusErrors_repeated : ∃ c entered,
    runNotingEntries (mqttEngine fun _ => none) pingreqs [refusedIteration, refusedIteration] =
        .ok (c, entered) ∧
      (entered.map fun entry => (entry.result.responseData, entry.result.errorMessage)) =
        [(none, some "Connection error: Connection refused (os error 111)"),
          (none, some "Connection error: Connection refused (os error 111)")] := by
  obtain ⟨c, hrun⟩ := runFuzzingCampaign_refusedTwice
  obtain ⟨entered, hentered⟩ :=
    exists_foldlM_ghostStep (noteEntry (mqttEngine fun _ => none)) hrun []
  have hresults := (runNotingEntries_accounted (by decide) hentered).results
  refine ⟨c, entered, hentered, ?_⟩
  have hoverResults :
      (entered.map fun entry => (entry.result.responseData, entry.result.errorMessage)) =
        (entered.map Entry.result).map fun result =>
          (result.responseData, result.errorMessage) := by
    rw [List.map_map]
    rfl
  rw [hoverResults, hresults]
  decide +kernel

end ProtocolFuzzer.Fuzzer
