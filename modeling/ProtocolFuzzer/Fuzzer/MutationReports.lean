/-
# What a mutation reports

Two strategies compare their result with the input before they report, so their reports
are true. The field and the structural strategy report a mutation of every nonempty input:
also when the packet is too short for what was drawn, and when the bytes they write are
there already. The hybrid strategy only skips when all its rounds have, and every round
that skips leaves the data alone.
-/

import ProtocolFuzzer.Fuzzer.StructuralMutation

namespace ProtocolFuzzer.Fuzzer

open Math Platform

/-- A mutation is reported where the data has changed (the hybrid strategy excepted, whose
rounds may undo each other), and where none is reported they have not. -/
structure Truthful (strategy : MutationStrategy) (data : List UInt8)
    (outcome : MutationResult × List UInt8) : Prop where
  mutated : strategy ≠ .hybridMutation → outcome.1 = .mutated → outcome.2 ≠ data
  skipped : outcome.1 = .skipped → outcome.2 = data

variable {ρ : Type} [RandSource ρ]

/-- The strategy skips the empty input and reports a mutation of every other; the input is
changed under a condition. -/
structure ReportsMutation {σ : Type}
    (mutation : List UInt8 → Fallible σ (MutationResult × List UInt8))
    (changes : σ → List UInt8 → Prop) : Prop where
  empty : mutation [] = pure (.skipped, [])
  nonempty : ∀ {data}, data ≠ [] → ∀ s, CompletesFrom s (mutation data) fun outcome =>
    outcome.1 = .mutated ∧ (outcome.2 = data ↔ ¬ changes s data)

/-- A field fits in the packet, and the drawn bytes are not there already. -/
def OverwriteChanges (width : ℕ) (toBytes : ℕ → List UInt8) (r : ρ) (data : List UInt8) : Prop :=
  width ≤ data.length ∧
    (data.drop ((output r 0).toNat % (data.length - (width - 1)))).take width ≠
      toBytes (output r 1).toNat

/-- The drawn field mutation changes something; a flipped bit always does. -/
def FieldChanges (r : ρ) (data : List UInt8) : Prop :=
  match (output r 0).toNat % 3 with
  | 0 => OverwriteChanges 2 (fun newLen => toBE16 (UInt16.ofNat newLen)) (randNext.run r).2 data
  | 1 => True
  | _ => OverwriteChanges 4 (fun newId => toBE32 (UInt32.ofNat newId)) (randNext.run r).2 data

/-- The sections do not overlap and hold different bytes, as far as the second reaches. -/
def SectionsDiffer (data : List UInt8) (start1 length1 start2 : ℕ) : Prop :=
  start1 + length1 ≤ start2 ∧ (data.drop start1).take (min length1 (data.length - start2)) ≠
    (data.drop start2).take (min length1 (data.length - start2))

/-- The packet is long enough for the drawn mutation, and a swap exchanges different
sections. -/
def StructureChanges (r : ρ) (data : List UInt8) : Prop :=
  match mutationType r with
  | 0 => True
  | 1 => 2 ≤ data.length
  | 2 => 5 ≤ data.length
  | _ => 9 ≤ data.length ∧ SectionsDiffer data (section1Start (randNext.run r).2 data.length)
      (section1Len (randNext.run r).2 data.length) (section2Start (randNext.run r).2 data.length)

/-- What the report of a strategy depends on. -/
def ReportHolds (r : ρ) (data : List UInt8) : MutationStrategy → Prop
  | .fieldMutation => data = [] ∨ FieldChanges r data
  | .structuralMutation => data = [] ∨ StructureChanges r data
  | _ => True

theorem writeBytes_eq_overwriteFrom {data : List UInt8} {pos : ℕ} {bytes : List UInt8}
    (inside : pos + bytes.length ≤ data.length) :
    writeBytes data pos bytes = overwriteFrom data pos bytes := by
  induction bytes generalizing data pos with
  | nil => rfl
  | cons byte bytes ih =>
      rw [List.length_cons] at inside
      have hpos : pos < data.length := by omega
      rw [writeBytes, overwriteFrom, if_pos hpos, assign_of_lt hpos, ok_bind, ok_bind]
      apply ih
      rw [List.length_set]
      omega

/-- Writing bytes changes the data unless they are there already. -/
theorem completes_writeBytes {σ : Type} {data : List UInt8} {pos : ℕ} {bytes : List UInt8}
    (inside : pos + bytes.length ≤ data.length) :
    Completes (liftM (writeBytes data pos bytes) : Fallible σ _) fun result =>
      result = data ↔ (data.drop pos).take bytes.length = bytes := by
  have hbefore : (data.take pos).length = pos := List.length_take_of_le (by omega)
  have hsame : bytes.length = ((data.drop pos).take bytes.length).length := by
    rw [List.length_take, List.length_drop]
    omega
  have hdata : data = data.take pos ++ ((data.drop pos).take bytes.length ++
      (data.drop pos).drop bytes.length) := by
    rw [List.take_append_drop, List.take_append_drop]
  generalize data.take pos = before at hbefore hdata
  generalize (data.drop pos).take bytes.length = old at hsame hdata ⊢
  generalize (data.drop pos).drop bytes.length = after at hdata
  subst hdata hbefore
  rw [writeBytes_eq_overwriteFrom inside, overwriteFrom_block before hsame]
  apply completes_lift
  apply returns_ok
  rw [List.append_cancel_left_eq, List.append_cancel_right_eq]
  exact eq_comm

theorem overwriteField_changes {width : ℕ} (nonzero : 0 < width) {toBytes : ℕ → List UInt8}
    (hwidth : ∀ value, (toBytes value).length = width) (data : List UInt8) (r : ρ) :
    CompletesFrom r (overwriteField width toBytes data) fun result =>
      result = data ↔ ¬ OverwriteChanges width toBytes r data := by
  rw [overwriteField]
  by_cases long : width ≤ data.length
  · have hgap : 0 < data.length - (width - 1) := by omega
    have hpos := Nat.mod_lt (output r 0).toNat hgap
    have inside : (output r 0).toNat % (data.length - (width - 1)) +
        (toBytes (output r 1).toNat).length ≤ data.length := by
      rw [hwidth]
      omega
    rw [if_pos long]
    apply CompletesFrom.draw_bind
    apply CompletesFrom.lift_bind (rem_of_pos hgap)
    apply CompletesFrom.draw_bind
    apply (completes_writeBytes inside _).mono
    intro result hresult
    rw [hresult, OverwriteChanges, hwidth]
    simp only [long, true_and, not_not]
  · rw [if_neg long]
    apply completes_pure
    exact iff_of_true rfl fun h => long h.1

/-- A flipped bit changes the data. -/
theorem flipFlag_changes {data : List UInt8} (nonempty : data ≠ []) :
    Completes (flipFlag data : Fallible ρ _) fun result => result ≠ data := by
  have hempty : ¬ data.isEmpty = true := by
    rwa [List.isEmpty_iff]
  rw [flipFlag, if_neg hempty]
  apply Completes.bind (completes_draw _)
  intro drawn _
  apply Completes.bind (completes_rem drawn (List.length_pos_iff.mpr nonempty))
  intro pos inside
  apply Completes.bind (completes_draw _)
  intro bit _
  apply Completes.bind (completes_index inside)
  intro byte hbyte
  apply (completes_assign inside _).mono
  intro result hresult same
  have hmask : ∀ k < 8, (1 : UInt8) <<< UInt8.ofNat k ≠ 0 := by decide
  have hset : (data.set pos (byte ^^^ 1 <<< UInt8.ofNat (bit % 8)))[pos]? = data[pos]? := by
    rw [← hresult, same]
  rw [List.getElem?_set_self inside, List.getElem?_eq_getElem inside, ← hbyte,
    Option.some.injEq] at hset
  have hzero := (UInt8.xor_right_inj byte).mp (hset.trans UInt8.xor_zero.symm)
  exact hmask (bit % 8) (Nat.mod_lt bit (by decide)) hzero

theorem applyFieldMutation_changes {data : List UInt8} (nonempty : data ≠ []) (r : ρ) :
    CompletesFrom r (applyFieldMutation data) fun outcome =>
      outcome.1 = .mutated ∧ (outcome.2 = data ↔ ¬ FieldChanges r data) := by
  have hempty : ¬ data.isEmpty = true := by
    rwa [List.isEmpty_iff]
  have hidx : (output r 0).toNat % 3 < 3 := Nat.mod_lt _ (by decide)
  have hreport : ∀ {mutation : List UInt8 → Fallible ρ (List UInt8)} {condition : Prop},
      CompletesFrom (randNext.run r).2 (mutation data) (fun result => result = data ↔ condition) →
      CompletesFrom (randNext.run r).2 (do
        let data ← mutation data
        pure (MutationResult.mutated, data)) fun outcome =>
          outcome.1 = .mutated ∧ (outcome.2 = data ↔ condition) :=
    fun h => h.bind fun result hresult => completes_pure ⟨rfl, hresult⟩
  rw [applyFieldMutation, if_neg hempty]
  apply CompletesFrom.draw_bind
  apply CompletesFrom.lift_bind (rem_of_pos (Nat.zero_lt_succ 2))
  change CompletesFrom _ (liftM (index fieldMutations ((output r 0).toNat % 3)) >>= _) _
  rw [FieldChanges]
  generalize (output r 0).toNat % 3 = idx at hidx
  match idx, hidx with
  | 0, _ =>
      apply CompletesFrom.lift_bind rfl
      exact hreport (overwriteField_changes (Nat.zero_lt_succ 1) (fun _ => rfl) data _)
  | 1, _ =>
      apply CompletesFrom.lift_bind rfl
      apply hreport
      apply (flipFlag_changes nonempty _).mono
      intro result hresult
      exact iff_of_false hresult (not_not.mpr trivial)
  | 2, _ =>
      apply CompletesFrom.lift_bind rfl
      exact hreport (overwriteField_changes (Nat.zero_lt_succ 3) (fun _ => rfl) data _)

theorem applyFieldMutation_reports :
    ReportsMutation (applyFieldMutation (ρ := ρ)) FieldChanges where
  empty := rfl
  nonempty nonempty r := applyFieldMutation_changes nonempty r

/-- Exchanging two sections changes the data exactly when they differ. -/
theorem SwapsSections.eq_iff {data result : List UInt8} {start1 length1 start2 : ℕ}
    (h : SwapsSections data start1 length1 start2 result) :
    result = data ↔ ¬ SectionsDiffer data start1 length1 start2 := by
  rw [SwapsSections] at h
  split_ifs at h with disjoint
  · obtain ⟨before, first, between, second, after, hbefore, hplace, hsame, hsecond, hdata, rfl⟩ := h
    have hfirst : (data.drop start1).take second.length = first := by
      rw [hdata, ← hsame, take_drop_block hbefore]
    have hlast : (data.drop start2).take second.length = second := by
      rw [hdata, take_drop_second_block hplace]
    rw [SectionsDiffer, ← hsecond, hfirst, hlast, hdata]
    simp only [disjoint, true_and, not_not, List.append_cancel_left_eq]
    constructor
    · intro heq
      exact (List.append_inj_left heq hsame.symm).symm
    · intro heq
      rw [heq]
  · exact iff_of_true h fun hdiffer => disjoint hdiffer.1

theorem applyStructuralMutation_changes {data : List UInt8} (nonempty : data ≠ []) (r : ρ) :
    CompletesFrom r (applyStructuralMutation data) fun outcome =>
      outcome.1 = .mutated ∧ (outcome.2 = data ↔ ¬ StructureChanges r data) := by
  have hempty : ¬ data.isEmpty = true := by
    rwa [List.isEmpty_iff]
  have hknown : mutationType r < 4 := Nat.mod_lt _ (by decide)
  have hmutation : CompletesFrom (randNext.run r).2 (structuralMutation data (mutationType r))
      fun result => result = data ↔ ¬ StructureChanges r data := by
    rw [StructureChanges]
    generalize mutationType r = type at hknown
    match type, hknown with
    | 0, _ =>
        apply (insertRandomBytes_adds data _).mono
        rintro result ⟨block, hblock⟩
        exact iff_of_false hblock.ne.symm (not_not.mpr trivial)
    | 1, _ =>
        apply (deleteBytes_removes data _).mono
        rintro result ⟨hlong, hshort⟩
        by_cases long : 2 ≤ data.length
        · obtain ⟨block, hblock⟩ := hlong long
          exact iff_of_false hblock.ne (not_not.mpr long)
        · exact iff_of_true (hshort (Nat.not_le.mp long)) long
    | 2, _ =>
        apply (duplicateSection_copies data _).mono
        rintro result ⟨hlong, hshort⟩
        by_cases long : 5 ≤ data.length
        · obtain ⟨block, -, hblock⟩ := hlong long
          exact iff_of_false hblock.ne.symm (not_not.mpr long)
        · exact iff_of_true (hshort (Nat.not_le.mp long)) long
    | 3, _ =>
        by_cases long : 8 < data.length
        · apply (swapSections_swaps long _).mono
          intro result hresult
          rw [hresult.eq_iff]
          simp only [show 9 ≤ data.length from long, true_and]
        · rw [structuralMutation, swapSections, if_neg long]
          apply completes_pure
          exact iff_of_true rfl fun hchanges => long hchanges.1
  rw [applyStructuralMutation, if_neg hempty]
  apply CompletesFrom.draw_bind
  apply hmutation.bind
  intro result hresult
  exact completes_pure ⟨rfl, hresult⟩

theorem applyStructuralMutation_reports :
    ReportsMutation (applyStructuralMutation (ρ := ρ)) StructureChanges where
  empty := rfl
  nonempty nonempty r := applyStructuralMutation_changes nonempty r

/-- A strategy that compares its result with the input reports what it sees. -/
theorem replaceData_truthful (strategy : MutationStrategy) (currentData : List UInt8)
    (mutated : Option (List UInt8)) :
    Truthful strategy currentData (replaceData currentData mutated) := by
  have hskipped : Truthful strategy currentData (.skipped, currentData) := {
    mutated := fun _ h => (nomatch h)
    skipped := fun _ => rfl }
  cases mutated with
  | none => exact hskipped
  | some mutatedData =>
      rw [replaceData]
      split_ifs with differs
      · exact ⟨fun _ _ => differs, fun h => (nomatch h)⟩
      · exact hskipped

namespace ReportsMutation

variable {σ : Type} {mutation : List UInt8 → Fallible σ (MutationResult × List UInt8)}
  {changes : σ → List UInt8 → Prop}

/-- A strategy that reports a mutation in any case is right where it changed something. -/
theorem truthful_iff (h : ReportsMutation mutation changes) {strategy : MutationStrategy}
    (simple : strategy ≠ .hybridMutation) (data : List UInt8) (s : σ) :
    YieldsFrom s (mutation data) (Truthful strategy data) ↔ data = [] ∨ changes s data := by
  by_cases empty : data = []
  · subst empty
    rw [h.empty]
    exact iff_of_true (yieldsFrom_pure (replaceData_truthful strategy [] none) s) (.inl rfl)
  · rw [or_iff_right empty]
    apply (h.nonempty empty s).yieldsFrom_iff
    intro outcome ⟨mutated, hiff⟩
    constructor
    · intro truthful
      exact not_not.mp (mt hiff.mpr (truthful.mutated simple mutated))
    · intro hchanges
      refine ⟨fun _ _ same => hiff.mp same hchanges, fun skipped => ?_⟩
      rw [mutated] at skipped
      cases skipped

theorem skipped (h : ReportsMutation mutation changes) (data : List UInt8) (s : σ) :
    YieldsFrom s (mutation data) fun outcome => outcome.1 = .skipped → outcome.2 = data := by
  by_cases empty : data = []
  · subst empty
    rw [h.empty]
    exact yieldsFrom_pure (fun _ => rfl) s
  · refine (h.nonempty empty s).yieldsFrom fun outcome reported skipped => ?_
    rw [reported.1] at skipped
    cases skipped

end ReportsMutation

namespace ProtocolMutator

variable (m : ProtocolMutator)

theorem applyProtocolSpecificMutation_truthful (strategy : MutationStrategy) (data : List UInt8)
    (s : Sources ρ) :
    YieldsFrom s (m.applyProtocolSpecificMutation data) (Truthful strategy data) := by
  refine yieldsFrom_bind fun randVal s₁ => yieldsFrom_bind fun seedData s₂ =>
    yieldsFrom_bind fun mutated s₃ => ?_
  exact yieldsFrom_pure (replaceData_truthful strategy data mutated) s₃

theorem applyGrammarBasedMutation_truthful (strategy : MutationStrategy) (data : List UInt8)
    (s : Sources ρ) :
    YieldsFrom s (m.applyGrammarBasedMutation data) (Truthful strategy data) := by
  rw [applyGrammarBasedMutation]
  split_ifs
  · exact yieldsFrom_pure (replaceData_truthful strategy data none) s
  · refine yieldsFrom_bind fun drawn s₁ => yieldsFrom_bind fun mutationIdx s₂ =>
      yieldsFrom_bind fun mutation s₃ => yieldsFrom_bind fun randVal s₄ =>
        yieldsFrom_bind fun seedData s₅ => yieldsFrom_bind fun mutated s₆ => ?_
    exact yieldsFrom_pure (replaceData_truthful strategy data mutated) s₆

/-- A round that skips leaves the data alone. -/
theorem applyRound_skipped (data : List UInt8) (strategy : MutationStrategy) (s : Sources ρ) :
    YieldsFrom s (m.applyRound data strategy) fun outcome =>
      outcome.1 = .skipped → outcome.2 = data := by
  cases strategy with
  | protocolSpecific =>
      intro outcome s' hrun
      exact (m.applyProtocolSpecificMutation_truthful .protocolSpecific data s _ _ hrun).skipped
  | grammarBased =>
      intro outcome s' hrun
      exact (m.applyGrammarBasedMutation_truthful .grammarBased data s _ _ hrun).skipped
  | fieldMutation => exact applyFieldMutation_reports.skipped data s
  | structuralMutation => exact applyStructuralMutation_reports.skipped data s
  | hybridMutation => exact yieldsFrom_pure (fun _ => rfl) s

/-- Rounds without a mutation leave the data alone. -/
theorem applyRounds_skipped (rounds : ℕ) (mutated : Bool) (data : List UInt8) (s : Sources ρ) :
    YieldsFrom s (m.applyRounds rounds mutated data) fun outcome =>
      outcome.1 = false → mutated = false ∧ outcome.2 = data := by
  induction rounds generalizing mutated data s with
  | zero => exact yieldsFrom_pure (fun h => ⟨h, rfl⟩) s
  | succ rounds ih =>
      refine yieldsFrom_bind fun drawn s₁ => yieldsFrom_bind fun last s₂ =>
        yieldsFrom_bind fun strategyIdx s₃ => yieldsFrom_bind fun strategy s₄ =>
          (m.applyRound_skipped data strategy s₄).bind fun round hround s₅ => ?_
      intro outcome s' hrun hnone
      obtain ⟨hmutated, hdata⟩ := ih _ _ s₅ outcome s' hrun hnone
      obtain ⟨hbefore, hskipped⟩ := Bool.or_eq_false_iff.mp hmutated
      have hresult : round.1 = .skipped := by
        cases hreport : round.1 with
        | mutated =>
            rw [hreport] at hskipped
            cases hskipped
        | skipped => rfl
      exact ⟨hbefore, hdata.trans (hround hresult)⟩

theorem applyHybridMutation_truthful (data : List UInt8) (s : Sources ρ) :
    YieldsFrom s (m.applyHybridMutation data) (Truthful .hybridMutation data) := by
  refine yieldsFrom_bind fun drawn s₁ =>
    (m.applyRounds_skipped _ false data s₁).bind fun outcome h s₂ => ?_
  apply yieldsFrom_pure
  refine ⟨fun simple => absurd rfl simple, fun skipped => ?_⟩
  apply (h _).2
  cases hmutated : outcome.1 with
  | true =>
      rw [hmutated] at skipped
      cases skipped
  | false => rfl

/-- The report of a strategy is true in every case of the hybrid strategy and of those that
compare, and otherwise exactly when the strategy changed something or had no data. -/
theorem applyStrategy_truthful_iff (strategy : MutationStrategy) (data : List UInt8)
    (s : Sources ρ) :
    YieldsFrom s (m.applyStrategy data strategy) (Truthful strategy data) ↔
      ReportHolds s data strategy := by
  cases strategy with
  | protocolSpecific =>
      exact iff_of_true (m.applyProtocolSpecificMutation_truthful _ data s) trivial
  | grammarBased => exact iff_of_true (m.applyGrammarBasedMutation_truthful _ data s) trivial
  | fieldMutation => exact applyFieldMutation_reports.truthful_iff (by decide) data s
  | structuralMutation => exact applyStructuralMutation_reports.truthful_iff (by decide) data s
  | hybridMutation => exact iff_of_true (m.applyHybridMutation_truthful data s) trivial

/-- The length field of a packet of one byte is not overwritten, and a mutation reported. -/
theorem applyStrategy_short_packet :
    ¬ YieldsFrom (⟨fun _ => 0, fun _ => 0⟩ : Sources (ℕ → UInt64))
      ((new mqttGrammarFuzzer).applyStrategy [0x10] .fieldMutation)
      (Truthful .fieldMutation [0x10]) := by
  intro truthful
  have report := truthful (.mutated, [0x10]) _ rfl
  exact report.mutated (by decide) rfl rfl

/-- The strategy `mutate` draws. -/
def drawnStrategy (s : Sources ρ) : MutationStrategy :=
  match (output s 0).toNat % 5 with
  | 0 => .protocolSpecific
  | 1 => .grammarBased
  | 2 => .fieldMutation
  | 3 => .structuralMutation
  | _ => .hybridMutation

/-- So what `mutate` reports is what the drawn strategy reports. -/
theorem mutate_run (protocolFuzzer : GrammarFuzzer Unstructured) (data : List UInt8)
    (s : Sources ρ) :
    ((new protocolFuzzer).mutate data).run s =
      ((new protocolFuzzer).applyStrategy data (drawnStrategy s)).run (randNext.run s).2 := by
  have hidx : (output s 0).toNat % 5 < 5 := Nat.mod_lt _ (by decide)
  have hstrategy : index (new protocolFuzzer).mutationStrategies ((output s 0).toNat % 5) =
      .ok (drawnStrategy s) := by
    rw [drawnStrategy]
    generalize (output s 0).toNat % 5 = idx at hidx
    match idx, hidx with
    | 0, _ | 1, _ | 2, _ | 3, _ | 4, _ => rfl
  change (liftM (index (new protocolFuzzer).mutationStrategies ((output s 0).toNat % 5)) >>=
    (new protocolFuzzer).applyStrategy data : Fallible (Sources ρ) _).run (randNext.run s).2 = _
  rw [hstrategy]
  rfl

end ProtocolMutator

end ProtocolFuzzer.Fuzzer
