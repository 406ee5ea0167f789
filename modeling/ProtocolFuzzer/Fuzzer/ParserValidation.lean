/-
# Validating what was generated

The `validate` command goes through a directory, in whatever order the directory has, and
validates the files with the extension `bin`. Over the directory that the `generate` command
wrote, it finds two packets for every test case of the MQTT fuzzer, since no name is used
twice, and the valid ones are accepted. Files that were in the directory before are counted
with them.
-/

import ProtocolFuzzer.Fuzzer.CampaignSafety
import ProtocolFuzzer.Fuzzer.Results
import ProtocolFuzzer.Fuzzer.TestCases
import ProtocolFuzzer.Protocols.MQTT.Streams

namespace ProtocolFuzzer.Fuzzer

open Math Platform

/-- `path.extension()` of a file with the given name. -/
def extension (name : String) : Option String :=
  match name.toList.reverse.span (· ≠ '.') with
  | (ext, _ :: _ :: _) => some (String.ofList ext.reverse)
  | _ => none

/-- What the command reports. -/
structure ValidationCounts where
  validCount : ℕ := 0
  invalidCount : ℕ := 0
  totalCount : ℕ := 0
  deriving DecidableEq

/-- Read and validate one entry of the directory. -/
def validateEntry (validate : List UInt8 → Checked Bool) (counts : ValidationCounts)
    (entry : Σ _ : String, List UInt8) : Checked ValidationCounts :=
  if extension entry.1 = some "bin" then do
    let counts := { counts with totalCount := counts.totalCount + 1 }
    if ← validate entry.2 then pure { counts with validCount := counts.validCount + 1 }
    else pure { counts with invalidCount := counts.invalidCount + 1 }
  else
    pure counts

/-- `validate_protocol_parser` over the entries of a directory, in their order. -/
def validateProtocolParser (validate : List UInt8 → Checked Bool)
    (entries : List (Σ _ : String, List UInt8)) : Checked ValidationCounts :=
  entries.foldlM (validateEntry validate) {}

/-- The entries that are validated. -/
def IsTestCase (entry : Σ _ : String, List UInt8) : Prop := extension entry.1 = some "bin"

instance (entry : Σ _ : String, List UInt8) : Decidable (IsTestCase entry) :=
  inferInstanceAs (Decidable (_ = _))

variable {validate : List UInt8 → Checked Bool}

/-- The entries that are accepted. -/
def Accepted (validate : List UInt8 → Checked Bool) (entry : Σ _ : String, List UInt8) : Prop :=
  IsTestCase entry ∧ (validate entry.2).toOption = some true

instance (entry : Σ _ : String, List UInt8) : Decidable (Accepted validate entry) :=
  inferInstanceAs (Decidable (_ ∧ _))

/-- The counts describe the entries seen. -/
structure CountsEntries (validate : List UInt8 → Checked Bool)
    (seen : List (Σ _ : String, List UInt8)) (counts : ValidationCounts) : Prop where
  total : counts.totalCount = seen.countP fun entry => IsTestCase entry
  valid : counts.validCount = seen.countP fun entry => Accepted validate entry
  split : counts.validCount + counts.invalidCount = counts.totalCount

theorem countP_concat {α : Type} (p : α → Prop) [DecidablePred p] (xs : List α) (x : α) :
    ((xs ++ [x]).countP fun x => p x) = (xs.countP fun x => p x) + if p x then 1 else 0 := by
  simp [List.countP_append, List.countP_singleton]

theorem CountsEntries.start : CountsEntries validate [] {} where
  total := rfl
  valid := rfl
  split := rfl

theorem CountsEntries.step {seen : List (Σ _ : String, List UInt8)}
    {counts counts' : ValidationCounts} {entry : Σ _ : String, List UInt8}
    (h : CountsEntries validate seen counts)
    (hstep : validateEntry validate counts entry = .ok counts') :
    CountsEntries validate (seen ++ [entry]) counts' := by
  obtain ⟨htotal, hvalid, hsplit⟩ := h
  rw [validateEntry] at hstep
  split_ifs at hstep with hbin
  · have htest : IsTestCase entry := hbin
    obtain ⟨accepted, hvalidate, hcounts⟩ := bind_eq_ok.mp hstep
    have haccepted : Accepted validate entry ↔ accepted = true := by
      simp [Accepted, htest, hvalidate, Except.toOption]
    cases accepted with
    | true =>
        cases hcounts
        refine ⟨?_, ?_, ?_⟩
        · rw [countP_concat, if_pos htest, ← htotal]
        · rw [countP_concat, if_pos (haccepted.mpr rfl), ← hvalid]
        · dsimp only
          omega
    | false =>
        cases hcounts
        refine ⟨?_, ?_, ?_⟩
        · rw [countP_concat, if_pos htest, ← htotal]
        · rw [countP_concat, if_neg (by simpa using haccepted), ← hvalid]
          rfl
        · dsimp only
          omega
  · have htest : ¬ IsTestCase entry := hbin
    cases hstep
    have hrejected : ¬ Accepted validate entry := fun h => htest h.1
    refine ⟨?_, ?_, hsplit⟩
    · rw [countP_concat, if_neg htest, htotal, Nat.add_zero]
    · rw [countP_concat, if_neg hrejected, hvalid, Nat.add_zero]

/-- A validator that returns validates every directory. -/
theorem validateProtocolParser_counts (hreturns : ∀ packet, NoPanic (validate packet))
    (entries : List (Σ _ : String, List UInt8)) :
    ∃ counts, validateProtocolParser validate entries = .ok counts ∧
      CountsEntries validate entries counts := by
  have hstep : ∀ counts entry, NoPanic (validateEntry validate counts entry) ↔ True := by
    intro counts entry
    refine iff_true_intro ?_
    rw [validateEntry]
    split_ifs
    · refine (hreturns entry.2).bind fun accepted => ?_
      cases accepted <;> exact noPanic_ok _
    · exact noPanic_ok _
  obtain ⟨counts, hrun⟩ := (noPanic_foldlM_iff hstep entries {}).mpr fun _ _ => trivial
  exact ⟨counts, hrun, foldlM_run (CountsEntries validate)
    (fun _ _ _ _ h hstep => h.step hstep) CountsEntries.start hrun⟩

/-- The order of the directory does not matter. -/
theorem validateProtocolParser_perm (hreturns : ∀ packet, NoPanic (validate packet))
    {entries entries' : List (Σ _ : String, List UInt8)} (hperm : entries.Perm entries') :
    validateProtocolParser validate entries = validateProtocolParser validate entries' := by
  obtain ⟨counts, hrun, h⟩ := validateProtocolParser_counts hreturns entries
  obtain ⟨counts', hrun', h'⟩ := validateProtocolParser_counts hreturns entries'
  have htotal := h.total.trans ((hperm.countP_eq _).trans h'.total.symm)
  have hvalid := h.valid.trans ((hperm.countP_eq _).trans h'.valid.symm)
  have hinvalid : counts.invalidCount = counts'.invalidCount := by
    have hsplit := h.split
    have hsplit' := h'.split
    omega
  rw [hrun, hrun']
  cases counts
  cases counts'
  simp_all

theorem underscore_notMem_binSuffix : '_' ∉ ".bin".toList := by decide

/-- The name of a file determines the test case and the packet. -/
theorem testCaseName_inj {i j packetIdx packetIdx' : ℕ}
    (h : testCaseName i packetIdx = testCaseName j packetIdx') :
    i = j ∧ packetIdx = packetIdx' := by
  have hseparator : "_".toList = ['_'] := by decide
  have hchars := congrArg String.toList h
  simp only [testCaseName, String.toList_append, List.append_assoc, hseparator,
    List.singleton_append, List.append_cancel_left_eq] at hchars
  have hend : '_' ∉ (formatPadded 10 1 packetIdx).toList ++ ".bin".toList := by
    rw [List.mem_append, not_or]
    exact ⟨underscore_notMem_formatPadded 1 packetIdx, underscore_notMem_binSuffix⟩
  obtain ⟨hcase, -, hpacket⟩ := (List.append_cons_inj_of_notMem
    (underscore_notMem_formatPadded 6 i) hend).mp hchars
  exact ⟨formatPadded_ten_injective (String.toList_injective hcase),
    formatPadded_ten_injective (String.toList_injective (List.append_cancel_right hpacket))⟩

theorem extension_of_toList {name : String} (stem : List Char) (hne : stem ≠ [])
    (h : name.toList = stem ++ ".bin".toList) : extension name = some "bin" := by
  have hsuffix : ".bin".toList.reverse = ['n', 'i', 'b', '.'] := by decide
  obtain ⟨last, rest, hstem⟩ := List.exists_cons_of_ne_nil (List.reverse_ne_nil_iff.mpr hne)
  rw [extension, h, List.reverse_append, hsuffix, hstem]
  rfl

theorem extension_testCaseName (i packetIdx : ℕ) :
    extension (testCaseName i packetIdx) = some "bin" := by
  refine extension_of_toList ("testcase_" ++ formatPadded 10 6 i ++ "_" ++
    formatPadded 10 1 packetIdx).toList ?_ ?_
  · simp
  · rw [testCaseName, String.toList_append]

/-! ## The directory of the generated packets -/

theorem generatePackets_mqtt (s : Unstructured) : ∃ valid malformed,
    mqttFuzzer.generatePackets s = .ok [some valid, some malformed] ∧
      MQTT.validatePacket valid = .ok true := by
  have haccepted := MQTT.generateValidPacket_accepted s
  rcases hvalid : (MQTT.generateValidPacket : Gen Unstructured _).run s with ⟨valid, s₁⟩
  rw [hvalid] at haccepted
  obtain ⟨malformed, s₂, hmalformed, -⟩ := MQTT.generateMalformedPacket_ne_nil s₁
  refine ⟨valid, malformed, ?_, haccepted⟩
  have hfirst : (mqttFuzzer.generateValidPacket : Fallible Unstructured _).run s =
      .ok (some valid, s₁) := by
    change Except.ok (some (MQTT.generateValidPacket.run s).1,
      (MQTT.generateValidPacket.run s).2) = _
    rw [hvalid]
  have hsecond : (mqttFuzzer.generateMalformedPacket : Fallible Unstructured _).run s₁ =
      MQTT.generateMalformedPacket.run s₁ >>= fun r => .ok (some r.1, r.2) := rfl
  rw [PacketFuzzer.generatePackets, hfirst, ok_bind]
  dsimp only
  rw [hsecond, hmalformed]
  rfl

/-- The files of a test case with both packets. -/
def bothFiles (valid malformed : ℕ → List UInt8) (i : ℕ) : List (String × List UInt8) :=
  [(testCaseName i 0, valid i), (testCaseName i 1, malformed i)]

/-- The MQTT fuzzer writes both packets of every test case. -/
theorem generateTestCases_mqtt (random : ℕ → ℕ → UInt32) (count : ℕ) : ∃ valid malformed,
    generateTestCases mqttFuzzer random count =
        .ok ((List.range count).flatMap (bothFiles valid malformed)) ∧
      ∀ i, MQTT.validatePacket (valid i) = .ok true := by
  choose valid malformed hpackets hvalid using
    fun i => generatePackets_mqtt (testCaseSeed random i)
  refine ⟨valid, malformed, ?_, hvalid⟩
  have hfiles : (List.range count).mapM (fun i => do
      let packets ← mqttFuzzer.generatePackets (testCaseSeed random i)
      pure (testCaseFiles i packets)) =
        .ok ((List.range count).map (bothFiles valid malformed)) := by
    refine mapM_eq_map fun i _ => ?_
    rw [hpackets, ok_bind]
    rfl
  rw [generateTestCases, hfiles, ok_bind, ← List.flatMap_def]
  rfl

/-- The names of the files of both packets. -/
def testCaseNames (count : ℕ) : List String :=
  numbered (fun i => testCaseName i 0) (fun i => testCaseName i 1) count

theorem nodup_testCaseNames (count : ℕ) : (testCaseNames count).Nodup :=
  nodup_numbered (fun _ _ h => (testCaseName_inj h).1) (fun _ _ h => (testCaseName_inj h).1)
    fun _ _ h => absurd (testCaseName_inj h).2 (by decide)

theorem extension_of_mem_testCaseNames {count : ℕ} {name : String}
    (h : name ∈ testCaseNames count) : extension name = some "bin" := by
  obtain ⟨i, -, rfl | rfl⟩ := mem_numbered.mp h
  · exact extension_testCaseName i 0
  · exact extension_testCaseName i 1

theorem map_fst_bothFiles (valid malformed : ℕ → List UInt8) (count : ℕ) :
    ((List.range count).flatMap (bothFiles valid malformed)).map Prod.fst =
      testCaseNames count := by
  rw [List.map_flatMap]
  rfl

/-- What is counted in a directory, as a number of names. -/
theorem countP_isTestCase {dir : Finmap fun _ : String => List UInt8}
    {entries : List (Σ _ : String, List UInt8)} (horder : (entries : Multiset _) = dir.entries) :
    (entries.countP fun entry => IsTestCase entry) =
      (dir.keys.filter fun name => extension name = some "bin").card := by
  calc (entries.countP fun entry => IsTestCase entry)
      = (entries : Multiset _).countP IsTestCase := (Multiset.coe_countP _ entries).symm
    _ = (dir.entries.map Sigma.fst).countP fun name => extension name = some "bin" := by
      rw [horder, Multiset.countP_map, Multiset.countP_eq_card_filter]
      rfl
    _ = (dir.keys.filter fun name => extension name = some "bin").card := by
      rw [Multiset.countP_eq_card_filter]
      rfl

/-- The old names that are still there come on top of the new ones. -/
theorem card_filter_union (old : Finset String) (count : ℕ) :
    ((old ∪ (testCaseNames count).toFinset).filter fun name =>
      extension name = some "bin").card =
      2 * count + (old.filter fun name =>
        extension name = some "bin" ∧ name ∉ testCaseNames count).card := by
  have hsplit : ((old ∪ (testCaseNames count).toFinset).filter fun name =>
      extension name = some "bin") = (testCaseNames count).toFinset ∪
        old.filter fun name => extension name = some "bin" ∧ name ∉ testCaseNames count := by
    ext name
    have hnew : name ∈ testCaseNames count → extension name = some "bin" :=
      extension_of_mem_testCaseNames
    simp only [Finset.mem_filter, Finset.mem_union, List.mem_toFinset]
    tauto
  have hcard : (testCaseNames count).toFinset.card = 2 * count :=
    (List.toFinset_card_of_nodup (nodup_testCaseNames count)).trans length_numbered
  rw [hsplit, Finset.card_union_of_disjoint, hcard]
  rw [Finset.disjoint_left]
  intro name hnew hold
  exact (Finset.mem_filter.mp hold).2.2 (List.mem_toFinset.mp hnew)

/-- Accepted files with distinct names are all counted. -/
theorem length_le_countP_accepted {files : List (Σ _ : String, List UInt8)}
    {entries : List (Σ _ : String, List UInt8)} (nodup : files.Nodup)
    (hfiles : ∀ file ∈ files, file ∈ entries ∧ Accepted validate file) :
    files.length ≤ entries.countP fun entry => Accepted validate entry := by
  have hsubperm : files.Subperm entries := nodup.subperm fun file h => (hfiles file h).1
  have hall : (files.countP fun entry => Accepted validate entry) = files.length :=
    List.countP_eq_length.mpr fun file h => decide_eq_true (hfiles file h).2
  exact hall ▸ hsubperm.countP_le _

/-- Validating the directory into which MQTT packets were generated counts two packets for every
test case, together with the older files of other names, in whatever order the directory is
read. At least the valid packet of every test case is accepted. -/
theorem validateProtocolParser_generated (random : ℕ → ℕ → UInt32) (count : ℕ)
    (old : Finmap fun _ : String => List UInt8) :
    ∃ files counts, generateTestCases mqttFuzzer random count = .ok files ∧
      (∀ entries : List (Σ _ : String, List UInt8),
        (entries : Multiset _) = (writeAll old files).entries →
        validateProtocolParser MQTT.validatePacket entries = .ok counts) ∧
      counts.totalCount = 2 * count + (old.keys.filter fun name =>
        extension name = some "bin" ∧ name ∉ testCaseNames count).card ∧
      count ≤ counts.validCount ∧
      counts.validCount + counts.invalidCount = counts.totalCount := by
  obtain ⟨valid, malformed, hfiles, haccepted⟩ := generateTestCases_mqtt random count
  set files := (List.range count).flatMap (bothFiles valid malformed) with hfilesdef
  have hnames : files.map Prod.fst = testCaseNames count := map_fst_bothFiles _ _ _
  have horder : ((writeAll old files).entries.toList : Multiset _) =
      (writeAll old files).entries := Multiset.coe_toList _
  obtain ⟨counts, hrun, h⟩ := validateProtocolParser_counts MQTT.validatePacket_returns
    (writeAll old files).entries.toList
  refine ⟨files, counts, hfiles, fun entries hentries => ?_, ?_, ?_, h.split⟩
  · rw [← hrun]
    exact validateProtocolParser_perm MQTT.validatePacket_returns
      (Multiset.coe_eq_coe.mp (hentries.trans horder.symm))
  · rw [h.total, countP_isTestCase horder, keys_writeAll, hnames, card_filter_union]
  · rw [h.valid]
    have hlist : ((List.range count).map fun i =>
        (⟨testCaseName i 0, valid i⟩ : Σ _ : String, List UInt8)).length = count := by simp
    rw [← hlist]
    apply length_le_countP_accepted
    · refine List.Nodup.map (fun i j h => ?_) List.nodup_range
      exact (testCaseName_inj (congrArg Sigma.fst h)).1
    · intro file hfile
      obtain ⟨i, hi, rfl⟩ := List.mem_map.mp hfile
      have hwritten : (testCaseName i 0, valid i) ∈ files :=
        List.mem_flatMap.mpr ⟨i, hi, List.mem_cons_self⟩
      have hlookup : (writeAll old files).lookup (testCaseName i 0) = some (valid i) :=
        lookup_writeAll_of_mem (hnames ▸ nodup_testCaseNames count) hwritten
      refine ⟨Multiset.mem_toList.mpr (Finmap.mem_lookup_iff.mp hlookup),
        extension_testCaseName i 0, ?_⟩
      dsimp only
      rw [haccepted i]
      rfl

end ProtocolFuzzer.Fuzzer
