/-
# Mutating again and again

The fuzzing library calls `mutate` on what earlier calls left. Three things could go wrong
in a call: a position could miss the data, a protocol fuzzer could stop, and a sum in the
seed buffer could overflow. Positions are always drawn in range. So where the protocol
fuzzer returns on every packet and bounds what it adds, a sequence of calls can only stop by
an overflow, after an output close to the end of its type, and otherwise grows in
proportion to its length. The DNS fuzzer is of this kind; the MQTT fuzzer is not, since it
stops on the empty packet, which a mutation can leave.
-/

import ProtocolFuzzer.Fuzzer.MutationReports
import ProtocolFuzzer.Protocols.Growth

namespace ProtocolFuzzer.Fuzzer

open Math Platform

variable {ρ : Type} [RandSource ρ] {α β : Type}

/-- One generator gives what the other gives after some outputs. -/
def Later (r r' : ρ) : Prop := ∃ used, ∀ n, output r' n = output r (n + used)

theorem Later.refl (r : ρ) : Later r r := ⟨0, fun _ => rfl⟩

theorem Later.trans {r r' r'' : ρ} (h : Later r r') (h' : Later r' r'') : Later r r'' := by
  obtain ⟨used, h⟩ := h
  obtain ⟨used', h'⟩ := h'
  refine ⟨used' + used, fun n => ?_⟩
  rw [h', h, Nat.add_assoc]

theorem later_next (r : ρ) : Later r (RandSource.next r).2 := ⟨1, fun _ => rfl⟩

/-- The outputs do not depend on the generator of the thread. -/
theorem output_sources (s : Sources ρ) (n : ℕ) : output s n = output s.rand n := by
  induction n generalizing s with
  | zero => rfl
  | succ n ih => exact ih (RandSource.next s).2

/-- Where the computation returns, it has used up outputs, and its value satisfies the
postcondition. -/
def Advances (m : Fallible ρ α) (post : α → Prop) : Prop :=
  ∀ r a r', m.run r = .ok (a, r') → post a ∧ Later r r'

theorem advances_pure {a : α} {post : α → Prop} (h : post a) :
    Advances (pure a : Fallible ρ α) post := by
  rintro r _ _ ⟨⟩
  exact ⟨h, Later.refl r⟩

theorem Advances.mono {m : Fallible ρ α} {post post' : α → Prop} (h : Advances m post)
    (weaken : ∀ a, post a → post' a) : Advances m post' :=
  fun r a r' hrun => (h r a r' hrun).imp_left (weaken a)

theorem Advances.bind {m : Fallible ρ α} {f : α → Fallible ρ β} {post : α → Prop}
    {post' : β → Prop} (hm : Advances m post) (hf : ∀ a, post a → Advances (f a) post') :
    Advances (m >>= f) post' := by
  intro r b r'' hrun
  rw [StateT.run_bind] at hrun
  obtain ⟨⟨a, r'⟩, hfirst, hsecond⟩ := bind_eq_ok.mp hrun
  obtain ⟨ha, hlater⟩ := hm r a r' hfirst
  obtain ⟨hb, hlater'⟩ := hf a ha r' b r'' hsecond
  exact ⟨hb, hlater.trans hlater'⟩

theorem advances_lift (c : Checked α) :
    Advances (liftM c : Fallible ρ α) fun a => c = .ok a := by
  intro r a r' hrun
  obtain rfl := eq_ok_of_run_lift hrun
  cases hrun
  exact ⟨rfl, Later.refl _⟩

theorem advances_draw {g : Gen ρ α} (h : ∀ r, Later r (g.run r).2) :
    Advances (draw g) fun _ => True := by
  intro r a r' hrun
  have hrest : (g.run r).2 = r' := congrArg Prod.snd (Except.ok.inj hrun)
  exact ⟨trivial, hrest ▸ h r⟩

theorem advances_randNext : Advances (draw randNext : Fallible ρ ℕ) fun _ => True :=
  advances_draw later_next

theorem advances_randBytes (n : ℕ) :
    Advances (draw (replicateDraw n randByte) : Fallible ρ _) fun _ => True := by
  apply advances_draw
  intro r
  induction n generalizing r with
  | zero => exact Later.refl r
  | succ n ih => exact (later_next r).trans (ih (RandSource.next r).2)

/-- Nothing has to be known of the value. -/
theorem advances_bind {m : Fallible ρ α} {f : α → Fallible ρ β} {post : α → Prop}
    {post' : β → Prop} (hm : Advances m post) (hf : ∀ a, Advances (f a) post') :
    Advances (m >>= f) post' := hm.bind fun a _ => hf a

theorem advances_lift_true (c : Checked α) :
    Advances (liftM c : Fallible ρ α) fun _ => True := (advances_lift c).mono fun _ _ => trivial

theorem structuralMutation_advances (data : List UInt8) (type : ℕ) :
    Advances (structuralMutation data type : Fallible ρ _) fun _ => True := by
  have hnext := @advances_randNext ρ _
  have hkept : Advances (pure data : Fallible ρ _) fun _ => True := advances_pure trivial
  match type with
  | 0 =>
      exact advances_bind hnext fun _ => advances_bind (advances_lift _) fun _ =>
        advances_bind hnext fun _ => advances_bind (advances_randBytes _) fun _ =>
          advances_lift_true _
  | 1 =>
      rw [structuralMutation, deleteBytes]
      split_ifs
      · exact advances_bind hnext fun _ => advances_bind (advances_lift _) fun _ =>
          advances_bind (advances_lift _) fun _ => advances_bind hnext fun _ =>
            advances_bind (advances_lift _) fun _ => advances_lift_true _
      · exact hkept
  | 2 =>
      rw [structuralMutation, duplicateSection]
      split_ifs
      · exact advances_bind hnext fun _ => advances_bind (advances_lift _) fun _ =>
          advances_bind hnext fun _ => advances_bind (advances_lift _) fun _ =>
            advances_bind (advances_lift _) fun _ => advances_bind hnext fun _ =>
              advances_bind (advances_lift _) fun _ => advances_lift_true _
      · exact hkept
  | 3 =>
      rw [structuralMutation, swapSections]
      split_ifs
      · refine advances_bind hnext fun _ => advances_bind (advances_lift _) fun _ =>
          advances_bind hnext fun _ => advances_bind hnext fun _ =>
            advances_bind (advances_lift _) fun _ => advances_bind (advances_lift _) fun _ => ?_
        dsimp only
        split_ifs
        · exact advances_bind (advances_lift _) fun _ => advances_bind (advances_lift _) fun _ =>
            advances_bind (advances_lift _) fun _ => advances_lift_true _
        · exact hkept
      · exact hkept
  | _ + 4 => exact hkept

/-- Writing bytes keeps the length, if it returns. -/
theorem length_of_writeBytes {data result : List UInt8} {pos : ℕ} {bytes : List UInt8}
    (h : writeBytes data pos bytes = .ok result) : result.length = data.length := by
  induction bytes generalizing data pos with
  | nil =>
      cases h
      rfl
  | cons byte bytes ih =>
      obtain ⟨next, hassign, hrest⟩ := bind_eq_ok.mp h
      rw [ih hrest, DNS.length_of_assign hassign]

theorem fieldMutations_advance {mutation : List UInt8 → Fallible ρ (List UInt8)}
    (listed : mutation ∈ fieldMutations) (data : List UInt8) :
    Advances (mutation data) fun result => result.length = data.length := by
  have hoverwrite : ∀ width toBytes,
      Advances (overwriteField width toBytes data : Fallible ρ _) fun result =>
        result.length = data.length := by
    intro width toBytes
    rw [overwriteField]
    split_ifs
    · refine advances_bind advances_randNext fun _ => advances_bind (advances_lift _) fun _ =>
        advances_bind advances_randNext fun _ => ?_
      exact (advances_lift _).mono fun _ => length_of_writeBytes
    · exact advances_pure rfl
  rw [fieldMutations, List.mem_cons, List.mem_pair] at listed
  rcases listed with rfl | rfl | rfl
  · exact hoverwrite _ _
  · rw [flipFlag]
    split_ifs
    · exact advances_pure rfl
    · refine advances_bind advances_randNext fun _ => advances_bind (advances_lift _) fun _ =>
        advances_bind advances_randNext fun _ => advances_bind (advances_lift _) fun _ => ?_
      exact (advances_lift _).mono fun _ => DNS.length_of_assign
  · exact hoverwrite _ _

theorem applyFieldMutation_advances (data : List UInt8) :
    Advances (applyFieldMutation data : Fallible ρ _) fun outcome =>
      outcome.2.length = data.length := by
  rw [applyFieldMutation]
  split_ifs
  · exact advances_pure rfl
  · refine advances_bind advances_randNext fun _ => advances_bind (advances_lift _) fun _ =>
      (advances_lift _).bind fun mutation hmutation => ?_
    exact (fieldMutations_advance (mem_of_index hmutation) data).bind fun _ h => advances_pure h

/-- The computation stops only by an overflow, and then an output is too close to the end of
its type for a seed buffer to be counted up from it. -/
structure Fares (m : Fallible ρ α) (post : α → Prop) : Prop where
  advances : Advances m post
  panics : ∀ r panic, m.run r = .error panic →
    panic = .arithmeticOverflow ∧ ∃ n, usizeRange < (output r n).toNat + 1024

namespace Fares

theorem of_completes {m : Fallible ρ α} {post post' : α → Prop} (hadvances : Advances m post)
    (hcompletes : Completes m post') : Fares m fun a => post a ∧ post' a where
  advances r a r' hrun := by
    obtain ⟨ha, hlater⟩ := hadvances r a r' hrun
    exact ⟨⟨ha, (hcompletes r).yieldsFrom (fun _ h => h) a r' hrun⟩, hlater⟩
  panics r panic hrun := by
    obtain ⟨a, r', hreturns, -⟩ := hcompletes r
    rw [hreturns] at hrun
    cases hrun

theorem mono {m : Fallible ρ α} {post post' : α → Prop} (h : Fares m post)
    (weaken : ∀ a, post a → post' a) : Fares m post' := ⟨h.advances.mono weaken, h.panics⟩

/-- The second half stops on outputs that come later. -/
theorem bind {m : Fallible ρ α} {f : α → Fallible ρ β} {post : α → Prop} {post' : β → Prop}
    (hm : Fares m post) (hf : ∀ a, post a → Fares (f a) post') : Fares (m >>= f) post' where
  advances := hm.advances.bind fun a ha => (hf a ha).advances
  panics r panic hrun := by
    rw [StateT.run_bind] at hrun
    cases hfirst : m.run r with
    | error first =>
        rw [hfirst] at hrun
        cases hrun
        exact hm.panics r _ hfirst
    | ok next =>
        obtain ⟨a, r'⟩ := next
        rw [hfirst, ok_bind] at hrun
        obtain ⟨ha, used, hlater⟩ := hm.advances r a r' hfirst
        obtain ⟨hpanic, n, hn⟩ := (hf a ha).panics r' panic hrun
        rw [hlater] at hn
        exact ⟨hpanic, n + used, hn⟩

end Fares

theorem fares_pure {a : α} {post : α → Prop} (h : post a) :
    Fares (pure a : Fallible ρ α) post :=
  (Fares.of_completes (advances_pure h) (completes_pure h)).mono fun _ h => h.1

theorem fares_randNext : Fares (draw randNext : Fallible ρ ℕ) fun _ => True :=
  (Fares.of_completes advances_randNext (completes_draw _)).mono fun _ _ => trivial

theorem fares_lift {c : Checked α} {post : α → Prop} (h : Returns c post) :
    Fares (liftM c : Fallible ρ α) post :=
  (Fares.of_completes (advances_lift c) (completes_lift h)).mono fun _ h => h.2

theorem fares_rem (a : ℕ) {b : ℕ} (h : 0 < b) :
    Fares (liftM (rem a b) : Fallible ρ ℕ) fun r => r < b :=
  fares_lift ⟨a % b, rem_of_pos h, Nat.mod_lt a h⟩

theorem fares_index {xs : List α} {i : ℕ} (h : i < xs.length) :
    Fares (liftM (index xs i) : Fallible ρ α) fun x => x ∈ xs :=
  fares_lift ⟨xs[i], index_of_lt h, List.getElem_mem h⟩

/-- Only the sums of a seed buffer can overflow. -/
theorem fares_seedBuffer {length : ℕ} (short : length ≤ 1024) :
    Fares (do seedBuffer length (← draw randNext) : Fallible ρ _) fun _ => True where
  advances := advances_bind advances_randNext fun _ => advances_lift_true _
  panics r panic hrun := by
    have hbuffer : seedBuffer length (output r 0).toNat = .error panic :=
      eq_error_of_run_lift hrun
    have hpanic : panic = .arithmeticOverflow := by
      obtain ⟨i, -, hround⟩ := exists_of_mapM_eq_error hbuffer
      rw [add] at hround
      split_ifs at hround
      · cases hround
      · exact (Except.error.inj hround).symm
    refine ⟨hpanic, 0, ?_⟩
    by_contra room
    rw [seedBuffer_eq (by omega)] at hbuffer
    cases hbuffer

theorem fares_withUnstructured {m : Fallible Unstructured α} {post : α → Prop}
    (h : Completes m post) (seedData : List UInt8) :
    Fares (withUnstructured seedData m : Fallible (Sources ρ) α) post where
  advances s a s' hrun := by
    obtain ⟨b, rest, hreturns, hb⟩ := h { data := seedData, random := s.thread }
    have hboth : (b, { s with thread := rest.random }) = (a, s') := by
      have hvalue : (withUnstructured seedData m : Fallible (Sources ρ) α).run s =
          .ok (b, { s with thread := rest.random }) := by
        change (m.run { data := seedData, random := s.thread } >>= _) = _
        rw [hreturns]
        rfl
      exact Except.ok.inj (hvalue.symm.trans hrun)
    cases hboth
    refine ⟨hb, 0, fun n => ?_⟩
    rw [output_sources, output_sources]
    rfl
  panics s panic hrun := by
    obtain ⟨b, rest, hreturns, -⟩ := h { data := seedData, random := s.thread }
    change (m.run { data := seedData, random := s.thread } >>= _) = _ at hrun
    rw [hreturns] at hrun
    cases hrun

/-- The fuzzer returns on every packet and adds a bounded number of bytes. -/
structure GrammarFuzzer.Bounded (fuzzer : GrammarFuzzer Unstructured) (growth : ℕ) : Prop where
  mutatePacket : ∀ packet, Completes (fuzzer.mutatePacket packet) fun mutated =>
    ∀ result ∈ mutated, result.length ≤ packet.length + growth
  grammarMutation : ∀ mutation ∈ fuzzer.getGrammarMutations, ∀ packet,
    Completes (mutation packet) fun mutated =>
      ∀ result ∈ mutated, result.length ≤ packet.length + growth

/-- The data have gained a bounded number of bytes. -/
def Gains (growth : ℕ) (data : List UInt8) (outcome : MutationResult × List UInt8) : Prop :=
  outcome.2.length ≤ data.length + growth

theorem replaceData_gains {growth : ℕ} {currentData : List UInt8}
    {mutated : Option (List UInt8)}
    (h : ∀ result ∈ mutated, result.length ≤ currentData.length + growth) :
    Gains growth currentData (replaceData currentData mutated) := by
  cases mutated with
  | none => exact Nat.le_add_right _ _
  | some mutatedData =>
      rw [replaceData]
      split_ifs
      · exact h mutatedData rfl
      · exact Nat.le_add_right _ _

theorem applyFieldMutation_fares (growth : ℕ) (data : List UInt8) :
    Fares (applyFieldMutation data : Fallible ρ _) (Gains growth data) := by
  have hcompletes : Completes (applyFieldMutation data : Fallible ρ _) fun _ => True := by
    intro r
    by_cases empty : data = []
    · subst empty
      exact completes_pure trivial r
    · exact (applyFieldMutation_reports.nonempty empty r).mono fun _ _ => trivial
  exact (Fares.of_completes (applyFieldMutation_advances data) hcompletes).mono fun _ h =>
    Nat.le_add_right_of_le h.1.le

theorem Conserves.length_le {type : ℕ} (known : type < 4) {data result : List UInt8}
    (h : Conserves type data result) : result.length ≤ data.length + 32 := by
  have hblock : ∀ {limit : ℕ} {shorter block longer : List UInt8},
      AddsBlock limit shorter block longer → shorter.length ≤ longer.length ∧
        longer.length ≤ shorter.length + limit := by
    rintro limit shorter block longer ⟨-, hbounded, before, after, rfl, rfl⟩
    simp only [List.length_append]
    omega
  match type, known with
  | 0, _ =>
      obtain ⟨block, hadded⟩ := h.inserted rfl
      have := hblock hadded
      omega
  | 1, _ =>
      by_cases long : 2 ≤ data.length
      · obtain ⟨block, hdeleted⟩ := h.deleted rfl long
        have := hblock hdeleted
        omega
      · rw [h.too_short (.inl ⟨rfl, Nat.not_le.mp long⟩)]
        omega
  | 2, _ =>
      by_cases long : 5 ≤ data.length
      · obtain ⟨block, -, hcopied⟩ := h.duplicated rfl long
        have := hblock hcopied
        omega
      · rw [h.too_short (.inr ⟨rfl, Nat.not_le.mp long⟩)]
        omega
  | 3, _ =>
      rw [(h.permuted rfl).2]
      omega

theorem applyStructuralMutation_fares {growth : ℕ} (room : 32 ≤ growth) (data : List UInt8) :
    Fares (applyStructuralMutation data : Fallible ρ _) (Gains growth data) := by
  rw [applyStructuralMutation]
  split_ifs
  · exact fares_pure (Nat.le_add_right _ _)
  · refine fares_randNext.bind fun drawn _ => ?_
    have hknown : drawn % 4 < 4 := Nat.mod_lt _ (by decide)
    refine (Fares.of_completes (structuralMutation_advances data _)
      (structuralMutation_conserves data hknown)).bind fun result h => fares_pure ?_
    exact (h.2.length_le hknown).trans (Nat.add_le_add_left room _)

namespace ProtocolMutator

variable {m : ProtocolMutator} {growth : ℕ}

theorem applyProtocolSpecificMutation_fares (bounded : m.protocolFuzzer.Bounded growth)
    (data : List UInt8) :
    Fares (m.applyProtocolSpecificMutation data : Fallible (Sources ρ) _) (Gains growth data) := by
  rw [applyProtocolSpecificMutation, ← bind_assoc]
  refine (fares_seedBuffer le_rfl).bind fun seedData _ => ?_
  exact (fares_withUnstructured (bounded.mutatePacket data) seedData).bind fun mutated h =>
    fares_pure (replaceData_gains h)

theorem applyGrammarBasedMutation_fares (bounded : m.protocolFuzzer.Bounded growth)
    (data : List UInt8) :
    Fares (m.applyGrammarBasedMutation data : Fallible (Sources ρ) _) (Gains growth data) := by
  rw [applyGrammarBasedMutation]
  split_ifs with empty
  · exact fares_pure (Nat.le_add_right _ _)
  · have hpos : 0 < m.protocolFuzzer.getGrammarMutations.length := by
      rwa [List.isEmpty_iff, ← ne_eq, ← List.length_pos_iff] at empty
    refine fares_randNext.bind fun drawn _ => (fares_rem drawn hpos).bind fun idx hidx => ?_
    refine (fares_index hidx).bind fun mutation listed => ?_
    rw [← bind_assoc]
    refine (fares_seedBuffer (by decide)).bind fun seedData _ => ?_
    exact (fares_withUnstructured (bounded.grammarMutation mutation listed data) seedData).bind
      fun mutated h => fares_pure (replaceData_gains h)

theorem applyRound_fares (bounded : m.protocolFuzzer.Bounded growth) (room : 32 ≤ growth)
    (data : List UInt8) (strategy : MutationStrategy) :
    Fares (m.applyRound data strategy : Fallible (Sources ρ) _) (Gains growth data) := by
  cases strategy with
  | protocolSpecific => exact applyProtocolSpecificMutation_fares bounded data
  | grammarBased => exact applyGrammarBasedMutation_fares bounded data
  | fieldMutation => exact applyFieldMutation_fares growth data
  | structuralMutation => exact applyStructuralMutation_fares room data
  | hybridMutation => exact fares_pure (Nat.le_add_right _ _)

theorem applyRounds_fares {protocolFuzzer : GrammarFuzzer Unstructured}
    (bounded : protocolFuzzer.Bounded growth) (room : 32 ≤ growth) (rounds : ℕ) (mutated : Bool)
    (data : List UInt8) :
    Fares ((new protocolFuzzer).applyRounds rounds mutated data : Fallible (Sources ρ) _)
      fun outcome => outcome.2.length ≤ data.length + rounds * growth := by
  induction rounds generalizing mutated data with
  | zero => exact fares_pure (Nat.le_add_right _ _)
  | succ rounds ih =>
      rw [applyRounds]
      have hothers : Fares (liftM (sub (new protocolFuzzer).mutationStrategies.length 1) :
          Fallible (Sources ρ) ℕ) fun others => others = 4 := fares_lift ⟨4, rfl, rfl⟩
      refine fares_randNext.bind fun drawn _ => hothers.bind fun others hothers => ?_
      subst hothers
      refine (fares_rem drawn (Nat.zero_lt_succ 3)).bind fun idx hidx => ?_
      have hlt : idx < (new protocolFuzzer).mutationStrategies.length := Nat.lt_succ_of_lt hidx
      refine (fares_index hlt).bind fun strategy _ => ?_
      refine (applyRound_fares bounded room data strategy).bind fun outcome hgains => ?_
      refine (ih _ _).mono fun result hresult => ?_
      rw [Gains] at hgains
      rw [Nat.succ_mul]
      omega

/-- A call of `mutate` applies up to three strategies. -/
theorem mutate_fares {protocolFuzzer : GrammarFuzzer Unstructured}
    (bounded : protocolFuzzer.Bounded growth) (room : 32 ≤ growth) (data : List UInt8) :
    Fares ((new protocolFuzzer).mutate data : Fallible (Sources ρ) _)
      (Gains (3 * growth) data) := by
  have hround : ∀ strategy, Fares ((new protocolFuzzer).applyRound data strategy :
      Fallible (Sources ρ) _) (Gains (3 * growth) data) := by
    intro strategy
    refine (applyRound_fares bounded room data strategy).mono fun outcome hgains => ?_
    rw [Gains] at hgains ⊢
    omega
  refine fares_randNext.bind fun drawn _ => (fares_rem drawn (Nat.zero_lt_succ 4)).bind
    fun idx hidx => (fares_index hidx).bind fun strategy _ => ?_
  cases strategy with
  | protocolSpecific => exact hround .protocolSpecific
  | grammarBased => exact hround .grammarBased
  | fieldMutation => exact hround .fieldMutation
  | structuralMutation => exact hround .structuralMutation
  | hybridMutation =>
      refine fares_randNext.bind fun drawn _ =>
        (applyRounds_fares bounded room (drawn % 3 + 1) false data).bind fun outcome hrounds =>
          fares_pure (hrounds.trans ?_)
      have hcount : drawn % 3 + 1 ≤ 3 := Nat.mod_lt drawn (by decide)
      exact Nat.add_le_add_left (Nat.mul_le_mul_right growth hcount) _

/-- `mutate` called again and again, each time on what the last call left. -/
def mutateTimes (m : ProtocolMutator) : ℕ → List UInt8 → Fallible (Sources ρ) (List UInt8)
  | 0, data => pure data
  | times + 1, data => do
    let (_, data) ← m.mutate data
    m.mutateTimes times data

theorem mutateTimes_fares {protocolFuzzer : GrammarFuzzer Unstructured}
    (bounded : protocolFuzzer.Bounded growth) (room : 32 ≤ growth) (times : ℕ)
    (data : List UInt8) :
    Fares ((new protocolFuzzer).mutateTimes times data : Fallible (Sources ρ) _) fun result =>
      result.length ≤ data.length + times * (3 * growth) := by
  induction times generalizing data with
  | zero => exact fares_pure (Nat.le_add_right _ _)
  | succ times ih =>
      refine (mutate_fares bounded room data).bind fun outcome hgains => (ih outcome.2).mono ?_
      intro result hresult
      rw [Gains] at hgains
      rw [Nat.succ_mul]
      omega

/-- The strategy of the protocol is drawn, and then an output at the end of its type. -/
theorem mutate_overflows (protocolFuzzer : GrammarFuzzer Unstructured) (data : List UInt8)
    {s : Sources (ℕ → UInt64)} (hstrategy : s.rand 0 = 0)
    (hlast : (s.rand 1).toNat + 1 = usizeRange) :
    ¬ NoPanic (((new protocolFuzzer).mutate data).run s) := by
  have hdrawn : drawnStrategy s = .protocolSpecific := by
    have hfirst : output s 0 = 0 := hstrategy
    rw [drawnStrategy, hfirst]
    rfl
  rw [mutate_run, hdrawn]
  rintro ⟨outcome, hrun⟩
  rw [applyStrategy, applyProtocolSpecificMutation, StateT.run_bind, run_draw, ok_bind,
    StateT.run_bind] at hrun
  obtain ⟨⟨seedData, s'⟩, hseed, -⟩ := bind_eq_ok.mp hrun
  have hbuffer : (s.rand 1).toNat + 1024 ≤ usizeRange :=
    (seedBuffer_returns_iff (Nat.zero_lt_succ 1023)).mp ⟨seedData, eq_ok_of_run_lift hseed⟩
  omega

end ProtocolMutator

/-! ## The DNS fuzzer -/

theorem dnsGrammarFuzzer_bounded (build : DNS.Builder) :
    (dnsGrammarFuzzer build : GrammarFuzzer Unstructured).Bounded 10999 where
  mutatePacket packet s := by
    obtain ⟨mutated, s', hrun, -⟩ := DNS.mutatePacket_completes packet s
    have hreach := DNS.mutatePacket_reach packet s mutated s' hrun
    have hsome : (some <$> DNS.mutatePacket packet : Fallible Unstructured _).run s =
        .ok (some mutated, s') := by
      rw [StateT.run_map, hrun]
      rfl
    refine ⟨some mutated, s', hsome, ?_⟩
    rintro result ⟨⟩
    rw [DNS.Reach] at hreach
    omega
  grammarMutation mutation listed packet := by
    obtain ⟨plain, hplain, rfl⟩ := List.mem_map.mp listed
    refine (DNS.getGrammarMutations_length packet hplain).bind fun mutated hlength =>
      completes_pure ?_
    rintro result ⟨⟩
    omega

/-- However often the mutator of the DNS fuzzer is called on its own results, each call
returns and adds at most 32997 bytes, unless an output lies within 1024 of the end of its
type, where the sums of a seed buffer overflow. That can happen at any packet. -/
theorem mutateTimes_dns (build : DNS.Builder) :
    (∀ times data, Fares ((ProtocolMutator.new (dnsGrammarFuzzer build)).mutateTimes times data :
      Fallible (Sources ρ) _) fun result => result.length ≤ data.length + times * 32997) ∧
    ∀ data, ∃ s : Sources (ℕ → UInt64),
      ¬ NoPanic (((ProtocolMutator.new (dnsGrammarFuzzer build)).mutate data).run s) := by
  refine ⟨fun times data => ?_, fun data => ?_⟩
  · have bounded := dnsGrammarFuzzer_bounded build
    exact ProtocolMutator.mutateTimes_fares bounded (by decide) times data
  · exact ⟨⟨fun n => if n = 0 then 0 else 0xFFFFFFFFFFFFFFFF, fun _ => 0⟩,
      ProtocolMutator.mutate_overflows _ data rfl rfl⟩

end ProtocolFuzzer.Fuzzer
