/-
# What the structural mutations conserve

Every position and length of a structural mutation is drawn on its own and clipped to the
input. Insertion, deletion and duplication each move one block. The swap clips its two
sections differently near the end of the input, but the loops that write them stop at the
end too, so what changes places is always a pair of blocks of one length, and nothing is
lost or doubled.
-/

import ProtocolFuzzer.Fuzzer.ProtocolMutator
import ProtocolFuzzer.Math.Blocks

namespace ProtocolFuzzer.Fuzzer

open Math Platform

variable {ρ : Type}

theorem completes_spliceAt {data : List UInt8} {pos : ℕ} (h : pos ≤ data.length)
    (block : List UInt8) :
    Completes (liftM (spliceAt data pos block) : Fallible ρ _) fun result =>
      result = data.take pos ++ (block ++ data.drop pos) :=
  completes_lift (by rw [spliceAt, if_pos h]; exact returns_ok rfl)

theorem completes_drain {data : List UInt8} {start stop : ℕ} (hstart : start ≤ stop)
    (hstop : stop ≤ data.length) :
    Completes (liftM (drain data start stop) : Fallible ρ _) fun result =>
      result = data.take start ++ data.drop stop :=
  completes_lift (by rw [drain, if_pos ⟨hstart, hstop⟩]; exact returns_ok rfl)

/-- Nothing is written behind the end. -/
theorem overwriteFrom_behind {data : List UInt8} {pos : ℕ} (behind : data.length ≤ pos)
    (bytes : List UInt8) : overwriteFrom data pos bytes = .ok data := by
  induction bytes generalizing pos with
  | nil => rfl
  | cons byte bytes ih =>
      rw [overwriteFrom, if_neg (Nat.not_lt.mpr behind)]
      exact ih (Nat.le_succ_of_le behind)

/-- A block is overwritten by one of its length; more than that is written at the end of the
data only, where it has no effect. -/
theorem overwriteFrom_append (before : List UInt8) {old new : List UInt8}
    (same : new.length = old.length) {extra after : List UInt8} (ends : extra = [] ∨ after = []) :
    overwriteFrom (before ++ (old ++ after)) before.length (new ++ extra) =
      .ok (before ++ (new ++ after)) := by
  induction new generalizing before old with
  | nil =>
      obtain rfl := List.length_eq_zero_iff.mp same.symm
      rcases ends with rfl | rfl
      · rfl
      · exact overwriteFrom_behind (by simp) extra
  | cons byte new ih =>
      cases old with
      | nil => exact absurd same (Nat.succ_ne_zero _)
      | cons first old =>
          have inside : before.length < (before ++ (first :: old ++ after)).length := by
            simp
          have hset : (before ++ (first :: old ++ after)).set before.length byte =
              (before ++ [byte]) ++ (old ++ after) := by
            rw [List.set_append_right _ _ (Nat.le_refl _), Nat.sub_self, List.append_assoc]
            rfl
          have hnext := ih (before ++ [byte]) (Nat.succ.inj same)
          rw [List.length_append, List.length_singleton] at hnext
          change overwriteFrom (before ++ (first :: old ++ after)) before.length
            (byte :: (new ++ extra)) = _
          rw [overwriteFrom, if_pos inside, assign_of_lt inside, ok_bind, hset, hnext,
            List.append_assoc]
          rfl

theorem overwriteFrom_block (before : List UInt8) {old new : List UInt8}
    (same : new.length = old.length) (after : List UInt8) :
    overwriteFrom (before ++ (old ++ after)) before.length new =
      .ok (before ++ (new ++ after)) := by
  have h := overwriteFrom_append before same (Or.inl rfl : ([] : List UInt8) = [] ∨ after = [])
  rwa [List.append_nil] at h

/-- Both sections are written over each other. -/
theorem completes_exchange (before between : List UInt8) {first second extra after : List UInt8}
    (same : first.length = second.length) (ends : extra = [] ∨ after = []) :
    Completes (do
        let data ← liftM (overwriteFrom (before ++ (first ++ (between ++ (second ++ after))))
          before.length second)
        liftM (overwriteFrom data (before ++ (first ++ between)).length (first ++ extra)) :
          Fallible ρ _)
      fun result => result = before ++ (second ++ (between ++ (first ++ after))) := by
  have hfirst := overwriteFrom_block before same.symm (between ++ (second ++ after))
  apply Completes.bind (completes_lift ⟨_, hfirst, rfl⟩)
  intro data hdata
  subst hdata
  have hsecond := overwriteFrom_append (before ++ (second ++ between)) same ends
  have hplace : (before ++ (second ++ between)).length =
      (before ++ (first ++ between)).length := by
    simp only [List.length_append, same]
  rw [hplace] at hsecond
  simp only [List.append_assoc] at hsecond
  exact completes_lift ⟨_, hsecond, rfl⟩

variable [RandSource ρ]

theorem insertRandomBytes_adds (data : List UInt8) :
    Completes (insertRandomBytes data : Fallible ρ _) fun result =>
      ∃ block, AddsBlock 16 data block result := by
  apply Completes.bind (completes_draw _)
  intro d _
  apply Completes.bind (completes_rem d (Nat.succ_pos _))
  intro insertPos hpos
  apply Completes.bind (completes_draw _)
  intro drawn _
  have hcount : drawn % 16 + 1 ≤ 16 := Nat.mod_lt drawn (by decide)
  apply Completes.bind ((Always.replicate (always_true randByte) _).completes)
  intro newBytes hnew
  apply (completes_spliceAt (Nat.le_of_lt_succ hpos) newBytes).mono
  intro result hresult
  subst hresult
  exact ⟨newBytes, addsBlock_take_drop (by omega) (by omega) insertPos⟩

theorem deleteBytes_removes (data : List UInt8) :
    Completes (deleteBytes data : Fallible ρ _) fun result =>
      (2 ≤ data.length → ∃ block, AddsBlock 16 result block data) ∧
        (data.length < 2 → result = data) := by
  rw [deleteBytes]
  split_ifs with long
  · apply Completes.bind (completes_draw _)
    intro d _
    apply Completes.bind (completes_rem d (by omega))
    intro deleteStart hstart
    apply Completes.bind (completes_sub hstart.le)
    intro left hleft
    apply Completes.bind (completes_draw _)
    intro d' _
    apply Completes.bind (completes_rem d' (show 0 < min left 16 by omega))
    intro drawn hdrawn
    apply (completes_drain (by omega) (by omega)).mono
    intro result hresult
    have hend : min (deleteStart + (drawn + 1)) data.length = deleteStart + (drawn + 1) := by
      omega
    rw [hend] at hresult
    subst hresult
    refine ⟨fun _ => ⟨_, addsBlock_cut (Nat.le_add_left 1 drawn) ?_ ?_⟩, fun h => ?_⟩
    · omega
    · omega
    · omega
  · exact completes_pure ⟨fun h => by omega, fun _ => rfl⟩

theorem duplicateSection_copies (data : List UInt8) :
    Completes (duplicateSection data : Fallible ρ _) fun result =>
      (5 ≤ data.length → ∃ block, block <:+: data ∧ AddsBlock 32 data block result) ∧
        (data.length < 5 → result = data) := by
  rw [duplicateSection]
  split_ifs with long
  · apply Completes.bind (completes_draw _)
    intro d _
    apply Completes.bind (completes_rem d (by omega))
    intro srcStart hstart
    apply Completes.bind (completes_draw _)
    intro drawn _
    apply Completes.bind (completes_sub (by omega))
    intro left hleft
    apply Completes.bind (completes_slice (by omega) (by omega))
    intro copied hcopied
    apply Completes.bind (completes_draw _)
    intro d' _
    apply Completes.bind (completes_rem d' (Nat.succ_pos _))
    intro insertPos hpos
    apply (completes_spliceAt (Nat.le_of_lt_succ hpos) copied).mono
    intro result hresult
    subst hresult
    have hlength : copied.length = min (drawn % 32 + 1) left := by
      rw [hcopied, List.length_drop, List.length_take]
      omega
    have hinfix : copied <:+: data := by
      rw [hcopied]
      exact (List.drop_suffix _ _).isInfix.trans (List.take_prefix _ _).isInfix
    refine ⟨fun _ => ⟨copied, hinfix, addsBlock_take_drop ?_ ?_ insertPos⟩, fun h => ?_⟩
    · omega
    · omega
    · omega
  · exact completes_pure ⟨fun h => by omega, fun _ => rfl⟩

/-- The two sections of a swap. The first may be the longer one, but then the second ends the
data. -/
theorem exists_sections {data : List UInt8} {start1 length1 start2 : ℕ}
    (disjoint : start1 + length1 ≤ start2) (inside : start2 < data.length) :
    ∃ before first between second after extra,
      data = before ++ (first ++ (between ++ (second ++ after))) ∧
      before.length = start1 ∧ (before ++ (first ++ between)).length = start2 ∧
      first.length = second.length ∧ second.length = min length1 (data.length - start2) ∧
      (data.take (start1 + length1)).drop start1 = first ++ extra ∧
      (data.take (start2 + min length1 (data.length - start2))).drop start2 = second ∧
      (extra = [] ∨ after = []) := by
  have hends : start2 + min length1 (data.length - start2) ≤ data.length := by
    omega
  obtain ⟨before, first, between, second, after, hbefore, hfirst, hplace, hsecond, hdata⟩ :=
    exists_two_blocks (show start1 + min length1 (data.length - start2) ≤ start2 by omega) hends
  have hlength : data.length = start2 + second.length + after.length := by
    rw [← hplace, hdata]
    simp only [List.length_append]
    omega
  refine ⟨before, first, between, second, after,
    (between ++ (second ++ after)).take (length1 - first.length), hdata, hbefore, hplace,
    hfirst.trans hsecond.symm, hsecond, ?_, ?_, ?_⟩
  · rw [hdata, List.drop_take, Nat.add_sub_cancel_left, List.drop_left' hbefore, List.take_append,
      List.take_of_length_le (by omega)]
  · rw [List.drop_take, Nat.add_sub_cancel_left, ← hsecond, hdata, take_drop_second_block hplace]
  · rcases Nat.le_total length1 (data.length - start2) with short | long
    · left
      rw [Nat.sub_eq_zero_of_le (by omega), List.take_zero]
    · right
      exact List.length_eq_zero_iff.mp (by omega)

/-- Where the first section starts, how long it is at most, and where the second starts. -/
def section1Start (r : ρ) (length : ℕ) : ℕ := (output r 0).toNat % (length / 2)

def section1Len (r : ρ) (length : ℕ) : ℕ := min ((output r 1).toNat % 16 + 1) (length / 4)

def section2Start (r : ρ) (length : ℕ) : ℕ := length / 2 + (output r 2).toNat % (length / 2)

/-- The drawn sections are exchanged, as far as the second reaches, if they do not overlap. -/
def SwapsSections (data : List UInt8) (start1 length1 start2 : ℕ) (result : List UInt8) : Prop :=
  if start1 + length1 ≤ start2 then
    ∃ before first between second after,
      before.length = start1 ∧ (before ++ (first ++ between)).length = start2 ∧
      first.length = second.length ∧ second.length = min length1 (data.length - start2) ∧
      data = before ++ (first ++ (between ++ (second ++ after))) ∧
      result = before ++ (second ++ (between ++ (first ++ after)))
  else result = data

theorem swapSections_swaps {data : List UInt8} (long : 8 < data.length) (r : ρ) :
    CompletesFrom r (swapSections data) (SwapsSections data (section1Start r data.length)
      (section1Len r data.length) (section2Start r data.length)) := by
  have hhalf : 0 < data.length / 2 := by omega
  have hstart1 : section1Start r data.length < data.length / 2 := Nat.mod_lt _ hhalf
  have hlen1 : section1Len r data.length ≤ data.length / 4 := min_le_right _ _
  have hstart2 : section2Start r data.length < data.length := by
    have hmod := Nat.mod_lt (output r 2).toNat hhalf
    rw [section2Start]
    omega
  rw [swapSections, if_pos long]
  apply CompletesFrom.draw_bind
  apply CompletesFrom.lift_bind (rem_of_pos hhalf)
  apply CompletesFrom.draw_bind
  apply CompletesFrom.draw_bind
  apply CompletesFrom.lift_bind (rem_of_pos hhalf)
  apply CompletesFrom.lift_bind (sub_of_le hstart2.le)
  have hdraw1 : (randNext.run r).1 % (data.length / 2) = section1Start r data.length := rfl
  have hdrawLen : min ((randNext.run (randNext.run r).2).1 % 16 + 1) (data.length / 4) =
      section1Len r data.length := rfl
  have hdraw2 : data.length / 2 + (randNext.run (randNext.run (randNext.run r).2).2).1 %
      (data.length / 2) = section2Start r data.length := rfl
  dsimp only
  rw [hdraw1, hdrawLen, hdraw2]
  generalize section1Start r data.length = start1 at *
  generalize section1Len r data.length = length1 at *
  generalize section2Start r data.length = start2 at *
  have hend1 : min (start1 + length1) data.length = start1 + length1 := by
    omega
  have hend2 : min (start2 + min length1 (data.length - start2)) data.length =
      start2 + min length1 (data.length - start2) := by
    omega
  rw [hend1, hend2]
  by_cases disjoint : start1 + length1 ≤ start2
  · obtain ⟨before, first, between, second, after, extra, hdata, hbefore, hplace, hsame,
      hsecond, hsection1, hsection2, hends⟩ := exists_sections disjoint hstart2
    have hswaps : SwapsSections data start1 length1 start2
        (before ++ (second ++ (between ++ (first ++ after)))) := by
      rw [SwapsSections, if_pos disjoint]
      exact ⟨before, first, between, second, after, hbefore, hplace, hsame, hsecond, hdata, rfl⟩
    rw [if_pos disjoint]
    apply CompletesFrom.lift_bind (slice_of_le (Nat.le_add_right _ _) (by omega))
    apply CompletesFrom.lift_bind (slice_of_le (Nat.le_add_right _ _) (by omega))
    rw [hsection1, hsection2]
    subst hbefore hplace
    apply CompletesFrom.mono
    · conv in overwriteFrom data => rw [hdata]
      exact completes_exchange before between hsame hends _
    · rintro result rfl
      exact hswaps
  · rw [if_neg disjoint]
    apply completes_pure
    rw [SwapsSections, if_neg disjoint]

theorem swapSections_exchanges (data : List UInt8) :
    Completes (swapSections data : Fallible ρ _) fun result =>
      result = data ∨ ExchangesBlocks data result := by
  intro r
  by_cases long : 8 < data.length
  · apply (swapSections_swaps long r).mono
    intro result hresult
    rw [SwapsSections] at hresult
    split_ifs at hresult
    · obtain ⟨before, first, between, second, after, -, -, hsame, -, hdata, hresult⟩ := hresult
      exact .inr ⟨before, first, between, second, after, hsame, hdata, hresult⟩
    · exact .inl hresult
  · rw [swapSections, if_neg long]
    exact completes_pure (.inl rfl) r

/-- The type the strategy draws first. -/
def mutationType (r : ρ) : ℕ := (randNext.run r).1 % 4

/-- What the mutation of a type keeps of the input. -/
structure Conserves (type : ℕ) (data result : List UInt8) : Prop where
  inserted : type = 0 → ∃ block, AddsBlock 16 data block result
  deleted : type = 1 → 2 ≤ data.length → ∃ block, AddsBlock 16 result block data
  duplicated : type = 2 → 5 ≤ data.length →
    ∃ block, block <:+: data ∧ AddsBlock 32 data block result
  too_short : type = 1 ∧ data.length < 2 ∨ type = 2 ∧ data.length < 5 → result = data
  swapped : type = 3 → result = data ∨ ExchangesBlocks data result
  permuted : type = 3 → result.Perm data ∧ result.length = data.length

theorem structuralMutation_conserves (data : List UInt8) {type : ℕ} (known : type < 4) :
    Completes (structuralMutation data type : Fallible ρ _) (Conserves type data) := by
  match type, known with
  | 0, _ =>
      apply (insertRandomBytes_adds data).mono
      intro result h
      constructor <;> simp [h]
  | 1, _ =>
      apply (deleteBytes_removes data).mono
      rintro result ⟨long, short⟩
      constructor <;> simp_all
  | 2, _ =>
      apply (duplicateSection_copies data).mono
      rintro result ⟨long, short⟩
      constructor <;> simp_all
  | 3, _ =>
      apply (swapSections_exchanges data).mono
      intro result h
      have hperm : result.Perm data := by
        rcases h with rfl | h
        · exact List.Perm.refl _
        · exact h.perm
      constructor <;> simp [h, hperm, hperm.length_eq]

/-- Whatever is drawn, a structural mutation of a nonempty input returns, and keeps what it does
not edit: it adds, removes or repeats one block, or exchanges two; an input that is too short
for the edit stays as it is. -/
theorem applyStructuralMutation_conserves {data : List UInt8} (nonempty : data ≠ []) (r : ρ) :
    CompletesFrom r (applyStructuralMutation data) fun outcome =>
      outcome.1 = .mutated ∧ Conserves (mutationType r) data outcome.2 := by
  have hempty : ¬ data.isEmpty = true := by
    rwa [List.isEmpty_iff]
  rw [applyStructuralMutation, if_neg hempty]
  apply CompletesFrom.draw_bind
  have known : mutationType r < 4 := Nat.mod_lt _ (by decide)
  apply (structuralMutation_conserves data known _).bind
  intro result h
  exact completes_pure ⟨rfl, h⟩

/-- The first section has three bytes; the second begins at the last byte. -/
theorem applyStructuralMutation_conserves_clipped :
    CompletesFrom (fun n => [3, 0, 2, 5].getD n 0 : ℕ → UInt64)
      (applyStructuralMutation [0, 1, 2, 3, 4, 5, 6, 7, 8, 9, 10, 11]) fun outcome =>
        outcome.1 = .mutated ∧
          Conserves 3 [0, 1, 2, 3, 4, 5, 6, 7, 8, 9, 10, 11] outcome.2 :=
  applyStructuralMutation_conserves (by decide) _

example : (applyStructuralMutation [0, 1, 2, 3, 4, 5, 6, 7, 8, 9, 10, 11]
    (fun n => [3, 0, 2, 5].getD n 0 : ℕ → UInt64)).map (·.1.2) =
      .ok [11, 1, 2, 3, 4, 5, 6, 7, 8, 9, 10, 0] := rfl

end ProtocolFuzzer.Fuzzer
