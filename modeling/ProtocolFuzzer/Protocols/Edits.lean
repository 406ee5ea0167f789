/-
# The shared mutations as edits

Each shared mutation is a small edit of the packet, and what it draws says which one.
A bit flip toggles as many bits as it drew rounds, some of them perhaps several times;
insertion and deletion move one byte; arithmetic replaces two neighbouring bytes, and
undoes itself when it is run again at the same place with the opposite delta.
-/

import Mathlib.Data.Finset.Prod
import Mathlib.Data.Int.ModEq
import ProtocolFuzzer.Math.Toggle
import ProtocolFuzzer.Protocols.Mutations

namespace ProtocolFuzzer.Common

open Math Platform

variable {σ : Type} [DrawSource σ]

/-- A bit of a byte string, at a position made of a byte and a bit in it. -/
def bitAt (bytes : List UInt8) (p : ℕ × ℕ) : Option Bool :=
  bytes[p.1]?.map fun byte => byte.toNat.testBit p.2

/-- The positions at which two packets of one length differ. -/
def changedBits (input result : List UInt8) : Finset (ℕ × ℕ) :=
  (Finset.range input.length ×ˢ Finset.range 8).filter fun p => bitAt result p ≠ bitAt input p

theorem mem_changedBits {input result : List UInt8} {p : ℕ × ℕ} :
    p ∈ changedBits input result ↔
      (p.1 < input.length ∧ p.2 < 8) ∧ bitAt result p ≠ bitAt input p := by
  rw [changedBits, Finset.mem_filter, Finset.mem_product, Finset.mem_range, Finset.mem_range]

@[simp]
theorem changedBits_self (input : List UInt8) : changedBits input input = ∅ := by
  ext p
  simp [mem_changedBits]

/-- The rounds `bit_flip_mutation` draws. -/
def drawnFlips (s : σ) : ℕ := ((usizeOr 1).run s).1 % 8 + 1

theorem testBit_xor_shift (byte : UInt8) {bitIdx : UInt8} (inside : bitIdx < 8) (k : ℕ) :
    (byte ^^^ 1 <<< bitIdx).toNat.testBit k =
      (byte.toNat.testBit k ^^ decide (bitIdx.toNat = k)) := by
  have hmask : ∀ idx : UInt8, idx < 8 → (1 <<< idx : UInt8).toNat = 2 ^ idx.toNat :=
    forall_byte (by decide +kernel)
  rw [UInt8.toNat_xor, Nat.testBit_xor, hmask bitIdx inside, Nat.testBit_two_pow]

theorem bitAt_of_lt {bytes : List UInt8} {i k : ℕ} (inside : i < bytes.length) :
    bitAt bytes (i, k) = some (bytes[i].toNat.testBit k) := by
  rw [bitAt, List.getElem?_eq_getElem inside, Option.map_some]

theorem bitAt_set_flip_self {output : List UInt8} {byteIdx : ℕ}
    (inside : byteIdx < output.length) {bitIdx : UInt8} (hbit : bitIdx < 8) :
    bitAt (output.set byteIdx (output[byteIdx] ^^^ 1 <<< bitIdx)) (byteIdx, bitIdx.toNat) =
      some (!output[byteIdx].toNat.testBit bitIdx.toNat) := by
  rw [bitAt_of_lt (by simpa using inside), List.getElem_set_self, testBit_xor_shift _ hbit]
  simp

theorem bitAt_set_flip_of_ne {output : List UInt8} {byteIdx : ℕ}
    (inside : byteIdx < output.length) {bitIdx : UInt8} (hbit : bitIdx < 8) {p : ℕ × ℕ}
    (hne : p ≠ (byteIdx, bitIdx.toNat)) :
    bitAt (output.set byteIdx (output[byteIdx] ^^^ 1 <<< bitIdx)) p = bitAt output p := by
  obtain ⟨i, k⟩ := p
  by_cases hbyte : byteIdx = i
  · subst hbyte
    have hk : bitIdx.toNat ≠ k := fun h => hne (by rw [h])
    rw [bitAt_of_lt (by simpa using inside), bitAt_of_lt inside, List.getElem_set_self,
      testBit_xor_shift _ hbit]
    simp [hk]
  · rw [bitAt, bitAt, List.getElem?_set_ne hbyte]

/-- Flipping a bit toggles its position among the changed ones. -/
theorem changedBits_set_flip {input output : List UInt8} (same : output.length = input.length)
    {byteIdx : ℕ} (inside : byteIdx < output.length) {bitIdx : UInt8} (hbit : bitIdx < 8) :
    changedBits input (output.set byteIdx (output[byteIdx] ^^^ 1 <<< bitIdx)) =
      toggle (changedBits input output) (byteIdx, bitIdx.toNat) := by
  ext p
  rw [mem_toggle]
  split_ifs with hit
  · have hinput : byteIdx < input.length := same ▸ inside
    have hbound : bitIdx.toNat < 8 := hbit
    subst hit
    rw [mem_changedBits, mem_changedBits, bitAt_set_flip_self inside hbit, bitAt_of_lt inside,
      bitAt_of_lt hinput]
    generalize output[byteIdx].toNat.testBit bitIdx.toNat = new
    generalize input[byteIdx].toNat.testBit bitIdx.toNat = old
    simp only [hinput, hbound, and_self, true_and, ne_eq, Option.some.injEq]
    cases old <;> cases new <;> decide
  · rw [mem_changedBits, mem_changedBits, bitAt_set_flip_of_ne inside hbit hit]

/-- The loop toggles one position a round. -/
theorem flipBits_toggles (input : List UInt8) (rounds : ℕ) {output : List UInt8}
    (hne : output ≠ []) (same : output.length = input.length) :
    Completes (flipBits rounds output : Fallible σ _) fun result =>
      result.length = input.length ∧ ∃ toggles : List (ℕ × ℕ), toggles.length = rounds ∧
        changedBits input result = toggles.foldl toggle (changedBits input output) := by
  induction rounds generalizing output with
  | zero => exact completes_pure ⟨same, [], rfl, rfl⟩
  | succ rounds ih =>
      have hpos := List.length_pos_iff.mpr hne
      rw [flipBits]
      apply Completes.bind (completes_draw _)
      intro d _
      apply Completes.bind (completes_rem d hpos)
      intro byteIdx inside
      apply Completes.bind (completes_draw _)
      intro d' _
      apply Completes.bind (completes_index inside)
      intro byte hbyte
      subst hbyte
      apply Completes.bind (completes_assign inside _)
      intro flipped hflipped
      subst hflipped
      have hbit : d' % 8 < 8 := UInt8.mod_lt d' (by decide)
      apply (ih (by simpa using hne) (by simpa using same)).mono
      intro result hresult
      obtain ⟨hlength, toggles, hcount, hchanged⟩ := hresult
      refine ⟨hlength, (byteIdx, (d' % 8).toNat) :: toggles, ?_, ?_⟩
      · rw [List.length_cons, hcount]
      · rw [hchanged, changedBits_set_flip same inside hbit, List.foldl_cons]

/-- A bit flip changes at most eight bits, and as many as were drawn up to an even number. -/
theorem bitFlipMutation_changes (input : List UInt8) (s : σ) :
    CompletesFrom s (bitFlipMutation input) fun result =>
      (input = [] → result = []) ∧ result.length = input.length ∧
        (changedBits input result).card ≤ 8 ∧
        (input ≠ [] → (changedBits input result).card % 2 = drawnFlips s % 2) := by
  rw [bitFlipMutation]
  by_cases empty : input.isEmpty
  · rw [if_pos empty]
    obtain rfl := List.isEmpty_iff.mp empty
    refine completes_pure ?_ s
    exact ⟨fun _ => rfl, rfl, by simp, fun h => absurd rfl h⟩
  · have hne : input ≠ [] := by simpa using empty
    rw [if_neg empty]
    apply CompletesFrom.draw_bind
    apply (flipBits_toggles input (drawnFlips s) hne rfl _).mono
    intro result hresult
    obtain ⟨hlength, toggles, hcount, hchanged⟩ := hresult
    rw [changedBits_self] at hchanged
    have hbound := card_foldl_toggle_le toggles ∅
    have hparity := card_foldl_toggle_mod_two toggles ∅
    rw [← hchanged, hcount, Finset.card_empty, Nat.zero_add] at hbound hparity
    have hrounds : drawnFlips s ≤ 8 := by
      rw [drawnFlips]
      omega
    exact ⟨fun h => absurd h hne, hlength, hbound.trans hrounds, fun _ => hparity⟩

theorem byteInsertMutation_adds (input : List UInt8) :
    Completes (byteInsertMutation input : Fallible σ _) fun result =>
      ∃ pos ≤ input.length, ∃ byte, result = input.insertIdx pos byte ∧
        result.eraseIdx pos = input := by
  apply Completes.bind (completes_draw _)
  intro d _
  apply Completes.bind (completes_rem d (Nat.succ_pos _))
  intro pos hpos
  apply Completes.bind (completes_draw _)
  intro byte _
  apply (completes_insertAt (Nat.le_of_lt_succ hpos) byte).mono
  intro result hresult
  subst hresult
  exact ⟨pos, Nat.le_of_lt_succ hpos, byte, rfl, List.eraseIdx_insertIdx_self byte⟩

theorem byteDeleteMutation_removes (input : List UInt8) :
    Completes (byteDeleteMutation input : Fallible σ _) fun result =>
      (input = [] → result = []) ∧ (input ≠ [] → ∃ before byte after,
        input = before ++ byte :: after ∧ result = before ++ after) := by
  rw [byteDeleteMutation]
  by_cases empty : input.isEmpty
  · rw [if_pos empty]
    obtain rfl := List.isEmpty_iff.mp empty
    exact completes_pure ⟨fun _ => rfl, fun h => absurd rfl h⟩
  · have hne : input ≠ [] := by simpa using empty
    rw [if_neg empty]
    apply Completes.bind (completes_draw _)
    intro d _
    apply Completes.bind (completes_rem d (List.length_pos_iff.mpr hne))
    intro pos inside
    apply (completes_removeAt inside).mono
    intro result hresult
    subst hresult
    refine ⟨fun h => absurd h hne, fun _ => ⟨input.take pos, input[pos], input.drop (pos + 1),
      ?_, List.eraseIdx_eq_take_drop_succ _ _⟩⟩
    rw [← List.drop_eq_getElem_cons inside, List.take_append_drop]

/-- The position `arithmetic_mutation` draws in a packet of the given length. -/
def drawnPosition (s : σ) (length : ℕ) : ℕ := ((usizeOr 0).run s).1 % (length - 1)

/-- The delta `arithmetic_mutation` draws behind its position. -/
def drawnDelta (s : σ) : Int16 := ((i16Or 1).run ((usizeOr 0).run s).2).1

/-- The two bytes at the drawn position are replaced by those of the sum. -/
theorem arithmeticMutation_run (before after : List UInt8) (hi lo : UInt8) (s : σ)
    (here : drawnPosition s (before ++ hi :: lo :: after).length = before.length) :
    CompletesFrom s (arithmeticMutation (before ++ hi :: lo :: after)) fun result =>
      result = before ++ (toBE16 (fromBE16 hi lo + (drawnDelta s).toUInt16) ++ after) := by
  have hlength : (before ++ hi :: lo :: after).length = before.length + after.length + 2 := by
    rw [List.length_append, List.length_cons, List.length_cons]
    omega
  have hfirst : index (before ++ hi :: lo :: after) before.length = .ok hi := by
    rw [index, List.getElem?_append_right (Nat.le_refl _), Nat.sub_self, List.getElem?_cons_zero]
  have hsecond : index (before ++ hi :: lo :: after) (before.length + 1) = .ok lo := by
    rw [index, List.getElem?_append_right (Nat.le_add_right _ 1), Nat.add_sub_cancel_left,
      List.getElem?_cons_succ, List.getElem?_cons_zero]
  rw [arithmeticMutation, if_neg (by omega)]
  apply CompletesFrom.draw_bind
  apply CompletesFrom.lift_bind ((rem_of_pos (by omega)).trans (congrArg Except.ok here))
  apply CompletesFrom.lift_bind hfirst
  apply CompletesFrom.lift_bind hsecond
  apply CompletesFrom.draw_bind
  apply CompletesFrom.lift_bind rfl
  apply CompletesFrom.lift_bind (assign_of_lt (by omega) _)
  apply CompletesFrom.lift_bind rfl
  apply (completes_assign (by rw [List.length_set]; omega) _ _).mono
  intro result hresult
  rw [hresult, List.set_append_right _ _ (Nat.le_refl _),
    List.set_append_right _ _ (Nat.le_add_right _ 1), Nat.sub_self, Nat.add_sub_cancel_left]
  rfl

/-- The cast of a delta to an unsigned word keeps its residue. -/
theorem toUInt16_modEq (delta : Int16) :
    (delta.toUInt16.toNat : ℤ) ≡ delta.toInt [ZMOD 2 ^ 16] := by
  have hcast : delta.toInt = if 2 * delta.toUInt16.toNat < 2 ^ 16 then
      (delta.toUInt16.toNat : ℤ) else delta.toUInt16.toNat - 2 ^ 16 :=
    BitVec.toInt_eq_toNat_cond delta.toBitVec
  rw [hcast, Int.ModEq]
  split_ifs <;> omega

/-- Adding to a field moves its value by the signed delta, up to the size of the field. -/
theorem add_toUInt16_modEq (v : UInt16) (delta : Int16) :
    ((v + delta.toUInt16).toNat : ℤ) ≡ v.toNat + delta.toInt [ZMOD 2 ^ 16] := by
  rw [UInt16.toNat_add, Int.natCast_mod, Nat.cast_add]
  exact (Int.mod_modEq _ _).trans ((toUInt16_modEq delta).add_left _)

/-- Two adjacent bytes, and what is around them. -/
theorem exists_pair {input : List UInt8} {pos : ℕ} (inside : pos + 1 < input.length) :
    ∃ before hi lo after, input = before ++ hi :: lo :: after ∧ before.length = pos := by
  refine ⟨input.take pos, input[pos], input[pos + 1], input.drop (pos + 2), ?_,
    List.length_take_of_le (by omega)⟩
  rw [← List.drop_eq_getElem_cons inside, ← List.drop_eq_getElem_cons (by omega),
    List.take_append_drop]

/-- Arithmetic moves one big-endian field by the signed delta, and with the opposite delta
it moves the field back. -/
theorem arithmeticMutation_moves (input : List UInt8) (s : σ) :
    CompletesFrom s (arithmeticMutation input) fun result =>
      (input.length < 2 → result = input) ∧ (2 ≤ input.length →
        ∃ before hi lo hi' lo' after, input = before ++ hi :: lo :: after ∧
          result = before ++ hi' :: lo' :: after ∧
          before.length = drawnPosition s input.length ∧
          ((fromBE16 hi' lo').toNat : ℤ) ≡
            (fromBE16 hi lo).toNat + (drawnDelta s).toInt [ZMOD 2 ^ 16] ∧
          ∀ s' : σ, drawnPosition s' input.length = drawnPosition s input.length →
            drawnDelta s' = -drawnDelta s →
              CompletesFrom s' (arithmeticMutation result) (· = input)) := by
  by_cases short : input.length < 2
  · rw [arithmeticMutation, if_pos short]
    exact completes_pure ⟨fun _ => rfl, fun h => absurd h (Nat.not_le.mpr short)⟩ s
  · have inside : drawnPosition s input.length + 1 < input.length := by
      have := Nat.mod_lt ((usizeOr 0).run s).1 (show 0 < input.length - 1 by omega)
      rw [drawnPosition]
      omega
    obtain ⟨before, hi, lo, after, rfl, hbefore⟩ := exists_pair inside
    apply (arithmeticMutation_run before after hi lo s hbefore.symm).mono
    intro result hresult
    refine ⟨fun h => absurd h short, fun _ =>
      ⟨before, hi, lo, _, _, after, rfl, hresult, hbefore, ?_, ?_⟩⟩
    · rw [fromBE16_toBE16]
      exact add_toUInt16_modEq _ _
    · intro s' samePosition opposite
      rw [hresult]
      apply (arithmeticMutation_run before after _ _ s' ?_).mono
      · intro result' hresult'
        rw [hresult', fromBE16_toBE16, opposite, Int16.toUInt16_neg, UInt16.add_assoc,
          UInt16.add_right_neg, UInt16.add_zero, toBE16_fromBE16]
        rfl
      · simpa using samePosition.trans hbefore.symm

/-- Whatever is drawn, each shared mutation is a bounded edit of its input. -/
theorem sharedMutations_edit (input : List UInt8) (s : σ) :
    (CompletesFrom s (bitFlipMutation input) fun result =>
      (input = [] → result = []) ∧ result.length = input.length ∧
        (changedBits input result).card ≤ 8 ∧
        (input ≠ [] → (changedBits input result).card % 2 = drawnFlips s % 2)) ∧
    (CompletesFrom s (byteInsertMutation input) fun result =>
      ∃ pos ≤ input.length, ∃ byte, result = input.insertIdx pos byte ∧
        result.eraseIdx pos = input) ∧
    (CompletesFrom s (byteDeleteMutation input) fun result =>
      (input = [] → result = []) ∧ (input ≠ [] → ∃ before byte after,
        input = before ++ byte :: after ∧ result = before ++ after)) ∧
    (CompletesFrom s (arithmeticMutation input) fun result =>
      (input.length < 2 → result = input) ∧ (2 ≤ input.length →
        ∃ before hi lo hi' lo' after, input = before ++ hi :: lo :: after ∧
          result = before ++ hi' :: lo' :: after ∧
          before.length = drawnPosition s input.length ∧
          ((fromBE16 hi' lo').toNat : ℤ) ≡
            (fromBE16 hi lo).toNat + (drawnDelta s).toInt [ZMOD 2 ^ 16] ∧
          ∀ s' : σ, drawnPosition s' input.length = drawnPosition s input.length →
            drawnDelta s' = -drawnDelta s →
              CompletesFrom s' (arithmeticMutation result) (· = input))) :=
  ⟨bitFlipMutation_changes input s, byteInsertMutation_adds input s,
    byteDeleteMutation_removes input s, arithmeticMutation_moves input s⟩

end ProtocolFuzzer.Common
