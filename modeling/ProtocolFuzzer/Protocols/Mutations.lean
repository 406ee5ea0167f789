/-
# What the shared mutations do

None of the shared mutations can leave the packet it is given, whatever it draws, and
each changes the length of the packet by a fixed amount: bit flips and arithmetic keep
it, insertion adds a byte, and deletion removes one where there is one.

Both protocol fuzzers choose between these mutations and a malformed pattern of their own.
`drawMutation` is the choice and `Mutation.apply` its execution.
-/

import ProtocolFuzzer.Protocols.Common

namespace ProtocolFuzzer.Common

open Math Platform

variable {σ : Type} [DrawSource σ]

theorem flipBits_length (rounds : ℕ) {packet : List UInt8} (hne : packet ≠ []) :
    Completes (flipBits rounds packet : Fallible σ _) fun result =>
      result.length = packet.length := by
  induction rounds generalizing packet with
  | zero => exact completes_pure rfl
  | succ rounds ih =>
      have hpos := List.length_pos_iff.mpr hne
      rw [flipBits]
      apply Completes.bind (completes_draw _)
      intro d _
      apply Completes.bind (completes_rem d hpos)
      intro byteIdx inside
      apply Completes.bind (completes_draw _)
      intro d' _
      apply Completes.bind (completes_index inside)
      intro byte _
      apply Completes.bind (completes_assign inside _)
      rintro _ rfl
      have hset : packet.set byteIdx (byte ^^^ 1 <<< (d' % 8)) ≠ [] := by simpa using hne
      exact (ih hset).mono fun result hresult => hresult.trans List.length_set

theorem bitFlipMutation_length (packet : List UInt8) :
    Completes (bitFlipMutation packet : Fallible σ _) fun result =>
      result.length = packet.length := by
  rw [bitFlipMutation]
  by_cases empty : packet.isEmpty
  · rw [if_pos empty]
    exact completes_pure rfl
  · rw [if_neg empty]
    exact Completes.bind (completes_draw _) fun d _ =>
      flipBits_length _ (by simpa using empty)

theorem byteInsertMutation_length (packet : List UInt8) :
    Completes (byteInsertMutation packet : Fallible σ _) fun result =>
      result.length = packet.length + 1 := by
  apply Completes.bind (completes_draw _)
  intro d _
  apply Completes.bind (completes_rem d (Nat.succ_pos _))
  intro insertPos hpos
  apply Completes.bind (completes_draw _)
  intro insertByte _
  apply (completes_insertAt (Nat.le_of_lt_succ hpos) insertByte).mono
  rintro result rfl
  exact List.length_insertIdx_of_le_length (Nat.le_of_lt_succ hpos) insertByte

theorem byteDeleteMutation_length (packet : List UInt8) :
    Completes (byteDeleteMutation packet : Fallible σ _) fun result =>
      result.length = packet.length - 1 := by
  rw [byteDeleteMutation]
  by_cases empty : packet.isEmpty
  · rw [if_pos empty]
    obtain rfl := List.isEmpty_iff.mp empty
    exact completes_pure rfl
  · rw [if_neg empty]
    have hpos : 0 < packet.length := List.length_pos_iff.mpr (by simpa using empty)
    apply Completes.bind (completes_draw _)
    intro d _
    apply Completes.bind (completes_rem d hpos)
    intro deletePos inside
    apply (completes_removeAt inside).mono
    rintro result rfl
    exact List.length_eraseIdx_of_lt inside

theorem arithmeticMutation_length (packet : List UInt8) :
    Completes (arithmeticMutation packet : Fallible σ _) fun result =>
      result.length = packet.length := by
  rw [arithmeticMutation]
  split_ifs with short
  · exact completes_pure rfl
  · apply Completes.bind (completes_draw _)
    intro d _
    apply Completes.bind (completes_rem d (by omega))
    intro pos inside
    apply Completes.bind (completes_index (by omega))
    intro hi _
    apply Completes.bind (completes_index (by omega))
    intro lo _
    apply Completes.bind (completes_draw _)
    intro delta _
    have hbytes : (toBE16 (fromBE16 hi lo + delta.toUInt16)).length = 2 := rfl
    apply Completes.bind (completes_index (by rw [hbytes]; decide))
    intro first _
    apply Completes.bind (completes_assign (by omega) _)
    rintro _ rfl
    apply Completes.bind (completes_index (by rw [hbytes]; decide))
    intro second _
    apply (completes_assign (by rw [List.length_set]; omega) _).mono
    rintro result rfl
    rw [List.length_set, List.length_set]

/-- The branches of `mutate_packet`. -/
inductive Mutation (Pattern : Type)
  | bitFlip
  | byteInsert
  | byteDelete
  | arithmetic
  | malformed (pattern : Pattern)
  | unchanged

variable {Pattern : Type}

/-- The draws of `mutate_packet` before the mutation itself. -/
def drawMutation (drawPattern : Gen σ Pattern) : Gen σ (Mutation Pattern) := do
  let mutationType := (← u8Or 0) % 5
  match mutationType with
  | 0 => pure .bitFlip
  | 1 => pure .byteInsert
  | 2 => pure .byteDelete
  | 3 => pure .arithmetic
  | 4 => .malformed <$> drawPattern
  | _ => pure .unchanged

def Mutation.apply (applyPattern : List UInt8 → Pattern → Fallible σ (List UInt8))
    (packet : List UInt8) : Mutation Pattern → Fallible σ (List UInt8)
  | .bitFlip => bitFlipMutation packet
  | .byteInsert => byteInsertMutation packet
  | .byteDelete => byteDeleteMutation packet
  | .arithmetic => arithmeticMutation packet
  | .malformed pattern => applyPattern packet pattern
  | .unchanged => pure packet

/-- Choosing a mutation and executing it, in one pass. -/
theorem drawMutation_bind_apply (drawPattern : Gen σ Pattern)
    (applyPattern : List UInt8 → Pattern → Fallible σ (List UInt8)) (packet : List UInt8) :
    draw (drawMutation drawPattern) >>= Mutation.apply applyPattern packet = (do
      let mutationType := (← draw (u8Or 0)) % 5
      match mutationType with
      | 0 => bitFlipMutation packet
      | 1 => byteInsertMutation packet
      | 2 => byteDeleteMutation packet
      | 3 => arithmeticMutation packet
      | 4 => do
        let pattern ← draw drawPattern
        applyPattern packet pattern
      | _ => pure packet) := by
  rw [drawMutation, draw_bind, bind_assoc]
  apply bind_congr
  intro drawn
  dsimp only
  generalize drawn % 5 = mutationType
  split <;> rfl

/-- The mutation type and the pattern are drawn one after the other. -/
theorem drawMutation_eq_malformed_iff {drawPattern : Gen σ Pattern} {s : σ} {pattern : Pattern} :
    ((drawMutation drawPattern).run s).1 = .malformed pattern ↔
      ((u8Or 0).run s).1 % 5 = 4 ∧ (drawPattern.run ((u8Or 0).run s).2).1 = pattern := by
  rw [drawMutation, StateT.run_bind]
  dsimp only [Id.run, bind]
  generalize ((u8Or 0).run s).1 % 5 = mutationType
  generalize ((u8Or 0).run s).2 = rest
  split
  · simp
  · simp
  · simp
  · simp
  · change Mutation.malformed (drawPattern.run rest).1 = .malformed pattern ↔ _
    simp
  · exact iff_of_false (by simp) fun h => absurd h.1 (by assumption)

end ProtocolFuzzer.Common
