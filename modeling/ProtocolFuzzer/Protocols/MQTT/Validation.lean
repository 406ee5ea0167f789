/-
# What the MQTT validator accepts

`validatePacket` walks over the remaining-length field with a position, a multiplier
and an accumulator. The loop invariant ties the three together: at position `pos` the
multiplier is `128 ^ (pos - 1)` and the accumulator is below it. Under it the loop
computes exactly the leading base-128 field of at most four bytes, none of its
checked operations can overflow, and the validator accepts precisely the packets
whose body has the announced length.
-/

import Mathlib.Tactic.NormNum
import Mathlib.Tactic.Ring
import ProtocolFuzzer.Math.Base128
import ProtocolFuzzer.Protocols.MQTT.Fuzzer

namespace ProtocolFuzzer.MQTT

open Math Platform

/-- A packet cut into its type byte, its remaining-length field and its body. -/
structure Framed (packet : List UInt8) (first : UInt8) (field body : List UInt8) : Prop where
  shape : packet = [first] ++ field ++ body
  /-- Types 0 and 15 are reserved. -/
  packetType : 1 ≤ highNibble first ∧ highNibble first ≤ 14
  short : 1 ≤ field.length ∧ field.length ≤ 4
  /-- Every length byte but the last announces a successor. -/
  continuation : ∃ init last, field = init ++ [last] ∧
    (∀ b ∈ init, b &&& 0x80 ≠ 0) ∧ last &&& 0x80 = 0
  announced : Base128.value field = body.length

/-- The fourth length byte is the last one the multiplier limit lets a loop read past. -/
theorem beyond_limit_iff {pos : ℕ} (hpos : pos ≤ 4) :
    128 ^ pos > 128 * 128 * 128 ↔ pos = 4 := by
  constructor
  · intro beyond
    by_contra earlier
    have hthird : 128 ^ pos ≤ 128 ^ 3 := Nat.pow_le_pow_right (by decide) (by omega)
    omega
  · rintro rfl
    norm_num

/-- One pass of the decoding loop under its invariant. -/
theorem decodeRemainingLength_step {packet : List UInt8} {pos remaining : ℕ}
    (hpos : 1 ≤ pos ∧ pos ≤ 4) (hrem : remaining < 128 ^ (pos - 1))
    (inside : pos < packet.length) :
    decodeRemainingLength packet pos (128 ^ (pos - 1)) remaining =
      if Base128.Continues packet[pos] then
        if pos = 4 then .ok none
        else decodeRemainingLength packet (pos + 1) (128 ^ pos)
          (remaining + Base128.payload packet[pos] * 128 ^ (pos - 1))
      else .ok (some (pos, remaining + Base128.payload packet[pos] * 128 ^ (pos - 1))) := by
  have hpow : 128 ^ (pos - 1) * 128 = 128 ^ pos := pow_sub_one_mul (by omega) 128
  have hlimit : 128 ^ pos ≤ 128 ^ 4 := Nat.pow_le_pow_right (by decide) hpos.2
  have hgroup := Base128.payload_mul_le packet[pos] (128 ^ (pos - 1))
  norm_num at hlimit
  rw [decodeRemainingLength, dif_neg (Nat.not_le.mpr inside), index_of_lt inside, ok_bind,
    show (packet[pos] &&& 0x7F).toNat = Base128.payload packet[pos] from rfl,
    mul_of_lt (by rw [usizeRange]; omega), ok_bind, add_of_lt (by rw [usizeRange]; omega),
    ok_bind]
  by_cases more : Base128.Continues packet[pos]
  · rw [if_neg more, if_pos more, mul_of_lt (by rw [usizeRange]; omega), ok_bind, hpow]
    by_cases final : pos = 4
    · rw [if_pos ((beyond_limit_iff hpos.2).mpr final), if_pos final]
      rfl
    · rw [if_neg (mt (beyond_limit_iff hpos.2).mp final),
        add_of_lt (by rw [usizeRange]; omega), ok_bind, if_neg (by omega), if_neg final]
  · rw [if_pos (Base128.not_continues_iff.mp more), if_neg more]
    rfl

/-- The decoding loop cuts off the leading field. The induction is on the number of
length bytes that may still follow the one at `pos`. -/
theorem decodeRemainingLength_eq {packet : List UInt8} {k pos remaining : ℕ}
    (hk : k + pos = 4) (hpos : 1 ≤ pos) (hrem : remaining < 128 ^ (pos - 1)) :
    decodeRemainingLength packet pos (128 ^ (pos - 1)) remaining =
      .ok ((Base128.split (k + 1) (packet.drop pos)).map fun parts =>
        (pos + parts.1.length - 1,
          remaining + 128 ^ (pos - 1) * Base128.value parts.1)) := by
  induction k generalizing pos remaining with
  | zero =>
      rcases Base128.split_drop_cases packet 0 pos with
        ⟨past, hcut⟩ | ⟨inside, final, hcut⟩ | ⟨inside, more, hcut⟩
      · rw [decodeRemainingLength, dif_pos past, hcut]
        rfl
      · rw [decodeRemainingLength_step ⟨hpos, by omega⟩ hrem inside, if_neg final, hcut]
        simp [Base128.value, Nat.mul_comm]
      · rw [decodeRemainingLength_step ⟨hpos, by omega⟩ hrem inside, if_pos more,
          if_pos (by omega), hcut]
        rfl
  | succ k ih =>
      rcases Base128.split_drop_cases packet (k + 1) pos with
        ⟨past, hcut⟩ | ⟨inside, final, hcut⟩ | ⟨inside, more, hcut⟩
      · rw [decodeRemainingLength, dif_pos past, hcut]
        rfl
      · rw [decodeRemainingLength_step ⟨hpos, by omega⟩ hrem inside, if_neg final, hcut]
        simp [Base128.value, Nat.mul_comm]
      · have hpow : 128 ^ (pos - 1) * 128 = 128 ^ pos := pow_sub_one_mul (by omega) 128
        have hgroup := Base128.payload_mul_le packet[pos] (128 ^ (pos - 1))
        have hnext : remaining + Base128.payload packet[pos] * 128 ^ (pos - 1) <
            128 ^ (pos + 1 - 1) := by
          rw [Nat.add_sub_cancel]
          omega
        have step := ih (by omega) (Nat.le_add_left 1 pos) hnext
        rw [Nat.add_sub_cancel] at step
        rw [decodeRemainingLength_step ⟨hpos, by omega⟩ hrem inside, if_pos more,
          if_neg (by omega), step, hcut]
        cases Base128.split (k + 1) (packet.drop (pos + 1)) with
        | none => rfl
        | some parts =>
            simp only [Option.map_some, Base128.value, List.length_cons]
            congr 3
            · omega
            · rw [← hpow]
              ring

/-- The test for the two reserved packet types. -/
theorem reserved_iff (first : UInt8) :
    ((first &&& 0xF0) >>> 4 = 0 ∨ (first &&& 0xF0) >>> 4 = 15) ↔
      ¬ (1 ≤ highNibble first ∧ highNibble first ≤ 14) := by
  revert first
  exact forall_byte (by decide +kernel)

/-- The validator as a function of the leading length field. -/
theorem validatePacket_cons (first : UInt8) (rest : List UInt8) :
    validatePacket (first :: rest) =
      .ok (match Base128.split 4 rest with
        | none => false
        | some (field, body) =>
          decide ((1 ≤ highNibble first ∧ highNibble first ≤ 14) ∧
            Base128.value field = body.length)) := by
  have hloop := @decodeRemainingLength_eq (first :: rest) 3 1 0 rfl (by decide) (by decide)
  rw [validatePacket, if_neg (by simp), index_of_lt (by simp), ok_bind, List.getElem_cons_zero]
  by_cases reserved : ((first &&& 0xF0) >>> 4 = 0 ∨ (first &&& 0xF0) >>> 4 = 15)
  · have hout := (reserved_iff first).mp reserved
    rw [if_pos reserved]
    cases Base128.split 4 rest with
    | none => rfl
    | some parts => simp [hout, pure, Except.pure]
  · have hin := not_not.mp (mt (reserved_iff first).mpr reserved)
    rw [if_neg reserved]
    cases rest with
    | nil => rfl
    | cons second rest =>
        rw [if_neg (by simp)]
        simp only [Nat.sub_self, pow_zero, List.drop_succ_cons, List.drop_zero] at hloop
        rw [hloop]
        cases hsplit : Base128.split 4 (second :: rest) with
        | none => rfl
        | some parts =>
            obtain ⟨field, body⟩ := parts
            obtain ⟨shape, -, short⟩ := Base128.split_eq_some.mp hsplit
            have hvalue :=
              (Base128.value_lt field).trans_le (Nat.pow_le_pow_right (by decide) short)
            norm_num at hvalue
            have hlen : (first :: second :: rest).length = 1 + field.length + body.length := by
              rw [List.length_cons, shape, List.length_append]
              omega
            simp only [Option.map_some, ok_bind, hin, true_and]
            rw [add_of_lt (by rw [usizeRange]; omega), ok_bind,
              add_of_lt (by rw [usizeRange]; omega), ok_bind, hlen]
            simp only [pure, Except.pure, Except.ok.injEq, decide_eq_decide]
            omega

/-- Every run of the validator returns. -/
theorem validatePacket_returns (packet : List UInt8) :
    ∃ accepted, validatePacket packet = .ok accepted := by
  cases packet with
  | nil => exact ⟨false, rfl⟩
  | cons first rest => exact ⟨_, validatePacket_cons first rest⟩

/-- Acceptance in terms of the cut-off length field. -/
theorem validatePacket_eq_true {first : UInt8} {rest : List UInt8} :
    validatePacket (first :: rest) = .ok true ↔
      ∃ field body, Base128.split 4 rest = some (field, body) ∧
        (1 ≤ highNibble first ∧ highNibble first ≤ 14) ∧
        Base128.value field = body.length := by
  rw [validatePacket_cons]
  cases Base128.split 4 rest with
  | none => simp
  | some parts =>
      obtain ⟨field, body⟩ := parts
      simp

/-- A packet is accepted exactly when it can be framed. -/
theorem validatePacket_eq_true_iff_framed {packet : List UInt8} :
    validatePacket packet = .ok true ↔ ∃ first field body, Framed packet first field body := by
  cases packet with
  | nil =>
      constructor
      · intro h
        simp [validatePacket] at h
      · rintro ⟨first, field, body, framed⟩
        simpa using framed.shape
  | cons first rest =>
      rw [validatePacket_eq_true]
      constructor
      · rintro ⟨field, body, cut, htype, announced⟩
        obtain ⟨rfl, complete, short⟩ := Base128.split_eq_some.mp cut
        obtain ⟨init, last, hfield, flagged, final⟩ := Base128.terminated_iff.mp complete
        exact ⟨first, field, body, {
          shape := rfl
          packetType := htype
          short := ⟨List.length_pos_of_ne_nil complete.ne_nil, short⟩
          continuation := ⟨init, last, hfield, flagged, Base128.not_continues_iff.mp final⟩
          announced := announced }⟩
      · rintro ⟨first', field, body, framed⟩
        obtain ⟨rfl, rfl⟩ : first = first' ∧ rest = field ++ body := by
          simpa using framed.shape
        obtain ⟨init, last, hfield, flagged, final⟩ := framed.continuation
        have complete : Base128.Terminated field :=
          Base128.terminated_iff.mpr
            ⟨init, last, hfield, flagged, Base128.not_continues_iff.mpr final⟩
        exact ⟨field, body, Base128.split_eq_some.mpr ⟨rfl, complete, framed.short.2⟩,
          framed.packetType, framed.announced⟩

/-- Rejection in terms of the cut-off length field. -/
theorem validatePacket_eq_false {first : UInt8} {rest : List UInt8}
    (h : ∀ field body, Base128.split 4 rest = some (field, body) →
      Base128.value field ≠ body.length) : validatePacket (first :: rest) = .ok false := by
  rw [validatePacket_cons]
  cases hsplit : Base128.split 4 rest with
  | none => rfl
  | some parts => simp [h parts.1 parts.2 hsplit]

/-- The validator never overflows or panics, and accepts exactly the framed packets.
In particular it rejects a body of another length than announced, a packet that ends
inside its length field, and a length field with a fifth byte. -/
theorem validatePacket_accepts_exactly_framed :
    (∀ packet, ∃ accepted, validatePacket packet = .ok accepted) ∧
      (∀ packet, validatePacket packet = .ok true ↔
        ∃ first field body, Framed packet first field body) ∧
      (∀ first field body, Base128.Terminated field → Base128.value field ≠ body.length →
        validatePacket ([first] ++ field ++ body) = .ok false) ∧
      (∀ first field, (∀ b ∈ field, Base128.Continues b) →
        validatePacket ([first] ++ field) = .ok false) ∧
      (∀ first field rest, field.length = 4 → (∀ b ∈ field, Base128.Continues b) →
        validatePacket ([first] ++ field ++ rest) = .ok false) := by
  refine ⟨validatePacket_returns, fun packet => validatePacket_eq_true_iff_framed, ?_, ?_, ?_⟩
  · intro first field body complete mismatch
    refine validatePacket_eq_false fun field' body' cut => ?_
    obtain ⟨shape, complete', -⟩ := Base128.split_eq_some.mp cut
    obtain ⟨rfl, rfl⟩ := complete.append_inj complete' shape
    exact mismatch
  · intro first field flagged
    refine validatePacket_eq_false fun field' body' cut => ?_
    have none : Base128.split 4 field = none :=
      Base128.split_eq_none fun b hb => flagged b (List.mem_of_mem_take hb)
    exact absurd (none.symm.trans cut) (by simp)
  · intro first field rest hlength flagged
    refine validatePacket_eq_false fun field' body' cut => ?_
    have none : Base128.split 4 (field ++ rest) = none :=
      Base128.split_eq_none (by
        rw [← hlength, List.take_left]
        exact flagged)
    exact absurd (none.symm.trans cut) (by simp)

/-- A byte too many, a cut length field, and a fifth length byte. -/
theorem validatePacket_accepts_exactly_framed_rejections :
    validatePacket ([0xC0] ++ [0x00] ++ [0x41]) = .ok false ∧
      validatePacket ([0x30] ++ [0x80, 0x80]) = .ok false ∧
      validatePacket ([0x30] ++ [0xFF, 0xFF, 0xFF, 0xFF] ++ [0x01]) = .ok false := by
  obtain ⟨-, -, mismatched, cut, fifth⟩ := validatePacket_accepts_exactly_framed
  exact ⟨mismatched 0xC0 [0x00] [0x41] (by decide) (by decide),
    cut 0x30 [0x80, 0x80] (by decide +kernel),
    fifth 0x30 [0xFF, 0xFF, 0xFF, 0xFF] [0x01] rfl (by decide +kernel)⟩

end ProtocolFuzzer.MQTT
