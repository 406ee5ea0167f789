/-
# Where the injected compression pointers point

Two malformed patterns write a compression pointer behind the header: one that is meant to
point to itself, and one that is meant to point behind the end of the packet. Both write
the two flag bits and then a single byte of the target, the low one. So the fourteen bits
of the target are the low byte of what was meant, and the patterns keep their promise
exactly as long as one byte can.
-/

import ProtocolFuzzer.Protocols.DNS.Fuzzer

namespace ProtocolFuzzer.DNS

open Math Platform

/-- The target of the compression pointer at an offset, if the two bytes there are one: the
two top bits are set, and the other fourteen are the target. -/
def pointerTarget (packet : List UInt8) (pos : ℕ) : Option ℕ := do
  let hi ← packet[pos]?
  let lo ← packet[pos + 1]?
  if hi &&& 0xC0 = 0xC0 then some ((hi &&& 0x3F).toNat * 256 + lo.toNat) else none

/-- A pointer written with one byte of target. -/
def writePointer (packet : List UInt8) (pos : ℕ) (low : UInt8) : List UInt8 :=
  (packet.set pos 0xC0).set (pos + 1) low

theorem pointerTarget_writePointer {packet : List UInt8} {pos : ℕ}
    (room : pos + 1 < packet.length) (low : UInt8) :
    pointerTarget (writePointer packet pos low) pos = some low.toNat := by
  have hhi : (writePointer packet pos low)[pos]? = some 0xC0 := by
    rw [writePointer, List.getElem?_set_ne (by omega),
      List.getElem?_set_self (by omega)]
  have hlo : (writePointer packet pos low)[pos + 1]? = some low := by
    rw [writePointer, List.getElem?_set_self (by rwa [List.length_set])]
  simp [pointerTarget, hhi, hlo]

/-- Nothing changes where the same pointer was there before. -/
theorem writePointer_eq_self_iff {packet : List UInt8} {pos : ℕ}
    (room : pos + 1 < packet.length) (low : UInt8) :
    writePointer packet pos low = packet ↔
      packet[pos]? = some 0xC0 ∧ packet[pos + 1]? = some low := by
  constructor
  · intro same
    constructor
    · rw [← same, writePointer, List.getElem?_set_ne (by omega),
        List.getElem?_set_self (by omega)]
    · rw [← same, writePointer, List.getElem?_set_self (by rwa [List.length_set])]
  · rintro ⟨hhi, hlo⟩
    rw [writePointer, set_of_getElem? hhi, set_of_getElem? hlo]

/-- What an injection is for: if it changes the packet, then the two bytes at the offset
form a pointer to an intended target. -/
def InjectsPointer (packet : List UInt8) (pos : ℕ) (intended : ℕ → Prop)
    (result : List UInt8) : Prop :=
  result ≠ packet → ∃ target, pointerTarget result pos = some target ∧ intended target

/-- A written pointer is as intended, or was there before. -/
theorem injectsPointer_writePointer_iff {packet : List UInt8} {pos : ℕ}
    (room : pos + 1 < packet.length) (low : UInt8) (intended : ℕ → Prop) :
    InjectsPointer packet pos intended (writePointer packet pos low) ↔
      (packet[pos]? = some 0xC0 ∧ packet[pos + 1]? = some low) ∨ intended low.toNat := by
  rw [InjectsPointer, ne_eq, writePointer_eq_self_iff room, pointerTarget_writePointer room]
  simp only [Option.some.injEq, exists_eq_left', or_iff_not_imp_left]

variable {σ : Type} [DrawSource σ]

/-- The offset `injectPointerLoop` draws. -/
def loopOffset (packet : List UInt8) (s : σ) : ℕ :=
  12 + ((usizeOr 1).run s).1 % (packet.length - 12)

/-- The offset `injectInvalidCompression` draws. -/
def compressionOffset (packet : List UInt8) (s : σ) : ℕ :=
  12 + ((usizeOr 1).run s).1 % (packet.length - 14)

/-- The byte `injectInvalidCompression` draws for the target. -/
def compressionByte (s : σ) : UInt8 := ((u8Or 0xFF).run ((usizeOr 1).run s).2).1

theorem injectPointerLoop_completes (packet : List UInt8) (s : σ) :
    CompletesFrom s (injectPointerLoop packet) fun result =>
      result = if loopOffset packet s + 1 < packet.length then
        writePointer packet (loopOffset packet s) (UInt8.ofNat (loopOffset packet s))
      else packet := by
  rw [injectPointerLoop]
  by_cases long : packet.length > 12
  · rw [if_pos long]
    refine CompletesFrom.draw_bind (CompletesFrom.lift_bind (sub_of_le (by omega))
      (CompletesFrom.lift_bind (rem_of_pos (by omega)) ?_))
    change CompletesFrom _ (if loopOffset packet s + 1 < packet.length then _ else _) _
    split_ifs with room
    · apply CompletesFrom.lift_bind (assign_of_lt (Nat.lt_of_succ_lt room) _)
      exact completes_assign (by rwa [List.length_set]) _ _
    · refine completes_pure ?_ _
      rfl
  · rw [if_neg long, if_neg (by rw [loopOffset]; omega)]
    refine completes_pure ?_ s
    rfl

/-- There is always room for the second pointer. -/
theorem compressionOffset_room {packet : List UInt8} (long : packet.length > 14) (s : σ) :
    compressionOffset packet s + 1 < packet.length := by
  have hrem := Nat.mod_lt ((usizeOr 1).run s).1 (show packet.length - 14 > 0 by omega)
  rw [compressionOffset]
  omega

theorem injectInvalidCompression_completes (packet : List UInt8) (s : σ) :
    CompletesFrom s (injectInvalidCompression packet) fun result =>
      result = if packet.length > 14 then
        writePointer packet (compressionOffset packet s) (compressionByte s)
      else packet := by
  rw [injectInvalidCompression]
  split_ifs with long
  · refine CompletesFrom.draw_bind (CompletesFrom.lift_bind (sub_of_le (by omega))
      (CompletesFrom.lift_bind (rem_of_pos (by omega)) ?_))
    have inside := compressionOffset_room long s
    change CompletesFrom _ (if compressionOffset packet s + 1 < packet.length then _ else _) _
    rw [if_pos inside]
    refine CompletesFrom.lift_bind (assign_of_lt (Nat.lt_of_succ_lt inside) _)
      (CompletesFrom.draw_bind ?_)
    exact completes_assign (by rwa [List.length_set]) _ _
  · refine completes_pure ?_ s
    rfl

/-- A pointer that changes the packet points to itself exactly where the offset fits in a
byte, and behind the end of the packet exactly where the drawn byte does. -/
theorem injectedPointers_intended_iff (packet : List UInt8) (s : σ) :
    (CompletesFrom s (injectPointerLoop packet)
        (InjectsPointer packet (loopOffset packet s) (· = loopOffset packet s)) ↔
      packet.length ≤ loopOffset packet s + 1 ∨
        (packet[loopOffset packet s]? = some 0xC0 ∧
          packet[loopOffset packet s + 1]? = some (UInt8.ofNat (loopOffset packet s))) ∨
        loopOffset packet s < 256) ∧
      (CompletesFrom s (injectInvalidCompression packet)
        (InjectsPointer packet (compressionOffset packet s) (packet.length ≤ ·)) ↔
      packet.length ≤ 14 ∨
        (packet[compressionOffset packet s]? = some 0xC0 ∧
          packet[compressionOffset packet s + 1]? = some (compressionByte s)) ∨
        packet.length ≤ (compressionByte s).toNat) := by
  have hsame : ∀ pos intended, InjectsPointer packet pos intended packet :=
    fun _ _ changed => absurd rfl changed
  constructor
  · rw [(injectPointerLoop_completes packet s).iff_of_eq]
    split_ifs with room
    · rw [injectsPointer_writePointer_iff room, or_iff_right (Nat.not_le.mpr room),
        UInt8.toNat_ofNat']
      exact or_congr_right (by omega)
    · exact iff_of_true (hsame _ _) (.inl (Nat.not_lt.mp room))
  · rw [(injectInvalidCompression_completes packet s).iff_of_eq]
    split_ifs with long
    · rw [injectsPointer_writePointer_iff (compressionOffset_room long s),
        or_iff_right (Nat.not_le.mpr long)]
    · exact iff_of_true (hsame _ _) (.inl (Nat.not_lt.mp long))

/-- A query for `a` that an earlier pattern padded with a thousand zeros. -/
def paddedQuery : List UInt8 :=
  [0x12, 0x34, 1, 0, 0, 1, 0, 0, 0, 0, 0, 0, 1, 97, 0, 0, 1, 0, 1] ++ List.replicate 1000 0

/-- Both draws of this seed lead to offset 300, and its ninth byte is 12. -/
def farSeed : Unstructured := { data := [0x20, 0x01, 0, 0, 0, 0, 0, 0, 12] }

/-- Behind the first 256 bytes, the pointer to itself points to byte 44, and the pointer
behind the end of the packet points to the first byte of the question. -/
theorem injectedPointers_astray :
    (∃ result s', (injectPointerLoop paddedQuery).run farSeed = .ok (result, s') ∧
      result ≠ paddedQuery ∧ pointerTarget result 300 = some 44) ∧
    ∃ result s', (injectInvalidCompression paddedQuery).run farSeed = .ok (result, s') ∧
      result ≠ paddedQuery ∧ pointerTarget result 300 = some 12 ∧ 12 < paddedQuery.length := by
  obtain ⟨looped, s', hloop, hlooped⟩ := injectPointerLoop_completes paddedQuery farSeed
  obtain ⟨invalid, s'', hrun, hinvalid⟩ := injectInvalidCompression_completes paddedQuery farSeed
  refine ⟨⟨looped, s', hloop, ?_⟩, ⟨invalid, s'', hrun, ?_⟩⟩
  · rw [hlooped]
    decide +kernel
  · rw [hinvalid]
    decide +kernel

end ProtocolFuzzer.DNS
