/-
# What the malformed patterns do to a header

Seven of the eight malformed patterns write behind the twelve bytes of the header only,
and never cut into it; the other one replaces the two flag bytes. So any chain of
patterns returns, on whatever packet, and leaves the transaction id and the four counts
alone. `HeaderKept` is the relation that a chain preserves.
-/

import ProtocolFuzzer.Protocols.DNS.Fuzzer
import ProtocolFuzzer.Protocols.Mutations

namespace ProtocolFuzzer.DNS

open Math Platform Common

/-- A packet with a header keeps a header, with the same bytes at the given positions. -/
structure HeaderKept (positions : ℕ → Prop) (packet result : List UInt8) : Prop where
  long : 12 ≤ packet.length → 12 ≤ result.length
  bytes : 12 ≤ packet.length → ∀ i < 12, positions i → result[i]? = packet[i]?

/-- The positions of the header outside the flags. -/
def OutsideFlags (i : ℕ) : Prop := i ≠ 2 ∧ i ≠ 3

namespace HeaderKept

variable {positions : ℕ → Prop} {packet result : List UInt8}

theorem refl (packet : List UInt8) : HeaderKept positions packet packet where
  long long := long
  bytes _ _ _ _ := rfl

theorem trans {first second third : List UInt8} (h : HeaderKept positions first second)
    (h' : HeaderKept positions second third) : HeaderKept positions first third where
  long long := h'.long (h.long long)
  bytes long i hi hpos := (h'.bytes (h.long long) i hi hpos).trans (h.bytes long i hi hpos)

theorem mono {positions' : ℕ → Prop} (h : HeaderKept positions packet result)
    (weaken : ∀ i, positions' i → positions i) : HeaderKept positions' packet result where
  long := h.long
  bytes long i hi hpos := h.bytes long i hi (weaken i hpos)

/-- Writing at another position. -/
theorem set (packet : List UInt8) {i : ℕ} (hi : ∀ j < 12, positions j → i ≠ j) (byte : UInt8) :
    HeaderKept positions packet (packet.set i byte) where
  long long := by rwa [List.length_set]
  bytes _ j hj hpos := List.getElem?_set_ne (hi j hj hpos)

/-- Writing behind the header. -/
theorem setBehind (packet : List UInt8) {i : ℕ} (hi : 12 ≤ i) (byte : UInt8) :
    HeaderKept positions packet (packet.set i byte) := set packet (fun j hj _ => by omega) byte

theorem append (packet rest : List UInt8) : HeaderKept positions packet (packet ++ rest) where
  long long := by
    rw [List.length_append]
    omega
  bytes long i hi _ := List.getElem?_append_left (by omega)

theorem setTwoBehind (packet : List UInt8) {i : ℕ} (hi : 12 ≤ i) (first second : UInt8) :
    HeaderKept positions packet ((packet.set i first).set (i + 1) second) :=
  (setBehind packet hi first).trans (setBehind _ (Nat.le_succ_of_le hi) second)

/-- Replacing what comes after the header. -/
theorem take_append (packet : List UInt8) {n : ℕ} (hn : 12 ≤ n) (rest : List UInt8) :
    HeaderKept positions packet (packet.take n ++ rest) where
  long long := by
    rw [List.length_append, List.length_take]
    omega
  bytes long i hi _ := by
    rw [List.getElem?_append_left (by rw [List.length_take]; omega),
      List.getElem?_take_of_lt (by omega)]

end HeaderKept

variable {σ : Type} [DrawSource σ] {positions : ℕ → Prop}

theorem corruptAfterName_headerKept {offset : ℕ} {searched : List ℕ} {packet : List UInt8}
    (h : ∀ i ∈ searched, 12 ≤ i ∧ i + offset + 1 < packet.length) :
    Completes (corruptAfterName offset searched packet : Fallible σ _)
      (HeaderKept positions packet) := by
  induction searched with
  | nil => exact completes_pure (HeaderKept.refl packet)
  | cons i searched ih =>
      obtain ⟨hbehind, hinside⟩ := h i List.mem_cons_self
      rw [corruptAfterName]
      apply Completes.bind (completes_index (by omega))
      intro byte _
      split_ifs
      · apply Completes.bind (completes_draw _)
        intro first _
        apply Completes.bind (completes_assign (by omega) first)
        rintro _ rfl
        apply Completes.bind (completes_draw _)
        intro second _
        apply (completes_assign (by rwa [List.length_set]) second).mono
        rintro _ rfl
        exact HeaderKept.setTwoBehind packet (Nat.le_add_right_of_le hbehind) first second
      · exact ih fun j hj => h j (List.mem_cons_of_mem i hj)

/-- The search ends so far before the end of the packet that the field is inside. -/
theorem searchName_headerKept {offset margin : ℕ} {packet : List UInt8}
    (fits : margin ≤ packet.length) (hmargin : offset + 2 ≤ margin) :
    Completes (do
        let stop ← liftM (sub packet.length margin)
        corruptAfterName offset (List.range' 12 (stop - 12)) packet : Fallible σ _)
      (HeaderKept positions packet) := by
  apply Completes.bind (completes_sub fits)
  rintro stop rfl
  apply corruptAfterName_headerKept
  intro i hi
  rw [List.mem_range'_1] at hi
  omega

/-- What holds of every position behind the header holds of the drawn one. -/
theorem completes_drawBehindHeader {β : Type} {packet : List UInt8} {margin : ℕ}
    (long : margin < packet.length) {rest : ℕ → Fallible σ β} {P : β → Prop}
    (h : ∀ r, Completes (rest r) P) :
    Completes (do
        let r ← rem (← draw (usizeOr 1)) (← sub packet.length margin)
        rest r) P := by
  apply Completes.bind (completes_draw _)
  intro d _
  apply Completes.bind (completes_sub long.le)
  rintro room rfl
  apply Completes.bind (completes_rem d (Nat.sub_pos_of_lt long))
  intro r _
  exact h r

/-- Two bytes are written from a position behind the header on. -/
theorem injectPointerLoop_headerKept (packet : List UInt8) :
    Completes (injectPointerLoop packet : Fallible σ _) (HeaderKept positions packet) := by
  rw [injectPointerLoop]
  split_ifs with long
  · apply completes_drawBehindHeader (by omega)
    intro r
    dsimp only
    split_ifs with inside
    · apply Completes.bind (completes_assign (by omega) _)
      rintro _ rfl
      apply (completes_assign (by rwa [List.length_set]) _).mono
      rintro _ rfl
      exact HeaderKept.setTwoBehind packet (Nat.le_add_right 12 r) _ _
    · exact completes_pure (HeaderKept.refl packet)
  · exact completes_pure (HeaderKept.refl packet)

theorem injectInvalidCompression_headerKept (packet : List UInt8) :
    Completes (injectInvalidCompression packet : Fallible σ _) (HeaderKept positions packet) := by
  rw [injectInvalidCompression]
  split_ifs with long
  · apply completes_drawBehindHeader (by omega)
    intro r
    dsimp only
    split_ifs with inside
    · apply Completes.bind (completes_assign (by omega) _)
      rintro _ rfl
      apply Completes.bind (completes_draw _)
      intro byte _
      apply (completes_assign (by rwa [List.length_set]) byte).mono
      rintro _ rfl
      exact HeaderKept.setTwoBehind packet (Nat.le_add_right 12 r) _ _
    · exact completes_pure (HeaderKept.refl packet)
  · exact completes_pure (HeaderKept.refl packet)

theorem injectOversizedLabels_headerKept (packet : List UInt8) :
    Completes (injectOversizedLabels packet : Fallible σ _) (HeaderKept positions packet) := by
  rw [injectOversizedLabels]
  split_ifs with long
  · apply Completes.bind (completes_draw _)
    intro drawn _
    apply Completes.bind (completes_slice (Nat.zero_le 12) long.le)
    rintro header rfl
    apply completes_pure
    simp only [List.append_assoc, List.drop_zero]
    exact HeaderKept.take_append packet le_rfl _
  · exact completes_pure (HeaderKept.refl packet)

/-- The positions that a chain of patterns leaves alone. -/
def LeftAlone (patterns : List MalformedPattern) (i : ℕ) : Prop :=
  .invalidHeader ∈ patterns → OutsideFlags i

/-- Every pattern returns on every packet. -/
theorem applyMalformedPattern_headerKept (packet : List UInt8) (pattern : MalformedPattern) :
    Completes (applyMalformedPattern packet pattern : Fallible σ _)
      (HeaderKept (LeftAlone [pattern]) packet) := by
  cases pattern with
  | invalidHeader =>
      rw [applyMalformedPattern]
      split_ifs with long
      · apply Completes.bind (completes_draw _)
        intro first _
        apply Completes.bind (completes_assign (by omega) first)
        rintro _ rfl
        apply Completes.bind (completes_draw _)
        intro second _
        apply (completes_assign (by rw [List.length_set]; omega) second).mono
        rintro _ rfl
        have houtside : ∀ i, LeftAlone [.invalidHeader] i → OutsideFlags i :=
          fun i h => h List.mem_cons_self
        exact (HeaderKept.set packet (fun i _ h => (houtside i h).1.symm) first).trans
          (HeaderKept.set _ (fun i _ h => (houtside i h).2.symm) second)
      · exact completes_pure (HeaderKept.refl packet)
  | truncatedQuery =>
      rw [applyMalformedPattern]
      split_ifs with long
      · apply completes_drawBehindHeader (by omega)
        intro r
        apply completes_pure
        simpa using HeaderKept.take_append packet (show 12 ≤ 12 + r by omega) []
      · exact completes_pure (HeaderKept.refl packet)
  | oversizedQuery =>
      exact Completes.bind (completes_draw _) fun d _ => completes_pure (HeaderKept.append packet _)
  | invalidQType =>
      rw [applyMalformedPattern]
      split_ifs with long
      · exact searchName_headerKept (by omega) (by decide)
      · exact completes_pure (HeaderKept.refl packet)
  | invalidQClass =>
      rw [applyMalformedPattern]
      split_ifs with long
      · exact searchName_headerKept (by omega) (by decide)
      · exact completes_pure (HeaderKept.refl packet)
  | pointerLoop => exact injectPointerLoop_headerKept packet
  | oversizedLabels => exact injectOversizedLabels_headerKept packet
  | invalidCompression => exact injectInvalidCompression_headerKept packet

/-- The positions left alone by a chain are left alone by its first pattern and by the
others. -/
theorem leftAlone_cons {pattern : MalformedPattern} {patterns : List MalformedPattern} {i : ℕ} :
    LeftAlone (pattern :: patterns) i ↔ LeftAlone [pattern] i ∧ LeftAlone patterns i := by
  simp only [LeftAlone, List.mem_cons, List.not_mem_nil, or_false, or_imp]

theorem foldlM_headerKept (patterns : List MalformedPattern) (packet : List UInt8) :
    Completes (patterns.foldlM applyMalformedPattern packet : Fallible σ _)
      (HeaderKept (LeftAlone patterns) packet) := by
  induction patterns generalizing packet with
  | nil => exact completes_pure (HeaderKept.refl packet)
  | cons pattern patterns ih =>
      rw [List.foldlM_cons]
      apply Completes.bind (applyMalformedPattern_headerKept packet pattern)
      intro next hnext
      apply (ih next).mono
      intro result hresult
      exact (hnext.mono fun i h => (leftAlone_cons.mp h).1).trans
        (hresult.mono fun i h => (leftAlone_cons.mp h).2)

/-- Any chain of patterns returns on any packet. It keeps the header of a packet that has
one, up to the flags where it contains the pattern that invalidates headers. -/
theorem applyMalformedPattern_chain (patterns : List MalformedPattern) (packet : List UInt8) :
    Completes (patterns.foldlM applyMalformedPattern packet : Fallible σ _) fun result =>
      12 ≤ packet.length → 12 ≤ result.length ∧
        (∀ i < 12, i ≠ 2 → i ≠ 3 → result[i]? = packet[i]?) ∧
        (.invalidHeader ∉ patterns → result[2]? = packet[2]? ∧ result[3]? = packet[3]?) := by
  refine (foldlM_headerKept patterns packet).mono fun result h long => ⟨h.long long, ?_, ?_⟩
  · exact fun i hi h2 h3 => h.bytes long i hi fun _ => ⟨h2, h3⟩
  · intro habsent
    have hall : ∀ i, LeftAlone patterns i := fun i hmem => absurd hmem habsent
    exact ⟨h.bytes long 2 (by decide) (hall 2), h.bytes long 3 (by decide) (hall 3)⟩

theorem applyMalformedPatterns_completes (count : ℕ) (packet : List UInt8) :
    Completes (applyMalformedPatterns count packet : Fallible σ _)
      (HeaderKept OutsideFlags packet) := by
  induction count generalizing packet with
  | zero => exact completes_pure (HeaderKept.refl packet)
  | succ count ih =>
      apply Completes.bind (completes_draw _)
      intro pattern _
      apply Completes.bind (applyMalformedPattern_headerKept packet pattern)
      intro next hnext
      apply (ih next).mono
      intro result hresult
      exact (hnext.mono fun i houtside _ => houtside).trans hresult

/-- Mutating is choosing a mutation and then executing it. -/
theorem mutatePacket_eq (packet : List UInt8) :
    (mutatePacket packet : Fallible σ (List UInt8)) =
      draw (drawMutation drawMalformedPattern) >>= Mutation.apply applyMalformedPattern packet :=
  (drawMutation_bind_apply drawMalformedPattern applyMalformedPattern packet).symm

/-- Mutating a packet returns, whatever packet it is. -/
theorem mutatePacket_completes (packet : List UInt8) :
    Completes (mutatePacket packet : Fallible σ _) fun _ => True := by
  apply Completes.bind (completes_draw _)
  intro drawn _
  dsimp only
  split
  · exact (bitFlipMutation_length packet).mono fun _ _ => trivial
  · exact (byteInsertMutation_length packet).mono fun _ _ => trivial
  · exact (byteDeleteMutation_length packet).mono fun _ _ => trivial
  · exact (arithmeticMutation_length packet).mono fun _ _ => trivial
  · exact Completes.bind (completes_draw _) fun pattern _ =>
      (applyMalformedPattern_headerKept packet pattern).mono fun _ _ => trivial
  · exact completes_pure trivial

end ProtocolFuzzer.DNS
