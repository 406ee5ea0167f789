/-
# Byte strings

The protocols of this development are byte formats. This module collects the
conversions a byte format needs: a text as its UTF-8 bytes, 16-bit fields in
big-endian order, and little-endian words of any width. Every conversion is
computable, and each comes with the round trip its readers rely on.
-/

import Mathlib.Data.List.Basic
import Mathlib.Tactic.Linarith

namespace ProtocolFuzzer.Math

/-- A property of every byte may be checked on the 256 byte values. -/
theorem forall_byte {P : UInt8 → Prop} (checked : ∀ n : Fin 256, P (UInt8.ofNat n))
    (b : UInt8) : P b := by
  have h := checked ⟨b.toNat, b.toNat_lt⟩
  rwa [UInt8.ofNat_toNat] at h

/-- The number in the upper four bits of a byte. -/
def highNibble (b : UInt8) : ℕ := b.toNat / 16

/-- The UTF-8 bytes of a text. -/
def utf8 (text : String) : List UInt8 := text.toUTF8.data.toList

/-- The text with the given UTF-8 bytes, if they are valid. -/
def fromUtf8 (bytes : List UInt8) : Option String := String.fromUTF8? bytes.toByteArray

/-- ASCII bytes are the UTF-8 bytes of a text. -/
theorem exists_fromUtf8_of_ascii {bytes : List UInt8} (ascii : ∀ b ∈ bytes, b < 128) :
    ∃ text, fromUtf8 bytes = some text ∧ utf8 text = bytes := by
  have hchar : ∀ b : UInt8, b < 128 →
      String.utf8EncodeChar (Char.ofNat b.toNat) = [b] := forall_byte (by decide +kernel)
  have hencode : (bytes.map fun b => Char.ofNat b.toNat).utf8Encode = bytes.toByteArray := by
    rw [List.utf8Encode, List.flatMap_map]
    congr 1
    calc bytes.flatMap (fun b => String.utf8EncodeChar (Char.ofNat b.toNat))
        = bytes.flatMap fun b => [b] := List.flatMap_congr fun b hb => hchar b (ascii b hb)
      _ = bytes := List.flatMap_singleton' bytes
  have hvalid : bytes.toByteArray.IsValidUTF8 := ⟨_, hencode.symm⟩
  refine ⟨String.fromUTF8 bytes.toByteArray hvalid, dif_pos hvalid, ?_⟩
  exact List.toList_data_toByteArray

/-- Writing what is there. -/
theorem set_of_getElem? {bytes : List UInt8} {i : ℕ} {byte : UInt8} (h : bytes[i]? = some byte) :
    bytes.set i byte = bytes := by
  obtain ⟨hi, rfl⟩ := List.getElem?_eq_some_iff.mp h
  exact List.set_getElem_self hi

/-- The two bytes of a 16-bit field, high byte first. -/
def toBE16 (v : UInt16) : List UInt8 :=
  [UInt8.ofNat (v.toNat / 256), UInt8.ofNat (v.toNat % 256)]

/-- The four bytes of a 32-bit field, high byte first. -/
def toBE32 (v : UInt32) : List UInt8 :=
  [UInt8.ofNat (v.toNat / 2 ^ 24), UInt8.ofNat (v.toNat / 2 ^ 16 % 256),
    UInt8.ofNat (v.toNat / 2 ^ 8 % 256), UInt8.ofNat (v.toNat % 256)]

/-- The 16-bit field stored in two bytes, high byte first. -/
def fromBE16 (hi lo : UInt8) : UInt16 := UInt16.ofNat (hi.toNat * 256 + lo.toNat)

@[simp]
theorem length_toBE16 (v : UInt16) : (toBE16 v).length = 2 := rfl

theorem toNat_fromBE16 (hi lo : UInt8) :
    (fromBE16 hi lo).toNat = hi.toNat * 256 + lo.toNat := by
  have hhi := hi.toNat_lt
  have hlo := lo.toNat_lt
  simp only [fromBE16, UInt16.toNat_ofNat']
  omega

/-- Reading back a written field gives the field. -/
theorem fromBE16_toBE16 (v : UInt16) :
    fromBE16 (UInt8.ofNat (v.toNat / 256)) (UInt8.ofNat (v.toNat % 256)) = v := by
  apply UInt16.toNat_inj.mp
  have hv := v.toNat_lt
  rw [toNat_fromBE16, UInt8.toNat_ofNat', UInt8.toNat_ofNat']
  omega

/-- Writing a field that was read gives the bytes it was read from. -/
theorem toBE16_fromBE16 (hi lo : UInt8) : toBE16 (fromBE16 hi lo) = [hi, lo] := by
  have hhi : (hi.toNat * 256 + lo.toNat) / 256 = hi.toNat := by
    have hlo := lo.toNat_lt
    omega
  have hlo : (hi.toNat * 256 + lo.toNat) % 256 = lo.toNat := by
    have hlo := lo.toNat_lt
    omega
  rw [toBE16, toNat_fromBE16, hhi, hlo, UInt8.ofNat_toNat, UInt8.ofNat_toNat]

/-- The number stored in a byte string, lowest byte first. -/
def fromLE : List UInt8 → ℕ
  | [] => 0
  | b :: bs => b.toNat + 256 * fromLE bs

theorem fromLE_lt (bytes : List UInt8) : fromLE bytes < 256 ^ bytes.length := by
  induction bytes with
  | nil => exact Nat.one_pos
  | cons b bytes ih =>
      have hb := b.toNat_lt
      rw [fromLE, List.length_cons, Nat.pow_succ]
      omega

/-- The `width` lowest bytes of a number, lowest byte first. -/
def toLE : ℕ → ℕ → List UInt8
  | 0, _ => []
  | width + 1, n => UInt8.ofNat (n % 256) :: toLE width (n / 256)

@[simp]
theorem length_toLE (width n : ℕ) : (toLE width n).length = width := by
  induction width generalizing n with
  | zero => rfl
  | succ width ih => rw [toLE, List.length_cons, ih]

/-- Reading back a written word gives the word, if it fits. -/
theorem fromLE_toLE {width n : ℕ} (fits : n < 256 ^ width) : fromLE (toLE width n) = n := by
  induction width generalizing n with
  | zero => exact (Nat.lt_one_iff.mp fits).symm
  | succ width ih =>
      have hlow : (UInt8.ofNat (n % 256)).toNat = n % 256 := by
        rw [UInt8.toNat_ofNat']
        omega
      have hhigh : n / 256 < 256 ^ width := by
        rw [Nat.pow_succ] at fits
        omega
      rw [toLE, fromLE, ih hhigh, hlow, Nat.mod_add_div]

end ProtocolFuzzer.Math
