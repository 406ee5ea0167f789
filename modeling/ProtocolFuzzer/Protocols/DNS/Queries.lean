/-
# Overwriting the fields of a question

Two malformed patterns look for the end of the domain name of a question and overwrite
the type or the class behind it. The search for the type covers the whole name with its
terminator. The search for the class stops two bytes earlier, before the terminator of a
query that ends with its class, so this pattern finds nothing there to overwrite.
-/

import ProtocolFuzzer.Protocols.DNS.Fuzzer

namespace ProtocolFuzzer.DNS

open Math Platform

/-- A query with one question and nothing behind it. -/
structure Query where
  header : List UInt8
  labels : List (List UInt8)
  qtype : UInt8 × UInt8
  qclass : UInt8 × UInt8
  length_header : header.length = 12
  labels_ne_nil : labels ≠ []
  label_lengths : ∀ label ∈ labels, 0 < label.length ∧ label.length < 256
  zero_notMem : ∀ label ∈ labels, 0 ∉ label

/-- The two fields of a question behind its name. -/
inductive Field
  | qtype
  | qclass

/-- The pattern that overwrites a field. -/
def Field.pattern : Field → MalformedPattern
  | .qtype => .invalidQType
  | .qclass => .invalidQClass

namespace Query

/-- The labels of the name, each after its length. -/
def name (q : Query) : List UInt8 :=
  q.labels.flatMap fun label => UInt8.ofNat label.length :: label

/-- Everything before the type. -/
def front (q : Query) : List UInt8 := q.header ++ q.name ++ [0]

def packet (q : Query) : List UInt8 :=
  q.front ++ [q.qtype.1, q.qtype.2, q.qclass.1, q.qclass.2]

def replace (q : Query) (field : Field) (bytes : UInt8 × UInt8) : Query :=
  match field with
  | .qtype => { q with qtype := bytes }
  | .qclass => { q with qclass := bytes }

theorem ne_zero_of_mem_name (q : Query) {byte : UInt8} (h : byte ∈ q.name) : byte ≠ 0 := by
  obtain ⟨label, hlabel, hbyte⟩ := List.mem_flatMap.mp h
  obtain ⟨hpos, hshort⟩ := q.label_lengths label hlabel
  rcases List.mem_cons.mp hbyte with rfl | hbyte
  · rw [ne_eq, ← UInt8.toNat_inj, UInt8.toNat_ofNat', Nat.mod_eq_of_lt hshort]
    exact hpos.ne'
  · rintro rfl
    exact q.zero_notMem label hlabel hbyte

/-- A name has a label, which has a length and a character. -/
theorem two_le_length_name (q : Query) : 2 ≤ q.name.length := by
  obtain ⟨label, labels, hlabels⟩ := List.exists_cons_of_ne_nil q.labels_ne_nil
  have hpos := (q.label_lengths label (hlabels ▸ List.mem_cons_self)).1
  rw [name, hlabels, List.flatMap_cons, List.length_append, List.length_cons]
  omega

theorem length_front (q : Query) : q.front.length = 12 + q.name.length + 1 := by
  rw [front, List.length_append, List.length_append, q.length_header, List.length_singleton]

theorem length_packet (q : Query) : q.packet.length = 12 + q.name.length + 5 := by
  rw [packet, List.length_append, q.length_front]
  rfl

/-- The name follows the header. -/
theorem exists_getElem_name (q : Query) {i : ℕ} (hlow : 12 ≤ i) (hhigh : i < 12 + q.name.length) :
    ∃ byte, q.packet[i]? = some byte ∧ byte ≠ 0 := by
  have hi : i - 12 < q.name.length := by omega
  refine ⟨q.name[i - 12], ?_, q.ne_zero_of_mem_name (List.getElem_mem hi)⟩
  rw [packet, front, List.append_assoc, List.append_assoc,
    List.getElem?_append_right (by rw [q.length_header]; exact hlow), q.length_header,
    List.getElem?_append_left hi, List.getElem?_eq_getElem hi]

/-- The terminator follows the name. -/
theorem getElem_terminator (q : Query) : q.packet[12 + q.name.length]? = some 0 := by
  have hlength : (q.header ++ q.name).length = 12 + q.name.length := by
    rw [List.length_append, q.length_header]
  rw [packet, front, List.append_assoc, List.getElem?_append_right hlength.le, hlength,
    Nat.sub_self]
  rfl

end Query

variable {σ : Type} [DrawSource σ]

/-- Bytes of the name are passed over. -/
theorem corruptAfterName_append {offset : ℕ} {packet : List UInt8} {passed : List ℕ}
    (h : ∀ i ∈ passed, ∃ byte, packet[i]? = some byte ∧ byte ≠ 0) (searched : List ℕ) :
    (corruptAfterName offset (passed ++ searched) packet : Fallible σ _) =
      corruptAfterName offset searched packet := by
  induction passed with
  | nil => rfl
  | cons i passed ih =>
      rw [List.forall_mem_cons] at h
      obtain ⟨⟨byte, hbyte, hne⟩, hpassed⟩ := h
      have hindex : index packet i = .ok byte := by rw [index, hbyte]
      rw [List.cons_append, corruptAfterName, hindex]
      exact (if_neg hne).trans (ih hpassed)

/-- The bytes that a pattern draws for a field. -/
def drawnBytes : Gen σ (UInt8 × UInt8) := do
  let first ← u8Or 0xFF
  let second ← u8Or 0xFF
  pure (first, second)

/-- At the terminator the drawn bytes are written. -/
theorem corruptAfterName_terminator {offset i : ℕ} {packet : List UInt8}
    (hzero : packet[i]? = some 0) (hinside : i + offset + 1 < packet.length) (s : σ)
    (rest : List ℕ) :
    CompletesFrom s (corruptAfterName offset (i :: rest) packet) fun result =>
      result = (packet.set (i + offset) (drawnBytes.run s).1.1).set (i + offset + 1)
        (drawnBytes.run s).1.2 := by
  have hindex : index packet i = .ok 0 := by rw [index, hzero]
  rw [corruptAfterName, hindex]
  apply CompletesFrom.lift_bind rfl
  rw [if_pos rfl]
  apply CompletesFrom.draw_bind
  apply CompletesFrom.lift_bind (assign_of_lt (by omega) _)
  apply CompletesFrom.draw_bind
  refine ⟨_, _, congrArg (fun c => StateT.run (liftM c) _)
    (assign_of_lt (by rwa [List.length_set]) _), rfl⟩

/-- The name of a query and its terminator end five bytes before the end. -/
theorem invalidQType_packet (q : Query) (s : σ) :
    CompletesFrom s (applyMalformedPattern q.packet .invalidQType) fun result =>
      result = (q.replace .qtype (drawnBytes.run s).1).packet := by
  have hlength := q.length_packet
  have hsplit : List.range' 12 (q.packet.length - 4 - 12) =
      List.range' 12 q.name.length ++ [12 + q.name.length] := by
    rw [show q.packet.length - 4 - 12 = q.name.length + 1 by omega, List.range'_concat,
      Nat.one_mul]
  have hpassed : ∀ i ∈ List.range' 12 q.name.length,
      ∃ byte, q.packet[i]? = some byte ∧ byte ≠ 0 := by
    intro i hi
    rw [List.mem_range'_1] at hi
    exact q.exists_getElem_name hi.1 hi.2
  rw [applyMalformedPattern, if_pos (by omega)]
  apply CompletesFrom.lift_bind (sub_of_le (by omega))
  rw [hsplit, corruptAfterName_append hpassed]
  apply (corruptAfterName_terminator q.getElem_terminator (by omega) s []).mono
  rintro result rfl
  have hfront : 12 + q.name.length + 1 = q.front.length := q.length_front.symm
  rw [hfront, Query.packet, List.set_append_right _ _ le_rfl, Nat.sub_self,
    List.set_append_right _ _ (by omega), Nat.add_sub_cancel_left]
  rfl

/-- The search for the class ends before the terminator. -/
theorem invalidQClass_packet (q : Query) (s : σ) :
    CompletesFrom s (applyMalformedPattern q.packet .invalidQClass) fun result =>
      result = q.packet := by
  have hlength := q.length_packet
  have hname := q.two_le_length_name
  have hpassed : ∀ i ∈ List.range' 12 (q.packet.length - 6 - 12),
      ∃ byte, q.packet[i]? = some byte ∧ byte ≠ 0 := by
    intro i hi
    rw [List.mem_range'_1] at hi
    exact q.exists_getElem_name hi.1 (by omega)
  rw [applyMalformedPattern, if_pos (by omega)]
  apply CompletesFrom.lift_bind (sub_of_le (by omega))
  rw [← List.append_nil (List.range' 12 _), corruptAfterName_append hpassed, corruptAfterName]
  exact ⟨q.packet, s, rfl, rfl⟩

/-- The pattern for a field replaces the field by the drawn bytes, and nothing else,
exactly when the field is the type, or the drawn bytes are those of the class already. -/
theorem applyMalformedPattern_replaces_iff (q : Query) (field : Field) (s : σ) :
    (CompletesFrom s (applyMalformedPattern q.packet field.pattern) fun result =>
        result = (q.replace field (drawnBytes.run s).1).packet) ↔
      field = .qtype ∨ (drawnBytes.run s).1 = q.qclass := by
  cases field with
  | qtype => exact iff_of_true (invalidQType_packet q s) (.inl rfl)
  | qclass =>
      have hkept := invalidQClass_packet q s
      constructor
      · intro hreplaced
        have hpacket := CompletesFrom.unique hreplaced hkept
        rw [Query.packet, Query.packet] at hpacket
        have hfields := List.append_cancel_left hpacket
        simp only [Query.replace, List.cons.injEq, true_and, and_true] at hfields
        exact .inr (Prod.ext hfields.1 hfields.2)
      · rintro (htype | hdrawn)
        · cases htype
        · rw [hdrawn]
          exact hkept

/-- A query for the name `a`, as an IN class query for an address. -/
def shortQuery : Query where
  header := [0, 0, 0, 0, 0, 1, 0, 0, 0, 0, 0, 0]
  labels := [[0x61]]
  qtype := (0, 1)
  qclass := (0, 1)
  length_header := rfl
  labels_ne_nil := by decide
  label_lengths := by decide
  zero_notMem := by decide

/-- The class is not replaced by the drawn bytes `FF FF`. -/
theorem invalidQClass_misses :
    ¬ CompletesFrom ({ data := [0xFF, 0xFF] } : Unstructured)
      (applyMalformedPattern shortQuery.packet Field.qclass.pattern) fun result =>
        result = (shortQuery.replace .qclass
          (drawnBytes.run ({ data := [0xFF, 0xFF] } : Unstructured)).1).packet := by
  intro hreplaced
  have hpacket := CompletesFrom.unique hreplaced (invalidQClass_packet shortQuery _)
  exact absurd hpacket (by decide)

end ProtocolFuzzer.DNS
