/-
# Prefix codes

A set of words is prefix-free when none of them begins another. Such words can be told
apart in a stream: reading from the front, the word that ends is the only one there can
be, so a stream is cut into words in one way at most.
-/

import Mathlib.Data.List.Infix
import Mathlib.InformationTheory.Coding.UniquelyDecodable

namespace ProtocolFuzzer.Math

open InformationTheory (UniquelyDecodable)

variable {α : Type*} {words : Set (List α)}

def PrefixFree (words : Set (List α)) : Prop := ∀ p ∈ words, ∀ q ∈ words, p <+: q → p = q

namespace PrefixFree

/-- What two words continue to, they continue to in the same way. -/
theorem append_inj (h : PrefixFree words) {p q rest rest' : List α} (hp : p ∈ words)
    (hq : q ∈ words) (heq : p ++ rest = q ++ rest') : p = q ∧ rest = rest' := by
  have hsame : p = q := by
    rcases List.prefix_or_prefix_of_prefix (List.prefix_append p rest)
      (heq ▸ List.prefix_append q rest') with hpq | hqp
    · exact h p hp q hq hpq
    · exact (h q hq p hp hqp).symm
  subst hsame
  exact ⟨rfl, List.append_cancel_left heq⟩

/-- Nothing can follow a word inside a word. -/
theorem notMem_append (h : PrefixFree words) {p extra : List α} (hp : p ∈ words)
    (hne : extra ≠ []) : p ++ extra ∉ words := by
  intro hlong
  have hsame := h p hp _ hlong (List.prefix_append p extra)
  exact hne (by simpa using hsame)

/-- Streams of nonempty words are cut in one way only. -/
theorem uniquelyDecodable (h : PrefixFree words) (hnil : [] ∉ words) :
    UniquelyDecodable words := by
  intro first second hfirst hsecond heq
  induction first generalizing second with
  | nil =>
      cases second with
      | nil => rfl
      | cons q second =>
          have hempty := (List.append_eq_nil_iff.mp heq.symm).1
          exact absurd (hempty ▸ hsecond q List.mem_cons_self) hnil
  | cons p first ih =>
      cases second with
      | nil =>
          have hempty := (List.append_eq_nil_iff.mp heq).1
          exact absurd (hempty ▸ hfirst p List.mem_cons_self) hnil
      | cons q second =>
          rw [List.forall_mem_cons] at hfirst hsecond
          obtain ⟨rfl, hrest⟩ := h.append_inj hfirst.1 hsecond.1 heq
          rw [ih second hfirst.2 hsecond.2 hrest]

end PrefixFree

end ProtocolFuzzer.Math
