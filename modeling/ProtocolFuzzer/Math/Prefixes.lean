/-
# Names told apart by their prefixes

A program that builds names from fixed tags and variable parts produces different names
when no tag begins another. `Emits` follows such a program: a list of names is emitted
by a list of tags when each name begins with a tag of its own, in the order of the list.
It composes along concatenation, and if the tags are pairwise incomparable then no name
is emitted twice.
-/

import Mathlib.Data.List.Forall2
import Mathlib.Data.List.Infix

namespace ProtocolFuzzer.Math

universe u v

variable {α : Type u} {β : Type v}

/-- Neither word begins the other. -/
def Incomparable (p q : List α) : Prop := ¬ p <+: q ∧ ¬ q <+: p

instance [DecidableEq α] (p q : List α) : Decidable (Incomparable p q) :=
  inferInstanceAs (Decidable (_ ∧ _))

/-- A word begins with at most one of two incomparable words. -/
theorem Incomparable.excludes {p q w : List α} (h : Incomparable p q) (hp : p <+: w) :
    ¬ q <+: w := fun hq =>
  (List.prefix_or_prefix_of_prefix hp hq).elim h.1 h.2

/-- The names begin with different tags, in the order of the tags. -/
def Emits (spell : β → List α) (tags : List (List α)) (names : List β) : Prop :=
  ∃ used, used.Sublist tags ∧ List.Forall₂ (fun tag name => tag <+: spell name) used names

namespace Emits

variable {spell : β → List α} {tags tags' : List (List α)} {names names' : List β}

theorem nil (tags : List (List α)) : Emits spell tags [] :=
  ⟨[], List.nil_sublist _, List.Forall₂.nil⟩

theorem single {tag : List α} {name : β} (h : tag <+: spell name) : Emits spell [tag] [name] :=
  ⟨[tag], List.Sublist.refl _, List.Forall₂.cons h List.Forall₂.nil⟩

theorem append (h : Emits spell tags names) (h' : Emits spell tags' names') :
    Emits spell (tags ++ tags') (names ++ names') := by
  obtain ⟨used, hsub, hnames⟩ := h
  obtain ⟨used', hsub', hnames'⟩ := h'
  exact ⟨used ++ used', hsub.append hsub', List.rel_append hnames hnames'⟩

theorem weaken (h : Emits spell tags names) (hsub : tags.Sublist tags') :
    Emits spell tags' names := by
  obtain ⟨used, hused, hnames⟩ := h
  exact ⟨used, hused.trans hsub, hnames⟩

/-- One of two names, each with its own tag. -/
theorem choice {c : Prop} [Decidable c] {tag tag' : List α} {name name' : β}
    (h : tag <+: spell name) (h' : tag' <+: spell name') :
    Emits spell [tag, tag'] [if c then name else name'] := by
  split_ifs
  · exact (single h).weaken (List.singleton_sublist.mpr List.mem_cons_self)
  · exact (single h').weaken (List.singleton_sublist.mpr (by simp))

/-- Every name begins with one of the tags used for them. -/
theorem exists_tag {used : List (List α)}
    (h : List.Forall₂ (fun tag name => tag <+: spell name) used names) {name : β}
    (hmem : name ∈ names) : ∃ tag ∈ used, tag <+: spell name := by
  induction h with
  | nil => simp at hmem
  | cons hhead htail ih =>
      rcases List.mem_cons.mp hmem with rfl | hmem
      · exact ⟨_, List.mem_cons_self, hhead⟩
      · obtain ⟨tag, htag, hbegins⟩ := ih hmem
        exact ⟨tag, List.mem_cons_of_mem _ htag, hbegins⟩

/-- Incomparable tags emit no name twice. -/
theorem nodup (hemits : Emits spell tags names) (h : tags.Pairwise Incomparable) :
    names.Nodup := by
  obtain ⟨used, hsub, hnames⟩ := hemits
  have hused := h.sublist hsub
  clear hsub
  induction hnames with
  | nil => exact List.nodup_nil
  | @cons tag name used names hhead htail ih =>
      rw [List.pairwise_cons] at hused
      refine List.nodup_cons.mpr ⟨fun hmem => ?_, ih hused.2⟩
      obtain ⟨other, hother, hbegins⟩ := exists_tag htail hmem
      exact (hused.1 other hother).excludes hhead hbegins

/-- A family of different names under one more tag can follow. -/
theorem nodup_append {tag : List α} {family : List β} (hemits : Emits spell tags names)
    (hfamily : ∀ name ∈ family, tag <+: spell name) (hnodup : family.Nodup)
    (h : (tag :: tags).Pairwise Incomparable) : (names ++ family).Nodup := by
  rw [List.pairwise_cons] at h
  refine List.nodup_append.mpr ⟨hemits.nodup h.2, hnodup, ?_⟩
  rintro name hname _ hlast rfl
  obtain ⟨used, hsub, hnames⟩ := hemits
  obtain ⟨other, hother, hbegins⟩ := exists_tag hnames hname
  exact (h.1 other (hsub.subset hother)).excludes (hfamily name hlast) hbegins

end Emits

end ProtocolFuzzer.Math
