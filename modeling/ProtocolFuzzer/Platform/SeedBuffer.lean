/-
# Computations that read their seed buffer only

An `Unstructured` source consists of a buffer and of the generator of the thread, which is
asked in a few places only. A computation that never asks it is a function of the buffer.
The rules below derive this along the structure of a computation.
-/

import ProtocolFuzzer.Platform.Draws

namespace ProtocolFuzzer.Platform

open Unstructured

variable {α β : Type}

/-- What a computation gives, and what it leaves of the buffer. -/
def outcome (m : Fallible Unstructured α) (u : Unstructured) : Checked (α × List UInt8) :=
  (fun r => (r.1, r.2.data)) <$> m.run u

/-- The computation does not depend on the generator of the thread. -/
def ReadsBuffer (m : Fallible Unstructured α) : Prop :=
  ∀ data random random', outcome m ⟨data, random⟩ = outcome m ⟨data, random'⟩

theorem outcome_bind (m : Fallible Unstructured α) (f : α → Fallible Unstructured β)
    (u : Unstructured) : outcome (m >>= f) u = m.run u >>= fun r => outcome (f r.1) r.2 := by
  rw [outcome, StateT.run_bind, map_bind]
  rfl

namespace ReadsBuffer

theorem pure (a : α) : ReadsBuffer (Pure.pure a) := fun _ _ _ => rfl

/-- A checked operation reads nothing at all. -/
theorem lift (c : Checked α) : ReadsBuffer (liftM c) := by
  intro data random random'
  cases c <;> rfl

theorem bind {m : Fallible Unstructured α} {f : α → Fallible Unstructured β}
    (hm : ReadsBuffer m) (hf : ∀ a, ReadsBuffer (f a)) : ReadsBuffer (m >>= f) := by
  intro data random random'
  have hfirst := hm data random random'
  rw [outcome, outcome] at hfirst
  rw [outcome_bind, outcome_bind]
  cases hrun : m.run ⟨data, random⟩ with
  | error panic =>
      rw [hrun] at hfirst
      cases hrun' : m.run ⟨data, random'⟩ with
      | error panic' =>
          rw [hrun'] at hfirst
          cases hfirst
          rfl
      | ok r' =>
          rw [hrun'] at hfirst
          cases hfirst
  | ok r =>
      rw [hrun] at hfirst
      cases hrun' : m.run ⟨data, random'⟩ with
      | error panic' =>
          rw [hrun'] at hfirst
          cases hfirst
      | ok r' =>
          rw [hrun'] at hfirst
          obtain ⟨a, rest, restRandom⟩ := r
          obtain ⟨a', rest', restRandom'⟩ := r'
          obtain ⟨rfl, rfl⟩ := Prod.mk.inj (Except.ok.inj hfirst)
          exact hf a rest restRandom restRandom'

theorem boolOr (default : Bool) : ReadsBuffer (draw (boolOr default)) := fun _ _ _ => rfl

theorem u8Or (default : UInt8) : ReadsBuffer (draw (u8Or default)) := fun _ _ _ => rfl

theorem i16Or (default : Int16) : ReadsBuffer (draw (i16Or default)) := fun _ _ _ => rfl

theorem usizeOr (default : UInt64) : ReadsBuffer (draw (usizeOr default)) := fun _ _ _ => rfl

/-- The value is determined by the buffer. -/
theorem value_eq {m : Fallible Unstructured α} (h : ReadsBuffer m) (data : List UInt8)
    (random random' : ℕ → UInt32) :
    Prod.fst <$> m.run ⟨data, random⟩ = Prod.fst <$> m.run ⟨data, random'⟩ := by
  have houtcome := congrArg (Prod.fst <$> ·) (h data random random')
  simpa only [outcome, Functor.map_map] using houtcome

end ReadsBuffer

end ProtocolFuzzer.Platform
