/-
# Hit maps

A hit map is an array of 8-bit counters. A hit moves the counter at its position one up
and stops at 255; a hit beyond the map is lost. After any sequence of hits a counter is one
clamp of its start and the number of hits at its position, so the order of the hits never
matters and a counter never falls.
-/

import Mathlib.Data.List.Induction
import Mathlib.Order.Lattice.Nat
import Mathlib.Tactic.SplitIfs

namespace ProtocolFuzzer.Math

/-- `n.saturating_add(1)` -/
def saturatingSucc (n : UInt8) : UInt8 := if n = 255 then 255 else n + 1

/-- A hit at a position of the map, if there is such a position. -/
def hit (counters : List UInt8) (i : ℕ) : List UInt8 :=
  match counters[i]? with
  | some n => counters.set i (saturatingSucc n)
  | none => counters

/-- A counter that stops at 255. -/
def clamp (n : ℕ) : UInt8 := UInt8.ofNat (min 255 n)

theorem toNat_clamp (n : ℕ) : (clamp n).toNat = min 255 n := by
  rw [clamp, UInt8.toNat_ofNat', Nat.mod_eq_of_lt (by omega)]

theorem clamp_toNat (n : UInt8) : clamp n.toNat = n := by
  have hlt := n.toNat_lt
  apply UInt8.toNat_inj.mp
  rw [toNat_clamp]
  omega

/-- Saturating along the way is clamping at the end. -/
theorem saturatingSucc_clamp (n : ℕ) : saturatingSucc (clamp n) = clamp (n + 1) := by
  have hfull : clamp n = 255 ↔ 255 ≤ n := by
    rw [← UInt8.toNat_inj, toNat_clamp]
    exact min_eq_left_iff
  apply UInt8.toNat_inj.mp
  rw [saturatingSucc]
  split_ifs with full
  · rw [hfull] at full
    rw [toNat_clamp, Nat.min_eq_left (by omega)]
    rfl
  · rw [hfull] at full
    rw [UInt8.toNat_add, toNat_clamp, toNat_clamp, Nat.min_eq_right (by omega),
      Nat.min_eq_right (by omega)]
    exact Nat.mod_eq_of_lt (by change n + 1 < 256; omega)

@[simp]
theorem length_hit (counters : List UInt8) (i : ℕ) : (hit counters i).length = counters.length := by
  rw [hit]
  split
  · exact List.length_set
  · rfl

theorem getElem?_hit_self (counters : List UInt8) (i : ℕ) :
    (hit counters i)[i]? = counters[i]?.map saturatingSucc := by
  rw [hit]
  cases hcounter : counters[i]? with
  | some n =>
      have hi := (List.getElem?_eq_some_iff.mp hcounter).1
      exact List.getElem?_set_self hi
  | none => exact hcounter

theorem getElem?_hit_of_ne (counters : List UInt8) {i k : ℕ} (h : i ≠ k) :
    (hit counters i)[k]? = counters[k]? := by
  rw [hit]
  split
  · exact List.getElem?_set_ne h
  · rfl

/-- The map after a sequence of hits. -/
def hitAll (counters : List UInt8) (hits : List ℕ) : List UInt8 := hits.foldl hit counters

@[simp]
theorem length_hitAll (counters : List UInt8) (hits : List ℕ) :
    (hitAll counters hits).length = counters.length := by
  induction hits using List.reverseRecOn with
  | nil => rfl
  | append_singleton hits i ih =>
      rw [hitAll, List.foldl_append]
      exact (length_hit _ i).trans ih

theorem hitAll_append (counters : List UInt8) (first second : List ℕ) :
    hitAll counters (first ++ second) = hitAll (hitAll counters first) second :=
  List.foldl_append

/-- A counter is one clamp of its start and of the hits at its position. -/
theorem getElem?_hitAll (counters : List UInt8) (hits : List ℕ) (k : ℕ) :
    (hitAll counters hits)[k]? = counters[k]?.map fun n => clamp (n.toNat + hits.count k) := by
  induction hits using List.reverseRecOn with
  | nil =>
      change counters[k]? = _
      cases counters[k]? with
      | none => rfl
      | some n => exact congrArg some (clamp_toNat n).symm
  | append_singleton hits i ih =>
      rw [hitAll_append, List.count_append]
      change (hit (hitAll counters hits) i)[k]? = _
      by_cases here : i = k
      · rw [here, getElem?_hit_self, ih, Option.map_map, List.count_singleton_self]
        congr 1
        funext n
        exact saturatingSucc_clamp _
      · rw [getElem?_hit_of_ne _ here, ih, List.count_singleton, if_neg (by simpa using here)]
        rfl

/-- The order of the hits does not matter. -/
theorem hitAll_perm {first second : List ℕ} (h : first.Perm second) (counters : List UInt8) :
    hitAll counters first = hitAll counters second := by
  apply List.ext_getElem?
  intro k
  rw [getElem?_hitAll, getElem?_hitAll, h.count_eq]

end ProtocolFuzzer.Math
