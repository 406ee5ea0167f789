/-
# The rate limiter

A token bucket: every call first adds the tokens of the time that has passed, up to the
capacity, and then takes what it asks for if there is enough. The difference between the
tokens and what the clock was worth at the last refill is a potential: no call gains more
than it takes from it. A refill clipped at the capacity only loses potential, so the
bound on what is granted between two calls does not depend on what was denied or clipped
on the way. Times and amounts are exact.
-/

import Mathlib.Algebra.Order.Field.Basic
import Mathlib.Tactic.Linarith
import ProtocolFuzzer.Math.Potential

namespace ProtocolFuzzer.Utils

open Math

/-- Simple rate limiter for network operations. -/
structure RateLimiter (K : Type*) where
  tokens : K
  capacity : K
  /-- Tokens per second. -/
  refillRate : K
  lastRefill : K

namespace RateLimiter

variable {K : Type*} [Field K] [LinearOrder K]

def new (capacity refillRate now : K) : RateLimiter K where
  tokens := capacity
  capacity
  refillRate
  lastRefill := now

/-- A duration since a later instant is zero. -/
def refill (l : RateLimiter K) (now : K) : RateLimiter K :=
  let elapsed := max (now - l.lastRefill) 0
  let newTokens := elapsed * l.refillRate
  { l with tokens := min (l.tokens + newTokens) l.capacity, lastRefill := now }

def tryAcquire (l : RateLimiter K) (now tokens : K) : Bool × RateLimiter K :=
  let l := l.refill now
  if l.tokens ≥ tokens then (true, { l with tokens := l.tokens - tokens }) else (false, l)

/-- A call of `try_acquire`: when it is made and what it asks for. -/
structure Call (K : Type*) where
  time : K
  amount : K

def step (l : RateLimiter K) (call : Call K) : RateLimiter K :=
  (l.tryAcquire call.time call.amount).2

/-- The amount a call is granted, zero where it is denied. -/
def granted (l : RateLimiter K) (call : Call K) : K :=
  if (l.tryAcquire call.time call.amount).1 then call.amount else 0

/-- The amounts granted in a sequence of calls. -/
def grants (l : RateLimiter K) (calls : List (Call K)) : List K := gains step granted l calls

/-- The calls still to come are made at times that do not decrease, and ask for amounts that
are not negative; and the bucket is neither overdrawn nor overfull. -/
structure Ready (l : RateLimiter K) (calls : List (Call K)) : Prop where
  nonneg : 0 ≤ l.tokens
  bounded : l.tokens ≤ l.capacity
  rate : 0 ≤ l.refillRate
  ordered : (l.lastRefill :: calls.map Call.time).Pairwise (· ≤ ·)
  amounts : ∀ call ∈ calls, 0 ≤ call.amount

/-- What the limiter could still grant, less what the clock was worth at the last refill. -/
def potential (l : RateLimiter K) : K := l.tokens - l.refillRate * l.lastRefill

/-- A call takes what it is granted from the refilled bucket, and changes nothing else. -/
theorem step_eq (l : RateLimiter K) (call : Call K) :
    l.step call =
      { l.refill call.time with tokens := (l.refill call.time).tokens - l.granted call } := by
  rw [step, granted, tryAcquire]
  dsimp only
  by_cases enough : (l.refill call.time).tokens ≥ call.amount
  · rw [if_pos enough, if_pos rfl]
  · rw [if_neg enough, if_neg Bool.false_ne_true, sub_zero]

/-- A second refill at the same time changes nothing. -/
theorem refill_refill (l : RateLimiter K) (now : K) : (l.refill now).refill now = l.refill now := by
  simp only [refill, sub_self, max_self, zero_mul, add_zero, min_assoc, min_self]

/-- Only the refilled bucket counts. -/
theorem tryAcquire_refill (l : RateLimiter K) (now tokens : K) :
    (l.refill now).tryAcquire now tokens = l.tryAcquire now tokens := by
  rw [tryAcquire, tryAcquire, refill_refill]

theorem granted_nonneg (l : RateLimiter K) {call : Call K} (nonneg : 0 ≤ call.amount) :
    0 ≤ l.granted call := by
  rw [granted]
  split_ifs
  · exact nonneg
  · exact le_rfl

/-- No call is granted more than the refilled bucket holds. -/
theorem granted_le {l : RateLimiter K} {call : Call K} (nonneg : 0 ≤ (l.refill call.time).tokens) :
    l.granted call ≤ (l.refill call.time).tokens := by
  rw [granted, tryAcquire]
  by_cases enough : (l.refill call.time).tokens ≥ call.amount
  · rw [if_pos enough, if_pos rfl]
    exact enough
  · rw [if_neg enough, if_neg Bool.false_ne_true]
    exact nonneg

/-- A limiter keeps its capacity and its rate. -/
theorem foldl_step_const (l : RateLimiter K) (calls : List (Call K)) :
    (calls.foldl step l).capacity = l.capacity ∧
      (calls.foldl step l).refillRate = l.refillRate := by
  induction calls generalizing l with
  | nil => exact ⟨rfl, rfl⟩
  | cons call calls ih =>
      have hstep : (l.step call).capacity = l.capacity ∧
          (l.step call).refillRate = l.refillRate := by
        rw [step_eq]
        exact ⟨rfl, rfl⟩
      rw [List.foldl_cons]
      exact ⟨(ih (l.step call)).1.trans hstep.1, (ih (l.step call)).2.trans hstep.2⟩

theorem Ready.new {capacity refillRate start : K} (hcapacity : 0 ≤ capacity)
    (hrate : 0 ≤ refillRate) {calls : List (Call K)}
    (ordered : (start :: calls.map Call.time).Pairwise (· ≤ ·))
    (amounts : ∀ call ∈ calls, 0 ≤ call.amount) :
    (RateLimiter.new capacity refillRate start).Ready calls :=
  ⟨hcapacity, le_rfl, hrate, ordered, amounts⟩

theorem Ready.sublist {l : RateLimiter K} {calls calls' : List (Call K)} (ready : l.Ready calls)
    (sublist : calls'.Sublist calls) : l.Ready calls' :=
  ⟨ready.nonneg, ready.bounded, ready.rate,
    ready.ordered.sublist ((sublist.map Call.time).cons_cons l.lastRefill),
    fun call hcall => ready.amounts call (sublist.subset hcall)⟩

variable [IsStrictOrderedRing K]

theorem Ready.refill_nonneg {l : RateLimiter K} {calls : List (Call K)} (ready : l.Ready calls)
    (now : K) : 0 ≤ (l.refill now).tokens :=
  le_min (add_nonneg ready.nonneg (mul_nonneg (le_max_right _ _) ready.rate))
    (ready.nonneg.trans ready.bounded)

/-- A refill adds at most the tokens of the time that has passed. -/
theorem potential_refill_le {l : RateLimiter K} {now : K} (later : l.lastRefill ≤ now) :
    (l.refill now).potential ≤ l.potential := by
  have htokens : (l.refill now).tokens ≤ l.tokens + (now - l.lastRefill) * l.refillRate := by
    have helapsed : max (now - l.lastRefill) 0 = now - l.lastRefill :=
      max_eq_left (sub_nonneg.mpr later)
    rw [refill, helapsed]
    exact min_le_left _ _
  change (l.refill now).tokens - l.refillRate * now ≤ l.tokens - l.refillRate * l.lastRefill
  linarith

/-- What one call does: it pays what it is granted out of the potential, and leaves the
limiter ready for the calls behind it. -/
theorem Ready.step {l : RateLimiter K} {call : Call K} {calls : List (Call K)}
    (ready : l.Ready (call :: calls)) :
    l.granted call + (l.step call).potential ≤ l.potential ∧ (l.step call).Ready calls := by
  have hrefilled := ready.refill_nonneg call.time
  have hordered := List.pairwise_cons.mp ready.ordered
  have hamounts := List.forall_mem_cons.mp ready.amounts
  have hgranted := l.granted_nonneg hamounts.1
  rw [step_eq]
  refine ⟨?_, ?_, ?_, ready.rate, hordered.2, hamounts.2⟩
  · have hpaid := potential_refill_le (hordered.1 call.time List.mem_cons_self)
    rw [potential] at hpaid ⊢
    dsimp only
    linarith
  · exact sub_nonneg.mpr (granted_le hrefilled)
  · exact (sub_le_self _ hgranted).trans (min_le_right _ _)

theorem Ready.foldl {l : RateLimiter K} {calls rest : List (Call K)}
    (ready : l.Ready (calls ++ rest)) : (calls.foldl RateLimiter.step l).Ready rest := by
  induction calls generalizing l with
  | nil => exact ready
  | cons call calls ih => exact ih ready.step.2

/-- A run pays all it is granted out of the potential. -/
theorem Ready.sum_grants_add_le {l : RateLimiter K} {calls : List (Call K)}
    (ready : l.Ready calls) :
    (l.grants calls).sum + (calls.foldl RateLimiter.step l).potential ≤ l.potential :=
  sum_gains_add_le Ready potential (fun _ _ _ h => h.step) ready

/-- From the first call of a run to the last, no more is granted than the capacity and the
tokens of the time between them. -/
theorem Ready.sum_grants_le {l : RateLimiter K} {first last : Call K} {rest front : List (Call K)}
    (ready : l.Ready (first :: rest)) (ends : first :: rest = front ++ [last]) :
    (l.grants (first :: rest)).sum ≤ l.capacity + l.refillRate * (last.time - first.time) := by
  -- The run may as well start from the bucket refilled at its first call.
  have hstart : l.grants (first :: rest) = (l.refill first.time).grants (first :: rest) := by
    rw [grants, grants, gains, gains, RateLimiter.step, RateLimiter.step, granted, granted,
      tryAcquire_refill]
  have hready : (l.refill first.time).Ready (first :: rest) := by
    refine ⟨ready.refill_nonneg _, min_le_right _ _, ready.rate, ?_, ready.amounts⟩
    refine List.pairwise_cons.mpr ⟨?_, (List.pairwise_cons.mp ready.ordered).2⟩
    rw [List.map_cons, List.forall_mem_cons]
    exact ⟨le_rfl, (List.pairwise_cons.mp (List.pairwise_cons.mp ready.ordered).2).1⟩
  have hpaid := hready.sum_grants_add_le
  have hend : ((first :: rest).foldl RateLimiter.step (l.refill first.time)).lastRefill =
      last.time := by
    rw [ends, List.foldl_append, List.foldl_cons, List.foldl_nil, step_eq]
    rfl
  have hleft : ((first :: rest).foldl RateLimiter.step (l.refill first.time)).Ready [] := by
    apply Ready.foldl
    rwa [List.append_nil]
  have hkept := hleft.nonneg
  have hrate := (foldl_step_const (l.refill first.time) (first :: rest)).2
  have hfull : (l.refill first.time).tokens ≤ l.capacity := min_le_right _ _
  rw [potential, potential, hend, hrate] at hpaid
  rw [hstart]
  change _ + (_ - l.refillRate * last.time) ≤ _ - l.refillRate * first.time at hpaid
  linarith

/-- However requests and refills interleave, the bucket is neither overdrawn nor overfull,
and what is granted from one call to another is bounded by the capacity and the tokens of
the time between them. -/
theorem tryAcquire_within_budget {capacity refillRate start : K} (hcapacity : 0 ≤ capacity)
    (hrate : 0 ≤ refillRate) {calls : List (Call K)}
    (ordered : (start :: calls.map Call.time).Pairwise (· ≤ ·))
    (amounts : ∀ call ∈ calls, 0 ≤ call.amount) :
    (∀ n, 0 ≤ ((calls.take n).foldl step (new capacity refillRate start)).tokens ∧
      ((calls.take n).foldl step (new capacity refillRate start)).tokens ≤ capacity) ∧
    ∀ i j (_ : i ≤ j) (_ : j < calls.length),
      ((((new capacity refillRate start).grants calls).take (j + 1)).drop i).sum ≤
        capacity + refillRate * (calls[j].time - calls[i].time) := by
  have hready := Ready.new hcapacity hrate ordered amounts
  have hconst := fun n => foldl_step_const (new capacity refillRate start) (calls.take n)
  have hreached : ∀ {calls' : List (Call K)}, calls'.Sublist calls → ∀ n,
      ((calls'.take n).foldl step (new capacity refillRate start)).Ready (calls'.drop n) :=
    fun sublist n => Ready.foldl (by rw [List.take_append_drop]; exact hready.sublist sublist)
  refine ⟨fun n => ?_, fun i j hij hj => ?_⟩
  · have ready := hreached (List.Sublist.refl calls) n
    exact ⟨ready.nonneg, ready.bounded.trans (hconst n).1.le⟩
  · have hstate : (calls.take (j + 1)).take i = calls.take i := by
      rw [List.take_take, Nat.min_eq_left (by omega)]
    have hfirst : (calls.take (j + 1)).drop i =
        calls[i] :: (calls.take (j + 1)).drop (i + 1) := by
      rw [List.drop_eq_getElem_cons (by rw [List.length_take]; omega), List.getElem_take]
    have hlast : (calls.take (j + 1)).drop i = (calls.take j).drop i ++ [calls[j]] := by
      rw [List.take_succ_eq_append_getElem hj,
        List.drop_append_of_le_length (by rw [List.length_take]; omega)]
    have ready := hreached (List.take_sublist (j + 1) calls) i
    rw [hstate, hfirst] at ready
    have hsum := ready.sum_grants_le (hfirst.symm.trans hlast)
    rwa [(hconst i).1, (hconst i).2, ← hfirst, grants, ← hstate, ← drop_gains,
      ← take_gains] at hsum

/-- The bucket of ten tokens that are refilled at five a second, emptied in three requests. -/
theorem tryAcquire_within_budget_emptied :
    let calls : List (Call ℚ) := [⟨0, 5⟩, ⟨0, 5⟩, ⟨0, 1⟩, ⟨2, 4⟩]
    (new 10 5 0).grants calls = [5, 5, 0, 4] ∧
    (∀ n, 0 ≤ ((calls.take n).foldl step (new 10 5 0)).tokens ∧
      ((calls.take n).foldl step (new 10 5 0)).tokens ≤ 10) ∧
    ∀ i j (_ : i ≤ j) (_ : j < calls.length),
      ((((new 10 5 0).grants calls).take (j + 1)).drop i).sum ≤
        10 + 5 * (calls[j].time - calls[i].time) :=
  ⟨by decide +kernel, tryAcquire_within_budget (by decide) (by decide) (by decide +kernel)
    (by decide +kernel)⟩

end RateLimiter

end ProtocolFuzzer.Utils
