/-
# Checked execution

Rust stops a thread when an index, a slice bound or a `Vec::insert` position is
out of range, when a remainder has a zero divisor, when an assertion fails, and (with
overflow checks) when integer arithmetic leaves its type. A `Checked` computation makes these
outcomes values: it returns, or it names the panic. Totality of a function is then
a theorem about it and not an accident of its Lean encoding.

`Returns m P` is the total-correctness reading of such a computation and `Yields m P` the
partial one. Loops and runs come with their rules: when they return, and which relation
between the steps taken and the state they preserve.
-/

import Mathlib.Algebra.Group.Nat.Defs
import Mathlib.Data.List.Basic
import Mathlib.Tactic.SplitIfs

namespace ProtocolFuzzer.Platform

universe u

/-- The ways in which the modelled code can stop abnormally. -/
inductive Panic
  | indexOutOfBounds
  | sliceOutOfRange
  | insertOutOfRange
  | remainderByZero
  | arithmeticOverflow
  | assertionFailed
  deriving DecidableEq, Repr

/-- A computation that returns a value or panics. -/
abbrev Checked (α : Type u) := Except Panic α

variable {α β : Type u}

/-- `xs[i]` as a value. -/
def index (xs : List α) (i : ℕ) : Checked α :=
  match xs[i]? with
  | some x => .ok x
  | none => .error .indexOutOfBounds

/-- `xs[i] = x` as an assignment. -/
def assign (xs : List α) (i : ℕ) (x : α) : Checked (List α) :=
  if i < xs.length then .ok (xs.set i x) else .error .indexOutOfBounds

/-- `xs.insert(i, x)`, whose position may be the length. -/
def insertAt (xs : List α) (i : ℕ) (x : α) : Checked (List α) :=
  if i ≤ xs.length then .ok (xs.insertIdx i x) else .error .insertOutOfRange

/-- `xs.remove(i)`. -/
def removeAt (xs : List α) (i : ℕ) : Checked (List α) :=
  if i < xs.length then .ok (xs.eraseIdx i) else .error .indexOutOfBounds

/-- `&xs[start..stop]`. -/
def slice (xs : List α) (start stop : ℕ) : Checked (List α) :=
  if start ≤ stop ∧ stop ≤ xs.length then .ok ((xs.take stop).drop start)
  else .error .sliceOutOfRange

/-- `a % b`. -/
def rem (a b : ℕ) : Checked ℕ := if b = 0 then .error .remainderByZero else .ok (a % b)

/-- `a - b` on `usize`. -/
def sub (a b : ℕ) : Checked ℕ := if b ≤ a then .ok (a - b) else .error .arithmeticOverflow

/-- The number of values of the 64-bit `usize`. -/
def usizeRange : ℕ := 2 ^ 64

/-- `a + b` on `usize`. -/
def add (a b : ℕ) : Checked ℕ :=
  if a + b < usizeRange then .ok (a + b) else .error .arithmeticOverflow

/-- `a * b` on `usize`. -/
def mul (a b : ℕ) : Checked ℕ :=
  if a * b < usizeRange then .ok (a * b) else .error .arithmeticOverflow

/-- `a + b` on `u32`. -/
def addU32 (a b : ℕ) : Checked ℕ :=
  if a + b < 2 ^ 32 then .ok (a + b) else .error .arithmeticOverflow

/-- `a * b` on `i32`, for factors that are not negative. -/
def mulI32 (a b : ℕ) : Checked ℕ :=
  if a * b < 2 ^ 31 then .ok (a * b) else .error .arithmeticOverflow

/-- What a guarded part of a function contributes; nothing is read where the guard fails. -/
def readWhen (guard : Prop) [Decidable guard] (read : Checked (List α)) : Checked (List α) :=
  if guard then read else .ok []

/-- The indices of `for i in first..=last`. -/
def inclusive (first last : ℕ) : List ℕ := List.range' first (last + 1 - first)

theorem index_of_lt {xs : List α} {i : ℕ} (h : i < xs.length) : index xs i = .ok xs[i] := by
  rw [index, List.getElem?_eq_getElem h]

theorem mem_of_index {xs : List α} {i : ℕ} {x : α} (h : index xs i = .ok x) : x ∈ xs := by
  rw [index] at h
  split at h
  · cases h
    exact List.mem_of_getElem? ‹_›
  · cases h

theorem assign_of_lt {xs : List α} {i : ℕ} (h : i < xs.length) (x : α) :
    assign xs i x = .ok (xs.set i x) := if_pos h

theorem insertAt_of_le {xs : List α} {i : ℕ} (h : i ≤ xs.length) (x : α) :
    insertAt xs i x = .ok (xs.insertIdx i x) := if_pos h

theorem removeAt_of_lt {xs : List α} {i : ℕ} (h : i < xs.length) :
    removeAt xs i = .ok (xs.eraseIdx i) := if_pos h

theorem slice_of_le {xs : List α} {start stop : ℕ} (hstart : start ≤ stop)
    (hstop : stop ≤ xs.length) : slice xs start stop = .ok ((xs.take stop).drop start) :=
  if_pos ⟨hstart, hstop⟩

theorem rem_of_pos {a b : ℕ} (h : 0 < b) : rem a b = .ok (a % b) :=
  if_neg (Nat.pos_iff_ne_zero.mp h)

theorem sub_of_le {a b : ℕ} (h : b ≤ a) : sub a b = .ok (a - b) := if_pos h

theorem sub_of_lt {a b : ℕ} (h : a < b) : sub a b = .error .arithmeticOverflow :=
  if_neg (Nat.not_le.mpr h)

theorem add_of_lt {a b : ℕ} (h : a + b < usizeRange) : add a b = .ok (a + b) := if_pos h

theorem mul_of_lt {a b : ℕ} (h : a * b < usizeRange) : mul a b = .ok (a * b) := if_pos h

theorem mulI32_of_lt {a b : ℕ} (h : a * b < 2 ^ 31) : mulI32 a b = .ok (a * b) := if_pos h

theorem mem_inclusive {first last i : ℕ} : i ∈ inclusive first last ↔ first ≤ i ∧ i ≤ last := by
  rw [inclusive, List.mem_range'_1]
  omega

/-- The computation does not panic, and its value satisfies the postcondition. -/
def Returns (m : Checked α) (post : α → Prop) : Prop := ∃ a, m = .ok a ∧ post a

theorem returns_ok {a : α} {post : α → Prop} (h : post a) : Returns (.ok a) post :=
  ⟨a, rfl, h⟩

@[simp]
theorem ok_bind (a : α) (f : α → Checked β) : ((.ok a : Checked α) >>= f) = f a := rfl

@[simp]
theorem error_bind (p : Panic) (f : α → Checked β) :
    ((.error p : Checked α) >>= f) = .error p := rfl

/-- Splitting a successful sequence into its two successful halves. -/
theorem bind_eq_ok {m : Checked α} {f : α → Checked β} {b : β} :
    (m >>= f) = .ok b ↔ ∃ a, m = .ok a ∧ f a = .ok b := by
  cases m with
  | ok a => simp
  | error p => simp

/-- The computation returns some value. -/
abbrev NoPanic (m : Checked α) : Prop := ∃ a, m = .ok a

theorem noPanic_ok (a : α) : NoPanic (.ok a) := ⟨a, rfl⟩

theorem NoPanic.bind {m : Checked α} {f : α → Checked β} (hm : NoPanic m)
    (hf : ∀ a, NoPanic (f a)) : NoPanic (m >>= f) := by
  obtain ⟨a, rfl⟩ := hm
  exact hf a

/-- A guarded part only has to return where its guard holds. -/
theorem NoPanic.readWhen {guard : Prop} [Decidable guard] {read : Checked (List α)}
    (h : guard → NoPanic read) : NoPanic (readWhen guard read) := by
  rw [Platform.readWhen]
  split_ifs with holds
  · exact h holds
  · exact noPanic_ok []

theorem noPanic_index {xs : List α} {i : ℕ} (h : i < xs.length) : NoPanic (index xs i) :=
  ⟨_, index_of_lt h⟩

/-- A loop returns exactly when every round does. -/
theorem noPanic_mapM_iff {f : α → Checked β} {xs : List α} :
    NoPanic (xs.mapM f) ↔ ∀ x ∈ xs, NoPanic (f x) := by
  induction xs with
  | nil => exact ⟨fun _ => by simp, fun _ => noPanic_ok []⟩
  | cons x xs ih =>
      rw [List.mapM_cons, List.forall_mem_cons, ← ih]
      constructor
      · rintro ⟨ys, hrun⟩
        obtain ⟨y, hfirst, hrest⟩ := bind_eq_ok.mp hrun
        obtain ⟨zs, htail, -⟩ := bind_eq_ok.mp hrest
        exact ⟨⟨y, hfirst⟩, ⟨zs, htail⟩⟩
      · rintro ⟨hfirst, hrest⟩
        exact hfirst.bind fun _ => hrest.bind fun _ => noPanic_ok _

/-- A loop that stops has stopped in a round. -/
theorem exists_of_mapM_eq_error {f : α → Checked β} {xs : List α} {panic : Panic}
    (h : xs.mapM f = .error panic) : ∃ x ∈ xs, f x = .error panic := by
  induction xs with
  | nil => cases h
  | cons x xs ih =>
      rw [List.mapM_cons] at h
      cases hfirst : f x with
      | error first =>
          rw [hfirst] at h
          cases h
          exact ⟨x, List.mem_cons_self, hfirst⟩
      | ok y =>
          rw [hfirst, ok_bind] at h
          cases hrest : xs.mapM f with
          | error rest =>
              rw [hrest] at h
              cases h
              obtain ⟨x', hmem, hx'⟩ := ih hrest
              exact ⟨x', List.mem_cons_of_mem x hmem, hx'⟩
          | ok ys =>
              rw [hrest] at h
              cases h

/-- A loop whose rounds return maps their values. -/
theorem mapM_eq_map {f : α → Checked β} {g : α → β} {xs : List α}
    (h : ∀ x ∈ xs, f x = .ok (g x)) : xs.mapM f = .ok (xs.map g) := by
  induction xs with
  | nil => rfl
  | cons x xs ih =>
      obtain ⟨hfirst, hrest⟩ := List.forall_mem_cons.mp h
      rw [List.mapM_cons, hfirst, ok_bind, ih hrest, ok_bind]
      rfl

/-- Every value of a loop is the value of a round. -/
theorem exists_of_mem_mapM {f : α → Checked β} {xs : List α} {ys : List β}
    (h : xs.mapM f = .ok ys) {y : β} (hy : y ∈ ys) : ∃ x ∈ xs, f x = .ok y := by
  induction xs generalizing ys with
  | nil =>
      cases h
      simp at hy
  | cons x xs ih =>
      rw [List.mapM_cons] at h
      obtain ⟨head, hfirst, hrest⟩ := bind_eq_ok.mp h
      obtain ⟨tail, htail, hys⟩ := bind_eq_ok.mp hrest
      cases hys
      rcases List.mem_cons.mp hy with rfl | hy
      · exact ⟨x, List.mem_cons_self, hfirst⟩
      · obtain ⟨x', hx', hvalue⟩ := ih htail hy
        exact ⟨x', List.mem_cons_of_mem _ hx', hvalue⟩

/-- A sequence succeeds exactly when its first half does, if the second always does. -/
theorem noPanic_bind_iff {m : Checked α} {f : α → Checked β} (h : ∀ a, NoPanic (f a)) :
    NoPanic (m >>= f) ↔ NoPanic m := by
  constructor
  · rintro ⟨b, hrun⟩
    obtain ⟨a, hfirst, -⟩ := bind_eq_ok.mp hrun
    exact ⟨a, hfirst⟩
  · exact fun hm => hm.bind h

/-! ## Partial correctness and runs -/

/-- Every value of the computation satisfies the postcondition; it may also panic. -/
def Yields (m : Checked α) (post : α → Prop) : Prop := ∀ a, m = .ok a → post a

theorem yields_ok {a : α} {post : α → Prop} (h : post a) : Yields (.ok a) post := by
  rintro _ ⟨⟩
  exact h

theorem yields_true (m : Checked α) : Yields m fun _ => True := fun _ _ => trivial

theorem Yields.mono {m : Checked α} {post post' : α → Prop} (h : Yields m post)
    (weaken : ∀ a, post a → post' a) : Yields m post' := fun a hrun => weaken a (h a hrun)

theorem Yields.bind {m : Checked α} {f : α → Checked β} {post : α → Prop} {post' : β → Prop}
    (hm : Yields m post) (hf : ∀ a, post a → Yields (f a) post') : Yields (m >>= f) post' := by
  intro b hrun
  obtain ⟨a, hfirst, hsecond⟩ := bind_eq_ok.mp hrun
  exact hf a (hm a hfirst) b hsecond

theorem Yields.readWhen {guard : Prop} [Decidable guard] {read : Checked (List α)}
    {post : List α → Prop} (hread : guard → Yields read post) (hskip : post []) :
    Yields (readWhen guard read) post := by
  rw [Platform.readWhen]
  split_ifs with h
  · exact hread h
  · exact yields_ok hskip

/-- If being allowed decides whether a step succeeds, in whatever state it is taken, then a
run succeeds exactly when all its steps are allowed. -/
theorem noPanic_foldlM_iff {step : β → α → Checked β} {allowed : α → Prop}
    (h : ∀ s x, NoPanic (step s x) ↔ allowed x) (xs : List α) (s : β) :
    NoPanic (xs.foldlM step s) ↔ ∀ x ∈ xs, allowed x := by
  induction xs generalizing s with
  | nil => exact ⟨fun _ => by simp, fun _ => ⟨s, rfl⟩⟩
  | cons x xs ih =>
      rw [List.foldlM_cons, List.forall_mem_cons, ← h s x]
      constructor
      · rintro ⟨s', hrun⟩
        obtain ⟨next, hstep, hrest⟩ := bind_eq_ok.mp hrun
        exact ⟨⟨next, hstep⟩, (ih next).mp ⟨s', hrest⟩⟩
      · rintro ⟨⟨next, hstep⟩, hrest⟩
        rw [hstep, ok_bind]
        exact (ih next).mpr hrest

/-- A state that no step leaves is the state after every run. -/
theorem foldlM_eq_self {step : β → α → Checked β} {xs : List α} {s : β}
    (h : ∀ x ∈ xs, step s x = .ok s) : xs.foldlM step s = .ok s := by
  induction xs with
  | nil => rfl
  | cons x xs ih =>
      rw [List.forall_mem_cons] at h
      rw [List.foldlM_cons, h.1, ok_bind]
      exact ih h.2

/-- A run fails exactly when it reaches a step that fails. -/
theorem not_noPanic_foldlM_iff {step : β → α → Checked β} {xs : List α} {s : β} :
    ¬ NoPanic (xs.foldlM step s) ↔ ∃ history x s', history ++ [x] <+: xs ∧
      history.foldlM step s = .ok s' ∧ ¬ NoPanic (step s' x) := by
  induction xs generalizing s with
  | nil =>
      refine iff_of_false (not_not.mpr ⟨s, rfl⟩) ?_
      rintro ⟨history, x, -, hprefix, -⟩
      exact absurd (List.prefix_nil.mp hprefix) (by simp)
  | cons x xs ih =>
      rw [List.foldlM_cons]
      cases hstep : step s x with
      | error panic =>
          refine iff_of_true (fun ⟨_, h⟩ => by cases h) ⟨[], x, s, ?_, rfl, ?_⟩
          · exact ⟨xs, rfl⟩
          · rw [hstep]
            exact fun ⟨_, h⟩ => by cases h
      | ok next =>
          rw [ok_bind, ih]
          constructor
          · rintro ⟨history, y, s', hprefix, hrun, hfails⟩
            refine ⟨x :: history, y, s', List.cons_prefix_cons.mpr ⟨rfl, hprefix⟩, ?_, hfails⟩
            rw [List.foldlM_cons, hstep]
            exact hrun
          · rintro ⟨history, y, s', hprefix, hrun, hfails⟩
            cases history with
            | nil =>
                cases hrun
                obtain ⟨rfl, -⟩ := List.cons_prefix_cons.mp hprefix
                exact absurd ⟨next, hstep⟩ hfails
            | cons x' history =>
                obtain ⟨rfl, hrest⟩ := List.cons_prefix_cons.mp hprefix
                rw [List.foldlM_cons, hstep, ok_bind] at hrun
                exact ⟨history, y, s', hrest, hrun, hfails⟩

/-- A relation between the steps taken so far and the state, which every step extends,
holds at the end of a run. -/
theorem foldlM_history {step : β → α → Checked β} (inv : List α → β → Prop)
    (hstep : ∀ history s x s', inv history s → step s x = .ok s' → inv (history ++ [x]) s')
    {xs : List α} {s s' : β} {history : List α} (hstart : inv history s)
    (hrun : xs.foldlM step s = .ok s') : inv (history ++ xs) s' := by
  induction xs generalizing s history with
  | nil =>
      cases hrun
      simpa using hstart
  | cons x xs ih =>
      rw [List.foldlM_cons] at hrun
      obtain ⟨next, hfirst, hrest⟩ := bind_eq_ok.mp hrun
      simpa using ih (hstep history s x next hstart hfirst) hrest

/-- The same for a run from its start. -/
theorem foldlM_run {step : β → α → Checked β} (inv : List α → β → Prop)
    (hstep : ∀ history s x s', inv history s → step s x = .ok s' → inv (history ++ [x]) s')
    {xs : List α} {s s' : β} (hstart : inv [] s) (hrun : xs.foldlM step s = .ok s') :
    inv xs s' := foldlM_history inv hstep hstart hrun

/-- A step that keeps a ghost value beside the state. The ghost reads the step and has no
influence on it. -/
def ghostStep {γ : Type u} (step : β → α → Checked β) (note : γ → β → α → β → γ)
    (state : β × γ) (x : α) : Checked (β × γ) := do
  let next ← step state.1 x
  pure (next, note state.2 state.1 x next)

theorem ghostStep_eq_ok {γ : Type u} {step : β → α → Checked β} {note : γ → β → α → β → γ}
    {state state' : β × γ} {x : α} : ghostStep step note state x = .ok state' ↔
      step state.1 x = .ok state'.1 ∧ state'.2 = note state.2 state.1 x state'.1 := by
  rw [ghostStep, bind_eq_ok]
  constructor
  · rintro ⟨next, hstep, hnote⟩
    cases hnote
    exact ⟨hstep, rfl⟩
  · rintro ⟨hstep, hnote⟩
    exact ⟨state'.1, hstep, congrArg Except.ok (Prod.ext rfl hnote.symm)⟩

/-- Every run is the run of some ghost. -/
theorem exists_foldlM_ghostStep {γ : Type u} {step : β → α → Checked β}
    (note : γ → β → α → β → γ) {xs : List α} {s s' : β} (hrun : xs.foldlM step s = .ok s')
    (g : γ) : ∃ g', xs.foldlM (ghostStep step note) (s, g) = .ok (s', g') := by
  induction xs generalizing s g with
  | nil =>
      cases hrun
      exact ⟨g, rfl⟩
  | cons x xs ih =>
      rw [List.foldlM_cons] at hrun
      obtain ⟨next, hstep, hrest⟩ := bind_eq_ok.mp hrun
      obtain ⟨g', hghost⟩ := ih hrest (note g s x next)
      refine ⟨g', ?_⟩
      rw [List.foldlM_cons, ghostStep, hstep]
      exact hghost

/-- A relation between the steps, the state and the ghost that every step extends. -/
theorem foldlM_ghostStep_run {γ : Type u} {step : β → α → Checked β} {note : γ → β → α → β → γ}
    (inv : List α → β → γ → Prop)
    (hstep : ∀ history s g x s', inv history s g → step s x = .ok s' →
      inv (history ++ [x]) s' (note g s x s'))
    {xs : List α} {s s' : β} {g g' : γ} (hstart : inv [] s g)
    (hrun : xs.foldlM (ghostStep step note) (s, g) = .ok (s', g')) : inv xs s' g' := by
  refine foldlM_run (fun history state => inv history state.1 state.2) ?_ hstart hrun
  rintro history ⟨before, g⟩ x ⟨after, g'⟩ hbefore hghost
  obtain ⟨hfirst, hnote⟩ := ghostStep_eq_ok.mp hghost
  dsimp only at hnote hfirst ⊢
  subst hnote
  exact hstep history before g x after hbefore hfirst

/-- A short-circuiting search whose every probe returns is the pure search. -/
theorem anyM_eq_any {α : Type} {probe : α → Checked Bool} {found : α → Bool} {xs : List α}
    (h : ∀ x ∈ xs, probe x = .ok (found x)) : xs.anyM probe = .ok (xs.any found) := by
  induction xs with
  | nil => rfl
  | cons x xs ih =>
      rw [List.anyM_cons, h x List.mem_cons_self, ok_bind, List.any_cons]
      cases found x with
      | true => rfl
      | false => exact ih fun y hy => h y (List.mem_cons_of_mem _ hy)

end ProtocolFuzzer.Platform
