/-
# Draws

The generators and mutations read their choices from an `arbitrary::Unstructured`
value, and in two places from the thread's random number generator. What they rely
on is only that each request yields a value of the requested type or an error, which
the caller replaces by a default. `DrawSource` is that interface; every sequence of
draws is a source, so a statement about all sources is a statement about all draws.

`Gen` computations draw and return; `Fallible` computations may also panic.
`Always` is the demonic reading of a generator: the postcondition holds whatever is
drawn; `Completes` adds that there is no panic, and `YieldsFrom` allows one.
`Unstructured` is the concrete source of the `arbitrary` crate, which reads its values
from a byte buffer and pads an exhausted buffer with zeros.
-/

import ProtocolFuzzer.Math.Bytes
import ProtocolFuzzer.Platform.Checked

namespace ProtocolFuzzer.Platform

open ProtocolFuzzer.Math

/-- A source of typed draws; `none` is an exhausted source. -/
class DrawSource (σ : Type) where
  bool : σ → Option Bool × σ
  u8 : σ → Option UInt8 × σ
  u16 : σ → Option UInt16 × σ
  i16 : σ → Option Int16 × σ
  usize : σ → Option UInt64 × σ
  /-- `thread_rng().gen::<u8>()` never fails. -/
  threadRngU8 : σ → UInt8 × σ
  /-- `thread_rng().gen::<u32>()` never fails. -/
  threadRngU32 : σ → UInt32 × σ

/-- A computation that draws. -/
abbrev Gen (σ : Type) := StateM σ

/-- A computation that draws and may panic. -/
abbrev Fallible (σ : Type) := StateT σ Checked

variable {σ : Type} {α β : Type}

/-- Drawing inside a computation that may panic. -/
def draw (g : Gen σ α) : Fallible σ α := fun s => .ok (g.run s)

@[simp]
theorem run_draw (g : Gen σ α) (s : σ) : (draw g).run s = .ok (g.run s) := rfl

/-- Drawing twice. -/
theorem draw_bind (g : Gen σ α) (f : α → Gen σ β) :
    draw (g >>= f) = draw g >>= fun a => draw (f a) := rfl

section Requests

variable [DrawSource σ]

/-- `data.arbitrary::<bool>().unwrap_or(default)` -/
def boolOr (default : Bool) : Gen σ Bool := fun s =>
  ((DrawSource.bool s).1.getD default, (DrawSource.bool s).2)

/-- `data.arbitrary::<u8>().unwrap_or(default)` -/
def u8Or (default : UInt8) : Gen σ UInt8 := fun s =>
  ((DrawSource.u8 s).1.getD default, (DrawSource.u8 s).2)

/-- `data.arbitrary::<u16>().unwrap_or(default)` -/
def u16Or (default : UInt16) : Gen σ UInt16 := fun s =>
  ((DrawSource.u16 s).1.getD default, (DrawSource.u16 s).2)

/-- `data.arbitrary::<i16>().unwrap_or(default)` -/
def i16Or (default : Int16) : Gen σ Int16 := fun s =>
  ((DrawSource.i16 s).1.getD default, (DrawSource.i16 s).2)

/-- `data.arbitrary::<usize>().unwrap_or(default)` -/
def usizeOr (default : UInt64) : Gen σ ℕ := fun s =>
  (((DrawSource.usize s).1.getD default).toNat, (DrawSource.usize s).2)

/-- `data.arbitrary().unwrap_or_else(|_| thread_rng().gen())` at `u8`. -/
def u8OrRandom : Gen σ UInt8 := fun s =>
  match DrawSource.u8 s with
  | (some b, s) => (b, s)
  | (none, s) => DrawSource.threadRngU8 s

/-- `thread_rng().gen::<u32>()` -/
def randomU32 : Gen σ UInt32 := fun s => DrawSource.threadRngU32 s

/-- `data.arbitrary::<u16>().unwrap_or(thread_rng().gen())`: the default is drawn in any
case, as the low half of 32 random bits. -/
def u16OrRandom : Gen σ UInt16 := do
  let drawn ← fun s => DrawSource.u16 s
  let default ← randomU32
  pure (drawn.getD default.toUInt16)

end Requests

/-- `(0..n).map(|_| ..).collect()` -/
def replicateDraw : ℕ → Gen σ α → Gen σ (List α)
  | 0, _ => pure []
  | n + 1, g => do
    let first ← g
    let rest ← replicateDraw n g
    pure (first :: rest)

theorem replicateDraw_map (f : α → β) (g : Gen σ α) (n : ℕ) :
    replicateDraw n (f <$> g) = List.map f <$> replicateDraw n g := by
  induction n with
  | zero => rfl
  | succ n ih =>
      rw [replicateDraw, replicateDraw, ih]
      simp only [map_eq_pure_bind, bind_assoc, pure_bind, List.map_cons]

/-- Draw once for every element of a list, in order. -/
def drawAlong (f : β → Gen σ α) : List β → Gen σ (List α)
  | [] => pure []
  | b :: bs => do
    let first ← f b
    let rest ← drawAlong f bs
    pure (first :: rest)

/-- `xs[d % xs.len()]`, which is in range on every nonempty list. -/
def pick (xs : List α) (nonempty : 0 < xs.length) (d : ℕ) : α :=
  xs.get ⟨d % xs.length, Nat.mod_lt d nonempty⟩

theorem pick_mem (xs : List α) (nonempty : 0 < xs.length) (d : ℕ) :
    pick xs nonempty d ∈ xs := List.get_mem _ _

/-- Taking an entry of a corpus or a random value is making the same choice in some form
and rendering it. -/
theorem corpusOr_eq_map [DrawSource σ] {corpus : List α} {nonempty : 0 < corpus.length}
    {render : β → α} {entry : ℕ → β} {random : Gen σ α} {randomDraw : Gen σ β}
    (hentry : ∀ idx, render (entry idx) = pick corpus nonempty idx)
    (hrandom : random = render <$> randomDraw) :
    (do
      if (← boolOr false) && !corpus.isEmpty then
        let idx ← usizeOr 0
        pure (pick corpus nonempty idx)
      else
        random : Gen σ α) = render <$> (do
      if (← boolOr false) && !corpus.isEmpty then
        let idx ← usizeOr 0
        pure (entry idx)
      else
        randomDraw : Gen σ β) := by
  rw [map_bind]
  apply bind_congr
  intro useCorpus
  rw [hrandom]
  split_ifs
  · simp only [map_eq_pure_bind, bind_assoc, pure_bind, hentry]
  · rfl

/-- The value of a generator satisfies the postcondition for all draws. -/
def Always (g : Gen σ α) (post : α → Prop) : Prop := ∀ s, post (g.run s).1

theorem always_pure {a : α} {post : α → Prop} (h : post a) :
    Always (pure a : Gen σ α) post := fun _ => h

theorem Always.mono {g : Gen σ α} {post post' : α → Prop} (h : Always g post)
    (weaken : ∀ a, post a → post' a) : Always g post' := fun s => weaken _ (h s)

theorem Always.bind {g : Gen σ α} {f : α → Gen σ β} {post : α → Prop} {post' : β → Prop}
    (hg : Always g post) (hf : ∀ a, post a → Always (f a) post') : Always (g >>= f) post' :=
  fun s => hf _ (hg s) (g.run s).2

theorem always_true (g : Gen σ α) : Always g fun _ => True := fun _ => trivial

theorem Always.map {g : Gen σ α} {f : α → β} {post : β → Prop}
    (h : Always g fun a => post (f a)) : Always (f <$> g) post := fun s => h s

/-- Two functions that agree on every value drawn. -/
theorem Always.map_congr {g : Gen σ α} {f f' : α → β} (h : Always g fun a => f a = f' a) :
    f <$> g = f' <$> g := funext fun s => congrArg (·, (g.run s).2) (h s)

/-- Repeated draws give a list of the requested length, and every element is one
of the values the draw can give. -/
theorem Always.replicate {g : Gen σ α} {post : α → Prop} (h : Always g post) (n : ℕ) :
    Always (replicateDraw n g) fun xs => xs.length = n ∧ ∀ x ∈ xs, post x := by
  induction n with
  | zero => exact always_pure ⟨rfl, by simp⟩
  | succ n ih =>
      refine Always.bind h fun x hx => Always.bind ih fun xs hxs => always_pure ?_
      exact ⟨by simp [hxs.1], by simpa using ⟨hx, hxs.2⟩⟩

theorem Always.along {f : β → Gen σ α} {post : β → α → Prop}
    (h : ∀ b, Always (f b) (post b)) (bs : List β) :
    Always (drawAlong f bs) fun xs => List.Forall₂ post bs xs := by
  induction bs with
  | nil => exact always_pure List.Forall₂.nil
  | cons b bs ih =>
      exact Always.bind (h b) fun x hx => Always.bind ih fun xs hxs =>
        always_pure (List.Forall₂.cons hx hxs)

/-- From this source the computation does not panic, and its value satisfies the
postcondition. -/
def CompletesFrom (s : σ) (m : Fallible σ α) (post : α → Prop) : Prop :=
  ∃ a s', m.run s = .ok (a, s') ∧ post a

/-- The computation does not panic, whatever is drawn. -/
def Completes (m : Fallible σ α) (post : α → Prop) : Prop := ∀ s, CompletesFrom s m post

/-- From this source every value of the computation satisfies the postcondition; it may also
panic. -/
def YieldsFrom (s : σ) (m : Fallible σ α) (post : α → Prop) : Prop :=
  ∀ a s', m.run s = .ok (a, s') → post a

theorem yieldsFrom_pure {a : α} {post : α → Prop} (h : post a) (s : σ) :
    YieldsFrom s (pure a) post := by
  rintro _ _ ⟨⟩
  exact h

theorem YieldsFrom.mono {s : σ} {m : Fallible σ α} {post post' : α → Prop}
    (h : YieldsFrom s m post) (weaken : ∀ a, post a → post' a) : YieldsFrom s m post' :=
  fun a s' hrun => weaken a (h a s' hrun)

theorem YieldsFrom.bind {s : σ} {m : Fallible σ α} {f : α → Fallible σ β} {post : α → Prop}
    {post' : β → Prop} (hm : YieldsFrom s m post)
    (hf : ∀ a, post a → ∀ s', YieldsFrom s' (f a) post') : YieldsFrom s (m >>= f) post' := by
  intro b s'' hrun
  rw [StateT.run_bind] at hrun
  obtain ⟨⟨a, s'⟩, hfirst, hsecond⟩ := bind_eq_ok.mp hrun
  exact hf a (hm a s' hfirst) s' b s'' hsecond

/-- Nothing has to be known of the first half. -/
theorem yieldsFrom_bind {s : σ} {m : Fallible σ α} {f : α → Fallible σ β} {post : β → Prop}
    (hf : ∀ a s', YieldsFrom s' (f a) post) : YieldsFrom s (m >>= f) post :=
  YieldsFrom.bind (fun _ _ _ => trivial : YieldsFrom s m fun _ => True) fun a _ => hf a

/-- Where the computation does not panic, what holds of its values is what holds of its
value. -/
theorem CompletesFrom.yieldsFrom_iff {s : σ} {m : Fallible σ α} {post post' : α → Prop}
    {condition : Prop} (h : CompletesFrom s m post)
    (hiff : ∀ a, post a → (post' a ↔ condition)) : YieldsFrom s m post' ↔ condition := by
  obtain ⟨a, s', hrun, ha⟩ := h
  rw [← hiff a ha]
  constructor
  · exact fun hyields => hyields a s' hrun
  · intro hpost b s'' hrun'
    rw [hrun] at hrun'
    cases hrun'
    exact hpost

theorem CompletesFrom.yieldsFrom {s : σ} {m : Fallible σ α} {post post' : α → Prop}
    (h : CompletesFrom s m post) (weaken : ∀ a, post a → post' a) : YieldsFrom s m post' :=
  (h.yieldsFrom_iff fun a ha => iff_of_true (weaken a ha) trivial).mpr trivial

theorem CompletesFrom.mono {s : σ} {m : Fallible σ α} {post post' : α → Prop}
    (h : CompletesFrom s m post) (weaken : ∀ a, post a → post' a) : CompletesFrom s m post' := by
  obtain ⟨a, s', hrun, ha⟩ := h
  exact ⟨a, s', hrun, weaken a ha⟩

theorem CompletesFrom.bind {s : σ} {m : Fallible σ α} {f : α → Fallible σ β} {post : α → Prop}
    {post' : β → Prop} (hm : CompletesFrom s m post)
    (hf : ∀ a, post a → Completes (f a) post') : CompletesFrom s (m >>= f) post' := by
  obtain ⟨a, s', hrun, ha⟩ := hm
  obtain ⟨b, s'', hrun', hb⟩ := hf a ha s'
  refine ⟨b, s'', ?_, hb⟩
  rw [StateT.run_bind, hrun, ok_bind, hrun']

/-- A computation has one value from one source. -/
theorem CompletesFrom.unique {s : σ} {m : Fallible σ α} {a b : α}
    (ha : CompletesFrom s m (· = a)) (hb : CompletesFrom s m (· = b)) : a = b := by
  obtain ⟨_, _, hrun, rfl⟩ := ha
  obtain ⟨_, _, hrun', rfl⟩ := hb
  rw [hrun] at hrun'
  cases hrun'
  rfl

/-- What holds of a computation from one source is what holds of its value. -/
theorem CompletesFrom.iff_of_eq {s : σ} {m : Fallible σ α} {a : α} {post : α → Prop}
    (h : CompletesFrom s m (· = a)) : CompletesFrom s m post ↔ post a := by
  constructor
  · intro hpost
    obtain ⟨b, s', hrun, hb⟩ := hpost
    obtain rfl : b = a := CompletesFrom.unique ⟨b, s', hrun, rfl⟩ h
    exact hb
  · exact fun ha => h.mono fun b hb => hb ▸ ha

theorem completes_pure {a : α} {post : α → Prop} (h : post a) :
    Completes (pure a : Fallible σ α) post := fun s => ⟨a, s, rfl, h⟩

theorem Completes.mono {m : Fallible σ α} {post post' : α → Prop} (h : Completes m post)
    (weaken : ∀ a, post a → post' a) : Completes m post' := fun s => (h s).mono weaken

theorem Completes.bind {m : Fallible σ α} {f : α → Fallible σ β} {post : α → Prop}
    {post' : β → Prop} (hm : Completes m post) (hf : ∀ a, post a → Completes (f a) post') :
    Completes (m >>= f) post' := fun s => (hm s).bind hf

/-- A checked operation inside a drawing computation. -/
theorem completes_lift {c : Checked α} {post : α → Prop} (h : Returns c post) :
    Completes (liftM c : Fallible σ α) post := by
  obtain ⟨a, rfl, ha⟩ := h
  exact fun s => ⟨a, s, rfl, ha⟩

/-- A checked operation draws nothing. -/
theorem CompletesFrom.lift_bind {s : σ} {c : Checked α} {a : α} {f : α → Fallible σ β}
    {post : β → Prop} (hc : c = .ok a) (hf : CompletesFrom s (f a) post) :
    CompletesFrom s (liftM c >>= f) post := by
  subst hc
  exact hf

/-- A draw moves on to the rest of the source. -/
theorem CompletesFrom.draw_bind {s : σ} {g : Gen σ α} {f : α → Fallible σ β} {post : β → Prop}
    (hf : CompletesFrom (g.run s).2 (f (g.run s).1) post) :
    CompletesFrom s (draw g >>= f) post := by
  obtain ⟨b, s', hrun, hb⟩ := hf
  exact ⟨b, s', hrun, hb⟩

theorem noPanic_lift_iff (c : Checked α) (s : σ) :
    NoPanic ((liftM c : Fallible σ α).run s) ↔ NoPanic c := by
  cases c with
  | ok a => exact iff_of_true ⟨(a, s), rfl⟩ (noPanic_ok a)
  | error panic => exact iff_of_false (fun ⟨_, h⟩ => by cases h) (fun ⟨_, h⟩ => by cases h)

/-- Where a checked operation returns inside a drawing computation, it returns. -/
theorem eq_ok_of_run_lift {c : Checked α} {s s' : σ} {a : α}
    (h : (liftM c : Fallible σ α).run s = .ok (a, s')) : c = .ok a := by
  cases c with
  | ok value =>
      cases h
      rfl
  | error panic => cases h

theorem eq_error_of_run_lift {c : Checked α} {s : σ} {panic : Panic}
    (h : (liftM c : Fallible σ α).run s = .error panic) : c = .error panic := by
  cases c with
  | ok value => cases h
  | error first =>
      cases h
      rfl

theorem CompletesFrom.noPanic {s : σ} {m : Fallible σ α} {post : α → Prop}
    (h : CompletesFrom s m post) : NoPanic (m.run s) := by
  obtain ⟨a, s', hrun, -⟩ := h
  exact ⟨(a, s'), hrun⟩

theorem completes_index {xs : List α} {i : ℕ} (h : i < xs.length) :
    Completes (liftM (index xs i) : Fallible σ α) fun x => x = xs[i] :=
  completes_lift (by rw [index_of_lt h]; exact returns_ok rfl)

theorem completes_assign {xs : List α} {i : ℕ} (h : i < xs.length) (x : α) :
    Completes (liftM (assign xs i x) : Fallible σ (List α)) fun ys => ys = xs.set i x :=
  completes_lift (by rw [assign_of_lt h]; exact returns_ok rfl)

theorem completes_insertAt {xs : List α} {i : ℕ} (h : i ≤ xs.length) (x : α) :
    Completes (liftM (insertAt xs i x) : Fallible σ (List α)) fun ys => ys = xs.insertIdx i x :=
  completes_lift (by rw [insertAt_of_le h]; exact returns_ok rfl)

theorem completes_removeAt {xs : List α} {i : ℕ} (h : i < xs.length) :
    Completes (liftM (removeAt xs i) : Fallible σ (List α)) fun ys => ys = xs.eraseIdx i :=
  completes_lift (by rw [removeAt_of_lt h]; exact returns_ok rfl)

theorem completes_slice {xs : List α} {start stop : ℕ} (hstart : start ≤ stop)
    (hstop : stop ≤ xs.length) :
    Completes (liftM (slice xs start stop) : Fallible σ (List α)) fun ys =>
      ys = (xs.take stop).drop start :=
  completes_lift (by rw [slice_of_le hstart hstop]; exact returns_ok rfl)

theorem completes_rem (a : ℕ) {b : ℕ} (h : 0 < b) :
    Completes (liftM (rem a b) : Fallible σ ℕ) fun r => r < b :=
  completes_lift (by rw [rem_of_pos h]; exact returns_ok (Nat.mod_lt a h))

theorem completes_sub {a b : ℕ} (h : b ≤ a) :
    Completes (liftM (sub a b) : Fallible σ ℕ) fun d => d = a - b :=
  completes_lift (by rw [sub_of_le h]; exact returns_ok rfl)

theorem completesFrom_draw (s : σ) (g : Gen σ α) :
    CompletesFrom s (draw g) fun a => a = (g.run s).1 := ⟨(g.run s).1, (g.run s).2, rfl, rfl⟩

theorem completesFrom_draw_map (s : σ) (f : α → β) (g : Gen σ α) :
    CompletesFrom s (draw (f <$> g)) fun b => b = f (g.run s).1 := completesFrom_draw s _

theorem Always.completes {g : Gen σ α} {post : α → Prop} (h : Always g post) :
    Completes (draw g) post := fun s => ⟨(g.run s).1, (g.run s).2, rfl, h s⟩

theorem completes_draw (g : Gen σ α) : Completes (draw g) fun _ => True :=
  (always_true g).completes

/-! ## The source of the `arbitrary` crate -/

/-- A seed buffer being consumed, and the remaining output of the thread's random
number generator, which is asked only where the source itself does not answer. -/
structure Unstructured where
  data : List UInt8
  random : ℕ → UInt32 := fun _ => 0

namespace Unstructured

/-- `fill_buffer`: the next `n` bytes, padded with zeros once the buffer is
exhausted. -/
def fillBuffer (u : Unstructured) (n : ℕ) : List UInt8 × Unstructured :=
  (u.data.take n ++ List.replicate (n - u.data.length) 0, { u with data := u.data.drop n })

/-- The next `n` bytes as a little-endian number. -/
def integer (u : Unstructured) (n : ℕ) : ℕ × Unstructured :=
  (fromLE (u.fillBuffer n).1, (u.fillBuffer n).2)

/-- The next output of the thread's random number generator. -/
def nextRandom (u : Unstructured) : UInt32 × Unstructured :=
  (u.random 0, { u with random := fun n => u.random (n + 1) })

instance : DrawSource Unstructured where
  bool u := (some ((u.integer 1).1 % 2 = 1), (u.integer 1).2)
  u8 u := (some (UInt8.ofNat (u.integer 1).1), (u.integer 1).2)
  u16 u := (some (UInt16.ofNat (u.integer 2).1), (u.integer 2).2)
  i16 u := (some (UInt16.ofNat (u.integer 2).1).toInt16, (u.integer 2).2)
  usize u := (some (UInt64.ofNat (u.integer 8).1), (u.integer 8).2)
  threadRngU8 u := (UInt8.ofNat u.nextRandom.1.toNat, u.nextRandom.2)
  threadRngU32 u := u.nextRandom

/-- Nothing is padded while the buffer lasts. -/
theorem fillBuffer_of_le {u : Unstructured} {n : ℕ} (h : n ≤ u.data.length) :
    (u.fillBuffer n).1 = u.data.take n := by
  rw [fillBuffer, Nat.sub_eq_zero_of_le h, List.replicate_zero, List.append_nil]

/-- A byte is taken from the front of the buffer. -/
theorem u8Or_run (default byte : UInt8) (data : List UInt8) (random : ℕ → UInt32) :
    (u8Or default).run ({ data := byte :: data, random } : Unstructured) =
      (byte, { data, random }) := by
  have hfill : (fillBuffer { data := byte :: data, random } 1).1 = [byte] :=
    fillBuffer_of_le (Nat.le_add_left 1 data.length)
  change (UInt8.ofNat (fromLE (fillBuffer { data := byte :: data, random } 1).1), _) = _
  rw [hfill]
  exact congrArg (·, ({ data, random } : Unstructured)) UInt8.ofNat_toNat

/-- A word is made of the next eight bytes. -/
theorem usizeOr_run (default : UInt64) {u : Unstructured} (h : 8 ≤ u.data.length) :
    ((usizeOr default).run u).1 = fromLE (u.data.take 8) := by
  have hbound := fromLE_lt (u.data.take 8)
  rw [List.length_take_of_le h] at hbound
  change (UInt64.ofNat (fromLE (u.fillBuffer 8).1)).toNat = _
  rw [fillBuffer_of_le h]
  exact UInt64.toNat_ofNat_of_lt' hbound

end Unstructured

end ProtocolFuzzer.Platform
