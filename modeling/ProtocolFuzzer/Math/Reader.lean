/-
# Readers of byte formats

A reader consumes a prefix of a byte string and may fail. `Reads r bytes a` says
that the reader takes exactly `bytes` off any input that starts with them, with
value `a`; it composes along sequencing, so a reader is related to the writer of the
same layout field by field. `exactly` runs a reader that has to consume everything.
-/

import ProtocolFuzzer.Math.Bytes

namespace ProtocolFuzzer.Math

/-- A computation that consumes bytes and may fail. -/
abbrev Reader := StateT (List UInt8) Option

variable {α β : Type}

def readByte : Reader UInt8 := fun
  | [] => none
  | b :: bs => some (b, bs)

/-- The next `n` bytes. -/
def readBytes (n : ℕ) : Reader (List UInt8) := fun bytes =>
  if n ≤ bytes.length then some (bytes.take n, bytes.drop n) else none

/-- A big-endian 16-bit field. -/
def readU16 : Reader UInt16 := do
  let hi ← readByte
  let lo ← readByte
  pure (fromBE16 hi lo)

/-- A little-endian word of `width` bytes. -/
def readLE (width : ℕ) : Reader ℕ := do
  let bytes ← readBytes width
  pure (fromLE bytes)

/-- A fixed number of items, one after the other. -/
def readTimes (item : Reader α) : ℕ → Reader (List α)
  | 0 => pure []
  | times + 1 => do
    let first ← item
    let rest ← readTimes item times
    pure (first :: rest)

/-- A byte string with its length as a 16-bit field in front. -/
def readText : Reader (List UInt8) := do
  let length ← readU16
  readBytes length.toNat

/-- Everything that is left. -/
def readRest : Reader (List UInt8) := fun bytes => some (bytes, [])

/-- A field that is present exactly when a flag says so. -/
def readIf (present : Bool) (r : Reader α) : Reader (Option α) :=
  if present then some <$> r else pure none

/-- Items until the input is exhausted; the fuel bounds their number. -/
def readItems (item : Reader α) : ℕ → Reader (List α)
  | 0 => fun bytes => if bytes = [] then some ([], []) else none
  | fuel + 1 => fun bytes =>
    if bytes = [] then some ([], [])
    else (do
      let first ← item
      let rest ← readItems item fuel
      pure (first :: rest) : Reader (List α)).run bytes

/-- Run a reader that has to consume its whole input. -/
def exactly (r : Reader α) (bytes : List UInt8) : Option α :=
  match r.run bytes with
  | some (a, []) => some a
  | _ => none

/-- The reader takes exactly `bytes` off the input, as the value `a`. -/
def Reads (r : Reader α) (bytes : List UInt8) (a : α) : Prop :=
  ∀ rest, r.run (bytes ++ rest) = some (a, rest)

theorem reads_pure (a : α) : Reads (pure a) [] a := fun _ => rfl

theorem Reads.bind {r : Reader α} {f : α → Reader β} {first second : List UInt8} {a : α} {b : β}
    (hr : Reads r first a) (hf : Reads (f a) second b) : Reads (r >>= f) (first ++ second) b := by
  intro rest
  rw [StateT.run_bind, List.append_assoc, hr (second ++ rest)]
  exact hf rest

theorem reads_readByte (b : UInt8) : Reads readByte [b] b := fun _ => rfl

theorem reads_readBytes (bytes : List UInt8) : Reads (readBytes bytes.length) bytes bytes := by
  intro rest
  simp [readBytes, StateT.run]

theorem reads_readU16 (v : UInt16) : Reads readU16 (toBE16 v) v := by
  intro rest
  change some (fromBE16 (UInt8.ofNat (v.toNat / 256)) (UInt8.ofNat (v.toNat % 256)), rest) = _
  rw [fromBE16_toBE16]

theorem Reads.bind_pure {r : Reader α} {bytes : List UInt8} {a : α} {f : α → β} {b : β}
    (h : Reads r bytes a) (hb : f a = b) : Reads (r >>= fun a => pure (f a)) bytes b := by
  subst hb
  intro rest
  rw [StateT.run_bind, h rest]
  rfl

/-- A word that fits is read back. -/
theorem reads_readLE {width n : ℕ} (fits : n < 256 ^ width) :
    Reads (readLE width) (toLE width n) n := by
  have hbytes := reads_readBytes (toLE width n)
  rw [length_toLE] at hbytes
  exact hbytes.bind_pure (fromLE_toLE fits)

/-- As many items as were written are read back. -/
theorem reads_readTimes {item : Reader α} {write : α → List UInt8} {xs : List α}
    (hitem : ∀ x ∈ xs, Reads item (write x) x) :
    Reads (readTimes item xs.length) (xs.flatMap write) xs := by
  induction xs with
  | nil => exact reads_pure []
  | cons x xs ih =>
      rw [List.forall_mem_cons] at hitem
      rw [List.flatMap_cons]
      exact hitem.1.bind ((ih hitem.2).bind_pure rfl)

/-- A text of representable length is read back. -/
theorem reads_readText {text : List UInt8} (short : text.length < 65536) :
    Reads readText (toBE16 (UInt16.ofNat text.length) ++ text) text := by
  have hlength : (UInt16.ofNat text.length).toNat = text.length := by
    rw [UInt16.toNat_ofNat']
    exact Nat.mod_eq_of_lt short
  apply Reads.bind (reads_readU16 _)
  rw [hlength]
  exact reads_readBytes text

theorem reads_readIf_false (r : Reader α) : Reads (readIf false r) [] none := reads_pure none

theorem reads_readIf_true {r : Reader α} {bytes : List UInt8} {a : α} (h : Reads r bytes a) :
    Reads (readIf true r) bytes (some a) := by
  intro rest
  rw [readIf, if_pos rfl, StateT.run_map, h rest]
  rfl

/-- Reading a known prefix and nothing else succeeds. -/
theorem Reads.exactly_eq {r : Reader α} {bytes : List UInt8} {a : α} (h : Reads r bytes a) :
    exactly r bytes = some a := by
  have hrun := h []
  rw [List.append_nil] at hrun
  rw [exactly, hrun]

/-- A reader whose tail takes the whole rest of the input. -/
theorem exactly_bind_readRest {r : Reader α} {bytes : List UInt8} {a : α} (h : Reads r bytes a)
    (f : α → List UInt8 → β) (rest : List UInt8) :
    exactly (r >>= fun a => f a <$> readRest) (bytes ++ rest) = some (f a rest) := by
  rw [exactly, StateT.run_bind, h rest]
  rfl

/-- Nonempty byte forms are at least as long as there are items. -/
theorem length_le_length_flatMap {write : α → List UInt8} {xs : List α}
    (nonempty : ∀ x ∈ xs, write x ≠ []) : xs.length ≤ (xs.flatMap write).length := by
  induction xs with
  | nil => exact Nat.zero_le _
  | cons x xs ih =>
      have hhead := List.length_pos_of_ne_nil (nonempty x List.mem_cons_self)
      have htail := ih fun y hy => nonempty y (List.mem_cons_of_mem _ hy)
      rw [List.flatMap_cons, List.length_append, List.length_cons]
      omega

/-- Written items are read back in order. -/
theorem readItems_flatMap {item : Reader α} {write : α → List UInt8} {xs : List α} {fuel : ℕ}
    (nonempty : ∀ x ∈ xs, write x ≠ []) (hitem : ∀ x ∈ xs, Reads item (write x) x)
    (enough : xs.length ≤ fuel) :
    (readItems item fuel).run (xs.flatMap write) = some (xs, []) := by
  induction xs generalizing fuel with
  | nil => cases fuel <;> rfl
  | cons x xs ih =>
      cases fuel with
      | zero => exact absurd enough (Nat.not_succ_le_zero _)
      | succ fuel =>
          have hwrite : write x ++ xs.flatMap write ≠ [] := fun h =>
            nonempty x List.mem_cons_self (List.append_eq_nil_iff.mp h).1
          have htail := ih (fun y hy => nonempty y (List.mem_cons_of_mem _ hy))
            (fun y hy => hitem y (List.mem_cons_of_mem _ hy)) (Nat.le_of_succ_le_succ enough)
          rw [List.flatMap_cons]
          change (if write x ++ xs.flatMap write = [] then _ else _) = _
          rw [if_neg hwrite, StateT.run_bind, hitem x List.mem_cons_self]
          change ((readItems item fuel).run (xs.flatMap write)).bind _ = _
          rw [htail]
          rfl

end ProtocolFuzzer.Math
