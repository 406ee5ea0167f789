/-
# Base-128 length fields

Several wire formats store a number in groups of seven bits, lowest group
first, and flag every byte but the last with its top bit. This module develops
such fields on their own: which byte strings are a complete field, which number
a field denotes, the shortest field for a number, and the split of a byte string
into a leading field and the rest. The bound on the field length is a parameter,
since formats disagree about it.
-/

import ProtocolFuzzer.Math.Bytes

namespace ProtocolFuzzer.Math.Base128

/-- The top bit announces that another byte of the field follows. -/
def Continues (b : UInt8) : Prop := b &&& 0x80 ≠ 0

instance : DecidablePred Continues := fun b => inferInstanceAs (Decidable (b &&& 0x80 ≠ 0))

theorem not_continues_iff {b : UInt8} : ¬ Continues b ↔ b &&& 0x80 = 0 := not_not

/-- The seven bits a byte contributes to the number. -/
def payload (b : UInt8) : ℕ := (b &&& 0x7F).toNat

/-- The number denoted by a group string, lowest group first. -/
def value : List UInt8 → ℕ
  | [] => 0
  | b :: bs => payload b + 128 * value bs

/-- A complete field: every byte but the last announces a successor. -/
def Terminated : List UInt8 → Prop
  | [] => False
  | b :: bs => if Continues b then Terminated bs else bs = []

instance decidableTerminated : (field : List UInt8) → Decidable (Terminated field)
  | [] => inferInstanceAs (Decidable False)
  | b :: bs =>
    have := decidableTerminated bs
    inferInstanceAs (Decidable (if Continues b then Terminated bs else bs = []))

/-- Cut a leading field of at most `bound` bytes off a byte string. -/
def split : ℕ → List UInt8 → Option (List UInt8 × List UInt8)
  | 0, _ => none
  | _ + 1, [] => none
  | bound + 1, b :: bs =>
    if Continues b then (split bound bs).map fun parts => (b :: parts.1, parts.2)
    else some ([b], bs)

/-- The shortest field denoting a number. -/
def encode (n : ℕ) : List UInt8 :=
  if n / 128 = 0 then [UInt8.ofNat (n % 128)]
  else (UInt8.ofNat (n % 128) ||| 0x80) :: encode (n / 128)
termination_by n
decreasing_by omega

theorem payload_lt (b : UInt8) : payload b < 128 := by
  revert b
  exact forall_byte (by decide +kernel)

theorem payload_mul_le (b : UInt8) (weight : ℕ) : payload b * weight ≤ 127 * weight :=
  Nat.mul_le_mul_right weight (Nat.le_of_lt_succ (payload_lt b))

theorem continues_flagged (d : ℕ) (hd : d < 128) : Continues (UInt8.ofNat d ||| 0x80) := by
  have checked : ∀ n : Fin 128, Continues (UInt8.ofNat n ||| 0x80) := by decide +kernel
  exact checked ⟨d, hd⟩

theorem payload_flagged (d : ℕ) (hd : d < 128) : payload (UInt8.ofNat d ||| 0x80) = d := by
  have checked : ∀ n : Fin 128, payload (UInt8.ofNat n ||| 0x80) = n := by decide +kernel
  exact checked ⟨d, hd⟩

theorem not_continues_group (d : ℕ) (hd : d < 128) : ¬ Continues (UInt8.ofNat d) := by
  have checked : ∀ n : Fin 128, ¬ Continues (UInt8.ofNat n) := by decide +kernel
  exact checked ⟨d, hd⟩

theorem payload_group (d : ℕ) (hd : d < 128) : payload (UInt8.ofNat d) = d := by
  have checked : ∀ n : Fin 128, payload (UInt8.ofNat n) = n := by decide +kernel
  exact checked ⟨d, hd⟩

theorem Terminated.ne_nil {field : List UInt8} (h : Terminated field) : field ≠ [] := by
  rintro rfl
  exact h

/-- The recursive description of a field agrees with the usual one: an initial
part of flagged bytes, then one byte without the flag. -/
theorem terminated_iff {field : List UInt8} :
    Terminated field ↔
      ∃ init last, field = init ++ [last] ∧ (∀ b ∈ init, Continues b) ∧ ¬ Continues last := by
  induction field with
  | nil => simp [Terminated]
  | cons b bs ih =>
      by_cases more : Continues b
      · rw [Terminated, if_pos more, ih]
        constructor
        · rintro ⟨init, last, rfl, flagged, final⟩
          exact ⟨b :: init, last, rfl, by simpa [more] using flagged, final⟩
        · rintro ⟨init, last, shape, flagged, final⟩
          cases init with
          | nil =>
              obtain ⟨rfl, -⟩ : b = last ∧ bs = [] := by simpa using shape
              exact absurd more final
          | cons first init =>
              obtain ⟨rfl, rfl⟩ : b = first ∧ bs = init ++ [last] := by simpa using shape
              exact ⟨init, last, rfl, fun c hc => flagged c (List.mem_cons_of_mem _ hc), final⟩
      · rw [Terminated, if_neg more]
        constructor
        · rintro rfl
          exact ⟨[], b, rfl, by simp, more⟩
        · rintro ⟨init, last, shape, flagged, final⟩
          cases init with
          | nil => simpa using (List.cons.inj shape).2
          | cons first init =>
              obtain ⟨rfl, -⟩ : b = first ∧ bs = init ++ [last] := by simpa using shape
              exact absurd (flagged b List.mem_cons_self) more

/-- A field of `k` bytes denotes a number below `128 ^ k`. -/
theorem value_lt (field : List UInt8) : value field < 128 ^ field.length := by
  induction field with
  | nil => simp [value]
  | cons b bs ih =>
      have hb := payload_lt b
      rw [value, List.length_cons, pow_succ]
      omega

theorem split_cons_of_continues {b : UInt8} (more : Continues b) (bound : ℕ)
    (bs : List UInt8) :
    split (bound + 1) (b :: bs) =
      (split bound bs).map fun parts => (b :: parts.1, parts.2) := by
  rw [split, if_pos more]

theorem split_cons_of_not_continues {b : UInt8} (final : ¬ Continues b) (bound : ℕ)
    (bs : List UInt8) : split (bound + 1) (b :: bs) = some ([b], bs) := by
  rw [split, if_neg final]

/-- What a scanner that reads one byte at a time finds at a position: the end of the byte
string, the last byte of the field, or a byte that announces a successor. -/
theorem split_drop_cases (bytes : List UInt8) (bound pos : ℕ) :
    bytes.length ≤ pos ∧ split (bound + 1) (bytes.drop pos) = none ∨
      (∃ inside : pos < bytes.length, ¬ Continues bytes[pos] ∧
        split (bound + 1) (bytes.drop pos) = some ([bytes[pos]], bytes.drop (pos + 1))) ∨
      ∃ inside : pos < bytes.length, Continues bytes[pos] ∧
        split (bound + 1) (bytes.drop pos) = (split bound (bytes.drop (pos + 1))).map fun parts =>
          (bytes[pos] :: parts.1, parts.2) := by
  by_cases past : bytes.length ≤ pos
  · exact .inl ⟨past, by rw [List.drop_eq_nil_of_le past]; rfl⟩
  · have inside : pos < bytes.length := Nat.not_le.mp past
    rw [List.drop_eq_getElem_cons inside]
    by_cases more : Continues bytes[pos]
    · exact .inr (.inr ⟨inside, more, split_cons_of_continues more bound _⟩)
    · exact .inr (.inl ⟨inside, more, split_cons_of_not_continues more bound _⟩)

/-- `split` finds exactly the leading complete field within its bound. -/
theorem split_eq_some {bound : ℕ} {bytes field rest : List UInt8} :
    split bound bytes = some (field, rest) ↔
      bytes = field ++ rest ∧ Terminated field ∧ field.length ≤ bound := by
  induction bound generalizing bytes field with
  | zero =>
      constructor
      · intro h
        simp [split] at h
      · rintro ⟨-, complete, short⟩
        exact absurd (List.length_eq_zero_iff.mp (Nat.le_zero.mp short)) complete.ne_nil
  | succ bound ih =>
      cases bytes with
      | nil =>
          constructor
          · intro h
            simp [split] at h
          · rintro ⟨shape, complete, -⟩
            exact absurd (List.append_eq_nil_iff.mp shape.symm).1 complete.ne_nil
      | cons b bs =>
          by_cases more : Continues b
          · rw [split_cons_of_continues more, Option.map_eq_some_iff]
            constructor
            · rintro ⟨⟨tail, suffix⟩, found, shape⟩
              obtain ⟨rfl, rfl⟩ : b :: tail = field ∧ suffix = rest := by simpa using shape
              obtain ⟨rfl, complete, short⟩ := ih.mp found
              refine ⟨rfl, ?_, Nat.succ_le_succ short⟩
              rw [Terminated, if_pos more]
              exact complete
            · rintro ⟨shape, complete, short⟩
              cases field with
              | nil => exact absurd rfl complete.ne_nil
              | cons first tail =>
                  obtain ⟨rfl, rfl⟩ : b = first ∧ bs = tail ++ rest := by simpa using shape
                  rw [Terminated, if_pos more] at complete
                  exact ⟨(tail, rest),
                    ih.mpr ⟨rfl, complete, Nat.le_of_succ_le_succ short⟩, rfl⟩
          · rw [split_cons_of_not_continues more]
            constructor
            · intro h
              obtain ⟨rfl, rfl⟩ : [b] = field ∧ bs = rest := by simpa using h
              refine ⟨rfl, ?_, Nat.succ_le_succ (Nat.zero_le _)⟩
              rw [Terminated, if_neg more]
            · rintro ⟨shape, complete, -⟩
              cases field with
              | nil => exact absurd rfl complete.ne_nil
              | cons first tail =>
                  obtain ⟨rfl, rfl⟩ : b = first ∧ bs = tail ++ rest := by simpa using shape
                  rw [Terminated, if_neg more] at complete
                  rw [complete, List.nil_append]

/-- Complete fields are prefix-free. -/
theorem Terminated.append_inj {field field' rest rest' : List UInt8} (h : Terminated field)
    (h' : Terminated field') (heq : field ++ rest = field' ++ rest') :
    field = field' ∧ rest = rest' := by
  have hcut := split_eq_some.mpr ⟨heq, h', Nat.le_max_right field.length field'.length⟩
  have hcut' := split_eq_some.mpr
    ⟨(rfl : field ++ rest = field ++ rest), h, Nat.le_max_left field.length field'.length⟩
  simpa using hcut'.symm.trans hcut

/-- A byte string whose leading bytes all announce a successor has no field within
the bound. -/
theorem split_eq_none {bound : ℕ} {bytes : List UInt8}
    (h : ∀ b ∈ bytes.take bound, Continues b) : split bound bytes = none := by
  induction bound generalizing bytes with
  | zero => rfl
  | succ bound ih =>
      cases bytes with
      | nil => rfl
      | cons b bs =>
          rw [List.take_succ_cons, List.forall_mem_cons] at h
          rw [split_cons_of_continues h.1, ih h.2, Option.map_none]

/-- One group. -/
theorem encode_of_lt {n : ℕ} (h : n < 128) : encode n = [UInt8.ofNat n] := by
  rw [encode, if_pos (by omega), Nat.mod_eq_of_lt h]

/-- Two groups. -/
theorem encode_of_two {n : ℕ} (low : 128 ≤ n) (high : n < 128 ^ 2) :
    encode n = [UInt8.ofNat (n % 128) ||| 0x80, UInt8.ofNat (n / 128)] := by
  rw [encode, if_neg (by omega), encode_of_lt (by omega)]

theorem encode_terminated (n : ℕ) : Terminated (encode n) := by
  induction n using Nat.strongRecOn with
  | ind n ih =>
      have hd : n % 128 < 128 := Nat.mod_lt _ (by decide)
      rw [encode]
      split_ifs with h
      · rw [Terminated, if_neg (not_continues_group _ hd)]
      · rw [Terminated, if_pos (continues_flagged _ hd)]
        exact ih (n / 128) (by omega)

theorem value_encode (n : ℕ) : value (encode n) = n := by
  induction n using Nat.strongRecOn with
  | ind n ih =>
      have hd : n % 128 < 128 := Nat.mod_lt _ (by decide)
      rw [encode]
      split_ifs with h
      · rw [value, value, payload_group _ hd]
        omega
      · rw [value, payload_flagged _ hd, ih (n / 128) (by omega)]
        omega

/-- A number below `128 ^ k` needs at most `k` bytes. -/
theorem length_encode_le {n k : ℕ} (hk : 0 < k) (hn : n < 128 ^ k) : (encode n).length ≤ k := by
  induction k generalizing n with
  | zero => exact absurd hk (Nat.lt_irrefl 0)
  | succ k ih =>
      rw [encode]
      split_ifs with h
      · simp
      · cases k with
        | zero => simp at hn; omega
        | succ k =>
            have hq : n / 128 < 128 ^ (k + 1) := by
              rw [Nat.div_lt_iff_lt_mul (by decide), ← pow_succ]
              exact hn
            simpa using ih (Nat.succ_pos k) hq

/-- The bytes needed for a number are decided by the powers of 128. -/
theorem length_encode_le_iff {n k : ℕ} (hk : 0 < k) : (encode n).length ≤ k ↔ n < 128 ^ k := by
  constructor
  · intro short
    calc n = value (encode n) := (value_encode n).symm
      _ < 128 ^ (encode n).length := value_lt _
      _ ≤ 128 ^ k := Nat.pow_le_pow_right (by decide) short
  · exact length_encode_le hk

/-- No other field for a number has fewer bytes. -/
theorem length_encode_minimal {field : List UInt8} (hne : field ≠ []) :
    (encode (value field)).length ≤ field.length :=
  length_encode_le (List.length_pos_of_ne_nil hne) (value_lt field)

/-- A number that needs more bytes than the bound is cut off from no byte string that
starts with its field. -/
theorem split_encode_eq_none {n k : ℕ} (hn : 128 ^ k ≤ n) (rest : List UInt8) :
    split k (encode n ++ rest) = none := by
  obtain ⟨init, last, hfield, flagged, -⟩ := terminated_iff.mp (encode_terminated n)
  have hlong : k ≤ init.length := by
    by_contra short
    have hfits : (encode n).length ≤ init.length + 1 := by rw [hfield]; simp
    have hsmall := (length_encode_le_iff (Nat.succ_pos _)).mp hfits
    exact absurd hn (Nat.not_le.mpr (hsmall.trans_le (Nat.pow_le_pow_right (by decide) (by omega))))
  refine split_eq_none fun b hb => flagged b ?_
  rw [hfield, List.append_assoc, List.take_append_of_le_length hlong] at hb
  exact List.mem_of_mem_take hb

/-- A written field is cut off again unchanged, whatever follows it. -/
theorem split_encode {n k : ℕ} (hk : 0 < k) (hn : n < 128 ^ k) (rest : List UInt8) :
    split k (encode n ++ rest) = some (encode n, rest) :=
  split_eq_some.mpr ⟨rfl, encode_terminated n, length_encode_le hk hn⟩

end ProtocolFuzzer.Math.Base128
